/-!
# Scripts

A script is made of commands, and commands are made of words. A word is a list of parts: plain text,
the value of a parameter, the output of another script, or the value of an expression. Text that is
quoted means itself; values that are quoted are neither split into words nor taken for patterns.
-/

namespace TreeQuery.Shell

inductive Substitute where
  | otherwise
  | assign
  | fail
  | instead
deriving DecidableEq, Repr

inductive Attachment where
  | read
  | write
  | append
  | overwrite
  | readWrite
  | duplicate
  | here
deriving DecidableEq, Repr

mutual
inductive Part where
  | text (quoted : Bool) (cs : List Char)
  | parameter (quoted : Bool) (name : List Char) (use : Use)
  | output (quoted : Bool) (script : Script)
  | arithmetic (quoted : Bool) (parts : List Part)
inductive Use where
  | plain
  | length
  | substitute (kind : Substitute) (orEmpty : Bool) (word : List Part)
  | cut (atEnd longest : Bool) (pattern : List Part)
  /-- What cannot be read, which is only noticed when it is needed. -/
  | malformed
inductive Redirection where
  | mk (descriptor : Nat) (attachment : Attachment) (target : List Part)
inductive Script where
  | nothing
  | simple (assignments : List (List Char × List Part)) (words : List (List Part))
      (redirections : List Redirection)
  | pipeline (commands : List Script)
  | negated (s : Script)
  | both (a b : Script)
  | either (a b : Script)
  | sequence (a b : Script)
  | background (s : Script)
  | subshell (s : Script)
  | redirected (s : Script) (redirections : List Redirection)
  | branch (condition yes no : Script)
  | loop (outcome : Bool) (condition body : Script)
  /-- A body for every word, or for every argument if there are no words. -/
  | each (name : List Char) (words : Option (List (List Part))) (body : Script)
  | select (word : List Part) (arms : List (List (List Part) × Script))
  | define (name : List Char) (body : Script)
end

end TreeQuery.Shell
