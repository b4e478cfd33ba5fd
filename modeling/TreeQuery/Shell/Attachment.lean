import TreeQuery.Shell.Expansion

/-!
# Descriptors and what they are attached to

A redirection attaches a descriptor to a file, to another descriptor or to a text. What a command
reads from a file is what the file holds when it is attached. A command that cannot have its
descriptors attached is not run.
-/

namespace TreeQuery.Shell

def device? (path : List Char) : Option Nat :=
  match String.ofList path with
  | "/dev/stdin" | "/dev/fd/0" => some 0
  | "/dev/stdout" | "/dev/fd/1" => some 1
  | "/dev/stderr" | "/dev/fd/2" => some 2
  | _ => none

/-- Attaches a file for writing. It is emptied if `fresh`, and must not be there if `new`. -/
def State.attachFile (s : State) (descriptor : Nat) (path : List Char) (fresh new : Bool) :
    Except File.IoError State := do
  let names ← s.files.locate (toPath path)
  match s.files.root.find names with
  | .ok .sink => return s.attach descriptor .nothing
  | .ok (.directory _) => throw .isDirectory
  | .ok _ =>
    if new then throw .exists
    if !fresh then return s.attach descriptor (.file names)
    let root ← s.files.root.write (.text []) names
    return { s with files := { s.files with root := root } }.attach descriptor (.file names)
  | .error .notFound =>
    if (toPath path).endsInDirectory then throw .isDirectory
    let root ← s.files.root.write (.text []) names
    return { s with files := { s.files with root := root } }.attach descriptor (.file names)
  | .error e => throw e

def State.duplicate (s : State) (descriptor source : Nat) : Except File.IoError State :=
  if s.isOpen source then .ok (s.attach descriptor (s.channel source)) else .error .invalid

def State.attachPath (s : State) (attachment : Attachment) (descriptor : Nat) (path : List Char) :
    Except File.IoError State :=
  match device? path, attachment with
  | some source, _ => s.duplicate descriptor source
  | none, .read =>
    match s.files.entry (toPath path) with
    | .ok (.directory _) => .ok (s.attach descriptor .nothing)
    | _ =>
      (readBytes s.files path).map fun text =>
        let (id, s) := s.openStream text
        s.attach descriptor (.stream id)
  | none, .write => s.attachFile descriptor path true s.flags.keepFiles
  | none, .overwrite => s.attachFile descriptor path true false
  | none, _ => s.attachFile descriptor path false false

def attachOne (subshell : Subshell) (fuel : Nat) : Redirection → Session Bool
  | .mk descriptor attachment target => do
    let text ← Expansion.wordText subshell fuel target
    let s ← get
    let attached ← match attachment with
      | .here =>
        let (id, s) := s.openStream text
        pure (.ok (s.attach descriptor (.stream id)))
      | .duplicate =>
        if text = ['-'] then pure (.ok (s.detach descriptor))
        else match Number.digits? text with
          | some source => pure (s.duplicate descriptor source)
          | none => abort "Syntax error: Bad fd number".toList
      | _ => pure (s.attachPath attachment descriptor text)
    match attached with
    | .ok s =>
      set s
      return true
    | .error e =>
      complain ("cannot open ".toList ++ text ++ ": ".toList ++ e.text.toList)
      return false

def attachAll (subshell : Subshell) (fuel : Nat) : List Redirection → Session Bool
  | [] => return true
  | r :: rs => do
    if ← attachOne subshell fuel r then attachAll subshell fuel rs else return false

def Redirection.descriptor : Redirection → Nat
  | .mk d _ _ => d

/-- Runs a command with redirections that are undone behind it. If they cannot be made the command
is not run, which the result says, and which is an error if `strict`. -/
def redirected (subshell : Subshell) (fuel : Nat) (strict : Bool) (rs : List Redirection)
    (body : Session Unit) : Session Bool := do
  if rs.isEmpty then
    body
    return true
  let before ← get
  let undo (s : State) : State := s.reattach before (rs.map Redirection.descriptor)
  if ← (fun s => match attachAll subshell fuel rs s with
      | (.error flow, s) => (.error flow, undo s)
      | (.ok false, s) => (.ok false, undo s)
      | attached => attached) then
    restoring undo body
    return true
  setStatus 2
  if strict then throw .failed
  return false

end TreeQuery.Shell
