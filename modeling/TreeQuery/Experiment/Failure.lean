import TreeQuery.Fault
import TreeQuery.File.System

/-!
# Failures of experiments
-/

namespace TreeQuery.Experiment

inductive Failure where
  | read (path : File.Path) (cause : File.IoError)
  | write (path : File.Path) (cause : File.IoError)
  | parse (path : File.Path) (cause : Fault)
  | revise (path : File.Path) (cause : Fault)
  | start (program : List Char) (cause : File.IoError)
  | policy (text : String)
deriving DecidableEq

namespace Failure

def about (what : String) (path : File.Path) (cause : String) : String :=
  "failed to " ++ what ++ " " ++ String.ofList path.text ++ ": " ++ cause

def message : Failure → String
  | .read path cause => about "read" path cause.message
  | .write path cause => about "write" path cause.message
  | .parse path cause => about "parse" path cause.message
  | .revise path cause => about "rewrite" path cause.message
  | .start program cause =>
    "policy '" ++ String.ofList program ++ "' failed to start: " ++ cause.message
  | .policy text => "policy failed: " ++ text

end Failure

end TreeQuery.Experiment
