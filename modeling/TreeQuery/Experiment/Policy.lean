import TreeQuery.Experiment.Failure
import TreeQuery.Log

/-!
# Policies

A policy looks at a candidate file and says whether it passes. It may keep a state of its own from
call to call, write to the log, and ask for the run to be cancelled. It may also change files; a
policy that never does is read-only.
-/

namespace TreeQuery.Experiment

structure Judgement where
  verdict : Except Failure Bool
  log : List Log.Entry
  /-- The cancellation flag was set during the call, by the policy or by somebody else. -/
  cancel : Bool
  /-- The files as the policy leaves them. -/
  files : File.System

def Judgement.plain (verdict : Except Failure Bool) (files : File.System) : Judgement :=
  ⟨verdict, [], false, files⟩

structure Policy (σ : Type) where
  judge : File.System → File.Path → σ → Judgement × σ

def Policy.ReadOnly (p : Policy σ) : Prop :=
  ∀ fs path state, (p.judge fs path state).1.files = fs

abbrev Reader := List Char → Except Sexp.Error Tree

namespace Policy

def target : String := "fathom_experiment::policy"

/-- Only candidates that can still be read reach the inner policy. -/
def guarded (reader : Reader) (inner : Policy σ) : Policy σ where
  judge fs path state :=
    match fs.readText path with
    | .error e => (.plain (.error (.read path e)) fs, state)
    | .ok text =>
      match reader text with
      | .ok _ => inner.judge fs path state
      | .error e =>
        (⟨.ok false,
          [⟨.debug, target, "candidate no longer parses",
            [("candidate", .plain path.text),
              ("error", .plain (Fault.source e).message.toList)]⟩], false, fs⟩, state)

end Policy

structure TextRule where
  crashOn : Option (List Char)
  forbidden : List (List Char)
  forbiddenPairs : List (List Char × List Char)
  required : List (List Char)

namespace TextRule

def admits (r : TextRule) (text : List Char) : Except Failure Bool :=
  if r.crashOn.any (Text.contains · text) then .error (.policy "checker crashed")
  else .ok <|
    r.forbidden.all (fun t => !Text.contains t text) &&
    r.forbiddenPairs.all (fun (a, b) => !(Text.contains a text && Text.contains b text)) &&
    r.required.all (Text.contains · text)

end TextRule

structure Call where
  path : File.Path
  text : List Char
  result : Except Failure Bool

namespace Policy

/-- Records every call, and asks for cancellation once there are enough. -/
def recorded (cancelAfter : Option Nat) (inner : Policy (List Call)) : Policy (List Call) where
  judge fs path calls :=
    let text := match fs.readText path with
      | .ok cs => cs
      | .error _ => []
    let (j, calls) := inner.judge fs path calls
    let calls := calls ++ [⟨path, text, j.verdict⟩]
    ({ j with cancel := j.cancel || cancelAfter.any (· ≤ calls.length) }, calls)

def ofTextRule (r : TextRule) : Policy σ where
  judge fs path state :=
    let text := match fs.readText path with
      | .ok cs => cs
      | .error _ => []
    (.plain (r.admits text) fs, state)

end Policy

end TreeQuery.Experiment
