import TreeQuery.Experiment.Runner

/-!
# Runs with a record of the calls

A policy may keep more state than it needs for its answers: if one policy answers as another does
on a part of its state, a run with the one is a run with the other, seen through that part
(`runFile_extends`). So every policy has forms that answer as it does and keep a record of the
calls beside its state. The transcribed policy keeps questions and answers, the watched one the
files before each call and the whole judgement. What is said about the records is said about the
run (`runFile_erase`, `runFile_unwatched`).
-/

namespace TreeQuery.Experiment

variable {σ τ : Type}

-- ---------------------------------------------------------------------------
-- Policies with more state
-- ---------------------------------------------------------------------------

/-- The policy answers as another one does on a part of its state. -/
def Policy.Extends (p : Policy τ) (q : Policy σ) (part : τ → σ) : Prop :=
  ∀ fs path state, q.judge fs path (part state) =
    ((p.judge fs path state).1, part (p.judge fs path state).2)

def withPolicy (e : Experiment σ) (p : Policy τ) : Experiment τ :=
  ⟨e.name, e.query, e.edit, p, e.reader, e.lookup⟩

def Subject.withPolicy (s : Subject σ) (p : Policy τ) : Subject τ :=
  ⟨s.experiment.withPolicy p, s.path, s.source, s.tree⟩

namespace World

def through (part : τ → σ) (w : World τ) : World σ :=
  ⟨w.files, w.cancelled, w.requests, part w.state, w.log⟩

variable {part : τ → σ} {w : World τ}

@[simp] theorem through_files : (w.through part).files = w.files := rfl

@[simp] theorem through_state : (w.through part).state = part w.state := rfl

@[simp] theorem through_note (entries : List Log.Entry) :
    (w.note entries).through part = (w.through part).note entries := rfl

@[simp] theorem through_look :
    (w.through part).look = (w.look.1, w.look.2.through part) := rfl

end World

section Extends

variable {s : Subject σ} {e : Experiment σ} {q : Policy τ} {part : τ → σ} {o : Options}
  {w : World τ} {c : Combination} {p : Progress}

@[simp] theorem withPolicy_query : (e.withPolicy q).query = e.query := rfl

@[simp] theorem withPolicy_reader : (e.withPolicy q).reader = e.reader := rfl

theorem subject_withPolicy (path : File.Path) (source : List Char) (tree : Tree) :
    (⟨e.withPolicy q, path, source, tree⟩ : Subject τ) =
      Subject.withPolicy ⟨e, path, source, tree⟩ q := rfl

@[simp] theorem render_withPolicy : (s.withPolicy q).render c = s.render c := rfl

theorem evaluate_extends (h : q.Extends s.experiment.policy part) :
    s.evaluate c (w.through part) =
      (((s.withPolicy q).evaluate c w).1, ((s.withPolicy q).evaluate c w).2.through part) := by
  unfold Subject.evaluate
  rw [render_withPolicy]
  cases s.render c with
  | error e => rfl
  | ok text =>
    rcases hw : w.files.writeText (candidatePath s.path c) text with error | files
    · simp only [World.through_files, hw, Subject.withPolicy]
    · have hjudge := h files (candidatePath s.path c) w.state
      rcases hj : q.judge files (candidatePath s.path c) w.state with ⟨j, state⟩
      rw [hj] at hjudge
      rcases hr : j.files.removeFile (candidatePath s.path c) with error | left <;>
        simp only [World.through_files, World.through_state, hw, hjudge, hj, hr,
          Subject.withPolicy, withPolicy] <;> rfl

theorem tryAll_extends (h : q.Extends s.experiment.policy part) (number : Nat)
    (cs : List Combination) : tryAll s number cs p (w.through part) =
      ((tryAll (s.withPolicy q) number cs p w).1, (tryAll (s.withPolicy q) number cs p w).2.1,
        (tryAll (s.withPolicy q) number cs p w).2.2.through part) := by
  induction cs generalizing p w with
  | nil => rfl
  | cons c cs ih =>
    unfold tryAll
    rw [World.through_look]
    rcases w.look with ⟨cancelled, w⟩
    cases cancelled with
    | true => rfl
    | false =>
      simp only [Bool.false_eq_true, if_false, evaluate_extends h]
      rcases (s.withPolicy q).evaluate c w with ⟨error | passed, w⟩
      · rfl
      · dsimp only
        rw [← World.through_note, ih]
        rfl

theorem tryRounds_extends (h : q.Extends s.experiment.policy part) (fuel : Nat) :
    tryRounds s fuel p (w.through part) =
      ((tryRounds (s.withPolicy q) fuel p w).1, (tryRounds (s.withPolicy q) fuel p w).2.1,
        (tryRounds (s.withPolicy q) fuel p w).2.2.through part) := by
  induction fuel generalizing p w with
  | zero => rfl
  | succ fuel ih =>
    unfold tryRounds
    rw [World.through_look]
    rcases w.look with ⟨cancelled, w⟩
    cases cancelled with
    | true => rfl
    | false =>
      rcases p.search.next with ⟨error | round, search⟩
      · rfl
      · simp only [Bool.false_eq_true, if_false]
        split
        · rfl
        · rw [tryAll_extends h]
          rcases tryAll (s.withPolicy q) round.number round.candidates _ w
            with ⟨_ | status, p, w⟩
          · exact ih
          · rfl

theorem commit_extends : commit s p (w.through part) =
    ((commit (s.withPolicy q) p w).1, (commit (s.withPolicy q) p w).2.through part) := by
  unfold commit
  cases p.search.best? with
  | none => rfl
  | some fragment =>
    simp only [render_withPolicy]
    rcases s.render fragment with error | text
    · rfl
    · simp only [World.through_files, Subject.withPolicy]
      rcases w.files.writeText s.path text with error | files <;> rfl

theorem searchFile_extends (h : q.Extends e.policy part) (path : File.Path)
    (source : List Char) (tree : Tree) : searchFile o e path source tree (w.through part) =
      ((searchFile o (e.withPolicy q) path source tree w).1,
        (searchFile o (e.withPolicy q) path source tree w).2.through part) := by
  unfold searchFile
  dsimp only
  rw [withPolicy_query]
  split
  · rfl
  · rw [← World.through_note, subject_withPolicy, tryRounds_extends h]
    rcases tryRounds (Subject.withPolicy ⟨e, path, source, tree⟩ q) _ _ _
      with ⟨_ | status, p, w⟩
    · dsimp only
      rw [commit_extends]
    · rfl

theorem logged_through (r : FileOutcome × World τ) :
    logged (r.1, r.2.through part) = ((logged r).1, (logged r).2.through part) := by
  unfold logged
  cases r.1.status <;> rfl

/-- A run with more state in its policy, seen through the part that the answers depend on. -/
theorem runFile_extends (h : q.Extends e.policy part) (path : File.Path) :
    runFile o e path (w.through part) =
      ((runFile o (e.withPolicy q) path w).1,
        (runFile o (e.withPolicy q) path w).2.through part) := by
  unfold runFile
  rw [World.through_look]
  rcases w.look with ⟨cancelled, w⟩
  cases cancelled with
  | true => rfl
  | false =>
    simp only [Bool.false_eq_true, if_false, World.through_files, withPolicy_reader,
      ← logged_through]
    rcases w.files.readText path with error | source
    · rfl
    · dsimp only
      rcases e.reader source with error | tree
      · rfl
      · dsimp only
        rw [searchFile_extends h]

end Extends

-- ---------------------------------------------------------------------------
-- Questions and answers
-- ---------------------------------------------------------------------------

structure Exchange where
  path : File.Path
  text : Except File.IoError (List Char)
  answer : Except Failure Bool

def Policy.transcribed (p : Policy σ) : Policy (σ × List Exchange) where
  judge fs path state :=
    let (j, inner) := p.judge fs path state.1
    (j, inner, state.2 ++ [⟨path, fs.readText path, j.verdict⟩])

def transcribed (e : Experiment σ) : Experiment (σ × List Exchange) :=
  e.withPolicy e.policy.transcribed

def Subject.transcribed (s : Subject σ) : Subject (σ × List Exchange) :=
  s.withPolicy s.experiment.policy.transcribed

namespace World

def transcribed (w : World σ) : World (σ × List Exchange) := w.through (·, [])

def transcript (w : World (σ × List Exchange)) : List Exchange := w.state.2

def erase (w : World (σ × List Exchange)) : World σ := w.through Prod.fst

@[simp] theorem erase_transcribed (w : World σ) : w.transcribed.erase = w := rfl

end World

variable {e : Experiment σ} {o : Options}

theorem subject_transcribed (path : File.Path) (source : List Char) (tree : Tree) :
    (⟨e.transcribed, path, source, tree⟩ : Subject (σ × List Exchange)) =
      Subject.transcribed ⟨e, path, source, tree⟩ := rfl

theorem transcribed_extends (p : Policy σ) : p.transcribed.Extends p Prod.fst :=
  fun _ _ _ => rfl

theorem runFile_erase {w : World (σ × List Exchange)} (path : File.Path) :
    runFile o e path w.erase =
      ((runFile o e.transcribed path w).1, (runFile o e.transcribed path w).2.erase) :=
  runFile_extends (transcribed_extends e.policy) path

-- ---------------------------------------------------------------------------
-- Hearings
-- ---------------------------------------------------------------------------

structure Hearing where
  path : File.Path
  before : File.System
  judgement : Judgement

namespace Hearing

def after (x : Hearing) : File.System := x.judgement.files

def cancels (x : Hearing) : Bool := x.judgement.cancel

def verdict (x : Hearing) : Except Failure Bool := x.judgement.verdict

end Hearing

def Policy.watched (p : Policy σ) : Policy (σ × List Hearing) where
  judge fs path state :=
    let (j, inner) := p.judge fs path state.1
    (j, inner, state.2 ++ [⟨path, fs, j⟩])

def watched (e : Experiment σ) : Experiment (σ × List Hearing) := e.withPolicy e.policy.watched

def Subject.watched (s : Subject σ) : Subject (σ × List Hearing) :=
  s.withPolicy s.experiment.policy.watched

namespace World

def watched (w : World σ) : World (σ × List Hearing) := w.through (·, [])

def hearings (w : World (σ × List Hearing)) : List Hearing := w.state.2

@[simp] theorem hearings_watched (w : World σ) : w.watched.hearings = [] := rfl

def unwatched (w : World (σ × List Hearing)) : World σ := w.through Prod.fst

end World

theorem watched_extends (p : Policy σ) : p.watched.Extends p Prod.fst := fun _ _ _ => rfl

theorem runFile_unwatched (o : Options) (e : Experiment σ) (path : File.Path) (w : World σ) :
    runFile o e path w =
      ((runFile o e.watched path w.watched).1, (runFile o e.watched path w.watched).2.unwatched) :=
  runFile_extends (w := w.watched) (watched_extends e.policy) path

end TreeQuery.Experiment
