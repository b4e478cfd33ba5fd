import Mathlib
import TreeQuery.Proofs.Experiment.Rounds

/-!
# Cancelled runs

The flag is looked at before each round and before each candidate, and nothing is committed unless
it was seen unset after the last verdict. So a call during which the flag is set is the last one,
and if it is answered the run is reported as cancelled, with as many candidates tested as there were
calls. The run itself leaves the file alone then: it stands as the calls left it
(`runFile_cancelled`).
-/

namespace TreeQuery.Experiment

open File (Path System)
open File.System (SameFile)

variable {σ : Type} {s : Subject σ} {e : Experiment σ} {o : Options} {path : Path}
  {name : List Char} {c : Combination} {before : System} {status : Status} {tested : Nat}
  {x : Hearing} {w w' : World (σ × List Hearing)} {p : Progress}

-- ---------------------------------------------------------------------------
-- One hearing
-- ---------------------------------------------------------------------------

/-- Between the worlds the policy was heard once, and nobody else changed the file. -/
structure Hears (path : Path) (w : World (σ × List Hearing)) (x : Hearing)
    (w' : World (σ × List Hearing)) : Prop where
  hearings : w'.hearings = w.hearings ++ [x]
  cancelled : w'.cancelled = (w.cancelled || x.cancels)
  before : SameFile path w.files x.before
  after : SameFile path x.after w'.files

theorem evaluate_hears (hname : s.path.fileName? = some name) (c : Combination)
    (w : World (σ × List Hearing)) :
    (∃ error, s.watched.evaluate c w = (.error error, w)) ∨
      ∃ x, (s.watched.evaluate c w).1 = x.verdict ∧
        Hears s.path w x (s.watched.evaluate c w).2 := by
  unfold Subject.evaluate
  rcases hrender : s.watched.render c with error | text
  · exact .inl ⟨error, rfl⟩
  · rcases hw : w.files.writeText (candidatePath s.path c) text with error | files
    · simp only [Subject.watched, Subject.withPolicy, hw]
      exact .inl ⟨_, rfl⟩
    · obtain ⟨place, hl, hwritten, -⟩ := System.of_writeText fileName?_candidatePath hw
      have hbefore := sameFile_of_changedAt_candidate hname hl hwritten
      rcases hj : s.experiment.policy.judge files (candidatePath s.path c) w.state.1
        with ⟨j, state⟩
      refine .inr ⟨⟨candidatePath s.path c, files, j⟩, ?_⟩
      rcases hr : j.files.removeFile (candidatePath s.path c) with error | left <;>
        simp only [Subject.watched, Subject.withPolicy, withPolicy, Policy.watched, hw, hj, hr]
      · exact ⟨rfl, rfl, rfl, hbefore, .refl _ _⟩
      · -- the policy may have moved directories, so the path may lead to another place now
        obtain ⟨place', hl'⟩ := System.exists_leads_of_removeFile hl.1 hr
        have hremoved := (System.of_removeFile fileName?_candidatePath hl' hr).1
        exact ⟨rfl, rfl, rfl, hbefore, sameFile_of_changedAt_candidate hname hl' hremoved⟩

-- ---------------------------------------------------------------------------
-- The hearings of a search
-- ---------------------------------------------------------------------------

structure Heeded (w : World (σ × List Hearing)) : Prop where
  flag : ∀ x ∈ w.hearings, x.cancels = true → w.cancelled = true
  earlier : ∀ x ∈ w.hearings.dropLast, x.cancels = false

theorem Heeded.congr (h : Heeded w) (hstate : w'.state = w.state)
    (hflag : w'.cancelled = w.cancelled) : Heeded w' := by
  have hhearings : w'.hearings = w.hearings := congrArg Prod.snd hstate
  constructor
  · rw [hhearings, hflag]
    exact h.flag
  · rw [hhearings]
    exact h.earlier

theorem Heeded.uncancelled (h : Heeded w) (hflag : w.cancelled = false) :
    ∀ x ∈ w.hearings, x.cancels = false := by
  intro x hx
  rw [Bool.eq_false_iff]
  intro hcancels
  rw [h.flag x hx hcancels] at hflag
  cases hflag

theorem Heeded.hears (h : Heeded w) (hflag : w.cancelled = false) (hx : Hears path w x w') :
    Heeded w' := by
  constructor
  · intro y hy hcancels
    rw [hx.hearings, List.mem_append, List.mem_singleton] at hy
    rw [hx.cancelled, hflag, Bool.false_or]
    rcases hy with hy | rfl
    · rw [h.uncancelled hflag y hy] at hcancels
      cases hcancels
    · exact hcancels
  · rw [hx.hearings, List.dropLast_concat]
    exact h.uncancelled hflag

/-- All hearings were answered, and what stands at the path is what they left there. -/
structure Answered (path : Path) (before : System) (tested : Nat)
    (w : World (σ × List Hearing)) : Prop where
  heeded : Heeded w
  tested : tested = w.hearings.length
  answered : ∀ x ∈ w.hearings, ∃ passed, x.verdict = .ok passed
  after : ∀ x, w.hearings.getLast? = some x → SameFile path x.after w.files
  kept : (∀ x ∈ w.hearings, SameFile path x.before x.after) → SameFile path before w.files

theorem answered_start (path : Path) (w : World σ) : Answered path w.files 0 w.watched where
  heeded := ⟨by simp, by simp⟩
  tested := rfl
  answered := by simp
  after := by simp
  kept _ := .refl _ _

theorem Answered.note (h : Answered path before tested w) (entries : List Log.Entry) :
    Answered path before tested (w.note entries) :=
  ⟨h.heeded.congr rfl rfl, h.tested, h.answered, h.after, h.kept⟩

theorem Answered.look (h : Answered path before tested w) : Answered path before tested w.look.2 :=
  ⟨⟨fun x hx hcancels => by simp [World.look, h.heeded.flag x hx hcancels], h.heeded.earlier⟩,
    h.tested, h.answered, h.after, h.kept⟩

theorem Answered.hears {passed : Bool} (h : Answered path before tested w)
    (hflag : w.cancelled = false) (hx : Hears path w x w') (hpassed : x.verdict = .ok passed) :
    Answered path before (tested + 1) w' := by
  refine ⟨h.heeded.hears hflag hx, ?_, ?_, ?_, ?_⟩
  · rw [hx.hearings, List.length_append, h.tested]
    rfl
  · intro y hy
    rw [hx.hearings, List.mem_append, List.mem_singleton] at hy
    rcases hy with hy | rfl
    · exact h.answered y hy
    · exact ⟨passed, hpassed⟩
  · intro y hy
    rw [hx.hearings, List.getLast?_concat] at hy
    cases hy
    exact hx.after
  · intro hkept
    rw [hx.hearings] at hkept
    have hearlier := h.kept fun y hy => hkept y (List.mem_append_left _ hy)
    exact hearlier.trans (hx.before.trans ((hkept x List.mem_concat_self).trans hx.after))

/-- A run that stops with the flag set is reported as cancelled, unless its last hearing failed. -/
structure Halted (path : Path) (before : System) (status : Status) (tested : Nat)
    (w : World (σ × List Hearing)) : Prop where
  heeded : Heeded w
  report : w.cancelled = true →
    (∃ x error, w.hearings.getLast? = some x ∧ x.verdict = .error error) ∨
      status = .cancelled ∧ Answered path before tested w

theorem Heeded.halted (h : Heeded w) (hflag : w.cancelled = false) :
    Halted path before status tested w :=
  ⟨h, fun hset => absurd (hflag.symm.trans hset) Bool.false_ne_true⟩

theorem answered_steady (hname : s.path.fileName? = some name) :
    Steady s.watched (fun p w => Answered s.path before p.tested w)
      fun status p w => Halted s.path before status p.tested w where
  look h := h.look
  note entries h := h.note entries
  propose _ h := h
  judged := by
    intro p w c passed h hflag hjudged
    obtain ⟨error, hfailed⟩ | ⟨x, hverdict, hx⟩ := evaluate_hears hname c w
    · rw [hfailed] at hjudged
      cases hjudged
    · exact h.hears hflag hx (hverdict.symm.trans hjudged)
  cancelled h _ := ⟨h.heeded, fun _ => .inr ⟨rfl, h⟩⟩
  exceeded _ h hflag := h.heeded.halted hflag
  failed := by
    intro p w c error h hflag hfailed
    obtain ⟨error, hsame⟩ | ⟨x, hverdict, hx⟩ := evaluate_hears hname c w
    · rw [hsame]
      exact h.heeded.halted hflag
    · refine ⟨h.heeded.hears hflag hx, fun _ => .inl ⟨x, error, ?_, hverdict.symm.trans hfailed⟩⟩
      rw [hx.hearings, List.getLast?_concat]

-- ---------------------------------------------------------------------------
-- The run
-- ---------------------------------------------------------------------------

theorem commit_state (s : Subject σ) (p : Progress) (w : World σ) :
    (commit s p w).2.state = w.state ∧ (commit s p w).2.cancelled = w.cancelled := by
  unfold commit
  cases p.search.best? with
  | none => exact ⟨rfl, rfl⟩
  | some fragment =>
    dsimp only
    cases s.render fragment with
    | error error => exact ⟨rfl, rfl⟩
    | ok text =>
      dsimp only
      cases w.files.writeText s.path text <;> exact ⟨rfl, rfl⟩

def Ended (path : Path) (before : System) (r : FileOutcome × World (σ × List Hearing)) : Prop :=
  Halted path before r.1.status r.1.tested r.2

theorem searchFile_ended {source : List Char} {tree : Tree} (hname : path.fileName? = some name)
    (h : Answered path before 0 w) (hflag : w.cancelled = false) :
    Ended path before (searchFile o e.watched path source tree w) := by
  unfold searchFile
  dsimp only
  split
  · exact h.heeded.halted hflag
  · have hs : (⟨e.watched, path, source, tree⟩ : Subject (σ × List Hearing)) =
        Subject.watched ⟨e, path, source, tree⟩ := rfl
    rw [hs]
    generalize (e.watched.query.search tree).length = n
    have hstart := h.note [entry .debug "searching combinations"
      [pathField path, ("occurrences", .number n)]]
    generalize w.note _ = started at hstart ⊢
    have hsteady : Steady (Subject.watched ⟨e, path, source, tree⟩)
      (fun p w => Answered path before p.tested w) _ := answered_steady hname
    have hrounds := hsteady.tryRounds (p := ⟨.start n o.maxCombinations, 0, 0⟩)
      (Nat.pow 2 n + 2) hstart
    have hlast := (tryRounds_start (Subject.watched ⟨e, path, source, tree⟩) started
      o.maxCombinations (Nat.le_add_right (Nat.pow 2 n) 2)).2
    generalize tryRounds _ _ _ started = r at hrounds hlast
    obtain ⟨_ | status, p, w'⟩ := r
    · -- nothing more is proposed: the flag was seen unset, and the commit does not look again
      obtain ⟨hstate, hsame⟩ := commit_state (Subject.watched ⟨e, path, source, tree⟩) p w'
      exact (hrounds.heeded.congr hstate hsame).halted (hsame.trans (hlast rfl))
    · exact hrounds

theorem logged_ended {r : FileOutcome × World (σ × List Hearing)} (h : Ended path before r) :
    Ended path before (logged r) := by
  obtain ⟨entries, hlogged⟩ := exists_logged r
  rw [hlogged]
  exact ⟨h.heeded.congr rfl rfl, fun hset => (h.report hset).imp_right
    fun ⟨hstatus, hanswered⟩ => ⟨hstatus, hanswered.note entries⟩⟩

theorem runFile_ended (o : Options) (e : Experiment σ) (path : Path) (w : World σ) :
    Ended path w.files (runFile o e.watched path w.watched) := by
  have hstart := (answered_start path w).look
  have hflag : w.watched.look.2.cancelled = w.watched.look.1 := rfl
  unfold runFile
  generalize w.watched.look = r at hstart hflag
  obtain ⟨cancelled, w'⟩ := r
  cases cancelled with
  | true => exact ⟨hstart.heeded, fun _ => .inr ⟨rfl, hstart⟩⟩
  | false =>
    refine logged_ended ?_
    rcases hread : w'.files.readText path with error | source
    · exact hstart.heeded.halted hflag
    · obtain ⟨name, hname⟩ := System.fileName_of_readText hread
      dsimp only
      cases e.watched.reader source with
      | error error => exact hstart.heeded.halted hflag
      | ok tree => exact searchFile_ended hname hstart hflag

/-- The run is reported as cancelled after these hearings. All were answered, each counts as a
tested candidate, and what stands at the path afterwards is what they left there. -/
structure Cancelled (path : Path) (before : System) (hearings : List Hearing)
    (r : FileOutcome × World σ) : Prop where
  status : r.1.status = .cancelled
  tested : r.1.tested = hearings.length
  answered : ∀ x ∈ hearings, ∃ passed, x.verdict = .ok passed
  after : ∀ x, hearings.getLast? = some x → SameFile path x.after r.2.files
  kept : (∀ x ∈ hearings, SameFile path x.before x.after) → SameFile path before r.2.files

theorem Ended.cancelled {r : FileOutcome × World (σ × List Hearing)} (h : Ended path before r)
    (hset : r.2.cancelled = true)
    (hlast : ∀ x, r.2.hearings.getLast? = some x → ∃ passed, x.verdict = .ok passed) :
    Cancelled path before r.2.hearings (r.1, r.2.unwatched) := by
  obtain ⟨x, error, hx, herror⟩ | ⟨hstatus, hanswered⟩ := h.report hset
  · obtain ⟨passed, hpassed⟩ := hlast x hx
    cases hpassed.symm.trans herror
  · exact ⟨hstatus, hanswered.tested, hanswered.answered, hanswered.after, hanswered.kept⟩

theorem Heeded.last {earlier later : List Hearing} (h : Heeded w)
    (hx : w.hearings = earlier ++ x :: later) (hcancels : x.cancels = true) : later = [] := by
  by_contra hne
  have hearlier := h.earlier x
  rw [hx, List.dropLast_append_of_ne_nil (List.cons_ne_nil x later),
    List.dropLast_cons_of_ne_nil hne] at hearlier
  rw [hearlier (List.mem_append_right _ List.mem_cons_self)] at hcancels
  cases hcancels

theorem runFile_of_set {w : World σ} (hset : w.look.1 = true) :
    runFile o e path w = (⟨path, 0, 0, 0, .cancelled⟩, w.look.2) := by
  have hlook : w.look = (true, w.look.2) := Prod.ext hset rfl
  unfold runFile
  rw [hlook]
  rfl

/-- If the flag is set before the run looks at it, nothing happens and the run is reported as
cancelled. A call during which the flag is set, by the policy or by anybody else, and which is
answered, is the last one: the run is reported as cancelled, and has tested as many candidates as
there were calls. So it is whenever the flag is set in the end and the last call, if any, was
answered.

The run then writes nothing to the file: there stands what the last call left, and if no call has
changed it, what stood there before the run. -/
theorem runFile_cancelled (o : Options) (e : Experiment σ) (path : Path) (w : World σ) :
    runFile o e path w = ((runFile o e.watched path w.watched).1,
      (runFile o e.watched path w.watched).2.unwatched) ∧
    (w.look.1 = true → (runFile o e.watched path w.watched).2.hearings = [] ∧
      (runFile o e path w).2.files = w.files ∧ Cancelled path w.files [] (runFile o e path w)) ∧
    (∀ earlier x later passed,
      (runFile o e.watched path w.watched).2.hearings = earlier ++ x :: later →
      x.cancels = true → x.verdict = .ok passed →
        later = [] ∧ Cancelled path w.files (earlier ++ [x]) (runFile o e path w)) ∧
    ((runFile o e path w).2.cancelled = true →
      (∀ x, (runFile o e.watched path w.watched).2.hearings.getLast? = some x →
        ∃ passed, x.verdict = .ok passed) →
      Cancelled path w.files (runFile o e.watched path w.watched).2.hearings
        (runFile o e path w)) := by
  have hended := runFile_ended o e path w
  have hrun := runFile_unwatched o e path w
  refine ⟨hrun, fun hset => ?_, fun earlier x later passed hx hcancels hpassed => ?_,
    fun hset hlast => ?_⟩
  · have hnone : (runFile o e.watched path w.watched).2.hearings = [] := by
      rw [runFile_of_set (w := w.watched) hset]
      rfl
    rw [runFile_of_set hset]
    exact ⟨hnone, rfl, rfl, rfl, by simp, by simp, fun _ => .refl _ _⟩
  · obtain rfl := hended.heeded.last hx hcancels
    have hmem : x ∈ (runFile o e.watched path w.watched).2.hearings :=
      hx ▸ List.mem_concat_self
    refine ⟨rfl, ?_⟩
    rw [hrun, ← hx]
    refine hended.cancelled (hended.heeded.flag x hmem hcancels) fun y hy => ?_
    rw [hx, List.getLast?_concat] at hy
    cases hy
    exact ⟨passed, hpassed⟩
  · rw [hrun] at hset ⊢
    exact hended.cancelled hset hlast

def interrupted : Experiment Nat :=
  .ofRule "interrupted".toList ⟨⟨"x".toList, .literal (.sym "x")⟩, "é$0".toList, none⟩
    ⟨fun fs _ asked => (⟨.ok true, [], asked == 2, fs⟩, asked + 1)⟩ Sexp.parseChars []

theorem runFile_cancelled_interrupted :
    let w : World Nat := ⟨twoForms.files, false, [], 0, []⟩
    (runFile .default interrupted ⟨['f']⟩ w).1.status = .cancelled ∧
      (runFile .default interrupted ⟨['f']⟩ w).1.tested = 3 ∧
      SameFile ⟨['f']⟩ w.files (runFile .default interrupted ⟨['f']⟩ w).2.files := by
  intro w
  have hcalls : (runFile .default interrupted.watched ⟨['f']⟩ w.watched).2.hearings.map
      (fun x => (x.cancels, x.verdict)) =
        [(false, .ok true), (false, .ok true), (true, .ok true)] := by cbv
  have hfiles : (runFile .default interrupted.watched ⟨['f']⟩ w.watched).2.hearings.map
        Hearing.before =
      (runFile .default interrupted.watched ⟨['f']⟩ w.watched).2.hearings.map Hearing.after := by
    cbv
  have hkept := List.map_inj_left.1 hfiles
  obtain ⟨a, _, ha, -, hcalls⟩ := List.map_eq_cons_iff.1 hcalls
  obtain ⟨b, _, rfl, -, hcalls⟩ := List.map_eq_cons_iff.1 hcalls
  obtain ⟨x, _, rfl, hx, hcalls⟩ := List.map_eq_cons_iff.1 hcalls
  obtain ⟨hcancels, hverdict⟩ := Prod.mk.inj hx
  have hcancelled := ((runFile_cancelled .default interrupted ⟨['f']⟩ w).2.2.1 [a, b] x _ true ha
    hcancels hverdict).2
  rw [ha, List.map_eq_nil_iff.1 hcalls] at hkept
  exact ⟨hcancelled.status, hcancelled.tested,
    hcancelled.kept fun y hy => hkept y hy ▸ .refl _ _⟩

def spoiling : Experiment Unit :=
  .ofRule "spoiling".toList ⟨⟨"x".toList, .literal (.sym "x")⟩, "é$0".toList, none⟩
    ⟨fun fs _ state =>
      (⟨.ok true, [], true, (fs.writeText ⟨['f']⟩ "(y)".toList).toOption.getD fs⟩, state)⟩
    Sexp.parseChars []

/-- What a call itself does to the file is not undone. -/
theorem not_runFile_keeps_file :
    ¬ ∀ (o : Options) (e : Experiment Unit) (path : Path) (w : World Unit) earlier x passed,
      (runFile o e.watched path w.watched).2.hearings = earlier ++ [x] → x.cancels = true →
      x.verdict = .ok passed → SameFile path w.files (runFile o e path w).2.files := by
  intro h
  have hcalls : (runFile .default spoiling.watched ⟨['f']⟩ twoForms.watched).2.hearings.map
      (fun x => (x.cancels, x.verdict)) = [(true, .ok true)] := by cbv
  obtain ⟨x, _, hx, hcall, hcalls⟩ := List.map_eq_cons_iff.1 hcalls
  obtain ⟨hcancels, hverdict⟩ := Prod.mk.inj hcall
  rw [List.map_eq_nil_iff.1 hcalls] at hx
  have hsame := h .default spoiling ⟨['f']⟩ twoForms [] x true hx hcancels hverdict
  have hbefore : twoForms.files.entry ⟨['f']⟩ = .ok (.file (.text "(x 1) (x 2)".toList)) := rfl
  have hafter : (runFile .default spoiling ⟨['f']⟩ twoForms).2.files.entry ⟨['f']⟩ =
      .ok (.file (.text "(y)".toList)) := by cbv
  have hkept := (hsame _ rfl).1 hbefore
  rw [hafter] at hkept
  cases hkept

end TreeQuery.Experiment
