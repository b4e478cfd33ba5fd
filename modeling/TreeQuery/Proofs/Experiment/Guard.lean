import Mathlib
import TreeQuery.Proofs.Combination.Largest
import TreeQuery.Proofs.Experiment.Candidate
import TreeQuery.Proofs.Experiment.Steady

/-!
# A guarded run leaves a file that can be read

Under a policy that first reads the candidate, whatever is accepted renders to a text that can be
read. The best of what was accepted is rendered anew when it is committed, and comes to the same
text. So a file that could be read before the run can be read after it (`runFile_parses`).
-/

namespace TreeQuery.Experiment

open Combination (Search)
open File (Path System)

variable {σ : Type} {s : Subject σ} {e : Experiment σ} {o : Options} {path : Path}
  {inner : Policy σ} {place : List File.Name} {c : Combination} {p : Progress} {w : World σ}
  {fs fs' : System} {text : List Char}

-- ---------------------------------------------------------------------------
-- Files that can be read
-- ---------------------------------------------------------------------------

def IsReadable (text : List Char) : Prop := ∃ tree, Sexp.parseChars text = .ok tree

theorem isReadable_iff : IsReadable text ↔ (Sexp.parseChars text).isOk = true := by
  unfold IsReadable
  cases Sexp.parseChars text with
  | error error => exact iff_of_false nofun nofun
  | ok tree => exact iff_of_true ⟨tree, rfl⟩ rfl

theorem not_isReadable_nil : ¬ IsReadable [] := by
  rintro ⟨tree, h⟩
  cases h

def Parses (path : Path) (fs : System) : Prop :=
  ∃ text, fs.readText path = .ok text ∧ IsReadable text

theorem Parses.entry (h : Parses path fs) :
    ∃ text, fs.entry path = .ok (.file (.text text)) ∧ IsReadable text := by
  obtain ⟨text, hread, htext⟩ := h
  refine ⟨text, System.entry_of_readText hread fun hsink => ?_, htext⟩
  simp only [System.readText, hsink, Except.ok.injEq] at hread
  exact not_isReadable_nil (hread ▸ htext)

theorem parses_of_entry (h : fs.entry path = .ok (.file (.text text))) (ht : IsReadable text) :
    Parses path fs :=
  ⟨text, System.readText_of_entry h, ht⟩

theorem Parses.changed (h : Parses path fs) (hl : fs.Leads (candidatePath path c) place)
    (hc : fs.ChangedAt fs' place) : Parses path fs' := by
  obtain ⟨text, hentry, htext⟩ := h.entry
  exact parses_of_entry (entry_of_changedAt_candidate hl hc rfl hentry) htext

/-- A device would have swallowed what was written, and nothing could be read there. -/
theorem readable_of_written (hw : fs.writeText (candidatePath path c) text = .ok fs')
    (h : Parses (candidatePath path c) fs') : IsReadable text := by
  obtain ⟨text', hread, htext⟩ := h
  obtain rfl | rfl := System.readText_of_writeText fileName?_candidatePath hw hread
  · exact htext
  · exact absurd htext not_isReadable_nil

-- ---------------------------------------------------------------------------
-- Guarded policies
-- ---------------------------------------------------------------------------

/-- The policy, if it changes files, does not spoil this one. -/
def Policy.Spares (policy : Policy σ) (path : Path) : Prop :=
  ∀ fs candidate state, Parses path fs → Parses path (policy.judge fs candidate state).1.files

/-- The policy passes only candidates that can be read. -/
def Policy.Guards (policy : Policy σ) : Prop :=
  ∀ fs candidate state, (policy.judge fs candidate state).1.verdict = .ok true →
    Parses candidate fs

theorem Policy.ReadOnly.spares (h : inner.ReadOnly) (path : Path) : inner.Spares path := by
  intro fs candidate state hfs
  rwa [h fs candidate state]

theorem Policy.Spares.guarded (h : inner.Spares path) (reader : Reader) :
    (Policy.guarded reader inner).Spares path := by
  intro fs candidate state hfs
  unfold Policy.guarded
  dsimp only
  cases fs.readText candidate with
  | error error => exact hfs
  | ok text =>
    dsimp only
    cases reader text with
    | error error => exact hfs
    | ok tree => exact h fs candidate state hfs

theorem guards_guarded (inner : Policy σ) : (Policy.guarded Sexp.parseChars inner).Guards := by
  intro fs candidate state h
  unfold Policy.guarded at h
  dsimp only at h
  cases hread : fs.readText candidate with
  | error error =>
    rw [hread] at h
    cases h
  | ok text =>
    rw [hread] at h
    dsimp only at h
    cases htext : Sexp.parseChars text with
    | error error =>
      rw [htext] at h
      cases h
    | ok tree => exact ⟨text, hread, tree, htext⟩

-- ---------------------------------------------------------------------------
-- Guarded runs
-- ---------------------------------------------------------------------------

structure Sound (s : Subject σ) (p : Progress) (w : World σ) : Prop where
  parses : Parses s.path w.files
  accepted : ∀ c ∈ p.search.accepted, ∃ text, s.render c = .ok text ∧ IsReadable text

theorem evaluate_sound (hspares : s.experiment.policy.Spares s.path)
    (hguards : s.experiment.policy.Guards) (c : Combination) (h : Parses s.path w.files) :
    Parses s.path (s.evaluate c w).2.files ∧
      ((s.evaluate c w).1 = .ok true → ∃ text, s.render c = .ok text ∧ IsReadable text) := by
  unfold Subject.evaluate
  cases s.render c with
  | error error => exact ⟨h, nofun⟩
  | ok text =>
    rcases hw : w.files.writeText (candidatePath s.path c) text with error | files
    · simp only [hw]
      exact ⟨h, nofun⟩
    · obtain ⟨place, hl, hchanged, -⟩ := System.of_writeText fileName?_candidatePath hw
      have hjudged := hspares files (candidatePath s.path c) w.state (h.changed hl hchanged)
      have hpassed := hguards files (candidatePath s.path c) w.state
      rcases hj : s.experiment.policy.judge files (candidatePath s.path c) w.state
        with ⟨j, state⟩
      rw [hj] at hjudged hpassed
      rcases hr : j.files.removeFile (candidatePath s.path c) with error | left <;>
        simp only [hw, hj, hr]
      · exact ⟨hjudged, fun h => ⟨text, rfl, readable_of_written hw (hpassed h)⟩⟩
      · -- the policy may have moved directories, so the path may lead to another place now
        obtain ⟨place', hl'⟩ := System.exists_leads_of_removeFile hl.1 hr
        have hremoved := (System.of_removeFile fileName?_candidatePath hl' hr).1
        exact ⟨hjudged.changed hl' hremoved,
          fun h => ⟨text, rfl, readable_of_written hw (hpassed h)⟩⟩

theorem sound_steady (hspares : s.experiment.policy.Spares s.path)
    (hguards : s.experiment.policy.Guards) : Steady s (Sound s) fun _ => Sound s where
  look h := ⟨h.parses, h.accepted⟩
  note _ h := ⟨h.parses, h.accepted⟩
  propose _ h := ⟨h.parses, fun c hc => h.accepted c (Search.next_accepted ▸ hc)⟩
  cancelled h _ := h
  exceeded _ h _ := h
  failed c _ h _ _ := ⟨(evaluate_sound hspares hguards c h.parses).1, h.accepted⟩
  judged := by
    intro p w c passed h _ hjudged
    obtain ⟨hparses, haccepted⟩ := evaluate_sound hspares hguards c h.parses
    refine ⟨hparses, fun d hd => ?_⟩
    cases passed with
    | false => exact h.accepted d (by simpa [Search.record_accepted] using hd)
    | true =>
      rw [Search.record_accepted, if_pos rfl] at hd
      rcases List.mem_append.1 hd with hd | hd
      · exact h.accepted d hd
      · cases List.mem_singleton.1 hd
        exact haccepted hjudged

theorem Sound.commit (h : Sound s p w) : Parses s.path (commit s p w).2.files := by
  unfold Experiment.commit
  cases hbest : p.search.best? with
  | none => exact h.parses
  | some fragment =>
    obtain ⟨text, hrender, htext⟩ := h.accepted fragment (Search.best?_eq_some hbest).1
    simp only [hrender]
    rcases hw : w.files.writeText s.path text with error | files
    · exact h.parses
    · obtain ⟨before, hentry, -⟩ := h.parses.entry
      obtain ⟨name, hname⟩ := System.fileName_of_readText (System.readText_of_entry hentry)
      obtain ⟨place, -, -, hwritten⟩ := System.of_writeText hname hw
      exact parses_of_entry (hwritten (by simp [hentry])) htext

theorem searchFile_parses {source : List Char} {tree : Tree}
    (hspares : e.policy.Spares path) (hguards : e.policy.Guards) (h : Parses path w.files) :
    Parses path (searchFile o e path source tree w).2.files := by
  unfold searchFile
  dsimp only
  split
  · exact h
  · have hsteady : Steady ⟨e, path, source, tree⟩ (Sound ⟨e, path, source, tree⟩) _ :=
      sound_steady hspares hguards
    have hrounds := (hsteady.tryRounds
      (p := ⟨.start (e.query.search tree).length o.maxCombinations, 0, 0⟩)
      (w := w.note [entry .debug "searching combinations"
        [pathField path, ("occurrences", .number (e.query.search tree).length)]])
      (Nat.pow 2 (e.query.search tree).length + 2) ⟨h, nofun⟩).kept
    generalize tryRounds _ _ _ _ = r at hrounds
    obtain ⟨_ | status, p, w'⟩ := r
    · exact hrounds.commit
    · exact hrounds.parses

theorem files_logged (r : FileOutcome × World σ) : (logged r).2.files = r.2.files := by
  obtain ⟨entries, hlogged⟩ := exists_logged r
  rw [hlogged]
  rfl

/-- Whatever is searched for and put in its place, and whatever the inner policy says: under a
policy that first reads the candidates, a file that can be read before a run can be read after it.

The inner policy may change files, but does not itself make this one unreadable. -/
theorem runFile_parses (o : Options) (e : Experiment σ) (inner : Policy σ) (path : Path)
    (w : World σ) (hpolicy : e.policy = .guarded Sexp.parseChars inner)
    (hinner : inner.Spares path) (h : Parses path w.files) :
    Parses path (runFile o e path w).2.files := by
  have hspares : e.policy.Spares path := hpolicy ▸ hinner.guarded _
  have hguards : e.policy.Guards := hpolicy ▸ guards_guarded inner
  unfold runFile
  have hlook : w.look.2.files = w.files := rfl
  generalize w.look = r at hlook
  obtain ⟨cancelled, w'⟩ := r
  dsimp only at hlook
  rw [← hlook] at h
  cases cancelled with
  | true => exact h
  | false =>
    simp only [Bool.false_eq_true, if_false, files_logged]
    cases w'.files.readText path with
    | error error => exact h
    | ok source =>
      dsimp only
      cases e.reader source with
      | error error => exact h
      | ok tree => exact searchFile_parses hspares hguards h

def lenient : Policy Unit := .ofTextRule ⟨none, [], [], []⟩

def commenting (policy : Policy Unit) : Experiment Unit :=
  .ofRule "commenting".toList ⟨⟨"x".toList, .literal (.sym "x")⟩, ";$0".toList, none⟩ policy
    Sexp.parseChars []

def twoLines : World Unit :=
  ⟨⟨.directory (.cons ['f'] (.file (.text "(x 1)\n(x 2)".toList)) .nil), []⟩, false, [], (), []⟩

theorem runFile_parses_commenting :
    Parses ⟨['f']⟩ twoLines.files ∧
    ¬ Parses ⟨['f']⟩ (runFile .default (commenting lenient) ⟨['f']⟩ twoLines).2.files ∧
    Parses ⟨['f']⟩ (runFile .default (commenting (.guarded Sexp.parseChars lenient)) ⟨['f']⟩
      twoLines).2.files := by
  have hspares : lenient.Spares ⟨['f']⟩ := Policy.ReadOnly.spares (fun _ _ _ => rfl) _
  have hparses : Parses ⟨['f']⟩ twoLines.files :=
    ⟨"(x 1)\n(x 2)".toList, rfl, isReadable_iff.2 (by cbv)⟩
  refine ⟨hparses, ?_,
    runFile_parses .default (commenting (.guarded Sexp.parseChars lenient)) lenient ⟨['f']⟩
      twoLines rfl hspares hparses⟩
  have hread : (runFile .default (commenting lenient) ⟨['f']⟩ twoLines).2.files.readText ⟨['f']⟩ =
      .ok ";(x 1)\n;(x 2)".toList := by cbv
  have herror : (Sexp.parseChars ";(x 1)\n;(x 2)".toList).isOk = false := by cbv
  rintro ⟨text, htext, hreadable⟩
  rw [hread] at htext
  obtain rfl := Except.ok.inj htext
  rw [isReadable_iff, herror] at hreadable
  cases hreadable

end TreeQuery.Experiment
