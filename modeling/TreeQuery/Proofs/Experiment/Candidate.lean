import TreeQuery.Experiment.Runner
import TreeQuery.Proofs.File.System

/-!
# Names of candidates

The candidate of a combination is never the file itself (`candidateName_ne`), so the file stands as
it was whatever happens at the place of a candidate (`entry_of_changedAt_candidate`). For one file
no two combinations have the same candidate (`candidatePath_inj`).
-/

namespace TreeQuery

theorem Text.mem_join {separator : List Char} {pieces : List (List Char)} {c : Char}
    (h : c ∈ Text.join separator pieces) : c ∈ separator ∨ ∃ piece ∈ pieces, c ∈ piece := by
  induction pieces with
  | nil => cases h
  | cons piece pieces ih =>
    cases pieces with
    | nil => exact .inr ⟨piece, List.mem_cons_self, by simpa [Text.join] using h⟩
    | cons second rest =>
      have h : c ∈ piece ++ (separator ++ Text.join separator (second :: rest)) := h
      rcases List.mem_append.1 h with h | h
      · exact .inr ⟨piece, List.mem_cons_self, h⟩
      · rcases List.mem_append.1 h with h | h
        · exact .inl h
        · obtain hs | ⟨piece, hp, hc⟩ := ih h
          · exact .inl hs
          · exact .inr ⟨piece, List.mem_cons_of_mem _ hp, hc⟩

theorem Number.decimal_inj {m n : Nat} (h : decimal m = decimal n) : m = n := by
  have hread (k : Nat) : Nat.ofDigitChars 10 (decimal k) 0 = k := Nat.ofDigitChars_ten_toDigits
  rw [← hread m, h, hread n]

namespace Combination

variable {c d : Combination}

theorem splitOn_label (h : c.indices ≠ []) :
    c.label.splitOn '_' = c.indices.map Number.decimal := by
  refine List.splitOn_intercalate '_' ?_ (by simpa using h)
  intro digits hd
  obtain ⟨n, -, rfl⟩ := List.mem_map.1 hd
  exact Nat.underscore_not_in_toDigits

theorem label_ne_nil (h : c.indices ≠ []) : c.label ≠ [] := by
  intro hnil
  have hpieces := splitOn_label h
  rw [hnil, List.splitOn_nil] at hpieces
  have hmem : [] ∈ c.indices.map Number.decimal := hpieces ▸ List.mem_singleton_self []
  obtain ⟨n, -, hn⟩ := List.mem_map.1 hmem
  exact Nat.toDigits_ne_nil hn

theorem label_inj (h : c.label = d.label) : c = d := by
  suffices hi : c.indices = d.indices by
    cases c
    cases d
    cases hi
    rfl
  by_cases hc : c.indices = []
  · by_cases hd : d.indices = []
    · rw [hc, hd]
    · have hnil : c.label = [] := by simp [label, hc]
      exact absurd (h.symm.trans hnil) (label_ne_nil hd)
  · by_cases hd : d.indices = []
    · have hnil : d.label = [] := by simp [label, hd]
      exact absurd (h.trans hnil) (label_ne_nil hc)
    · have hpieces : c.indices.map Number.decimal = d.indices.map Number.decimal := by
        rw [← splitOn_label hc, ← splitOn_label hd, h]
      exact (List.map_inj_right fun m n => Number.decimal_inj).1 hpieces

theorem slash_not_mem_label : '/' ∉ c.label := by
  intro h
  rcases Text.mem_join h with h | ⟨digits, hd, h⟩
  · cases List.mem_singleton.1 h
  · obtain ⟨n, -, rfl⟩ := List.mem_map.1 hd
    cases Nat.isDigit_of_mem_toDigits (by decide) (by decide) h

end Combination

namespace Experiment

open File (Path)

variable {path : Path} {c d : Combination} {name : List Char}

def candidateName (path : Path) (c : Combination) : List Char :=
  candidatePrefix ++ c.label ++ '_' :: path.fileName?.getD []

theorem candidatePath_eq : candidatePath path c = path.sibling (candidateName path c) := rfl

theorem candidateName_eq_cons (path : Path) (c : Combination) :
    ∃ rest, candidateName path c = 'e' :: rest := ⟨_, rfl⟩

theorem isName_candidateName : Path.IsName (candidateName path c) := by
  constructor
  · unfold candidateName
    rw [List.mem_append, List.mem_append, List.mem_cons]
    rintro ((h | h) | h | h)
    · revert h
      decide
    · exact Combination.slash_not_mem_label h
    · cases h
    · cases hp : path.fileName? with
      | none => simp [hp] at h
      | some name =>
        obtain ⟨names, -, hn, -⟩ := Path.names_of_fileName? hp
        rw [hp] at h
        exact hn.1 h
  · obtain ⟨rest, h⟩ := candidateName_eq_cons path c
    simp [h, Path.isMeaningless]

theorem fileName?_candidatePath :
    (candidatePath path c).fileName? = some (candidateName path c) := by
  have hup : candidateName path c ≠ ['.', '.'] := by
    obtain ⟨rest, h⟩ := candidateName_eq_cons path c
    simp [h]
  rw [candidatePath_eq, Path.fileName?_sibling isName_candidateName hup]

theorem candidateName_ne (h : path.fileName? = some name) : candidateName path c ≠ name := by
  intro heq
  have := congrArg List.length heq
  simp only [candidateName, h, Option.getD_some, List.length_append, List.length_cons] at this
  omega

/-- Whatever stands at the path, a candidate stands at another place. -/
theorem sameFile_of_changedAt_candidate {fs fs' : File.System} {place : List File.Name}
    (hname : path.fileName? = some name) (hl : fs.Leads (candidatePath path c) place)
    (hc : fs.ChangedAt fs' place) : File.System.SameFile path fs fs' :=
  hc.sameFile fun _ hother =>
    hother.ne hl hname fileName?_candidatePath (candidateName_ne hname).symm

theorem entry_of_changedAt_candidate {fs fs' : File.System} {place : List File.Name}
    {e : File.Entry} (hl : fs.Leads (candidatePath path c) place) (hc : fs.ChangedAt fs' place)
    (he : e.isDirectory = false) (h : fs.entry path = .ok e) : fs'.entry path = .ok e := by
  obtain ⟨home, hhome, hsight⟩ := (File.System.entry_eq_ok_iff he).1 h
  obtain ⟨name, hname⟩ := File.System.exists_fileName hhome (by simp [hsight])
  exact (sameFile_of_changedAt_candidate hname hl hc e he).1 h

theorem candidatePath_inj (h : candidatePath path c = candidatePath path d) : c = d := by
  rw [candidatePath_eq, candidatePath_eq] at h
  have hname := Path.sibling_inj path h
  exact Combination.label_inj (List.append_cancel_left (List.append_cancel_right hname))

end Experiment

end TreeQuery
