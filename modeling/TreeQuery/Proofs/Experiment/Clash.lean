import TreeQuery.Proofs.Experiment.Candidate
import TreeQuery.Proofs.Number.Integer
import TreeQuery.Proofs.Text.Class

/-!
# When two files have a candidate in common

The name of a candidate is the file's own name with the members of the combination before it, so
it does not tell where the members end. Two files of one directory have a candidate in common if
one of the names is the other one with numbers before it, and in no other way
(`candidatePath_eq_iff`).
-/

namespace TreeQuery

/-- The numbers before a name, an underscore behind each. -/
def numbered (ns : List Nat) (name : List Char) : List Char :=
  ns.foldr (fun n rest => Number.decimal n ++ '_' :: rest) name

section Numbered

variable {ns ms ks : List Nat} {name other : List Char} {n m : Nat}

@[simp] theorem numbered_nil : numbered [] name = name := rfl

@[simp] theorem numbered_cons :
    numbered (n :: ns) name = Number.decimal n ++ '_' :: numbered ns name := rfl

@[simp] theorem numbered_append : numbered (ns ++ ks) name = numbered ns (numbered ks name) :=
  List.foldr_append

theorem numbered_cons_inj :
    numbered (n :: ns) name = numbered (m :: ms) other ↔
      n = m ∧ numbered ns name = numbered ms other := by
  constructor
  · intro h
    have htake (k : Nat) (rest : List Char) :
        (Number.decimal k ++ '_' :: rest).takeWhile Char.isDigit = Number.decimal k :=
      (Text.Ends.cons rfl).takeWhile fun _ => Number.isDigit_of_mem_decimal
    rw [numbered_cons, numbered_cons] at h
    have hdigits : Number.decimal n = Number.decimal m := by
      rw [← htake n, h, htake m]
    obtain rfl := Number.decimal_inj hdigits
    exact ⟨rfl, List.tail_eq_of_cons_eq (List.append_cancel_left h)⟩
  · rintro ⟨rfl, h⟩
    rw [numbered_cons, numbered_cons, h]

theorem numbered_eq_iff : numbered ns name = numbered ms other ↔
    (∃ ks, ms = ns ++ ks ∧ name = numbered ks other) ∨
      ∃ ks, ns = ms ++ ks ∧ other = numbered ks name := by
  induction ns generalizing ms with
  | nil =>
    constructor
    · exact fun h => .inl ⟨ms, rfl, h⟩
    · rintro (⟨ks, rfl, h⟩ | ⟨ks, h, rfl⟩)
      · exact h
      · obtain ⟨rfl, rfl⟩ := List.nil_eq_append_iff.1 h
        rfl
  | cons n ns ih =>
    cases ms with
    | nil =>
      constructor
      · exact fun h => .inr ⟨n :: ns, rfl, h.symm⟩
      · rintro (⟨ks, h, -⟩ | ⟨ks, rfl, h⟩)
        · cases h
        · exact h.symm
    | cons m ms =>
      rw [numbered_cons_inj, ih]
      simp only [List.cons_append, List.cons.injEq]
      constructor
      · rintro ⟨rfl, ⟨ks, rfl, h⟩ | ⟨ks, rfl, h⟩⟩
        · exact .inl ⟨ks, ⟨rfl, rfl⟩, h⟩
        · exact .inr ⟨ks, ⟨rfl, rfl⟩, h⟩
      · rintro (⟨ks, ⟨rfl, rfl⟩, h⟩ | ⟨ks, ⟨rfl, rfl⟩, h⟩)
        · exact ⟨rfl, .inl ⟨ks, rfl, h⟩⟩
        · exact ⟨rfl, .inr ⟨ks, rfl, h⟩⟩

end Numbered

namespace Experiment

open File (Path)

variable {p q : Path} {f g : List Char} {c d : Combination}

theorem label_append (h : c.indices ≠ []) (name : List Char) :
    c.label ++ '_' :: name = numbered c.indices name := by
  unfold Combination.label
  generalize c.indices = indices at h ⊢
  induction indices with
  | nil => exact absurd rfl h
  | cons n ns ih =>
    cases ns with
    | nil => simp
    | cons m ms =>
      have := ih (List.cons_ne_nil m ms)
      simp only [List.map_cons, List.intersperse_cons_cons, List.flatten_cons, List.append_assoc,
        List.nil_append, List.cons_append, numbered_cons] at this ⊢
      rw [this]

theorem candidateName_eq (hp : p.fileName? = some f) (hc : c.indices ≠ []) :
    candidateName p c = candidatePrefix ++ numbered c.indices f := by
  rw [candidateName, hp, Option.getD_some, List.append_assoc, label_append hc]

theorem candidatePath_eq_iff_name (hdir : p.parent = q.parent) (hp : p.fileName? = some f)
    (hq : q.fileName? = some g) :
    candidatePath p c = candidatePath q d ↔ candidateName p c = candidateName q d := by
  have hbeside : p.beside = q.beside := by simp [Path.beside, hp, hq, hdir]
  rw [candidatePath_eq, candidatePath_eq, Path.sibling_eq, Path.sibling_eq, hbeside]
  exact ⟨Path.join_inj _, fun h => h ▸ rfl⟩

/-- Two files of one directory have a candidate in common if and only if the name of one is the
name of the other with numbers before it, and these are what the combination of the other has
behind the members that both have. Without such numbers the files and the combinations are the
same. -/
theorem candidatePath_eq_iff (hdir : p.parent = q.parent) (hp : p.fileName? = some f)
    (hq : q.fileName? = some g) (hc : c.indices ≠ []) (hd : d.indices ≠ []) :
    candidatePath p c = candidatePath q d ↔
      (∃ ks, d.indices = c.indices ++ ks ∧ f = numbered ks g) ∨
        ∃ ks, c.indices = d.indices ++ ks ∧ g = numbered ks f := by
  rw [candidatePath_eq_iff_name hdir hp hq, candidateName_eq hp hc, candidateName_eq hq hd,
    List.append_cancel_left_eq, numbered_eq_iff]

theorem candidatePath_eq_iff_two :
    candidatePath ⟨"d/2_f".toList⟩ (.singleton 1) =
      candidatePath ⟨"d/f".toList⟩ (.ofList [1, 2]) ∧
    candidatePath ⟨"d/2_f".toList⟩ (.singleton 1) ≠
      candidatePath ⟨"d/f".toList⟩ (.ofList [1, 3]) := by
  have htwo := candidatePath_eq_iff (p := ⟨"d/2_f".toList⟩) (q := ⟨"d/f".toList⟩)
    (f := "2_f".toList) (g := "f".toList) (c := .singleton 1) (d := .ofList [1, 2])
    (by decide) (by decide) (by decide) (by decide) (by decide)
  have hthree := candidatePath_eq_iff (p := ⟨"d/2_f".toList⟩) (q := ⟨"d/f".toList⟩)
    (f := "2_f".toList) (g := "f".toList) (c := .singleton 1) (d := .ofList [1, 3])
    (by decide) (by decide) (by decide) (by decide) (by decide)
  refine ⟨htwo.2 (.inl ⟨[2], by decide, by decide⟩), fun h => ?_⟩
  rcases hthree.1 h with ⟨ks, hks, hname⟩ | ⟨ks, hks, -⟩
  · have hsame : [1, 3] = 1 :: ks := hks
    cases hsame
    exact absurd hname (by decide)
  · have hsame : [1] = 1 :: 3 :: ks := hks
    cases hsame

/-- Two files of one directory can have a candidate in common. -/
theorem not_candidatePath_apart :
    ¬ ∀ (p q : Path) (f g : List Char) (c d : Combination), p.parent = q.parent →
      p.fileName? = some f → q.fileName? = some g → ¬ candidatePrefix <+: f →
      ¬ candidatePrefix <+: g → c.indices ≠ [] → d.indices ≠ [] →
      candidatePath p c = candidatePath q d → f = g ∧ c = d := by
  intro h
  have hsame := h ⟨"2_f".toList⟩ ⟨"f".toList⟩ "2_f".toList "f".toList (.singleton 1)
    (.ofList [1, 2]) (by decide) (by decide) (by decide) (by decide) (by decide) (by decide)
    (by decide) (by decide)
  exact absurd hsame.1 (by decide)

end Experiment

end TreeQuery
