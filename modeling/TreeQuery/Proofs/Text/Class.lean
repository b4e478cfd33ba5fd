import Mathlib.Data.List.TakeWhile
import TreeQuery.Text.Class

/-!
# Character classes are apart

No white space is a word character, so a name ends where white space begins. A run of one class
is taken whole from before a text that does not go on with the class.
-/

namespace TreeQuery.Text

variable {c : Char} {ranges : Array (Nat × Nat)}

theorem toNat_of_isDigit (h : c.isDigit = true) : 48 ≤ c.toNat ∧ c.toNat ≤ 57 := by
  simp only [Char.isDigit, Bool.and_eq_true, decide_eq_true_eq] at h
  exact ⟨UInt32.le_iff_toNat_le.1 h.1, UInt32.le_iff_toNat_le.1 h.2⟩

theorem isWord_of_isDigit (h : c.isDigit = true) : isWord c = true := by
  have hascii : c.toNat < 128 := by
    have := toNat_of_isDigit h
    omega
  simp [isWord, isNumeric, hascii, h]

theorem inRanges_eq_false (h : ∀ r ∈ ranges.toList, c.toNat < r.1 ∨ r.2 < c.toNat) :
    inRanges ranges c = false := by
  rw [inRanges, ← Array.any_toList, List.any_eq_false]
  intro r hr
  have := h r hr
  simp only [Bool.and_eq_true, decide_eq_true_eq]
  omega

def narrowSpaces : List Char := [' ', '\t', '\n', '\x0b', '\x0c', '\r']

def wideSpaces : List Nat :=
  [0x85, 0xa0, 0x1680, 0x2000, 0x2001, 0x2002, 0x2003, 0x2004, 0x2005, 0x2006, 0x2007, 0x2008,
   0x2009, 0x200a, 0x2028, 0x2029, 0x202f, 0x205f, 0x3000]

theorem isSpace_cases (h : isSpace c = true) :
    c ∈ narrowSpaces ∨ c.toNat ∈ wideSpaces := by
  have hc : ∀ d : Char, c.toNat = d.toNat → c = d := fun d => Char.toNat_inj.1
  simp only [isSpace, Bool.or_eq_true, Bool.and_eq_true, beq_iff_eq, decide_eq_true_eq] at h
  by_cases hascii : c.toNat < 128
  · left
    have hcode : c.toNat ∈ narrowSpaces.map Char.toNat := by
      simp [narrowSpaces]
      omega
    obtain ⟨d, hd, hcd⟩ := List.mem_map.1 hcode
    rwa [hc d hcd.symm]
  · right
    simp only [wideSpaces, List.mem_cons]
    omega

theorem isWord_of_isSpace (h : isSpace c = true) : isWord c = false := by
  rcases isSpace_cases h with hascii | hwide
  · have hnarrow : narrowSpaces.all (!isWord ·) = true := rfl
    simpa using List.all_eq_true.1 hnarrow c hascii
  · have hletters : ∀ n ∈ wideSpaces, ∀ r ∈ alphabeticRanges.toList, n < r.1 ∨ r.2 < n := by
      decide +kernel
    have hnumbers : ∀ n ∈ wideSpaces, ∀ r ∈ numericRanges.toList, n < r.1 ∨ r.2 < n := by
      decide +kernel
    have hlow : ∀ n ∈ wideSpaces, 128 ≤ n := by decide
    have hnascii : ¬ c.toNat < 128 := Nat.not_lt.2 (hlow _ hwide)
    have hline : c ≠ '_' := by
      rintro rfl
      exact hnascii (by decide)
    simp [isWord, isAlphabetic, isNumeric, hnascii, hline, inRanges_eq_false (hletters _ hwide),
      inRanges_eq_false (hnumbers _ hwide)]

theorem isSpace_of_isWord (h : isWord c = true) : isSpace c = false := by
  cases hspace : isSpace c with
  | false => rfl
  | true =>
    rw [isWord_of_isSpace hspace] at h
    cases h

-- ---------------------------------------------------------------------------
-- Runs
-- ---------------------------------------------------------------------------

variable {f : Char → Bool} {w x y : List Char}

def Ends (f : Char → Bool) (x : List Char) : Prop := ∀ c, x.head? = some c → f c = false

theorem Ends.nil : Ends f [] := nofun

theorem Ends.cons (h : f c = false) : Ends f (c :: x) := by
  rintro _ ⟨⟩
  exact h

theorem Ends.takeWhile (hx : Ends f x) (hw : ∀ c ∈ w, f c = true) : (w ++ x).takeWhile f = w := by
  rw [List.takeWhile_append_of_pos hw]
  cases x with
  | nil => simp
  | cons c x => rw [List.takeWhile_cons_of_neg (by simp [hx c rfl]), List.append_nil]

theorem Ends.dropWhile (hx : Ends f x) (hw : ∀ c ∈ w, f c = true) : (w ++ x).dropWhile f = x := by
  rw [List.dropWhile_append_of_pos hw]
  cases x with
  | nil => rfl
  | cons c x => rw [List.dropWhile_cons_of_neg (by simp [hx c rfl])]

theorem ends_iff : Ends f x ↔ x.takeWhile f = [] := by
  cases x with
  | nil => simp [Ends]
  | cons c x => simp [Ends, List.takeWhile_cons]

/-- The run at the start of a text does not go on in the next text. -/
def Contained (f : Char → Bool) (x y : List Char) : Prop := x.dropWhile f = [] → Ends f y

theorem Ends.contained (hy : Ends f y) (x : List Char) : Contained f x y :=
  fun _ => hy

theorem Contained.takeWhile (h : Contained f x y) :
    (x ++ y).takeWhile f = x.takeWhile f := by
  induction x with
  | nil => exact ends_iff.1 (h rfl)
  | cons c x ih =>
    cases hc : f c with
    | false => simp [hc]
    | true =>
      have hx : Contained f x y := by simpa [Contained, hc] using h
      simp [hc, ih hx]

theorem Contained.dropWhile (h : Contained f x y) :
    (x ++ y).dropWhile f = x.dropWhile f ++ y := by
  have hsplit : (x ++ y).takeWhile f ++ (x ++ y).dropWhile f =
      (x ++ y).takeWhile f ++ (x.dropWhile f ++ y) := by
    rw [List.takeWhile_append_dropWhile, h.takeWhile, ← List.append_assoc,
      List.takeWhile_append_dropWhile]
  exact List.append_cancel_left hsplit

theorem contained_of_length_le (h : ((x ++ y).takeWhile f).length ≤ x.length) :
    Contained f x y := by
  intro hx
  have hall : ∀ c ∈ x, f c = true := List.dropWhile_eq_nil_iff.1 hx
  rw [List.takeWhile_append_of_pos hall, List.length_append] at h
  exact ends_iff.2 (List.length_eq_zero_iff.1 (by omega))

theorem ends_dropWhile (f : Char → Bool) (x : List Char) : Ends f (x.dropWhile f) := by
  intro c hc
  have hnot := List.head?_dropWhile_not f x
  rw [hc] at hnot
  exact hnot

theorem ne_of_class {c d : Char} (hc : f c = true) (hd : f d = false) : c ≠ d := by
  rintro rfl
  rw [hc] at hd
  cases hd

end TreeQuery.Text
