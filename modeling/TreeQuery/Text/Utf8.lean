/-!
# Byte offsets in text

Text is a list of characters; positions in it are byte offsets of its UTF-8 encoding, which `bytes`
is. `width` measures a text, `cut?` splits it at an offset and fails off a character boundary, and
`slice?` takes the text between two offsets.
-/

namespace TreeQuery.Text

def width : List Char → Nat
  | [] => 0
  | c :: cs => c.utf8Size + width cs

@[simp] theorem width_nil : width [] = 0 := rfl

@[simp] theorem width_cons (c : Char) (cs : List Char) :
    width (c :: cs) = c.utf8Size + width cs := rfl

@[simp] theorem width_append (a b : List Char) : width (a ++ b) = width a + width b := by
  induction a with
  | nil => simp
  | cons c cs ih => simp [ih, Nat.add_assoc]

def bytes (cs : List Char) : List UInt8 := cs.flatMap String.utf8EncodeChar

@[simp] theorem bytes_nil : bytes [] = [] := rfl

@[simp] theorem bytes_append (a b : List Char) : bytes (a ++ b) = bytes a ++ bytes b :=
  List.flatMap_append

@[simp] theorem length_bytes (cs : List Char) : (bytes cs).length = width cs := by
  induction cs with
  | nil => rfl
  | cons c cs ih =>
    rw [bytes, List.flatMap_cons, List.length_append, ← bytes, ih, String.length_utf8EncodeChar]
    rfl

/-- The text before and after a byte offset, if the offset is a character boundary. -/
def cut? : Nat → List Char → Option (List Char × List Char)
  | 0, cs => some ([], cs)
  | _ + 1, [] => none
  | n + 1, c :: cs =>
    if c.utf8Size ≤ n + 1 then
      (cut? (n + 1 - c.utf8Size) cs).map fun (before, after) => (c :: before, after)
    else none

theorem cut?_eq_some_iff (n : Nat) (cs before after : List Char) :
    cut? n cs = some (before, after) ↔ cs = before ++ after ∧ width before = n := by
  fun_induction cut? n cs generalizing before with
  | case1 cs =>
    constructor
    · rintro h
      simp only [Option.some.injEq, Prod.mk.injEq] at h
      simp [← h.1, h.2]
    · rintro ⟨rfl, h⟩
      cases before with
      | nil => simp
      | cons c cs =>
        have := c.utf8Size_pos
        simp at h
        omega
  | case2 n =>
    simp only [reduceCtorEq, false_iff, not_and]
    intro h
    have := List.append_eq_nil_iff.1 h.symm
    simp [this.1]
  | case3 n c cs hc ih =>
    constructor
    · intro h
      obtain ⟨⟨b, a⟩, hb, he⟩ := Option.map_eq_some_iff.1 h
      simp only [Prod.mk.injEq] at he
      obtain ⟨rfl, rfl⟩ := he
      have := (ih b).1 hb
      simp [this.1]
      omega
    · rintro ⟨h, hw⟩
      cases before with
      | nil => simp at hw
      | cons d ds =>
        simp only [List.cons_append, List.cons.injEq] at h
        obtain ⟨rfl, rfl⟩ := h
        simp only [width_cons] at hw
        rw [(ih ds).2 ⟨rfl, by omega⟩]
        rfl
  | case4 n c cs hc =>
    simp only [reduceCtorEq, false_iff, not_and]
    rintro h hw
    cases before with
    | nil => simp at hw
    | cons d ds =>
      simp only [List.cons_append, List.cons.injEq] at h
      obtain ⟨rfl, rfl⟩ := h
      simp only [width_cons] at hw
      omega

def isBoundary (n : Nat) (cs : List Char) : Bool := (cut? n cs).isSome

/-- The text between two byte offsets, if both are boundaries in order. -/
def slice? (start stop : Nat) (cs : List Char) : Option (List Char) :=
  if start ≤ stop then
    (cut? start cs).bind fun (_, rest) => (cut? (stop - start) rest).map (·.1)
  else none

end TreeQuery.Text
