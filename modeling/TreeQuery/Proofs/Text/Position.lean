import Mathlib.Data.List.DropRight
import Mathlib.Data.Prod.Lex
import Mathlib.Data.Set.Function
import TreeQuery.Proofs.Text.Utf8
import TreeQuery.Text.Position

/-!
# Positions of byte offsets

The position of an offset counts the line feeds, and the characters behind the last of them, in the
longest beginning of the text that ends at or before the offset. So positions go up from one
character boundary to the next, and stay where they are between two boundaries.
-/

namespace TreeQuery.Text

variable {a b source before after : List Char} {c : Char} {m n offset : Nat}

theorem length_le_width (cs : List Char) : cs.length ≤ width cs := by
  induction cs with
  | nil => rfl
  | cons c cs ih =>
    have := c.utf8Size_pos
    simp
    omega

theorem width_le_of_isPrefix (h : a <+: b) : width a ≤ width b := by
  obtain ⟨mid, rfl⟩ := h
  simp

theorem prefix_of_width_le (ha : a <+: source) (hb : b <+: source) (h : width a ≤ width b) :
    a <+: b := by
  obtain ⟨x, rfl⟩ := ha
  obtain ⟨y, hy⟩ := hb
  obtain ⟨mid, rfl, -⟩ := exists_append_of_width_le hy.symm h
  exact List.prefix_append a mid

theorem isBoundary_iff_isPrefix : isBoundary n source = true ↔ ∃ a, a <+: source ∧ width a = n := by
  rw [isBoundary_iff]
  constructor
  · rintro ⟨a, b, rfl, rfl⟩
    exact ⟨a, List.prefix_append a b, rfl⟩
  · rintro ⟨a, ⟨b, rfl⟩, rfl⟩
    exact ⟨a, b, rfl, rfl⟩

namespace Position

-- ---------------------------------------------------------------------------
-- The characters before an offset
-- ---------------------------------------------------------------------------

theorem whole_isPrefix (n : Nat) (source : List Char) : whole n source <+: source := by
  fun_induction whole n source with
  | case1 => exact List.nil_prefix
  | case2 n c cs hc ih => simpa using ih
  | case3 => exact List.nil_prefix

theorem width_whole_le (n : Nat) (source : List Char) : width (whole n source) ≤ n := by
  fun_induction whole n source with
  | case1 => simp
  | case2 n c cs hc ih =>
    simp
    omega
  | case3 => simp

theorem prefix_whole (ha : a <+: source) (hn : width a ≤ n) : a <+: whole n source := by
  induction a generalizing n source with
  | nil => exact List.nil_prefix
  | cons c a ih =>
    obtain ⟨b, rfl⟩ := ha
    simp at hn
    have hc : c.utf8Size ≤ n := by omega
    simpa [whole, hc] using ih (List.prefix_append a b) (by omega)

theorem eq_whole (ha : a <+: source) (hn : width a ≤ n)
    (hmax : ∀ b, b <+: source → width b ≤ n → width b ≤ width a) : whole n source = a :=
  (prefix_of_width_le (whole_isPrefix n source) ha
    (hmax _ (whole_isPrefix n source) (width_whole_le n source))).sublist.antisymm
      (prefix_whole ha hn).sublist

theorem whole_width (ha : a <+: source) : whole (width a) source = a :=
  eq_whole ha (Nat.le_refl _) fun _ _ h => h

theorem whole_mono (h : m ≤ n) : whole m source <+: whole n source :=
  prefix_whole (whole_isPrefix m source) ((width_whole_le m source).trans h)

theorem whole_of_width_le (h : width source ≤ n) : whole n source = source :=
  eq_whole (List.prefix_refl source) h fun _ hb _ => width_le_of_isPrefix hb

theorem whole_inside (hle : width before ≤ n) (hlt : n < width before + c.utf8Size) :
    whole n (before ++ c :: after) = before := by
  refine eq_whole (List.prefix_append _ _) hle fun b hb hn => ?_
  by_contra hwider
  obtain ⟨mid, rfl⟩ := prefix_of_width_le (List.prefix_append before (c :: after)) hb
    (Nat.le_of_not_le hwider)
  rw [List.prefix_append_right_inj] at hb
  cases mid with
  | nil => simp at hwider
  | cons d mid =>
    obtain ⟨rfl, -⟩ := List.cons_prefix_cons.1 hb
    simp at hn
    omega

-- ---------------------------------------------------------------------------
-- Counting
-- ---------------------------------------------------------------------------

theorem foldl_next (cs : List Char) : cs.foldl next start =
    ⟨1 + cs.count '\n', 1 + (cs.rtakeWhile (· != '\n')).length⟩ := by
  induction cs using List.reverseRecOn with
  | nil => rfl
  | append_singleton cs c ih =>
    rw [List.foldl_concat, ih, next]
    by_cases hc : c = '\n' <;> simp [hc, Nat.add_assoc]

theorem capped_foldl_next (h : width a < largest) :
    (a.foldl next start).capped = a.foldl next start := by
  have hlines : a.count '\n' ≤ a.length := List.count_le_length
  have hcolumns : (a.rtakeWhile (· != '\n')).length ≤ a.length :=
    (List.rtakeWhile_suffix _ a).length_le
  have hlength := length_le_width a
  rw [foldl_next, capped]
  congr 1 <;> simp <;> omega

/-- Positions by their lines, and on one line by their columns. -/
def lex (p : Position) : Nat ×ₗ Nat := toLex (p.line, p.column)

theorem lex_lt_next (p : Position) (c : Char) : p.lex < (p.next c).lex := by
  unfold next lex
  split <;> simp [Prod.Lex.toLex_lt_toLex]

theorem lex_le_foldl (p : Position) (cs : List Char) : p.lex ≤ (cs.foldl next p).lex := by
  induction cs generalizing p with
  | nil => exact le_refl _
  | cons c cs ih => exact (lex_lt_next p c).le.trans (ih _)

theorem lex_le_of_isPrefix (h : a <+: b) :
    (a.foldl next start).lex ≤ (b.foldl next start).lex := by
  obtain ⟨mid, rfl⟩ := h
  rw [List.foldl_append]
  exact lex_le_foldl _ mid

theorem lex_lt_of_isPrefix (h : a <+: b) (hlt : width a < width b) :
    (a.foldl next start).lex < (b.foldl next start).lex := by
  obtain ⟨mid, rfl⟩ := h
  cases mid with
  | nil => simp at hlt
  | cons c mid =>
    rw [List.foldl_append]
    exact (lex_lt_next _ c).trans_le (lex_le_foldl _ mid)

theorem ofOffset_eq (h : width source < largest) :
    ofOffset source offset = (whole offset source).foldl next start := by
  exact capped_foldl_next (lt_of_le_of_lt (width_le_of_isPrefix (whole_isPrefix offset source)) h)

/-- The numbers of a position count line feeds and characters before the offset; positions do not go
down, stay within a character and behind the end, and go up from boundary to boundary. -/
theorem ofOffset_counts (h : width source < 4294967295) :
    (∀ offset, ∃ before, before <+: source ∧ width before ≤ min offset (width source) ∧
      (∀ a, a <+: source → width a ≤ min offset (width source) → a <+: before) ∧
      ofOffset source offset =
        ⟨1 + before.count '\n', 1 + (before.rtakeWhile (· != '\n')).length⟩) ∧
    Monotone (fun offset => (ofOffset source offset).lex) ∧
    (∀ before c after offset, source = before ++ c :: after → width before ≤ offset →
      offset < width before + c.utf8Size →
      ofOffset source offset = ofOffset source (width before)) ∧
    (∀ offset, width source ≤ offset → ofOffset source offset = ofOffset source (width source)) ∧
    StrictMonoOn (fun offset => (ofOffset source offset).lex)
      {offset | isBoundary offset source = true} ∧
    Set.InjOn (ofOffset source) {offset | isBoundary offset source = true} := by
  have hstrict : StrictMonoOn (fun offset => (ofOffset source offset).lex)
      {offset | isBoundary offset source = true} := by
    intro m hm n hn hlt
    obtain ⟨a, ha, rfl⟩ := isBoundary_iff_isPrefix.1 hm
    obtain ⟨b, hb, rfl⟩ := isBoundary_iff_isPrefix.1 hn
    simp only [ofOffset_eq h, whole_width ha, whole_width hb]
    exact lex_lt_of_isPrefix (prefix_of_width_le ha hb hlt.le) hlt
  refine ⟨fun offset => ?_, fun m n hmn => ?_, ?_, fun offset hend => ?_, hstrict, ?_⟩
  · have hwidth := width_le_of_isPrefix (whole_isPrefix offset source)
    refine ⟨whole offset source, whole_isPrefix offset source,
      le_min (width_whole_le offset source) hwidth, fun a ha hle => ?_, ?_⟩
    · exact prefix_whole ha (hle.trans (min_le_left _ _))
    · rw [ofOffset_eq h, foldl_next]
  · simp only [ofOffset_eq h]
    exact lex_le_of_isPrefix (whole_mono hmn)
  · rintro before c after offset rfl hle hlt
    rw [ofOffset_eq h, ofOffset_eq h, whole_inside hle hlt, whole_width (List.prefix_append _ _)]
  · rw [ofOffset_eq h, ofOffset_eq h, whole_of_width_le hend, whole_of_width_le (Nat.le_refl _)]
  · intro m hm n hn heq
    exact hstrict.injOn hm hn (congrArg lex heq)

theorem ofOffset_counts_accent : width ['é', '\n', 'b'] < 4294967295 ∧
    ofOffset ['é', '\n', 'b'] 1 = ofOffset ['é', '\n', 'b'] 0 ∧
    ofOffset ['é', '\n', 'b'] 9 = ofOffset ['é', '\n', 'b'] 4 ∧
    (ofOffset ['é', '\n', 'b'] 2).lex < (ofOffset ['é', '\n', 'b'] 3).lex := by
  have hwidth : width ['é', '\n', 'b'] < 4294967295 := by decide
  obtain ⟨-, -, hinside, hbehind, hstrict, -⟩ := ofOffset_counts hwidth
  exact ⟨hwidth, hinside [] 'é' ['\n', 'b'] 1 rfl (by decide) (by decide), hbehind 9 (by decide),
    hstrict (a := 2) (b := 3) (by decide) (by decide) (by decide)⟩

end Position

end TreeQuery.Text
