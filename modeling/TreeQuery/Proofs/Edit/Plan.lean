import Mathlib.Data.List.Basic
import TreeQuery.Edit.Plan
import TreeQuery.Proofs.Text.Utf8

/-!
# What a plan does to a text

A plan is checked on neighbours only, after a stable sort, yet it applies exactly if no two of its
edits conflict (`Edit.Conflicts`, stated on bytes). Its output is given offset by offset:
insertions in the order of the plan, then the replacement that starts there, then the byte of the
source unless a replacement covers it (`Plan.apply_spec`).
-/

namespace TreeQuery

namespace Edit

/-- The edit replaces the byte at an offset. An insertion replaces none. -/
def Covers (e : Edit) (i : Nat) : Prop := e.span.start ≤ i ∧ i < e.span.stop

instance (e : Edit) (i : Nat) : Decidable (e.Covers i) :=
  inferInstanceAs (Decidable (_ ∧ _))

/-- The first edit inserts strictly inside what the second one replaces. -/
def Inside (a b : Edit) : Prop :=
  a.isInsertion = true ∧ b.span.start < a.span.start ∧ a.span.start < b.span.stop

def Conflicts (a b : Edit) : Prop := (∃ i, a.Covers i ∧ b.Covers i) ∨ a.Inside b ∨ b.Inside a

variable {a b : Edit}

theorem Conflicts.symm (h : a.Conflicts b) : b.Conflicts a := by
  rcases h with ⟨i, ha, hb⟩ | h | h
  · exact .inl ⟨i, hb, ha⟩
  · exact .inr (.inr h)
  · exact .inr (.inl h)

theorem isInsertion_iff : a.isInsertion = true ↔ a.span.start = a.span.stop := by
  simp [isInsertion, Span.isEmpty]

theorem before_iff : a.before b = true ↔ a.span.start < b.span.start ∨
    (a.span.start = b.span.start ∧ (a.isInsertion = true ∨ ¬ b.isInsertion = true)) := by
  simp [before]

theorem before_trans (a b c : Edit) (hab : a.before b = true) (hbc : b.before c = true) :
    a.before c = true := by
  rw [before_iff] at *
  grind

theorem before_total (a b : Edit) : (a.before b || b.before a) = true := by
  rw [Bool.or_eq_true, before_iff, before_iff]
  grind

theorem conflicts_iff_of_before (h : a.before b = true) :
    a.Conflicts b ↔ b.span.start < a.span.stop := by
  have ha := a.span.le
  have hb := b.span.le
  rw [before_iff, isInsertion_iff, isInsertion_iff] at h
  simp only [Conflicts, Covers, Inside, isInsertion_iff]
  constructor
  · rintro (⟨i, hai, hbi⟩ | hin | hin) <;> omega
  · intro hlt
    by_cases he : b.span.start = b.span.stop
    · exact .inr (.inr ⟨he, by omega, hlt⟩)
    · exact .inl ⟨b.span.start, by omega, by omega⟩

theorem fits_iff {source : List Char} : a.fits source = true ↔
    a.span.stop ≤ Text.width source ∧ Text.isBoundary a.span.start source = true ∧
      Text.isBoundary a.span.stop source = true := by
  simp only [fits, Bool.and_eq_true]
  exact ⟨fun h => ⟨Text.le_width_of_isBoundary h.2, h⟩, fun h => h.2⟩

end Edit

namespace Plan

variable {p : Plan} {l es : List Edit} {e : Edit} {source : List Char}

-- ---------------------------------------------------------------------------
-- The order of a plan
-- ---------------------------------------------------------------------------

theorem ordered_perm (p : Plan) : p.ordered.Perm p.edits := List.mergeSort_perm _ _

theorem pairwise_ordered (p : Plan) : p.ordered.Pairwise (fun a b => a.before b = true) :=
  List.pairwise_mergeSort Edit.before_trans Edit.before_total _

theorem filter_ordered (p : Plan) {f : Edit → Bool}
    (hf : ∀ a b, f a = true → f b = true → a.before b = true) :
    p.ordered.filter f = p.edits.filter f := by
  have hpair : (p.edits.filter f).Pairwise (fun a b => a.before b = true) :=
    List.pairwise_of_forall_mem_list fun a ha b hb =>
      hf a b (List.mem_filter.1 ha).2 (List.mem_filter.1 hb).2
  have hsub : (p.edits.filter f).Sublist p.ordered :=
    List.sublist_mergeSort Edit.before_trans Edit.before_total hpair
      List.filter_sublist
  have hfilter := hsub.filter f
  simp only [List.filter_filter, Bool.and_self] at hfilter
  exact (hfilter.eq_of_length (p.ordered_perm.filter f).length_eq.symm).symm

-- ---------------------------------------------------------------------------
-- Clashes of neighbours
-- ---------------------------------------------------------------------------

theorem clash?_eq_none_iff (hl : l.Pairwise (fun a b => a.before b = true)) :
    clash? l = none ↔ l.Pairwise (fun a b => a.span.stop ≤ b.span.start) := by
  induction l with
  | nil => simp [clash?]
  | cons a l ih =>
    obtain ⟨ha, hl⟩ := List.pairwise_cons.1 hl
    cases l with
    | nil => simp [clash?]
    | cons b rest =>
      have hb := (List.pairwise_cons.1 hl).1
      rw [clash?, List.pairwise_cons]
      split
      · next hlt =>
        simp only [reduceCtorEq, false_iff, not_and]
        intro h
        have := h b List.mem_cons_self
        omega
      · next hle =>
        rw [ih hl]
        refine ⟨fun h => ⟨fun c hc => ?_, h⟩, fun h => h.2⟩
        rcases List.mem_cons.1 hc with rfl | hc
        · omega
        · have := Edit.before_iff.1 (hb c hc)
          omega

theorem clash?_eq_some {first second : Span} (h : clash? l = some (first, second)) :
    ∃ a b, [a, b].Sublist l ∧ a.span = first ∧ b.span = second ∧
      b.span.start < a.span.stop := by
  induction l with
  | nil => simp [clash?] at h
  | cons a l ih =>
    cases l with
    | nil => simp [clash?] at h
    | cons b rest =>
      rw [clash?] at h
      split at h
      · next hlt =>
        simp only [Option.some.injEq, Prod.mk.injEq] at h
        exact ⟨a, b, by simp, h.1, h.2, hlt⟩
      · obtain ⟨c, d, hsub, hcd⟩ := ih h
        exact ⟨c, d, hsub.cons a, hcd⟩

theorem getElem?_of_sublist_perm {a b : Edit} {l' : List Edit} (hsub : [a, b].Sublist l)
    (hperm : l.Perm l') : ∃ i j : Nat, i ≠ j ∧ l'[i]? = some a ∧ l'[j]? = some b := by
  by_contra hnone
  have hapart : l'.Pairwise (fun x y => ¬ (x = a ∧ y = b ∨ x = b ∧ y = a)) := by
    rw [List.pairwise_iff_getElem]
    rintro i j hi hj hij (⟨hx, hy⟩ | ⟨hx, hy⟩)
    · exact hnone ⟨i, j, by omega, by simp [← hx], by simp [← hy]⟩
    · exact hnone ⟨j, i, by omega, by simp [← hy], by simp [← hx]⟩
  have hpair := ((hperm.pairwise_iff (by grind)).2 hapart).sublist hsub
  simp at hpair

theorem pairwise_not_conflicts_iff (p : Plan) :
    p.edits.Pairwise (fun a b => ¬ a.Conflicts b) ↔ clash? p.ordered = none := by
  rw [clash?_eq_none_iff p.pairwise_ordered,
    ← p.ordered_perm.pairwise_iff fun h hba => h hba.symm]
  constructor
  · intro h
    refine (p.pairwise_ordered.and h).imp fun hab => ?_
    rw [Edit.conflicts_iff_of_before hab.1] at hab
    exact Nat.not_lt.1 hab.2
  · intro h
    refine (p.pairwise_ordered.and h).imp fun hab => ?_
    rw [Edit.conflicts_iff_of_before hab.1]
    exact Nat.not_lt.2 hab.2

theorem apply_eq_ok_iff {output : List Char} : p.apply source = .ok output ↔
    (∀ e ∈ p.edits, e.fits source = true) ∧ clash? p.ordered = none ∧
      splice 0 source p.ordered = output := by
  unfold apply
  cases hfind : p.edits.find? fun e => !e.fits source with
  | some e =>
    have hmem := List.mem_of_find?_eq_some hfind
    have hbad := List.find?_some hfind
    simp only [reduceCtorEq, false_iff, not_and]
    intro h
    simp [h e hmem] at hbad
  | none =>
    have hall : ∀ e ∈ p.edits, e.fits source = true := by simpa using hfind
    cases hc : clash? p.ordered with
    | some spans => simp
    | none =>
      simp only [Except.ok.injEq, true_and]
      exact ⟨fun h => ⟨hall, h⟩, fun h => h.2⟩

-- ---------------------------------------------------------------------------
-- The output, offset by offset
-- ---------------------------------------------------------------------------

def insertsAt (i : Nat) (e : Edit) : Bool := e.isInsertion && e.span.start == i

def replacesFrom (i : Nat) (e : Edit) : Bool := !e.isInsertion && e.span.start == i

/-- What stands for the offset `i` in the output: what is inserted there, the replacement that
starts there, and the byte of the source if no replacement covers it. -/
def contentAt (source : List Char) (edits : List Edit) (i : Nat) : List UInt8 :=
  (edits.filter (insertsAt i)).flatMap (Text.bytes ·.text) ++
    (edits.find? (replacesFrom i)).elim [] (Text.bytes ·.text) ++
    if ∃ e ∈ edits, e.Covers i then [] else (Text.bytes source)[i]?.toList

variable {i : Nat}

theorem contentAt_of_lt (h : ∀ e ∈ es, i < e.span.start) :
    contentAt source es i = (Text.bytes source)[i]?.toList := by
  have hfilter : es.filter (insertsAt i) = [] := by
    rw [List.filter_eq_nil_iff]
    intro e he
    have := h e he
    simp only [insertsAt, Bool.and_eq_true, beq_iff_eq]
    omega
  have hfind : es.find? (replacesFrom i) = none := by
    rw [List.find?_eq_none]
    intro e he
    have := h e he
    simp only [replacesFrom, Bool.and_eq_true, beq_iff_eq]
    omega
  have hcovers : ¬ ∃ e ∈ es, e.Covers i := by
    rintro ⟨e, he, hc⟩
    exact absurd hc.1 (Nat.not_le.2 (h e he))
  simp [contentAt, hfilter, hfind, hcovers]

theorem contentAt_cons (hs : e.span.start ≠ i) (hc : ¬ e.Covers i) :
    contentAt source (e :: es) i = contentAt source es i := by
  simp [contentAt, insertsAt, replacesFrom, hs, hc]

theorem contentAt_insertion (he : e.isInsertion = true) :
    contentAt source (e :: es) e.span.start =
      Text.bytes e.text ++ contentAt source es e.span.start := by
  have hc : ¬ e.Covers e.span.start := by
    rw [Edit.isInsertion_iff] at he
    simp only [Edit.Covers]
    omega
  simp [contentAt, insertsAt, replacesFrom, he, hc]

theorem contentAt_replacement (he : ¬ e.isInsertion = true)
    (hes : ∀ x ∈ es, e.span.stop ≤ x.span.start) (hi : e.Covers i) :
    contentAt source (e :: es) i = if e.span.start = i then Text.bytes e.text else [] := by
  have hlt : ∀ x ∈ es, i < x.span.start := fun x hx => Nat.lt_of_lt_of_le hi.2 (hes x hx)
  have hfilter : es.filter (insertsAt i) = [] := by
    rw [List.filter_eq_nil_iff]
    intro x hx
    have := hlt x hx
    simp only [insertsAt, Bool.and_eq_true, beq_iff_eq]
    omega
  have hfind : es.find? (replacesFrom i) = none := by
    rw [List.find?_eq_none]
    intro x hx
    have := hlt x hx
    simp only [replacesFrom, Bool.and_eq_true, beq_iff_eq]
    omega
  have hcovers : ∃ x ∈ e :: es, x.Covers i := ⟨e, List.mem_cons_self, hi⟩
  rw [contentAt, if_pos hcovers]
  split
  · next hs => simp [insertsAt, replacesFrom, he, hs, hfilter]
  · next hs => simp [insertsAt, replacesFrom, he, hs, hfilter, hfind]

theorem flatMap_range'_bytes {bs : List UInt8} (s n : Nat) :
    (List.range' s n).flatMap (fun i => bs[i]?.toList) = (bs.drop s).take n := by
  induction n generalizing s with
  | zero => simp
  | succ n ih =>
    rw [List.range'_succ, List.flatMap_cons, ih]
    by_cases hs : s < bs.length
    · rw [List.drop_eq_getElem_cons hs, List.take_succ_cons, List.getElem?_eq_getElem hs]
      rfl
    · rw [List.getElem?_eq_none (Nat.not_lt.1 hs), List.drop_eq_nil_of_le (by omega),
        List.drop_eq_nil_of_le (Nat.not_lt.1 hs)]
      simp

theorem flatMap_contentAt_before {pre kept rest : List Char}
    (hsource : source = pre ++ kept ++ rest)
    (hes : ∀ x ∈ es, Text.width (pre ++ kept) ≤ x.span.start) :
    (List.range' (Text.width pre) (Text.width kept)).flatMap (contentAt source es) =
      Text.bytes kept := by
  have hcongr : ∀ i ∈ List.range' (Text.width pre) (Text.width kept),
      contentAt source es i = (Text.bytes source)[i]?.toList := by
    intro i hi
    rw [List.mem_range'_1] at hi
    refine contentAt_of_lt fun x hx => Nat.lt_of_lt_of_le hi.2 ?_
    simpa using hes x hx
  rw [List.flatMap_congr hcongr, flatMap_range'_bytes, hsource, List.append_assoc,
    Text.bytes_append, ← Text.length_bytes pre, List.drop_left, Text.bytes_append,
    ← Text.length_bytes kept, List.take_left]

theorem flatMap_contentAt_from (hes : ∀ x ∈ es, e.span.stop ≤ x.span.start) (n : Nat) :
    (List.range' e.span.start (e.span.length + (n + 1))).flatMap (contentAt source (e :: es)) =
      Text.bytes e.text ++
        (List.range' e.span.stop (n + 1)).flatMap (contentAt source es) := by
  have hle := e.span.le
  have hbehind : ∀ i, e.span.stop ≤ i → e.span.start ≠ i →
      contentAt source (e :: es) i = contentAt source es i :=
    fun i hi hs => contentAt_cons hs fun hc => Nat.not_lt.2 hi hc.2
  by_cases he : e.isInsertion = true
  · have hstop := Edit.isInsertion_iff.1 he
    have hlength : e.span.length = 0 := by
      simp only [Span.length]
      omega
    rw [hlength, Nat.zero_add, ← hstop, List.range'_succ, List.flatMap_cons, List.flatMap_cons,
      contentAt_insertion he, List.append_assoc]
    congr 2
    refine List.flatMap_congr fun i hi => ?_
    rw [List.mem_range'_1] at hi
    exact hbehind i (by omega) (by omega)
  · obtain ⟨m, hm⟩ : ∃ m, e.span.length = m + 1 := by
      rw [Edit.isInsertion_iff] at he
      exact ⟨e.span.length - 1, by simp only [Span.length]; omega⟩
    have hstop : e.span.start + e.span.length = e.span.stop := by
      simp only [Span.length]
      omega
    have hcovers : ∀ i, e.span.start ≤ i → i < e.span.start + (m + 1) → e.Covers i :=
      fun i hi hlt => ⟨hi, by omega⟩
    rw [← List.range'_append_1, List.flatMap_append, hstop, hm, List.range'_succ,
      List.flatMap_cons, contentAt_replacement he hes (hcovers _ (Nat.le_refl _) (by omega)),
      if_pos rfl]
    have hcovered :
        (List.range' (e.span.start + 1) m).flatMap (contentAt source (e :: es)) = [] := by
      rw [List.flatMap_eq_nil_iff]
      intro i hi
      rw [List.mem_range'_1] at hi
      rw [contentAt_replacement he hes (hcovers i (by omega) (by omega)), if_neg (by omega)]
    rw [hcovered, List.append_nil]
    congr 1
    refine List.flatMap_congr fun i hi => ?_
    rw [List.mem_range'_1] at hi
    exact hbehind i hi.1 (by omega)

theorem splice_cons {pos : Nat} {kept mid after : List Char}
    (hstart : pos + Text.width kept = e.span.start)
    (hstop : e.span.start + Text.width mid = e.span.stop) :
    splice pos (kept ++ (mid ++ after)) (e :: es) =
      kept ++ e.text ++ splice e.span.stop after es := by
  have hkept : e.span.start - pos = Text.width kept := by omega
  have hmid : e.span.length = Text.width mid := by
    simp only [Span.length]
    omega
  rw [splice, hkept, Text.cut?_append]
  simp only [Option.getD_some]
  rw [hmid, Text.cut?_append]
  simp

/-- Edits in order that start behind one another and lie on boundaries: the splice of what
follows an offset is the content of the offsets from there on. -/
theorem bytes_splice {es : List Edit} {pre rest : List Char}
    (hsource : source = pre ++ rest)
    (hfits : ∀ e ∈ es, e.fits source = true)
    (hpos : ∀ e ∈ es, Text.width pre ≤ e.span.start)
    (hapart : es.Pairwise (fun a b => a.span.stop ≤ b.span.start)) :
    Text.bytes (splice (Text.width pre) rest es) =
      (List.range' (Text.width pre) (Text.width rest + 1)).flatMap (contentAt source es) := by
  induction es generalizing pre rest with
  | nil =>
    have hcontent : contentAt source [] = fun i => (Text.bytes source)[i]?.toList :=
      funext fun i => contentAt_of_lt (by simp)
    rw [hcontent, flatMap_range'_bytes, hsource, Text.bytes_append, ← Text.length_bytes pre,
      List.drop_left, List.take_of_length_le (by simp)]
    rfl
  | cons e es ih =>
    obtain ⟨-, hstart, hstop⟩ := Edit.fits_iff.1 (hfits e List.mem_cons_self)
    obtain ⟨hnext, hapart⟩ := List.pairwise_cons.1 hapart
    have hle := e.span.le
    -- the edit cuts the rest in three
    rw [hsource] at hstart hstop
    obtain ⟨kept, tail, rfl, hkept⟩ := Text.exists_of_isBoundary_append hstart
      (hpos e List.mem_cons_self)
    rw [← List.append_assoc] at hstop
    obtain ⟨mid, after, rfl, hmid⟩ := Text.exists_of_isBoundary_append hstop (by omega)
    have hrest := ih (show source = pre ++ kept ++ mid ++ after by simp [hsource])
      (fun x hx => hfits x (List.mem_cons_of_mem _ hx)) (fun x hx => hmid ▸ hnext x hx) hapart
    have hbefore : (List.range' (Text.width pre) (Text.width kept)).flatMap
        (contentAt source (e :: es)) = Text.bytes kept := by
      refine flatMap_contentAt_before
        (show source = pre ++ kept ++ (mid ++ after) by simp [hsource]) ?_
      rintro x (_ | ⟨_, hx⟩)
      · exact Nat.le_of_eq hkept
      · rw [hkept]
        exact Nat.le_trans hle (hnext x hx)
    have hbegins : Text.width pre + Text.width kept = e.span.start := by
      rw [← Text.width_append, hkept]
    have hends : e.span.start + Text.width mid = e.span.stop := by
      rw [← hkept, ← Text.width_append, hmid]
    have hwidth : Text.width (kept ++ (mid ++ after)) + 1 =
        Text.width kept + (e.span.length + (Text.width after + 1)) := by
      simp only [Text.width_append, Span.length] at *
      omega
    have hafter : (List.range' (Text.width pre + Text.width kept)
        (e.span.length + (Text.width after + 1))).flatMap (contentAt source (e :: es)) =
        Text.bytes e.text ++ (List.range' (Text.width (pre ++ kept ++ mid))
          (Text.width after + 1)).flatMap (contentAt source es) := by
      rw [hbegins, flatMap_contentAt_from hnext, hmid]
    have hsplit := List.range'_append_1 (s := Text.width pre) (m := Text.width kept)
      (n := e.span.length + (Text.width after + 1))
    rw [splice_cons hbegins hends, ← hmid, Text.bytes_append, Text.bytes_append, hrest, hwidth,
      ← hsplit, List.flatMap_append, hbefore, hafter,
      List.append_assoc]

-- ---------------------------------------------------------------------------
-- Applying a plan
-- ---------------------------------------------------------------------------

theorem contentAt_ordered (p : Plan) (source : List Char) (i : Nat) :
    contentAt source p.ordered i = contentAt source p.edits i := by
  have hinsert : p.ordered.filter (insertsAt i) = p.edits.filter (insertsAt i) := by
    refine p.filter_ordered fun a b ha hb => Edit.before_iff.2 (.inr ?_)
    simp only [insertsAt, Bool.and_eq_true, beq_iff_eq] at ha hb
    exact ⟨ha.2.trans hb.2.symm, .inl ha.1⟩
  have hreplace : p.ordered.filter (replacesFrom i) = p.edits.filter (replacesFrom i) := by
    refine p.filter_ordered fun a b ha hb => Edit.before_iff.2 (.inr ?_)
    simp only [replacesFrom, Bool.and_eq_true, Bool.not_eq_true', beq_iff_eq] at ha hb
    exact ⟨ha.2.trans hb.2.symm, .inr (by simp [hb.1])⟩
  have hcovers : (∃ e ∈ p.ordered, e.Covers i) ↔ ∃ e ∈ p.edits, e.Covers i := by
    simp only [p.ordered_perm.mem_iff]
  simp only [contentAt, hinsert, ← List.head?_filter, hreplace, hcovers]

/-- A plan applies exactly if every span lies in the text on character boundaries and no two
edits conflict. The output says for every offset what stands there, and where the plan is refused
for an overlap, two edits with the reported spans do conflict. -/
theorem apply_spec (p : Plan) (source : List Char) :
    ((∃ output, p.apply source = .ok output) ↔
      (∀ e ∈ p.edits, e.span.stop ≤ Text.width source ∧
        Text.isBoundary e.span.start source = true ∧ Text.isBoundary e.span.stop source = true) ∧
      p.edits.Pairwise (fun a b => ¬ a.Conflicts b)) ∧
    (∀ output, p.apply source = .ok output → Text.bytes output =
      (List.range (Text.width source + 1)).flatMap (contentAt source p.edits)) ∧
    (∀ first second, p.apply source = .error (.overlap first second) →
      ∃ (i j : Nat) (a b : Edit), i ≠ j ∧ p.edits[i]? = some a ∧ p.edits[j]? = some b ∧
        a.span = first ∧ b.span = second ∧ a.Conflicts b) := by
  refine ⟨?_, fun output h => ?_, fun first second h => ?_⟩
  · simp only [apply_eq_ok_iff, pairwise_not_conflicts_iff, ← Edit.fits_iff]
    exact ⟨fun ⟨_, hfits, hc, _⟩ => ⟨hfits, hc⟩, fun ⟨hfits, hc⟩ => ⟨_, hfits, hc, rfl⟩⟩
  · obtain ⟨hfits, hclash, rfl⟩ := apply_eq_ok_iff.1 h
    have hapart := (clash?_eq_none_iff p.pairwise_ordered).1 hclash
    have hbytes := bytes_splice (show source = [] ++ source from rfl)
      (fun e he => hfits e (p.ordered_perm.mem_iff.1 he)) (fun e _ => Nat.zero_le _) hapart
    rw [List.range_eq_range', ← funext (contentAt_ordered p source)]
    exact hbytes
  · unfold apply at h
    split at h
    · cases h
    · split at h
      · next first' second' hclash =>
        simp only [Except.error.injEq, Fault.overlap.injEq] at h
        obtain ⟨rfl, rfl⟩ := h
        obtain ⟨a, b, hsub, ha, hb, hlt⟩ := clash?_eq_some hclash
        have hbefore : a.before b = true := by
          simpa using p.pairwise_ordered.sublist hsub
        obtain ⟨i, j, hij, hi, hj⟩ := getElem?_of_sublist_perm hsub p.ordered_perm
        exact ⟨i, j, a, b, hij, hi, hj, ha, hb, (Edit.conflicts_iff_of_before hbefore).2 hlt⟩
      · cases h

end Plan

end TreeQuery
