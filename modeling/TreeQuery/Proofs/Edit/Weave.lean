import TreeQuery.Proofs.Edit.Plan

/-!
# Edits in order

`Weaves` relates a text, edits of it from left to right, insertions among them, and the text that
they make. It composes along the text, and does not depend on the offset at which the text starts.
A plan applies just if its edits, put in order, weave (`Plan.apply_eq_ok_iff_weaves`), and plans
one behind the other are put in order one by one (`Plan.ordered_flatten`).
-/

namespace TreeQuery

open Text (width width_append)

/-- The edits, each behind the one before it, turn the text at the offset into another one. -/
inductive Weaves : Nat → List Char → List Edit → List Char → Prop
  | done (pos : Nat) (text : List Char) : Weaves pos text [] text
  | edit {pos kept old rest new es out} : Weaves (pos + width kept + width old) rest es out →
      Weaves pos (kept ++ (old ++ rest))
        (Edit.replace (Span.between (pos + width kept) (pos + width kept + width old)) new :: es)
        (kept ++ (new ++ out))

variable {pos : Nat} {a b pre rest post text source out out' : List Char} {e : Edit}
  {es fs : List Edit}

namespace Edit

/-- The edit as one of the text from an offset on. -/
def since (n : Nat) (e : Edit) : Edit :=
  ⟨⟨e.span.start - n, e.span.stop - n, by have := e.span.le; omega⟩, e.text⟩

theorem since_replace_between (n start k : Nat) (new : List Char) :
    (replace (Span.between (n + start) (n + start + k)) new).since n =
      replace (Span.between start (start + k)) new := by
  simp only [since, replace, Span.between, Edit.mk.injEq, Span.mk.injEq, and_true]
  omega

theorem before_of_stop_le {a b : Edit} (h : a.span.stop ≤ b.span.start) : a.before b = true := by
  have := a.span.le
  rw [before_iff, isInsertion_iff]
  omega

theorem before_since {n : Nat} {a b : Edit} (ha : n ≤ a.span.start) (hb : n ≤ b.span.start) :
    a.before b = (a.since n).before (b.since n) := by
  have := a.span.le
  have := b.span.le
  rw [Bool.eq_iff_iff, before_iff, before_iff]
  simp only [isInsertion_iff, since]
  omega

end Edit

namespace Weaves

theorem keep (a : List Char) (h : Weaves (pos + width a) text es out) :
    Weaves pos (a ++ text) es (a ++ out) := by
  cases h with
  | done => exact .done _ _
  | edit hrest =>
    rw [Nat.add_assoc pos, ← width_append] at hrest ⊢
    rw [← List.append_assoc a, ← List.append_assoc a]
    exact .edit hrest

theorem append (ha : Weaves pos a es out) (hb : Weaves (pos + width a) b fs out') :
    Weaves pos (a ++ b) (es ++ fs) (out ++ out') := by
  induction ha with
  | done pos a => exact hb.keep a
  | edit _ ih =>
    rw [List.append_assoc, List.append_assoc, List.append_assoc, List.append_assoc]
    exact .edit (ih (by simpa [Nat.add_assoc] using hb))

theorem le_start (h : Weaves pos text es out) (he : e ∈ es) : pos ≤ e.span.start := by
  induction h with
  | done => cases he
  | edit _ ih =>
    rcases List.mem_cons.1 he with rfl | he
    · simp [Edit.replace]
    · have := ih he
      omega

theorem fits (h : Weaves pos text es out) (hsource : source = pre ++ text) (hpos : width pre = pos)
    (he : e ∈ es) : e.fits source = true := by
  induction h generalizing pre with
  | done => cases he
  | @edit pos kept old rest new es out _ ih =>
    subst hpos hsource
    rcases List.mem_cons.1 he with rfl | he
    · have hstart := Text.isBoundary_append (pre ++ kept) (old ++ rest)
      have hstop := Text.isBoundary_append (pre ++ kept ++ old) rest
      simp only [Edit.fits, Edit.replace, Span.start_between, Span.stop_between, Bool.and_eq_true]
      exact ⟨by simpa using hstart, by simpa [Nat.add_assoc] using hstop⟩
    · exact ih (show _ = pre ++ kept ++ old ++ rest by simp) (by simp only [width_append]) he

theorem pairwise (h : Weaves pos text es out) :
    es.Pairwise (fun a b => a.span.stop ≤ b.span.start) := by
  induction h with
  | done => exact .nil
  | edit hrest ih =>
    refine List.pairwise_cons.2 ⟨fun e he => ?_, ih⟩
    simpa [Edit.replace] using hrest.le_start he

theorem splice_eq (h : Weaves pos text es out) : Plan.splice pos text es = out := by
  induction h with
  | done => rfl
  | edit _ ih =>
    rw [Plan.splice_cons (by simp [Edit.replace]) (by simp [Edit.replace])]
    simp [Edit.replace, ih]

theorem since {n : Nat} (h : Weaves (n + pos) text es out) :
    Weaves pos text (es.map (Edit.since n)) out := by
  generalize hm : n + pos = m at h
  induction h generalizing pos with
  | done => exact .done _ _
  | @edit m kept old rest new es out _ ih =>
    subst hm
    have hrest := ih (show n + (pos + width kept + width old) = _ by omega)
    rw [List.map_cons, Nat.add_assoc n, Edit.since_replace_between]
    exact .edit hrest

end Weaves

theorem exists_weaves (hsource : source = pre ++ (text ++ post))
    (hfits : ∀ e ∈ es, e.fits source = true)
    (hwithin : ∀ e ∈ es, width pre ≤ e.span.start ∧ e.span.stop ≤ width pre + width text)
    (hapart : es.Pairwise (fun a b => a.span.stop ≤ b.span.start)) :
    ∃ out, Weaves (width pre) text es out := by
  induction es generalizing pre text with
  | nil => exact ⟨text, .done _ _⟩
  | cons e es ih =>
    obtain ⟨hnext, hapart⟩ := List.pairwise_cons.1 hapart
    obtain ⟨hfit, hfits⟩ := List.forall_mem_cons.1 hfits
    obtain ⟨⟨hlow, hhigh⟩, hwithin⟩ := List.forall_mem_cons.1 hwithin
    obtain ⟨-, hstart, hstop⟩ := Edit.fits_iff.1 hfit
    have hle := e.span.le
    -- the edit cuts the text in three
    rw [hsource] at hstart hstop
    obtain ⟨kept, tail, htail, hkept⟩ := Text.exists_of_isBoundary_append hstart hlow
    rw [htail, ← List.append_assoc] at hstop
    obtain ⟨old, after, rfl, hold⟩ := Text.exists_of_isBoundary_append hstop (by omega)
    rw [width_append] at hkept
    rw [width_append, width_append] at hold
    have hsplit : kept ++ old ++ after = text ++ post := by simp [htail]
    obtain ⟨rest, rfl, -⟩ :=
      Text.exists_append_of_width_le hsplit (by simp only [width_append]; omega)
    have hbehind : ∀ x ∈ es, width (pre ++ kept ++ old) ≤ x.span.start ∧
        x.span.stop ≤ width (pre ++ kept ++ old) + width rest := by
      intro x hx
      have hlow := hnext x hx
      have hhigh := (hwithin x hx).2
      simp only [width_append] at hhigh ⊢
      omega
    obtain ⟨out, hout⟩ := ih (show source = pre ++ kept ++ old ++ (rest ++ post) by simp [hsource])
      hfits hbehind hapart
    have he : e = Edit.replace (Span.between (width pre + width kept)
        (width pre + width kept + width old)) e.text := by
      rcases e with ⟨⟨start, stop, _⟩, new⟩
      simp only at hkept hold
      subst hkept hold
      simp [Edit.replace, Span.between]
    rw [he, List.append_assoc]
    rw [width_append, width_append] at hout
    exact ⟨_, .edit hout⟩

namespace Plan

/-- A plan applies just if its edits weave when they are put in order. -/
theorem apply_eq_ok_iff_weaves {p : Plan} :
    p.apply source = .ok out ↔ Weaves 0 source p.ordered out := by
  rw [apply_eq_ok_iff, clash?_eq_none_iff p.pairwise_ordered]
  have hsource : source = [] ++ source := rfl
  constructor
  · rintro ⟨hfits, hapart, hout⟩
    have hfits' : ∀ e ∈ p.ordered, e.fits source = true :=
      fun e he => hfits e (p.ordered_perm.mem_iff.1 he)
    have hwithin : ∀ e ∈ p.ordered, width [] ≤ e.span.start ∧
        e.span.stop ≤ width [] + width source := by
      intro e he
      have hstop := (Edit.fits_iff.1 (hfits' e he)).1
      simpa using hstop
    have hwhole : source = [] ++ (source ++ []) := by simp
    obtain ⟨out', hweaves⟩ := exists_weaves hwhole hfits' hwithin hapart
    have hsplice : splice 0 source p.ordered = out' := hweaves.splice_eq
    rw [hsplice] at hout
    exact hout ▸ hweaves
  · intro h
    exact ⟨fun e he => h.fits hsource rfl (p.ordered_perm.mem_iff.2 he), h.pairwise, h.splice_eq⟩

theorem filter_append_of_split {f : Edit → Bool} {l l' : List Edit} (hl : ∀ x ∈ l, f x = false)
    (hl' : ∀ x ∈ l', f x = true) : (l ++ l').filter f = l' := by
  rw [List.filter_append, List.filter_eq_nil_iff.2 fun x hx => by simp [hl x hx],
    List.filter_eq_self.2 hl', List.nil_append]

theorem ordered_append (h : ∀ a ∈ es, ∀ b ∈ fs, a.before b = true) :
    (Plan.mk (es ++ fs)).ordered = (Plan.mk es).ordered ++ (Plan.mk fs).ordered := by
  induction es with
  | nil => simp [ordered]
  | cons e es ih =>
    obtain ⟨he, hes⟩ := List.forall_mem_cons.1 h
    -- both sides put `e` behind just those of the others that do not come behind it
    obtain ⟨l, l', hall, hrest, hl⟩ := List.mergeSort_cons Edit.before_trans Edit.before_total e
      (es ++ fs)
    obtain ⟨k, k', hown, hsplit, hk⟩ := List.mergeSort_cons Edit.before_trans Edit.before_total e es
    have hl' : ∀ x ∈ l', e.before x = true := by
      have hsorted := (Plan.mk (e :: (es ++ fs))).pairwise_ordered
      rw [ordered, hall] at hsorted
      exact (List.pairwise_cons.1 (List.pairwise_append.1 hsorted).2.1).1
    have hk' : ∀ x ∈ k' ++ (Plan.mk fs).ordered, e.before x = true := by
      have hsorted := (Plan.mk (e :: es)).pairwise_ordered
      rw [ordered, hown] at hsorted
      intro x hx
      rcases List.mem_append.1 hx with hx | hx
      · exact (List.pairwise_cons.1 (List.pairwise_append.1 hsorted).2.1).1 x hx
      · exact he x ((Plan.mk fs).ordered_perm.mem_iff.1 hx)
    have hjoin : l ++ l' = k ++ (k' ++ (Plan.mk fs).ordered) := by
      rw [← hrest, ← List.append_assoc, ← hsplit]
      exact ih hes
    have hl'' := filter_append_of_split (by simpa using hl) hl'
    have hk'' := filter_append_of_split (by simpa using hk) hk'
    rw [hjoin, hk''] at hl''
    subst hl''
    rw [List.append_cancel_right hjoin] at hall
    simp only [ordered] at hall hown ⊢
    rw [List.cons_append, hall, hown]
    simp

theorem ordered_flatten {plans : List (List Edit)}
    (h : (plans.flatMap fun es => (Plan.mk es).ordered).Pairwise
      (fun a b => a.span.stop ≤ b.span.start)) :
    (Plan.mk plans.flatten).ordered = plans.flatMap fun es => (Plan.mk es).ordered := by
  induction plans with
  | nil => simp [ordered]
  | cons es plans ih =>
    rw [List.flatMap_cons] at h
    obtain ⟨-, hplans, hes⟩ := List.pairwise_append.1 h
    rw [List.flatten_cons, List.flatMap_cons, ordered_append, ih hplans]
    intro a ha b hb
    have ha' : a ∈ (Plan.mk es).ordered := (Plan.mk es).ordered_perm.mem_iff.2 ha
    have hb' : b ∈ (Plan.mk plans.flatten).ordered :=
      (Plan.mk plans.flatten).ordered_perm.mem_iff.2 hb
    rw [ih hplans] at hb'
    exact Edit.before_of_stop_le (hes a ha' b hb')

theorem ordered_since {n : Nat} (h : ∀ e ∈ es, n ≤ e.span.start) :
    (Plan.mk (es.map (Edit.since n))).ordered = (Plan.mk es).ordered.map (Edit.since n) := by
  have hbefore : ∀ a ∈ es, ∀ b ∈ es, a.before b = (a.since n).before (b.since n) := by
    intro a ha b hb
    exact Edit.before_since (h a ha) (h b hb)
  exact (List.map_mergeSort hbefore).symm

theorem apply_since {n : Nat} (h : Weaves n text (Plan.mk es).ordered out) :
    (Plan.mk (es.map (Edit.since n))).apply text = .ok out := by
  have hstart : ∀ e ∈ es, n ≤ e.span.start :=
    fun e he => h.le_start ((Plan.mk es).ordered_perm.mem_iff.2 he)
  rw [apply_eq_ok_iff_weaves, ordered_since hstart]
  exact Weaves.since (show Weaves (n + 0) text _ out from h)

end Plan

end TreeQuery
