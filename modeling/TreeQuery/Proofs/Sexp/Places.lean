import TreeQuery.Proofs.Sexp.Source
import TreeQuery.Tree.Site

/-!
# Where values stand

The span of every value of a tree that was read is the place of a text that denotes it, and that
text says all about the value: read alone, it gives the same value again, moved to its own
beginning (`exact_of_parse`).
-/

namespace TreeQuery

open Text (width width_append)

namespace Tree

def Within (lo hi : Nat) (t : Tree) : Prop :=
  ∃ span, t.span = some span ∧ lo ≤ span.start ∧ span.stop ≤ hi

theorem Within.mono {t : Tree} {lo lo' hi hi' : Nat} (h : t.Within lo' hi') (hlo : lo ≤ lo')
    (hhi : hi' ≤ hi) : t.Within lo hi := by
  obtain ⟨span, hspan, hstart, hstop⟩ := h
  exact ⟨span, hspan, Nat.le_trans hlo hstart, Nat.le_trans hstop hhi⟩

def Before (t u : Tree) : Prop :=
  ∀ span span', t.span = some span → u.span = some span' → span.stop ≤ span'.start

end Tree

namespace Sexp

variable {pos n lo hi : Nat} {text tok pre rest source : List Char} {a : Scalar}
  {t u : Tree} {ts us : List Tree}

-- ---------------------------------------------------------------------------
-- Moving back
-- ---------------------------------------------------------------------------

theorem Items.exists_shift (n : Nat) (h : Items (pos + n) text ts) :
    ∃ us, Items pos text us ∧ Tree.shiftList n us = ts := by
  generalize hp : pos + n = p at h
  induction h generalizing pos with
  | nil => exact ⟨[], .nil pos, rfl⟩
  | @gap _ g _ _ hg _ ih =>
    obtain ⟨us, hus, rfl⟩ := ih (show pos + width g + n = _ by omega)
    exact ⟨us, .gap hg hus, rfl⟩
  | @leaf _ tok a _ _ htok _ ih =>
    obtain ⟨us, hus, rfl⟩ := ih (show pos + width tok + n = _ by omega)
    refine ⟨_, .leaf htok hus, ?_⟩
    rw [Tree.shiftList, Tree.shift, Option.map_some, Span.shift_between, hp]
  | @form _ g w _ body _ _ _ hg hw htag hbody _ _ ihcs ih =>
    obtain ⟨cs, hcs, rfl⟩ := ihcs (show pos + 1 + width g + width w + n = _ by omega)
    obtain ⟨us, hus, rfl⟩ := ih (show pos + width (formText g w body) + n = _ by omega)
    refine ⟨_, .form hg hw htag hbody hcs hus, ?_⟩
    rw [Tree.shiftList, Tree.shift, Option.map_some, Span.shift_between, hp]

theorem wrap_of_spans {first last : Span} (hlen : 2 ≤ ts.length)
    (ht : ts.head? = some t) (hfirst : t.span = some first)
    (hu : ts.getLast? = some u) (hlast : u.span = some last) :
    wrap ts = .ok (.node beginTag ts (some (Span.between first.start last.stop))) := by
  match ts with
  | v :: w :: ws =>
    cases ht
    simp only [wrap, hfirst, hu, Option.bind_some, hlast, Option.map_some, Option.getD_some]

theorem wrap_shiftList (h : ∀ t ∈ ts, t.span ≠ none) :
    wrap (Tree.shiftList n ts) = (wrap ts).map (Tree.shift n) := by
  by_cases hlen : 2 ≤ ts.length
  · have hne : ts ≠ [] := by
      rintro rfl
      simp at hlen
    obtain ⟨t, ht⟩ : ∃ t, ts.head? = some t := ⟨_, List.head?_eq_some_head hne⟩
    obtain ⟨u, hu⟩ : ∃ u, ts.getLast? = some u := ⟨_, List.getLast?_eq_some_getLast hne⟩
    obtain ⟨first, hfirst⟩ := Option.ne_none_iff_exists'.1 (h t (List.mem_of_head? ht))
    obtain ⟨last, hlast⟩ := Option.ne_none_iff_exists'.1 (h u (List.mem_of_getLast? hu))
    have hmoved {v : Tree} {span : Span} (hv : v.span = some span) :
        (v.shift n).span = some (span.shift n) := by
      simp [Tree.span_shift, hv]
    have ht' : (ts.map (Tree.shift n)).head? = some (t.shift n) := by simp [ht]
    have hu' : (ts.map (Tree.shift n)).getLast? = some (u.shift n) := by simp [hu]
    rw [wrap_of_spans hlen ht hfirst hu hlast, Tree.shiftList_eq_map,
      wrap_of_spans (by simpa using hlen) ht' (hmoved hfirst) hu' (hmoved hlast)]
    simp only [Except.map, Tree.shift, Option.map_some, Span.shift_between_offsets,
      Tree.shiftList_eq_map]
    rfl
  · match ts, hlen with
    | [], _ | [_], _ => rfl
    | _ :: _ :: _, hlen => simp at hlen

-- ---------------------------------------------------------------------------
-- Reading a part of a text
-- ---------------------------------------------------------------------------

theorem Items.reread (h : Items pos text ts) (hnodes : ∀ t ∈ ts, t.isNode = true)
    (hwrap : wrap ts = .ok t) : ∃ u, parseChars text = .ok u ∧ u.shift pos = t := by
  obtain ⟨us, hus, rfl⟩ := Items.exists_shift pos ((Nat.zero_add pos).symm ▸ h)
  rw [wrap_shiftList fun u hu => Tree.span_of_mem hus.spanned hu] at hwrap
  cases hu : wrap us with
  | error e => simp [hu, Except.map] at hwrap
  | ok u =>
    have hnodes' : ∀ v ∈ us, v.isNode = true := by
      rw [← Tree.forall_isNode_bareList, Tree.bareList_shiftList] at hnodes
      exact Tree.forall_isNode_bareList.1 hnodes
    have hread := parseChars_of_items .nil hus hnodes' hu (.gap .nil)
    rw [hu] at hwrap
    exact ⟨u, by simpa using hread, Except.ok.inj hwrap⟩

theorem Token.reread (h : Token rest tok a) :
    parseChars ("(x ".toList ++ (tok ++ [')'])) = .ok
      (.node "x" [.leaf a (some (Span.between 3 (3 + width tok)))]
        (some (Span.between 0 (width tok + 4)))) := by
  have hx : Word ['x'] := by
    refine ⟨List.cons_ne_nil _ _, fun c hc => ?_⟩
    cases List.mem_singleton.1 hc
    rfl
  have hspace : Gap [' '] := .blank rfl .nil
  have hbody : Items 2 ([' '] ++ (tok ++ []))
      [.leaf a (some (Span.between (2 + 1) (2 + 1 + width tok)))] :=
    .gap hspace (.leaf (Token.left (x := []) h) (.nil _))
  have hstops : Stops ([' '] ++ (tok ++ [])) := hspace.stops.congr rfl
  have htag : tag? ['x'] = some "x" := rfl
  have hform : Form 0 (formText [] ['x'] ([' '] ++ (tok ++ []))) _ :=
    .mk .nil hx htag hstops hbody
  have hwidth : width (formText [] ['x'] ([' '] ++ (tok ++ []))) = width tok + 4 := by
    simp [formText, Char.utf8Size]
    omega
  rw [hwidth, Nat.zero_add] at hform
  have hread := parseChars_of_items .nil hform.items (by simp [hform.isNode]) rfl (.gap .nil)
  simpa [formText] using hread

-- ---------------------------------------------------------------------------
-- Values in a text
-- ---------------------------------------------------------------------------

/-- What a value of a tree that was read can be, with the text that denotes it at an offset. -/
inductive Denotes (pos : Nat) : List Char → Tree → Prop
  | leaf {rest tok : List Char} {a : Scalar} : Token rest tok a →
      Denotes pos tok (.leaf a (some (Span.between pos (pos + width tok))))
  | form {text : List Char} {t : Tree} : Form pos text t → Denotes pos text t
  | forms {text : List Char} {ts : List Tree} : Items pos text ts →
      (∀ t ∈ ts, t.isNode = true) → text ≠ [] →
      wrap ts = .ok (.node beginTag ts (some (Span.between pos (pos + width text)))) →
      Denotes pos text (.node beginTag ts (some (Span.between pos (pos + width text))))

/-- The value is at the place in the source that its span tells. -/
def Stands (source : List Char) (t : Tree) : Prop :=
  ∃ pre text rest, source = pre ++ (text ++ rest) ∧ Denotes (width pre) text t

/-- Values at their places between two offsets, one behind the other. -/
structure Laid (source : List Char) (lo hi : Nat) (ts : List Tree) : Prop where
  stands : ∀ t ∈ ts, Stands source t
  within : ∀ t ∈ ts, t.Within lo hi
  ordered : ts.Pairwise Tree.Before

theorem Laid.nil : Laid source lo hi [] := ⟨nofun, nofun, .nil⟩

theorem Laid.mono {lo' hi' : Nat} (h : Laid source lo' hi' ts) (hlo : lo ≤ lo') (hhi : hi' ≤ hi) :
    Laid source lo hi ts :=
  ⟨h.stands, fun t ht => (h.within t ht).mono hlo hhi, h.ordered⟩

theorem Laid.cons (ht : Stands source t) (hspan : t.span = some (Span.between lo (lo + n)))
    (hhi : lo + n ≤ hi) (h : Laid source (lo + n) hi ts) : Laid source lo hi (t :: ts) := by
  have hrest := h.mono (Nat.le_add_right lo n) (Nat.le_refl hi)
  have hwithin : t.Within lo hi := ⟨_, hspan, by simp, by simpa using hhi⟩
  refine ⟨List.forall_mem_cons.2 ⟨ht, h.stands⟩, List.forall_mem_cons.2 ⟨hwithin, hrest.within⟩,
    List.pairwise_cons.2 ⟨fun u hu span span' hs hs' => ?_, h.ordered⟩⟩
  obtain ⟨_, hu, hstart, -⟩ := h.within u hu
  cases hspan.symm.trans hs
  cases hu.symm.trans hs'
  simpa using hstart

theorem Items.laid (h : Items pos text ts) (hsource : source = pre ++ (text ++ rest))
    (hpos : width pre = pos) : Laid source pos (pos + width text) ts := by
  induction h generalizing pre with
  | nil => exact .nil
  | @gap pos g tail ts _ _ ih =>
    have hlaid := ih (show source = pre ++ g ++ (tail ++ rest) by simp [hsource]) (by simp [hpos])
    exact hlaid.mono (by omega) (by simp; omega)
  | @leaf pos tok a tail ts htok _ ih =>
    have hlaid := ih (show source = pre ++ tok ++ (tail ++ rest) by simp [hsource]) (by simp [hpos])
    have hstands : Stands source (.leaf a (some (Span.between pos (pos + width tok)))) :=
      ⟨pre, tok, tail ++ rest, by simp [hsource], hpos ▸ .leaf htok⟩
    exact .cons hstands rfl (by simp) (hlaid.mono (Nat.le_refl _) (by simp; omega))
  | @form pos g w tag body cs tail ts hg hw htag hbody hcs _ _ ih =>
    have hlaid := ih (show source = pre ++ formText g w body ++ (tail ++ rest) by simp [hsource])
      (by simp [hpos])
    have hform := Form.mk hg hw htag hbody hcs
    have hstands : Stands source (.node tag cs
        (some (Span.between pos (pos + width (formText g w body))))) :=
      ⟨pre, formText g w body, tail ++ rest, by simp [hsource], .form (hpos.symm ▸ hform)⟩
    exact .cons hstands rfl (by simp) (hlaid.mono (Nat.le_refl _) (by simp; omega))

theorem Denotes.ne_nil (h : Denotes pos text t) : text ≠ [] := by
  cases h with
  | leaf h =>
    cases h with
    | word hw => exact hw.ne_nil
    | quoted => exact List.cons_ne_nil _ _
  | form h =>
    rintro rfl
    cases h.head?
  | forms _ _ h => exact h

theorem Denotes.span (h : Denotes pos text t) :
    t.span = some (Span.between pos (pos + width text)) := by
  cases h with
  | leaf => rfl
  | form h => exact h.span
  | forms => rfl

theorem Denotes.laid (h : Denotes pos text t) (hsource : source = pre ++ (text ++ rest))
    (hpos : width pre = pos) : Laid source pos (pos + width text) t.children := by
  cases h with
  | leaf => exact .nil
  | form h =>
    obtain @⟨g, w, tag, body, cs, hg, hw, htag, hbody, hcs⟩ := h
    have hbehind : source = (pre ++ '(' :: (g ++ w)) ++ (body ++ ')' :: rest) := by
      simp [hsource, formText]
    have hlaid := hcs.laid hbehind (by simp [hpos, Char.utf8Size]; omega)
    exact hlaid.mono (by omega) (by rw [← pos_formText]; omega)
  | forms h => exact h.laid hsource hpos

/-- A value of a source text: where its span is, what stands there, where its children are in it,
and what is read from it alone. -/
structure Exact (source : List Char) (t : Tree) (span : Span) (slice : List Char) : Prop where
  hasSpan : t.span = some span
  nonempty : span.start < span.stop
  start_boundary : Text.isBoundary span.start source = true
  stop_boundary : Text.isBoundary span.stop source = true
  inside : span.stop ≤ width source
  text : span.text? source = some slice
  within : ∀ c ∈ t.children, c.Within span.start span.stop
  ordered : t.children.Pairwise Tree.Before
  node : t.isNode = true → ∃ u, parseChars slice = .ok u ∧ u.shift span.start = t
  leaf : ∀ a s, t = .leaf a s → ∃ s s',
    parseChars ("(x ".toList ++ (slice ++ [')'])) = .ok (.node "x" [.leaf a s] s')

theorem Stands.exact (h : Stands source t) : ∃ span slice, Exact source t span slice := by
  obtain ⟨pre, text, rest, rfl, h⟩ := h
  have hwidth : width text ≠ 0 := mt Text.width_eq_zero.1 h.ne_nil
  have hstop := Text.isBoundary_append (pre ++ text) rest
  have hlaid := h.laid (show pre ++ (text ++ rest) = _ from rfl) rfl
  refine ⟨Span.between (width pre) (width pre + width text), text, ?_⟩
  constructor
  case hasSpan => exact h.span
  case nonempty =>
    rw [Span.start_between, Span.stop_between]
    omega
  case start_boundary => simpa using Text.isBoundary_append pre (text ++ rest)
  case stop_boundary => simpa using hstop
  case inside => simp
  case text => simpa [Span.text?] using Text.slice?_append pre text rest
  case within => simpa using hlaid.within
  case ordered => exact hlaid.ordered
  case node =>
    rw [Span.start_between]
    cases h with
    | leaf => nofun
    | form h => exact fun _ => h.items.reread (by simp [h.isNode]) rfl
    | forms h hnodes _ hwrap => exact fun _ => h.reread hnodes hwrap
  case leaf =>
    rintro a s rfl
    cases h with
    | leaf h => exact ⟨_, _, h.reread⟩
    | form h => cases h.isNode

theorem Stands.at? {path : List Nat} (h : Stands source t) (hu : t.at? path = some u) :
    Stands source u := by
  induction path generalizing t with
  | nil =>
    cases hu
    exact h
  | cons i path ih =>
    obtain ⟨c, hc, hu⟩ := Option.bind_eq_some_iff.1 hu
    obtain ⟨pre, text, rest, hsource, h⟩ := h
    exact ih ((h.laid hsource rfl).stands c (List.mem_of_getElem? hc)) hu

theorem stands_of_parse (h : parseChars source = .ok t) : Stands source t := by
  obtain ⟨g, text, tail, rfl, hg, htail, hroot⟩ := exists_root h
  refine ⟨g, text, tail, rfl, ?_⟩
  cases hroot with
  | form hform => exact .form hform
  | forms hitems hnodes hlen hhead =>
    obtain ⟨span, hwrap⟩ := wrap_of_two_le hlen
    have hparse := parseChars_of_items hg hitems hnodes hwrap htail
    rw [h] at hparse
    refine .forms hitems hnodes ?_ (hparse ▸ hwrap)
    rintro rfl
    cases hhead

/-- Every value of a tree that was read, the root among them, has an exact span: not empty, inside
the source, on character boundaries, around the spans of its children, which follow one another.
What stands there reads as the value itself. -/
theorem exact_of_parse {path : List Nat} (h : parseChars source = .ok t)
    (hu : t.at? path = some u) : ∃ span slice, Exact source u span slice :=
  ((stands_of_parse h).at? hu).exact

theorem exact_of_parse_quoted :
    ∃ t u, parseChars "(a \"é)\" nil);c\n(b)".toList = .ok t ∧ t.at? [0, 0] = some u ∧
      Exact "(a \"é)\" nil);c\n(b)".toList u (Span.between 3 8) "\"é)\"".toList := by
  let u : Tree := .leaf (.str "é)") (some (Span.between 3 8))
  let t : Tree := .node "begin"
    [.node "a" [u, .leaf .nil (some (Span.between 9 12))] (some (Span.between 0 13)),
      .node "b" [] (some (Span.between 16 19))] (some (Span.between 0 19))
  have hparse : parseChars "(a \"é)\" nil);c\n(b)".toList = .ok t := rfl
  have hu : t.at? [0, 0] = some u := rfl
  obtain ⟨span, slice, h⟩ := exact_of_parse hparse hu
  obtain rfl : Span.between 3 8 = span := Option.some.inj h.hasSpan
  obtain rfl : "\"é)\"".toList = slice := Option.some.inj h.text
  exact ⟨t, u, hparse, hu, h⟩

end Sexp

end TreeQuery
