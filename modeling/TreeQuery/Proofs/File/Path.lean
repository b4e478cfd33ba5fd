import TreeQuery.File.Path

/-!
# The names of a path

The file name of a path is its last name, unless that is `..` (`fileName?_eq`). A path that is put
together from a directory and a name has that name behind those of the directory (`names_join`).
-/

namespace TreeQuery

namespace Text

theorem split_eq_splitOn (separator : Char) (cs : List Char) :
    split separator cs = cs.splitOn separator := by
  induction cs with
  | nil => rfl
  | cons c cs ih =>
    rw [List.splitOn_cons_eq_if_modifyHead, split]
    by_cases hc : c = separator
    · simp [hc, ih]
    · cases h : cs.splitOn separator with
      | nil => exact absurd h (List.splitOn_ne_nil separator cs)
      | cons piece pieces => simp [hc, ih, h]

theorem not_mem_of_mem_split {separator : Char} {cs piece : List Char}
    (h : piece ∈ split separator cs) : separator ∉ piece := by
  induction cs generalizing piece with
  | nil =>
    cases List.mem_singleton.1 h
    exact List.not_mem_nil
  | cons c cs ih =>
    unfold split at h
    split at h
    · rcases List.mem_cons.1 h with rfl | h
      · exact List.not_mem_nil
      · exact ih h
    · next hc =>
      cases hs : split separator cs with
      | nil =>
        rw [hs] at h
        cases List.mem_singleton.1 h
        simpa using Ne.symm hc
      | cons p ps =>
        rw [hs] at h ih
        rcases List.mem_cons.1 h with rfl | h
        · rw [List.mem_cons, not_or]
          exact ⟨Ne.symm hc, ih List.mem_cons_self⟩
        · exact ih (List.mem_cons_of_mem _ h)

end Text

namespace File.Path

variable {p : Path} {name other : List Char}

def IsName (name : List Char) : Prop := '/' ∉ name ∧ isMeaningless name = false

instance : Decidable (IsName name) := inferInstanceAs (Decidable (_ ∧ _))

theorem segments_eq : p.segments = p.text.splitOn '/' := Text.split_eq_splitOn '/' p.text

theorem segments_ne_nil : p.segments ≠ [] := by
  rw [segments_eq]
  exact List.splitOn_ne_nil '/' p.text

theorem isName_of_mem_names (h : name ∈ p.names) : IsName name := by
  unfold names at h
  obtain ⟨hmem, hm⟩ := List.mem_filter.1 h
  exact ⟨Text.not_mem_of_mem_split hmem, by simpa using hm⟩

-- ---------------------------------------------------------------------------
-- A name behind a path
-- ---------------------------------------------------------------------------

theorem segments_join (p : Path) (hn : '/' ∉ name) : ∃ before,
    (p.join name).segments = before ++ [name] ∧
      before.filter (fun s => !isMeaningless s) = p.names := by
  have hone : name.splitOn '/' = [name] := List.splitOn_eq_singleton hn
  obtain ⟨text⟩ := p
  simp only [names, segments_eq, join]
  cases hlast : text.getLast? with
  | none =>
    cases List.getLast?_eq_none_iff.1 hlast
    exact ⟨[], hone, rfl⟩
  | some c =>
    obtain ⟨init, rfl⟩ := List.getLast?_eq_some_iff.1 hlast
    by_cases hc : c = '/'
    · -- the slash is there, and what stands behind it is empty
      subst hc
      refine ⟨init.splitOn '/', ?_, ?_⟩
      · simp only [List.append_assoc, List.singleton_append, List.splitOn_append_cons_self, hone]
      · rw [List.splitOn_append_cons_self, List.filter_append]
        simp [isMeaningless]
    · exact ⟨(init ++ [c]).splitOn '/', by simp only [List.splitOn_append_cons_self, hone], rfl⟩

theorem names_join (p : Path) (hn : IsName name) : (p.join name).names = p.names ++ [name] := by
  obtain ⟨before, hsegments, hbefore⟩ := p.segments_join hn.1
  rw [names, hsegments, List.filter_append, hbefore, List.filter_cons_of_pos (by simp [hn.2]),
    List.filter_nil]

theorem text_join_ne_nil (p : Path) (hn : IsName name) : (p.join name).text ≠ [] := by
  intro h
  have hnames := names_join p hn
  rw [show p.join name = ⟨[]⟩ from congrArg Path.mk h] at hnames
  exact List.append_ne_nil_of_right_ne_nil _ (List.cons_ne_nil _ _) hnames.symm

theorem mem_text_join {c : Char} (h : c ∈ (p.join name).text) :
    c ∈ p.text ∨ c = '/' ∨ c ∈ name := by
  unfold join at h
  split at h <;> grind

theorem join_inj (p : Path) (h : p.join name = p.join other) : name = other := by
  unfold join at h
  split at h <;> simpa using h

def beside (p : Path) : Path := if p.fileName?.isSome then p.parent else p

theorem sibling_eq (p : Path) (name : List Char) : p.sibling name = p.beside.join name := by
  unfold sibling beside
  split <;> rfl

theorem names_sibling (p : Path) (hn : IsName name) :
    (p.sibling name).names = p.beside.names ++ [name] := by
  rw [sibling_eq, names_join _ hn]

theorem sibling_inj (p : Path) (h : p.sibling name = p.sibling other) : name = other := by
  rw [sibling_eq, sibling_eq] at h
  exact join_inj _ h

-- ---------------------------------------------------------------------------
-- Below a path
-- ---------------------------------------------------------------------------

/-- The path that is reached by one name after the other. -/
def below (p : Path) (names : List (List Char)) : Path := names.foldl join p

theorem filter_dropWhile_meaningless (l : List (List Char)) :
    (l.dropWhile isMeaningless).filter (fun s => !isMeaningless s) =
      l.filter fun s => !isMeaningless s := by
  induction l with
  | nil => rfl
  | cons s l ih => cases h : isMeaningless s <;> simp [h, ih]

theorem getLast?_names :
    p.names.getLast? = (trimmed p.segments).getLast?.filter fun s => !isMeaningless s := by
  unfold names
  cases hs : p.segments with
  | nil => exact absurd hs segments_ne_nil
  | cons first rest =>
    have hfilter : rest.filter (fun s => !isMeaningless s) =
        ((rest.reverse.dropWhile isMeaningless).reverse).filter fun s => !isMeaningless s := by
      rw [List.filter_reverse, filter_dropWhile_meaningless, ← List.filter_reverse,
        List.reverse_reverse]
    rw [trimmed, List.filter_cons, hfilter]
    cases hr : rest.reverse.dropWhile isMeaningless with
    | nil => cases h : isMeaningless first <;> simp [h, Option.filter_some]
    | cons s l =>
      -- what is left behind the first segment ends in a name
      have hm : isMeaningless s = false := by
        have := List.head?_dropWhile_not isMeaningless rest.reverse
        simpa [hr] using this
      have hshape : first :: (s :: l).reverse = (first :: l.reverse) ++ [s] := by simp
      rw [hshape, List.getLast?_concat, Option.filter_some_pos (by simp [hm]), List.reverse_cons,
        List.filter_append, List.filter_cons_of_pos (by simp [hm]), List.filter_nil]
      split
      · rw [← List.cons_append, List.getLast?_concat]
      · rw [List.getLast?_concat]

theorem fileName?_eq : p.fileName? = p.names.getLast?.filter fun s => s != ['.', '.'] := by
  rw [getLast?_names, Option.filter_filter]
  unfold fileName?
  cases (trimmed p.segments).getLast? with
  | none => rfl
  | some s =>
    rw [Option.filter_some]
    cases h : isMeaningless s <;> by_cases hu : s = ['.', '.'] <;> simp [h, hu]

theorem names_of_fileName? (h : p.fileName? = some name) :
    ∃ names, p.names = names ++ [name] ∧ IsName name ∧ name ≠ ['.', '.'] := by
  rw [fileName?_eq, Option.filter_eq_some_iff] at h
  obtain ⟨names, hnames⟩ := List.getLast?_eq_some_iff.1 h.1
  exact ⟨names, hnames, isName_of_mem_names (hnames ▸ List.mem_concat_self), by simpa using h.2⟩

theorem names_of_fileName?_none (h : p.fileName? = none) :
    p.names = [] ∨ ∃ names, p.names = names ++ [['.', '.']] := by
  rw [fileName?_eq, Option.filter_eq_none_iff] at h
  rcases List.eq_nil_or_concat p.names with hnil | ⟨names, last, hnames⟩
  · exact .inl hnil
  · have hlast := h last (by rw [hnames, List.concat_eq_append, List.getLast?_concat])
    exact .inr ⟨names, by simpa [hnames] using hlast⟩

theorem fileName?_sibling (hn : IsName name) (hup : name ≠ ['.', '.']) :
    (p.sibling name).fileName? = some name := by
  rw [fileName?_eq, names_sibling p hn, List.getLast?_concat]
  exact Option.filter_some_pos (by simpa using hup)

theorem endsInDirectory_of_names_nil (h : p.names = []) : p.endsInDirectory = true := by
  unfold endsInDirectory
  cases hlast : p.segments.getLast? with
  | none => exact absurd (List.getLast?_eq_none_iff.1 hlast) segments_ne_nil
  | some last =>
    unfold names at h
    simpa using List.filter_eq_nil_iff.1 h last (List.mem_of_getLast? hlast)

end File.Path

end TreeQuery
