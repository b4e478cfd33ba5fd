import TreeQuery.Proofs.Sexp.Reader
import TreeQuery.Proofs.Text.Utf8

/-!
# Where source errors point

Every lexeme begins at a character boundary (`Lexeme.isBoundary_of_mem_scan`), and every error
points at the start of a lexeme or at an end of the text, so at a boundary too
(`isBoundary_of_parse`).
-/

namespace TreeQuery.Sexp

open Text (width isBoundary)

namespace Lexeme

variable {s : State} {pos n : Nat} {c : Char} {cs source : List Char} {l : Lexeme}

def State.start? : State → Option Nat
  | .between | .comment => none
  | .word start _ | .quoted start _ | .escaped start _ => some start

def State.Behind (s : State) (pos : Nat) : Prop := ∀ n, s.start? = some n → n ≤ pos

theorem State.Behind.start (hs : s.Behind pos) (h : s.start? = some n) {stop : Nat}
    (hstop : pos ≤ stop) : s.start? = some (Span.between n stop).start := by
  rw [h]
  exact congrArg some (Nat.min_eq_left (Nat.le_trans (hs n h) hstop)).symm

theorem begin_start (h : l ∈ (begin pos c).1) : l.span.start = pos := by
  unfold begin at h
  split at h
  · cases h
    exact Span.start_between pos 1
  split at h
  · cases h
    exact Span.start_between pos 1
  split at h
  · cases h
  split at h
  · cases h
  split at h <;> cases h

theorem begin_start? (h : (begin pos c).2.start? = some n) : n = pos := by
  unfold begin at h
  split at h
  · cases h
  split at h
  · cases h
  split at h
  · cases h
    rfl
  split at h
  · cases h
  split at h <;> cases h
  rfl

theorem step_start (hs : s.Behind pos) (h : l ∈ (step pos c s).1) :
    l.span.start = pos ∨ s.start? = some l.span.start := by
  cases s with
  | between => exact .inl (begin_start (by simpa [step] using h))
  | comment => cases h
  | word start read =>
    simp only [step] at h
    split at h
    · cases h
    · rcases List.mem_cons.1 h with rfl | h
      · exact .inr (hs.start rfl (Nat.le_refl pos))
      · exact .inl (begin_start (by simpa using h))
  | quoted start read =>
    simp only [step] at h
    split at h
    · cases List.mem_singleton.1 h
      exact .inr (hs.start rfl (Nat.le_succ pos))
    · split at h <;> cases h
  | escaped start read => cases h

theorem step_start? (h : (step pos c s).2.start? = some n) : n = pos ∨ s.start? = some n := by
  cases s with
  | between => exact .inl (begin_start? h)
  | comment =>
    simp only [step] at h
    split at h <;> cases h
  | word start read =>
    simp only [step] at h
    split at h
    · exact .inr h
    · exact .inl (begin_start? h)
  | quoted start read =>
    simp only [step] at h
    split at h
    · cases h
    · split at h <;> exact .inr h
  | escaped start read => exact .inr h

theorem State.Behind.step (hs : s.Behind pos) : (step pos c s).2.Behind (pos + c.utf8Size) := by
  intro n h
  rcases step_start? h with rfl | h
  · exact Nat.le_add_right _ _
  · exact Nat.le_add_right_of_le (hs n h)

theorem finish_start (hs : s.Behind pos) (h : l ∈ finish pos s) :
    s.start? = some l.span.start := by
  cases s with
  | between => cases h
  | comment => cases h
  | word start read | quoted start read | escaped start read =>
    cases List.mem_singleton.1 h
    exact hs.start rfl (Nat.le_refl pos)

theorem start_of_mem_scanFrom (hs : s.Behind pos) (h : l ∈ scanFrom s pos cs) :
    s.start? = some l.span.start ∨
      ∃ before after, cs = before ++ after ∧ pos + width before = l.span.start := by
  induction cs generalizing s pos with
  | nil => exact .inl (finish_start hs h)
  | cons c cs ih =>
    rw [scanFrom_cons, List.mem_append] at h
    rcases h with h | h
    · rcases step_start hs h with h | h
      · exact .inr ⟨[], c :: cs, rfl, h.symm⟩
      · exact .inl h
    · rcases ih hs.step h with h | ⟨before, after, rfl, hwidth⟩
      · rcases step_start? h with h | h
        · exact .inr ⟨[], c :: cs, rfl, h.symm⟩
        · exact .inl h
      · exact .inr ⟨c :: before, after, rfl, by rw [← hwidth, Text.width_cons, Nat.add_assoc]⟩

theorem isBoundary_of_mem_scan (h : l ∈ scan source) : isBoundary l.span.start source = true := by
  have hbehind : State.between.Behind 0 := by rintro n ⟨⟩
  rcases start_of_mem_scanFrom hbehind h with h | ⟨before, after, rfl, hwidth⟩
  · cases h
  · exact Text.isBoundary_iff.2 ⟨before, after, rfl, by rw [← hwidth, Nat.zero_add]⟩

end Lexeme

variable {stop : Nat} {ls : List Lexeme} {os : List Open} {done : List Tree} {e : Error}
  {source : List Char}

theorem map_start_place (t : Tree) (os : List Open) (done : List Tree) :
    (place t os done).1.map Open.start = os.map Open.start := by
  cases os <;> rfl

/-- The reader points at the end, at a form that is open or at a lexeme that is still to come. -/
theorem forms_error (h : forms stop ls os done = .error e) :
    e.offset ∈ stop :: (os.map Open.start ++ ls.map (·.span.start)) := by
  fun_induction forms stop ls os done with
  | case1 => cases h
  | case5 | case11 | case13 => grind
  | case8 s rest o os done t os' done' hplace ih =>
    have hstart := map_start_place t os done
    rw [hplace] at hstart
    grind
  | _ =>
    cases h
    simp

theorem isBoundary_of_parse (h : parseChars source = .error e) :
    isBoundary e.offset source = true := by
  rw [parseChars] at h
  cases hforms : forms (width source) (Lexeme.scan source) [] [] with
  | error e' =>
    obtain rfl : e' = e := by simpa [hforms, Except.bind] using h
    rcases List.mem_cons.1 (forms_error hforms) with hstop | hstart
    · rw [hstop]
      exact Text.isBoundary_iff.2 ⟨source, [], (List.append_nil _).symm, rfl⟩
    · obtain ⟨l, hl, hstart⟩ := List.mem_map.1 hstart
      rw [← hstart]
      exact Lexeme.isBoundary_of_mem_scan hl
  | ok done =>
    rw [hforms] at h
    rcases hdone : done.reverse with _ | ⟨t, _ | ⟨u, us⟩⟩ <;>
      simp [Except.bind, wrap, hdone] at h
    subst h
    exact Text.isBoundary_iff.2 ⟨[], source, rfl, rfl⟩

end TreeQuery.Sexp
