import TreeQuery.CommandLine.Arguments
import TreeQuery.Proofs.Text.Class

/-!
# Flags before the command

The words of a call are cut in two behind the flags for settings. `FlagWords` tells what stands
before the cut: flags with their values, of which the last may lack one at the end of the words. No
flag stands behind the cut (`split_spec`).
-/

namespace TreeQuery.CommandLine

open Settings (flags)

def IsFlag (cs : List Char) : Prop := cs ∈ flags

def IsInline (cs : List Char) : Prop := ∃ flag ∈ flags, ∃ value, cs = flag ++ '=' :: value

/-- Flags with their values, before the words of the command. -/
inductive FlagWords {α : Type} (text : α → List Char) (command : List α) : List α → Prop
  | nil : FlagWords text command []
  | inline {word words} : IsInline (text word) → FlagWords text command words →
      FlagWords text command (word :: words)
  | separate {word words} (value : α) : IsFlag (text word) → FlagWords text command words →
      FlagWords text command (word :: value :: words)
  | missing {word} : IsFlag (text word) → command = [] → FlagWords text command [word]

variable {α : Type} {text : α → List Char} {word : α} {rest : List α} {cs : List Char}

-- ---------------------------------------------------------------------------
-- One word
-- ---------------------------------------------------------------------------

theorem takeWhile_of_notMem (h : '=' ∉ cs) : cs.takeWhile (· != '=') = cs := by
  rw [List.takeWhile_eq_self_iff]
  rintro c hc
  simp
  rintro rfl
  exact h hc

theorem takeWhile_inline (h : '=' ∉ cs) (value : List Char) :
    (cs ++ '=' :: value).takeWhile (· != '=') = cs :=
  Text.Ends.takeWhile (.cons rfl) (List.takeWhile_eq_self_iff.1 (takeWhile_of_notMem h))

theorem notMem_of_isFlag (h : IsFlag cs) : '=' ∉ cs := by
  have hplain : flags.all (!·.contains '=') = true := rfl
  simpa using List.all_eq_true.1 hplain cs h

theorem classify_eq_inline_iff : classify cs = .inline ↔ IsInline cs := by
  constructor
  · intro h
    have heq : '=' ∈ cs := by
      by_contra heq
      unfold classify at h
      split at h <;> simp [heq] at h
    obtain ⟨flag, value, rfl, hflag⟩ := List.eq_append_cons_of_mem heq
    simp [classify, takeWhile_inline hflag] at h
    exact ⟨flag, h, value, rfl⟩
  · rintro ⟨flag, hflag, value, rfl⟩
    simpa [classify, takeWhile_inline (notMem_of_isFlag hflag)] using hflag

theorem classify_eq_separate_iff : classify cs = .separate ↔ IsFlag cs := by
  constructor
  · intro h
    have heq : '=' ∉ cs := by
      intro heq
      unfold classify at h
      split at h <;> simp [heq] at h
    simpa [classify, takeWhile_of_notMem heq, heq, IsFlag] using h
  · intro hflag
    have heq := notMem_of_isFlag hflag
    simpa [classify, takeWhile_of_notMem heq, heq, IsFlag] using hflag

theorem classify_eq_other_iff : classify cs = .other ↔ ¬ IsFlag cs ∧ ¬ IsInline cs := by
  rw [← classify_eq_separate_iff, ← classify_eq_inline_iff]
  cases classify cs <;> simp

-- ---------------------------------------------------------------------------
-- All words
-- ---------------------------------------------------------------------------

theorem splitFlags_stop (h : classify (text word) = .other) :
    splitFlags text false (word :: rest) = ([], word :: rest) := by
  simp [splitFlags, h]

theorem splitFlags_value : splitFlags text true (word :: rest) =
    (word :: (splitFlags text false rest).1, (splitFlags text false rest).2) := by
  simp [splitFlags]

theorem splitFlags_flag (h : classify (text word) ≠ .other) :
    splitFlags text false (word :: rest) =
      (word :: (splitFlags text (classify (text word) = .separate) rest).1,
        (splitFlags text (classify (text word) = .separate) rest).2) := by
  simp [splitFlags, h]

theorem splitFlags_append (text : α → List Char) (waiting : Bool) (words : List α) :
    (splitFlags text waiting words).1 ++ (splitFlags text waiting words).2 = words := by
  fun_induction splitFlags text waiting words with
  | case1 => rfl
  | case2 => rfl
  | case3 waiting word rest hflag flags command hrest ih => simpa [hrest] using ih

/-- The two states of the scan: between flags, and behind a flag that waits for its value. -/
theorem flagWords_splitFlags (text : α → List Char) (words : List α) :
    FlagWords text (splitFlags text false words).2 (splitFlags text false words).1 ∧
      ∀ flag, IsFlag (text flag) →
        FlagWords text (splitFlags text true words).2 (flag :: (splitFlags text true words).1) := by
  induction words with
  | nil => exact ⟨.nil, fun flag hflag => .missing hflag rfl⟩
  | cons word rest ih =>
    obtain ⟨hbetween, hbehind⟩ := ih
    constructor
    · cases hkind : classify (text word) with
      | other =>
        rw [splitFlags_stop hkind]
        exact .nil
      | inline =>
        rw [splitFlags_flag (by simp [hkind]), hkind]
        exact .inline (classify_eq_inline_iff.1 hkind) hbetween
      | separate =>
        rw [splitFlags_flag (by simp [hkind]), hkind]
        exact hbehind word (classify_eq_separate_iff.1 hkind)
    · intro flag hflag
      rw [splitFlags_value]
      exact .separate word hflag hbetween

theorem splitFlags_command (text : α → List Char) (waiting : Bool) (words : List α) :
    ∀ word rest, (splitFlags text waiting words).2 = word :: rest →
      classify (text word) = .other := by
  fun_induction splitFlags text waiting words with
  | case1 => simp
  | case2 waiting word rest hstop =>
    rintro _ _ ⟨⟩
    simpa using (Bool.and_eq_true_iff.1 hstop).2
  | case3 waiting word rest hflag flags command hrest ih => simpa [hrest] using ih

/-- Cutting the words of a call loses none and leaves them in order. Before the cut are flags with
their values, behind it is no flag, and there is nothing more to cut off. -/
theorem split_spec (text : α → List Char) (program : α) (words : List α) :
    ∃ settings command, split text (program :: words) = ⟨program :: settings, program :: command⟩ ∧
      settings ++ command = words ∧ FlagWords text command settings ∧
      (∀ word rest, command = word :: rest → ¬ IsFlag (text word) ∧ ¬ IsInline (text word)) ∧
      split text (program :: command) = ⟨[program], program :: command⟩ := by
  have hcommand := splitFlags_command text false words
  refine ⟨_, _, rfl, splitFlags_append text false words, (flagWords_splitFlags text words).1,
    fun word rest hhead => classify_eq_other_iff.1 (hcommand word rest hhead), ?_⟩
  cases hsplit : (splitFlags text false words).2 with
  | nil => rfl
  | cons word rest =>
    have hword := hcommand word rest hsplit
    simp [split, splitFlags_stop hword]

end TreeQuery.CommandLine
