import TreeQuery.Proofs.Text.Class
import TreeQuery.Proofs.Text.Utf8
import TreeQuery.Text.Walk

/-!
# Walks from boundary to boundary

A class that takes all characters above ASCII alike looks at single bytes as it looks at the
characters that they belong to (`Uniform`), so passing bytes of such a class ends between two
characters. `Walk.Leads` tells where a walk ends that begins between two characters, and that all
its marks are sound; it has one rule for each step.
-/

namespace TreeQuery.Text

variable {f : Char → Bool} {c : Char} {a b cs source text : List Char}

-- ---------------------------------------------------------------------------
-- Bytes and classes
-- ---------------------------------------------------------------------------

/-- The class does not tell characters above ASCII apart. -/
def Uniform (f : Char → Bool) : Prop :=
  ∀ c d : Char, 128 ≤ c.toNat → 128 ≤ d.toNat → f c = f d

theorem toNat_ofUInt8 (b : UInt8) : (Char.ofUInt8 b).toNat = b.toNat := UInt8.toNat_toUInt32 b

/-- A byte of a character is the character itself, or both are above ASCII. -/
theorem ofUInt8_of_mem {b : UInt8} {c : Char} (h : b ∈ String.utf8EncodeChar c) :
    Char.ofUInt8 b = c ∨ 128 ≤ (Char.ofUInt8 b).toNat ∧ 128 ≤ c.toNat := by
  by_cases hc : c.val.toNat ≤ 127
  · have hsize : c.utf8Size = 1 := Char.utf8Size_eq_one_iff.2 (UInt32.le_iff_toNat_le.2 hc)
    rw [String.utf8EncodeChar_eq_singleton hsize, List.mem_singleton] at h
    left
    rw [← Char.toNat_inj, toNat_ofUInt8, h, UInt32.toNat_toUInt8]
    exact Nat.mod_eq_of_lt (Nat.lt_of_le_of_lt hc (by decide))
  · refine .inr ⟨?_, Nat.not_le.1 hc⟩
    rw [toNat_ofUInt8]
    -- six bits at a time, each with a marker of at least 128
    have hbyte : ∀ n k : Nat, 128 ≤ k → n + k < 256 → 128 ≤ (UInt8.ofNat (n + k)).toNat := by
      intro n k hk hn
      rw [UInt8.toNat_ofNat_of_lt' hn]
      omega
    simp only [String.utf8EncodeChar] at h
    rw [if_neg hc] at h
    split at h
    · simp only [List.mem_cons, List.not_mem_nil, or_false] at h
      rcases h with rfl | rfl <;> exact hbyte _ _ (by omega) (by omega)
    split at h
    · simp only [List.mem_cons, List.not_mem_nil, or_false] at h
      rcases h with rfl | rfl | rfl <;> exact hbyte _ _ (by omega) (by omega)
    · simp only [List.mem_cons, List.not_mem_nil, or_false] at h
      rcases h with rfl | rfl | rfl | rfl <;> exact hbyte _ _ (by omega) (by omega)

theorem Uniform.of_mem (hf : Uniform f) {b : UInt8} {c : Char} (h : b ∈ String.utf8EncodeChar c) :
    f (Char.ofUInt8 b) = f c := by
  rcases ofUInt8_of_mem h with h | ⟨hb, hc⟩
  · rw [h]
  · exact hf _ _ hb hc

theorem uniform_of_eq {b : Bool} (h : ∀ c : Char, 128 ≤ c.toNat → f c = b) : Uniform f :=
  fun c d hc hd => (h c hc).trans (h d hd).symm

theorem ne_of_toNat_lt {e : Char} (hc : 128 ≤ c.toNat) (he : e.toNat < 128) : c ≠ e := by
  rintro rfl
  omega

theorem uniform_ne {e : Char} (he : e.toNat < 128) : Uniform (· != e) :=
  uniform_of_eq fun _ hc => bne_iff_ne.2 (ne_of_toNat_lt hc he)

theorem bytes_cons (c : Char) (cs : List Char) :
    bytes (c :: cs) = String.utf8EncodeChar c ++ bytes cs := rfl

def initial (c : Char) : Char := Char.ofUInt8 ((String.utf8EncodeChar c).headD 0)

theorem exists_bytes_cons (c : Char) (cs : List Char) :
    ∃ b bs, bytes (c :: cs) = b :: bs ∧ b ∈ String.utf8EncodeChar c ∧
      Char.ofUInt8 b = initial c := by
  rw [bytes_cons, initial]
  cases h : String.utf8EncodeChar c with
  | nil =>
    have hlength := String.length_utf8EncodeChar c
    rw [h] at hlength
    exact absurd hlength.symm (Nat.ne_of_gt c.utf8Size_pos)
  | cons b bs => exact ⟨b, bs ++ bytes cs, rfl, List.mem_cons_self, rfl⟩

theorem Uniform.initial (hf : Uniform f) (c : Char) : f (initial c) = f c := by
  obtain ⟨b, -, -, hb, hinitial⟩ := exists_bytes_cons c []
  rw [← hinitial, hf.of_mem hb]

theorem initial_eq_iff {e : Char} (he : e.toNat < 128) : initial c = e ↔ c = e := by
  have h := Bool.eq_iff_iff.1 ((uniform_ne he).initial c)
  simpa only [bne_iff_ne, ne_eq, not_iff_not] using h

theorem initial_eq {e : Char} (he : e.toNat < 128) : initial e = e := (initial_eq_iff he).2 rfl

theorem takeWhile_bytes (hf : Uniform f) (cs : List Char) :
    (bytes cs).takeWhile (fun b => f (Char.ofUInt8 b)) = bytes (cs.takeWhile f) := by
  induction cs with
  | nil => rfl
  | cons c cs ih =>
    cases hc : f c with
    | true =>
      rw [List.takeWhile_cons_of_pos hc, bytes_cons, bytes_cons, ← ih]
      exact List.takeWhile_append_of_pos fun b hb => by rw [hf.of_mem hb, hc]
    | false =>
      obtain ⟨b, bs, hbytes, hb, -⟩ := exists_bytes_cons c cs
      rw [hbytes, List.takeWhile_cons_of_neg (by simp [hf.of_mem hb, hc]),
        List.takeWhile_cons_of_neg (by simp [hc]), bytes_nil]

theorem uniform_isDigit : Uniform Char.isDigit := by
  refine uniform_of_eq (b := false) fun c hc => Bool.eq_false_iff.2 fun hdigit => ?_
  have hlt := (toNat_of_isDigit hdigit).2
  omega

theorem digitsEnd_append (a b : List Char) :
    digitsEnd (a ++ b) (width a) = width a + width (b.takeWhile Char.isDigit) := by
  have hlength : (bytes b).findIdx (fun d => !(Char.ofUInt8 d).isDigit) =
      width (b.takeWhile Char.isDigit) := by
    rw [← length_bytes, ← takeWhile_bytes uniform_isDigit, List.takeWhile_eq_take_findIdx_not,
      List.length_take, Nat.min_eq_left List.findIdx_le_length]
  rw [digitsEnd, slice?_behind rfl, ← hlength]

-- ---------------------------------------------------------------------------
-- Marks and places
-- ---------------------------------------------------------------------------

variable {ρ σ α β : Type}

/-- Routines are entered and left between two characters of the source, turns of loops move on, and
texts are taken between two characters. -/
def Mark.Sound (source : List Char) : Mark ρ → Prop
  | .enter _ pos | .leave _ pos => isBoundary pos source = true ∧ pos ≤ width source
  | .turn _ start stop => start < stop
  | .take text start stop => (slice? start stop text).isSome = true

/-- An offset between two characters, what stands behind it, and what a walk keeps there. -/
structure Place (σ : Type) where
  pos : Nat
  rest : List Char
  store : σ

namespace Place

variable {p q r : Place σ}

def In (source : List Char) (p : Place σ) : Prop :=
  ∃ before, source = before ++ p.rest ∧ width before = p.pos

def after (p : Place σ) (taken rest : List Char) : Place σ := ⟨p.pos + width taken, rest, p.store⟩

def Reaches (p q : Place σ) : Prop :=
  ∃ taken, p.rest = taken ++ q.rest ∧ q.pos = p.pos + width taken

theorem In.add_width (h : p.In source) : p.pos + width p.rest = width source := by
  obtain ⟨before, rfl, hpos⟩ := h
  rw [width_append, hpos]

theorem In.lt_turns (h : p.In source) : width p.rest < Walk.turns source := by
  rw [Walk.turns, ← h.add_width]
  omega

theorem In.isBoundary (h : p.In source) : isBoundary p.pos source = true := by
  obtain ⟨before, rfl, hpos⟩ := h
  rw [← hpos]
  exact isBoundary_append before p.rest

theorem In.le_width (h : p.In source) : p.pos ≤ width source :=
  le_width_of_isBoundary h.isBoundary

theorem In.after (h : p.In source) (hrest : p.rest = a ++ b) : (p.after a b).In source := by
  obtain ⟨before, rfl, hpos⟩ := h
  exact ⟨before ++ a, by simp [Place.after, hrest], by simp [Place.after, hpos]⟩

theorem In.slice? (h : p.In source) (hrest : p.rest = a ++ b) :
    slice? p.pos (p.pos + width a) source = some a := by
  obtain ⟨before, rfl, hpos⟩ := h
  rw [hrest, ← hpos]
  exact slice?_append before a b

theorem In.slice?_rest (h : p.In source) :
    Text.slice? p.pos (width source) source = some p.rest := by
  rw [← h.add_width]
  exact h.slice? (List.append_nil _).symm

theorem In.drop_bytes (h : p.In source) : (bytes source).drop p.pos = bytes p.rest := by
  obtain ⟨before, rfl, hpos⟩ := h
  rw [← hpos, bytes_append, ← length_bytes, List.drop_left]

theorem reaches_after (h : p.rest = a ++ b) : p.Reaches (p.after a b) := ⟨a, h, rfl⟩

theorem lt_after (ha : a ≠ []) : p.pos < (p.after a b).pos :=
  Nat.lt_add_of_pos_right (Nat.pos_of_ne_zero (mt width_eq_zero.1 ha))

theorem Reaches.refl (p : Place σ) : p.Reaches p := ⟨[], rfl, rfl⟩

theorem Reaches.trans (hpq : p.Reaches q) (hqr : q.Reaches r) : p.Reaches r := by
  obtain ⟨a, ha, hq⟩ := hpq
  obtain ⟨b, hb, hr⟩ := hqr
  exact ⟨a ++ b, by rw [ha, hb, List.append_assoc], by rw [hr, hq, width_append, Nat.add_assoc]⟩

theorem Reaches.inside (h : p.Reaches q) (hp : p.In source) : q.In source := by
  obtain ⟨before, rfl, hpos⟩ := hp
  obtain ⟨taken, hrest, hq⟩ := h
  exact ⟨before ++ taken, by simp [hrest], by simp [hpos, hq]⟩

theorem Reaches.pos_le (h : p.Reaches q) : p.pos ≤ q.pos := by
  obtain ⟨taken, -, hpos⟩ := h
  rw [hpos]
  exact Nat.le_add_right _ _

theorem Reaches.width_add (h : p.Reaches q) : q.pos + width q.rest = p.pos + width p.rest := by
  obtain ⟨taken, hrest, hpos⟩ := h
  rw [hpos, hrest, width_append, Nat.add_assoc]

end Place

namespace Walk

/-- From one place the walk comes to an end at another one, with this result, and the marks that it
makes are sound. -/
def Leads (source : List Char) (x : Walk ρ σ α) (p : Place σ) (a : α) (q : Place σ) : Prop :=
  p.In source → ∀ marks, ∃ made,
    x.run ⟨p.pos, p.store, marks⟩ = some (a, ⟨q.pos, q.store, made ++ marks⟩) ∧ q.In source ∧
      ∀ m ∈ made, m.Sound source

variable {x : Walk ρ σ α} {g : α → Walk ρ σ β} {p q r : Place σ} {v : α} {u : β} {n : Nat}

theorem Leads.of_in (h : p.In source → Leads source x p v q) : Leads source x p v q :=
  fun hin => h hin hin

protected theorem Leads.pure : Leads source (pure v : Walk ρ σ α) p v p :=
  fun hin _ => ⟨[], rfl, hin, nofun⟩

protected theorem Leads.bind (hx : Leads source x p v q) (hg : Leads source (g v) q u r) :
    Leads source (x >>= g) p u r := by
  intro hin marks
  obtain ⟨made, hx, hq, hmade⟩ := hx hin marks
  obtain ⟨made', hg, hr, hmade'⟩ := hg hq (made ++ marks)
  refine ⟨made' ++ made, ?_, hr, List.forall_mem_append.2 ⟨hmade', hmade⟩⟩
  rw [StateT.run_bind, hx, List.append_assoc]
  exact hg

theorem leads_position : Leads source (position : Walk ρ σ Nat) p p.pos p :=
  fun hin _ => ⟨[], rfl, hin, nofun⟩

theorem run_move (n : Nat) (c : Cursor ρ σ) :
    (move n).run c = some ((), { c with pos := c.pos + n }) := rfl

theorem leads_move (h : p.rest = a ++ b) :
    Leads source (move (width a) : Walk ρ σ Unit) p () (p.after a b) :=
  fun hin _ => ⟨[], rfl, hin.after h, nofun⟩

theorem leads_move_one (h : p.rest = c :: b) (hc : c.utf8Size = 1) :
    Leads source (move 1 : Walk ρ σ Unit) p () ⟨p.pos + 1, b, p.store⟩ := by
  have hmove : Leads source (move (width [c]) : Walk ρ σ Unit) p () (p.after [c] b) := leads_move h
  simpa [Place.after, hc] using hmove

theorem leads_record {m : Mark ρ} (h : p.In source → m.Sound source) :
    Leads source (record m : Walk ρ σ Unit) p () p :=
  fun hin _ => ⟨[m], rfl, hin, by simpa using h hin⟩

theorem Leads.within {i : ρ} (h : Leads source x p v q) : Leads source (within i x) p v q := by
  have hmark {p : Place σ} (h : p.In source) :
      isBoundary p.pos source = true ∧ p.pos ≤ width source := ⟨h.isBoundary, h.le_width⟩
  exact .bind leads_position (.bind (leads_record hmark) (.bind h (.bind leads_position
    (.bind (leads_record hmark) .pure))))

theorem leads_turn {i : ρ} (h : n < p.pos) : Leads source (turn i n : Walk ρ σ Unit) p () p :=
  .bind leads_position (leads_record fun _ => h)

theorem leads_take {start stop : Nat} (h : slice? start stop text = some b) :
    Leads source (take text start stop : Walk ρ σ (List Char)) p b p := by
  refine .bind (leads_record fun _ => by rw [Mark.Sound, h]; rfl) ?_
  rw [h]
  exact .pure

theorem leads_take_rest : Leads source (take source p.pos (width source) : Walk ρ σ _) p p.rest p :=
  .of_in fun h => leads_take h.slice?_rest

theorem leads_peek : Leads source (peek source : Walk ρ σ _) p (p.rest.head?.map initial) p := by
  intro hin marks
  have hbyte : (bytes source)[p.pos]?.map Char.ofUInt8 = p.rest.head?.map initial := by
    rw [← List.head?_drop, hin.drop_bytes]
    cases p.rest with
    | nil => rfl
    | cons c rest =>
      obtain ⟨b, bs, hbytes, -, hinitial⟩ := exists_bytes_cons c rest
      rw [hbytes]
      exact congrArg some hinitial
  rw [← hbyte]
  exact ⟨[], rfl, hin, nofun⟩

theorem run_moveLoop (f : Char → Bool) (n : Nat) (c : Cursor ρ σ)
    (h : (((bytes source).drop c.pos).takeWhile fun b => f (Char.ofUInt8 b)).length < n) :
    (moveLoop source f n : Walk ρ σ Unit).run c = some ((), { c with pos := c.pos +
      (((bytes source).drop c.pos).takeWhile fun b => f (Char.ofUInt8 b)).length }) := by
  induction n generalizing c with
  | zero => exact absurd h (Nat.not_lt_zero _)
  | succ n ih =>
    have hpeek : (peek source : Walk ρ σ _).run c =
        some (((bytes source).drop c.pos).head?.map Char.ofUInt8, c) := by
      rw [List.head?_drop]
      rfl
    have htail : (bytes source).drop (c.pos + 1) = ((bytes source).drop c.pos).tail :=
      List.tail_drop.symm
    rw [moveLoop, StateT.run_bind, hpeek]
    cases hbytes : (bytes source).drop c.pos with
    | nil => rfl
    | cons b bs =>
      rw [hbytes] at h htail
      cases hb : f (Char.ofUInt8 b) with
      | false => simp [hb]
      | true =>
        simp only [List.takeWhile_cons, hb, if_true, List.length_cons] at h ⊢
        have hrest := ih { c with pos := c.pos + 1 } (by rw [htail]; exact Nat.lt_of_succ_lt_succ h)
        rw [htail] at hrest
        simpa [hb, run_move, Nat.add_assoc, Nat.add_comm 1] using hrest

/-- Bytes of a uniform class are passed up to the end of a character. -/
theorem leads_moveWhile (hf : Uniform f) :
    Leads source (moveWhile source f : Walk ρ σ Unit) p ()
      (p.after (p.rest.takeWhile f) (p.rest.dropWhile f)) := by
  intro hin marks
  have hafter : (p.after (p.rest.takeWhile f) (p.rest.dropWhile f)).In source :=
    hin.after List.takeWhile_append_dropWhile.symm
  have hlength : (((bytes source).drop p.pos).takeWhile fun b => f (Char.ofUInt8 b)).length =
      width (p.rest.takeWhile f) := by
    rw [hin.drop_bytes, takeWhile_bytes hf, length_bytes]
  have hturns : width (p.rest.takeWhile f) < turns source := by
    have hle := hafter.le_width
    simp only [Place.after] at hle
    exact Nat.lt_succ_of_le (Nat.le_trans (Nat.le_add_left _ _) hle)
  have hrun := run_moveLoop f (turns source) (⟨p.pos, p.store, marks⟩ : Cursor ρ σ)
    (hlength ▸ hturns)
  rw [hlength] at hrun
  exact ⟨[], hrun, hafter, nofun⟩

end Walk

end TreeQuery.Text
