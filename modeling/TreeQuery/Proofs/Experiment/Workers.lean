import Mathlib.Data.List.Sort
import TreeQuery.Experiment.Workers
import TreeQuery.Proofs.Experiment.Commit

/-!
# What workers return

Workers that share the files of a run hold every position below the shared one exactly once: as
taken and not yet run, as an outcome not yet sent, or as a message. When all of them have stopped,
every position is in a message, and sorting the messages gives the outcomes in the order of the
files (`runFilesUnder_eq`). Every move brings the end nearer, so workers that go on stop; and one of
their orders is to run the files one after the other (`runFilesUnder_oneByOne`).
-/

namespace TreeQuery.Experiment

open File (Path)

variable {σ : Type} {o : Options} {e : Experiment σ} {paths ps qs : List Path} {path : Path}
  {w : World σ} {s s' : Pool σ} {k : Nat} {ran schedule : List Nat}

theorem runFiles_append :
    (runFiles o e (ps ++ qs) w).2 = (runFiles o e qs (runFiles o e ps w).2).2 := by
  induction ps generalizing w with
  | nil => rfl
  | cons path ps ih => exact ih

/-- The experiment comes to the same outcome for a file whichever of the others it ran on before,
and in whatever order. -/
def Independent (o : Options) (e : Experiment σ) (paths : List Path) (w : World σ) : Prop :=
  ∀ path before, (path :: before).Subperm paths →
    (runFile o e path (runFiles o e before w).2).1 = (runFile o e path w).1

theorem Independent.runFiles_eq (h : Independent o e paths w) :
    (runFiles o e paths w).1 = paths.map fun path => (runFile o e path w).1 := by
  suffices hrest : ∀ rest before, before ++ rest = paths →
      (runFiles o e rest (runFiles o e before w).2).1 =
        rest.map fun path => (runFile o e path w).1 from hrest paths [] rfl
  intro rest
  induction rest with
  | nil => exact fun _ _ => rfl
  | cons path rest ih =>
    intro before hpaths
    have hsub : (path :: before).Subperm paths := by
      rw [← hpaths]
      exact (List.perm_append_singleton path before).symm.subperm.trans
        (by simpa using (List.sublist_append_left (before ++ [path]) rest).subperm)
    have hnext := ih (before ++ [path]) (by simp [hpaths])
    rw [runFiles_append] at hnext
    exact congrArg₂ List.cons (h path before hsub) hnext

-- ---------------------------------------------------------------------------
-- What the workers hold
-- ---------------------------------------------------------------------------

def pathsAt (paths : List Path) (positions : List Nat) : List Path :=
  positions.filterMap (paths[·]?)

theorem pathsAt_range (paths : List Path) : pathsAt paths (List.range paths.length) = paths := by
  suffices h : ∀ n, pathsAt paths (List.range n) = paths.take n by
    rw [h, List.take_length]
  intro n
  induction n with
  | zero => rfl
  | succ n ih =>
    rw [List.range_succ, pathsAt, List.filterMap_append, ← pathsAt, ih, List.take_add_one]
    cases hn : paths[n]? <;> simp [hn]

namespace Worker

def held? : Worker → Option Nat
  | running position _ => some position
  | _ => none

def unsent? : Worker → Option (Nat × FileOutcome)
  | sending position outcome => some (position, outcome)
  | _ => none

/-- The moves to the end if no further file is taken. -/
def ahead : Worker → Nat
  | ready => 1
  | running _ _ => 3
  | sending _ _ => 2
  | stopped => 0

/-- The files at hand are those of the list, and nobody stops before the end of it. -/
def Fits (paths : List Path) (next : Nat) : Worker → Prop
  | running position path => paths[position]? = some path
  | stopped => paths.length ≤ next
  | _ => True

theorem Fits.mono {worker : Worker} {n m : Nat} (h : worker.Fits paths n) (hle : n ≤ m) :
    worker.Fits paths m := by
  cases worker with
  | stopped => exact Nat.le_trans h hle
  | ready | running | sending => exact h

theorem fits_cons {worker worker' : Worker} {others : List Worker} {n m : Nat}
    (h : ∀ x ∈ worker :: others, x.Fits paths n) (hle : n ≤ m) (hfits : worker'.Fits paths m) :
    ∀ x ∈ worker' :: others, x.Fits paths m :=
  List.forall_mem_cons.2 ⟨hfits, fun x hx => (h x (.tail _ hx)).mono hle⟩

end Worker

namespace Pool

def held (s : Pool σ) : List Nat := s.workers.filterMap Worker.held?

def messages (s : Pool σ) : List (Nat × FileOutcome) :=
  s.shared.sent ++ s.workers.filterMap Worker.unsent?

def ahead (paths : List Path) (s : Pool σ) : Nat :=
  3 * (paths.length - s.shared.next) + (s.workers.map Worker.ahead).sum

theorem move_cases (h : s.move o e paths k = some s') :
    ∃ before worker after worker' shared, s.workers = before ++ worker :: after ∧
      worker.move o e paths s.shared = some (worker', shared) ∧
      s' = ⟨before ++ worker' :: after, shared⟩ := by
  unfold move at h
  split at h
  · cases h
  · rename_i worker hworker
    split at h
    · cases h
    · rename_i worker' shared hmove
      obtain ⟨hk, rfl⟩ := List.getElem?_eq_some_iff.1 hworker
      refine ⟨s.workers.take k, _, s.workers.drop (k + 1), worker', shared, ?_, hmove, ?_⟩
      · rw [← List.drop_eq_getElem_cons hk, List.take_append_drop]
      · rw [← Option.some.inj h, List.set_eq_take_append_cons_drop, if_pos hk]

theorem follow_cons : s.follow o e paths (k :: schedule) = some s' ↔
    ∃ next, s.move o e paths k = some next ∧ next.follow o e paths schedule = some s' := by
  rw [follow]
  cases s.move o e paths k <;> simp

theorem follow_kept (kept : Pool σ → Prop)
    (hmove : ∀ s k s', kept s → s.move o e paths k = some s' → kept s') (h : kept s)
    (hfollow : s.follow o e paths schedule = some s') : kept s' := by
  induction schedule generalizing s with
  | nil => cases hfollow; exact h
  | cons k schedule ih =>
    obtain ⟨next, hnext, hfollow⟩ := follow_cons.1 hfollow
    exact ih (hmove s k next h hnext) hfollow

-- ---------------------------------------------------------------------------
-- The way to the end
-- ---------------------------------------------------------------------------

theorem move_ahead (h : s.move o e paths k = some s') :
    s'.ahead paths + 1 = s.ahead paths := by
  obtain ⟨before, worker, after, worker', shared, hworkers, hmove, rfl⟩ := move_cases h
  cases worker with
  | ready =>
    obtain ⟨rfl, rfl⟩ := Prod.mk.inj (Option.some.inj hmove)
    cases hpath : paths[s.shared.next]? with
    | none =>
      have := List.getElem?_eq_none_iff.1 hpath
      simp [ahead, hworkers, Worker.ahead]
      omega
    | some path =>
      have := (List.getElem?_eq_some_iff.1 hpath).1
      simp [ahead, hworkers, Worker.ahead]
      omega
  | running position path | sending position outcome =>
    obtain ⟨rfl, rfl⟩ := Prod.mk.inj (Option.some.inj hmove)
    simp [ahead, hworkers, Worker.ahead]
    omega
  | stopped => cases hmove

theorem follow_ahead (h : s.follow o e paths schedule = some s') :
    s'.ahead paths + schedule.length = s.ahead paths := by
  induction schedule generalizing s with
  | nil => cases h; rfl
  | cons k schedule ih =>
    obtain ⟨next, hnext, hfollow⟩ := follow_cons.1 h
    have hrest := ih hfollow
    have hfirst := move_ahead hnext
    rw [List.length_cons]
    omega

/-- Workers cannot go on for ever. -/
theorem length_schedule_le {n : Nat} (h : (start n w).follow o e paths schedule = some s') :
    schedule.length ≤ 3 * paths.length + n := by
  have hstart : (start n w).ahead paths = 3 * paths.length + n := by
    simp [ahead, start, Worker.ahead]
  have := follow_ahead h
  omega

theorem exists_move (o : Options) (e : Experiment σ) (paths : List Path)
    (h : s.finished = false) : ∃ k s', s.move o e paths k = some s' := by
  obtain ⟨worker, hmem, hworker⟩ := List.all_eq_false.1 h
  obtain ⟨k, hk⟩ := List.mem_iff_getElem?.1 hmem
  cases worker with
  | stopped => exact absurd rfl hworker
  | ready | running | sending => exact ⟨k, by simp [move, hk, Worker.move]⟩

theorem exists_follow (o : Options) (e : Experiment σ) (paths : List Path) (s : Pool σ) :
    ∃ schedule s', s.follow o e paths schedule = some s' ∧ s'.finished = true := by
  induction hn : s.ahead paths generalizing s with
  | zero =>
    refine ⟨[], s, rfl, ?_⟩
    by_contra hfinished
    obtain ⟨k, s', hmove⟩ := exists_move o e paths (Bool.eq_false_iff.2 hfinished)
    have := move_ahead hmove
    omega
  | succ n ih =>
    by_cases hfinished : s.finished = true
    · exact ⟨[], s, rfl, hfinished⟩
    · obtain ⟨k, next, hmove⟩ := exists_move o e paths (Bool.eq_false_iff.2 hfinished)
      have := move_ahead hmove
      obtain ⟨schedule, s', hfollow, hs'⟩ := ih next (by omega)
      exact ⟨k :: schedule, s', follow_cons.2 ⟨next, hmove, hfollow⟩, hs'⟩

-- ---------------------------------------------------------------------------
-- What holds after every move
-- ---------------------------------------------------------------------------

/-- The experiment ran at some positions in turn. Those, and the ones that workers hold, are the
positions that were taken, and there is a message for each where it ran. -/
structure Inv (o : Options) (e : Experiment σ) (paths : List Path) (w : World σ) (ran : List Nat)
    (s : Pool σ) : Prop where
  taken : (ran ++ s.held).Perm (List.range (min s.shared.next paths.length))
  world : s.shared.world = (runFiles o e (pathsAt paths ran) w).2
  positions : (s.messages.map Prod.fst).Perm ran
  right : ∀ m ∈ s.messages, ∃ path, paths[m.1]? = some path ∧ m.2 = (runFile o e path w).1
  fits : ∀ worker ∈ s.workers, worker.Fits paths s.shared.next

theorem inv_start (o : Options) (e : Experiment σ) (paths : List Path) (w : World σ) (n : Nat) :
    Inv o e paths w [] (start n w) where
  taken := by simp [held, start, Worker.held?]
  world := rfl
  positions := by simp [messages, start, Worker.unsent?]
  right := by simp [messages, start, Worker.unsent?]
  fits := by simp [start, List.mem_replicate, Worker.Fits]

variable {position : Nat} {outcome : FileOutcome} {workers workers' others : List Worker}
  {shared : Shared σ}

theorem Inv.perm (h : Inv o e paths w ran ⟨workers, shared⟩) (hperm : workers.Perm workers') :
    Inv o e paths w ran ⟨workers', shared⟩ := by
  have hmessages : (messages ⟨workers, shared⟩).Perm (messages ⟨workers', shared⟩) :=
    (hperm.filterMap _).append_left _
  exact {
    taken := (((hperm.filterMap _).append_left ran).symm).trans h.taken
    world := h.world
    positions := (hmessages.map _).symm.trans h.positions
    right := fun m hm => h.right m (hmessages.mem_iff.2 hm)
    fits := fun worker hworker => h.fits worker (hperm.mem_iff.2 hworker) }

theorem Inv.take (h : Inv o e paths w ran ⟨.ready :: others, shared⟩)
    (hpath : paths[shared.next]? = some path) :
    Inv o e paths w ran
      ⟨.running shared.next path :: others, { shared with next := shared.next + 1 }⟩ where
  taken := by
    have hlt : shared.next < paths.length := (List.getElem?_eq_some_iff.1 hpath).1
    have htaken := h.taken
    rw [Nat.min_eq_left hlt.le] at htaken
    rw [Nat.min_eq_left hlt, List.range_succ]
    exact List.perm_middle.trans
      ((htaken.cons shared.next).trans (List.perm_append_singleton ..).symm)
  world := h.world
  positions := h.positions
  right := h.right
  fits := Worker.fits_cons h.fits (Nat.le_succ _) hpath

theorem Inv.stop (h : Inv o e paths w ran ⟨.ready :: others, shared⟩)
    (hpath : paths[shared.next]? = none) :
    Inv o e paths w ran ⟨.stopped :: others, { shared with next := shared.next + 1 }⟩ where
  taken := by
    have hle : paths.length ≤ shared.next := List.getElem?_eq_none_iff.1 hpath
    have htaken := h.taken
    rw [Nat.min_eq_right hle] at htaken
    rw [Nat.min_eq_right (hle.trans (Nat.le_succ _))]
    exact htaken
  world := h.world
  positions := h.positions
  right := h.right
  fits := Worker.fits_cons h.fits (Nat.le_succ _)
    ((List.getElem?_eq_none_iff.1 hpath).trans (Nat.le_succ _))

theorem Inv.subperm (h : Inv o e paths w ran ⟨.running position path :: others, shared⟩) :
    (path :: pathsAt paths ran).Subperm paths := by
  have hpath : paths[position]? = some path := h.fits _ List.mem_cons_self
  have htaken : (position :: (ran ++ others.filterMap Worker.held?)).Perm
      (List.range (min shared.next paths.length)) := List.perm_middle.symm.trans h.taken
  have hran : (position :: ran).Subperm (List.range paths.length) :=
    ((List.sublist_append_left ran _).cons_cons position).subperm.trans
      (htaken.subperm.trans (List.range_sublist.2 (Nat.min_le_right _ _)).subperm)
  obtain ⟨positions, hperm, hsub⟩ := hran
  have hpaths : (pathsAt paths positions).Sublist paths := by
    have := hsub.filterMap (paths[·]?)
    rwa [← pathsAt, ← pathsAt, pathsAt_range] at this
  have hcons : (pathsAt paths positions).Perm (path :: pathsAt paths ran) := by
    have := hperm.filterMap (paths[·]?)
    rwa [List.filterMap_cons_some hpath] at this
  exact ⟨pathsAt paths positions, hcons, hpaths⟩

theorem Inv.run (hind : Independent o e paths w)
    (h : Inv o e paths w ran ⟨.running position path :: others, shared⟩) :
    Inv o e paths w (ran ++ [position])
      ⟨.sending position (runFile o e path shared.world).1 :: others,
        { shared with world := (runFile o e path shared.world).2 }⟩ := by
  have hpath : paths[position]? = some path := h.fits _ List.mem_cons_self
  have hmessages : (messages ⟨.sending position (runFile o e path shared.world).1 :: others,
        { shared with world := (runFile o e path shared.world).2 }⟩).Perm
      ((position, (runFile o e path shared.world).1) ::
        messages ⟨.running position path :: others, shared⟩) := List.perm_middle
  constructor
  case taken =>
    have htaken : (ran ++ position :: others.filterMap Worker.held?).Perm _ := h.taken
    rwa [List.append_cons] at htaken
  case world =>
    have hran : pathsAt paths (ran ++ [position]) = pathsAt paths ran ++ [path] := by
      simp [pathsAt, hpath]
    rw [hran, runFiles_append, ← h.world]
    rfl
  case positions =>
    exact (hmessages.map Prod.fst).trans
      ((h.positions.cons position).trans (List.perm_append_singleton ..).symm)
  case right =>
    intro m hm
    rcases List.mem_cons.1 (hmessages.mem_iff.1 hm) with rfl | hm
    · refine ⟨path, hpath, ?_⟩
      rw [h.world]
      exact hind path _ h.subperm
    · exact h.right m hm
  case fits => exact Worker.fits_cons h.fits le_rfl trivial

theorem Inv.send (h : Inv o e paths w ran ⟨.sending position outcome :: others, shared⟩) :
    Inv o e paths w ran
      ⟨.ready :: others, { shared with sent := shared.sent ++ [(position, outcome)] }⟩ := by
  have hmessages : messages ⟨.ready :: others,
        { shared with sent := shared.sent ++ [(position, outcome)] }⟩ =
      messages ⟨.sending position outcome :: others, shared⟩ :=
    (List.append_cons ..).symm
  exact {
    taken := h.taken
    world := h.world
    positions := hmessages ▸ h.positions
    right := hmessages ▸ h.right
    fits := Worker.fits_cons h.fits le_rfl trivial }

/-- Every move keeps the invariant, and makes the list of positions longer if it runs a file. -/
theorem Inv.move (hind : Independent o e paths w) (h : Inv o e paths w ran s)
    (hmove : s.move o e paths k = some s') : ∃ ran', Inv o e paths w ran' s' := by
  obtain ⟨before, worker, after, worker', shared', hworkers, hworker, rfl⟩ := move_cases hmove
  obtain ⟨workers, shared⟩ := s
  cases hworkers
  have hfirst := h.perm List.perm_middle
  suffices hgoal : ∃ ran', Inv o e paths w ran' ⟨worker' :: (before ++ after), shared'⟩ by
    obtain ⟨ran', hran'⟩ := hgoal
    exact ⟨ran', hran'.perm List.perm_middle.symm⟩
  cases worker with
  | ready =>
    obtain ⟨rfl, rfl⟩ := Prod.mk.inj (Option.some.inj hworker)
    cases hpath : paths[shared.next]? with
    | none => exact ⟨ran, hfirst.stop hpath⟩
    | some path => exact ⟨ran, hfirst.take hpath⟩
  | running position path =>
    obtain ⟨rfl, rfl⟩ := Prod.mk.inj (Option.some.inj hworker)
    exact ⟨ran ++ [position], hfirst.run hind⟩
  | sending position outcome =>
    obtain ⟨rfl, rfl⟩ := Prod.mk.inj (Option.some.inj hworker)
    exact ⟨ran, hfirst.send⟩
  | stopped => cases hworker

theorem Inv.follow (hind : Independent o e paths w) (h : Inv o e paths w ran s)
    (hfollow : s.follow o e paths schedule = some s') : ∃ ran', Inv o e paths w ran' s' :=
  follow_kept (fun s => ∃ ran, Inv o e paths w ran s)
    (fun _ _ _ ⟨_, hran⟩ hmove => hran.move hind hmove) ⟨ran, h⟩ hfollow

-- ---------------------------------------------------------------------------
-- At the end
-- ---------------------------------------------------------------------------

theorem length_workers_move (h : s.move o e paths k = some s') :
    s'.workers.length = s.workers.length := by
  obtain ⟨before, worker, after, worker', shared, hworkers, -, rfl⟩ := move_cases h
  simp [hworkers]

theorem length_workers_follow (h : s.follow o e paths schedule = some s') :
    s'.workers.length = s.workers.length :=
  follow_kept (fun s' => s'.workers.length = s.workers.length)
    (fun _ _ _ hlength hmove => (length_workers_move hmove).trans hlength) rfl h

theorem finished_iff : s.finished = true ↔ ∀ worker ∈ s.workers, worker = .stopped := by
  rw [finished, List.all_eq_true]
  refine forall₂_congr fun worker _ => ?_
  cases worker <;> simp

theorem outcomes_eq {results : List FileOutcome}
    (hpositions : (s.shared.sent.map Prod.fst).Perm (List.range results.length))
    (hright : ∀ m ∈ s.shared.sent, results[m.1]? = some m.2) : s.outcomes = results := by
  have hperm := s.shared.sent.mergeSort_perm fun a b => a.1 ≤ b.1
  have hsorted : (s.shared.sent.mergeSort fun a b => a.1 ≤ b.1).Pairwise fun a b =>
      decide (a.1 ≤ b.1) = true :=
    List.pairwise_mergeSort
      (fun a b c hab hbc => decide_eq_true ((of_decide_eq_true hab).trans (of_decide_eq_true hbc)))
      (fun a b => by simpa using Nat.le_total a.1 b.1) _
  unfold outcomes
  generalize s.shared.sent.mergeSort _ = sorted at hperm hsorted
  have hrange : sorted.map Prod.fst = List.range results.length := by
    refine List.Perm.eq_of_pairwise' (r := (· ≤ ·)) ?_ ?_ ((hperm.map _).trans hpositions)
    · exact List.pairwise_map.2 (hsorted.imp (by simp))
    · exact List.pairwise_le_range
  have hlength : sorted.length = results.length := by simpa using congrArg List.length hrange
  refine List.ext_getElem (by simpa using hlength) fun i hi hi' => ?_
  have hfst := List.getElem_of_eq hrange (i := i) (by simpa using hi)
  rw [List.getElem_map, List.getElem_range] at hfst
  have hmem : sorted[i] ∈ s.shared.sent := hperm.mem_iff.1 (List.getElem_mem _)
  have hresult := hright _ hmem
  rw [hfst] at hresult
  rw [List.getElem_map]
  exact ((List.getElem?_eq_some_iff.1 hresult).2).symm

/-- When all workers have stopped, every position was taken, run and sent. -/
theorem Inv.outcomes_eq (h : Inv o e paths w ran s) (hfinished : s.finished = true)
    (hworkers : s.workers ≠ []) : s.outcomes = paths.map fun path => (runFile o e path w).1 := by
  have hstopped := finished_iff.1 hfinished
  obtain ⟨worker, hworker⟩ := List.exists_mem_of_ne_nil _ hworkers
  have hnext : paths.length ≤ s.shared.next := by
    have hfits := h.fits worker hworker
    rwa [hstopped worker hworker] at hfits
  have hheld : s.held = [] :=
    List.filterMap_eq_nil_iff.2 fun worker hworker => by rw [hstopped worker hworker]; rfl
  have hsent : s.messages = s.shared.sent := by
    have hunsent : s.workers.filterMap Worker.unsent? = [] :=
      List.filterMap_eq_nil_iff.2 fun worker hworker => by rw [hstopped worker hworker]; rfl
    rw [messages, hunsent, List.append_nil]
  have htaken := h.taken
  rw [hheld, List.append_nil, Nat.min_eq_right hnext] at htaken
  have hpositions := h.positions.trans htaken
  rw [hsent] at hpositions
  refine Pool.outcomes_eq (by simpa using hpositions) fun m hm => ?_
  obtain ⟨path, hpath, houtcome⟩ := h.right m (hsent ▸ hm)
  rw [List.getElem?_map, hpath, Option.map_some, houtcome]

end Pool

-- ---------------------------------------------------------------------------
-- One file after the other
-- ---------------------------------------------------------------------------

def oneByOne (workers files : Nat) : List Nat :=
  .replicate (3 * files + 1) 0 ++ .range' 1 (workers - 1)

namespace Pool

variable {others : List Worker} {shared : Shared σ}

theorem follow_append {later : List Nat} : s.follow o e paths (schedule ++ later) =
    (s.follow o e paths schedule).bind (·.follow o e paths later) := by
  induction schedule generalizing s with
  | nil => rfl
  | cons k schedule ih =>
    rw [List.cons_append, follow, follow]
    cases s.move o e paths k with
    | none => rfl
    | some next => exact ih

def sentFrom (position : Nat) (outcomes : List FileOutcome) : List (Nat × FileOutcome) :=
  (outcomes.zipIdx position).map Prod.swap

theorem follow_first {position : Nat} {sent : List (Nat × FileOutcome)} {rest : List Path}
    (hrest : paths.drop position = rest) :
    follow o e paths (.replicate (3 * rest.length + 1) 0)
        ⟨.ready :: others, ⟨w, position, sent⟩⟩ =
      some ⟨.stopped :: others, ⟨(runFiles o e rest w).2, position + rest.length + 1,
        sent ++ sentFrom position (runFiles o e rest w).1⟩⟩ := by
  induction rest generalizing position sent w with
  | nil =>
    have hend : paths[position]? = none :=
      List.getElem?_eq_none_iff.2 (List.drop_eq_nil_iff.1 hrest)
    simp [follow, move, Worker.move, hend, runFiles, sentFrom]
  | cons path rest ih =>
    have hpath : paths[position]? = some path := by
      rw [← List.head?_drop, hrest, List.head?_cons]
    have hdrop : paths.drop (position + 1) = rest := by
      rw [← List.tail_drop, hrest, List.tail_cons]
    have hschedule : List.replicate (3 * (path :: rest).length + 1) 0 =
        0 :: 0 :: 0 :: .replicate (3 * rest.length + 1) 0 := rfl
    have hmoves : follow o e paths (0 :: 0 :: 0 :: .replicate (3 * rest.length + 1) 0)
          ⟨.ready :: others, ⟨w, position, sent⟩⟩ =
        follow o e paths (.replicate (3 * rest.length + 1) 0)
          ⟨.ready :: others, ⟨(runFile o e path w).2, position + 1,
            sent ++ [(position, (runFile o e path w).1)]⟩⟩ := by
      simp [follow, move, Worker.move, hpath]
    rw [hschedule, hmoves, ih hdrop, List.append_assoc, List.length_cons, Nat.add_right_comm _ 1]
    rfl

theorem follow_others {n : Nat} (done : List Worker) (hnext : paths.length ≤ shared.next) :
    follow o e paths (.range' done.length n) ⟨done ++ .replicate n .ready, shared⟩ =
      some ⟨done ++ .replicate n .stopped, { shared with next := shared.next + n }⟩ := by
  induction n generalizing done shared with
  | zero => rfl
  | succ n ih =>
    have hend : paths[shared.next]? = none := List.getElem?_eq_none_iff.2 hnext
    have hmove : move o e paths done.length ⟨done ++ .ready :: .replicate n .ready, shared⟩ =
        some ⟨done ++ .stopped :: .replicate n .ready,
          { shared with next := shared.next + 1 }⟩ := by
      simp [move, Worker.move, hend]
    have hlater : paths.length ≤ ({ shared with next := shared.next + 1 } : Shared σ).next :=
      Nat.le_succ_of_le hnext
    have hrest := ih (done ++ [.stopped]) hlater
    rw [List.range'_succ, List.replicate_succ, List.replicate_succ, follow, hmove]
    simpa [Nat.add_assoc, Nat.add_comm 1] using hrest

theorem follow_oneByOne (o : Options) (e : Experiment σ) (paths : List Path) (w : World σ)
    (n : Nat) :
    follow o e paths (oneByOne (n + 1) paths.length) (start (n + 1) w) =
      some ⟨.replicate (n + 1) .stopped, ⟨(runFiles o e paths w).2, 0 + paths.length + 1 + n,
        sentFrom 0 (runFiles o e paths w).1⟩⟩ := by
  have hstart : start (n + 1) w = ⟨.ready :: .replicate n .ready, ⟨w, 0, []⟩⟩ := rfl
  rw [oneByOne, follow_append, hstart, follow_first List.drop_zero, Option.bind_some]
  exact follow_others [.stopped] (by simp)

theorem outcomes_sentFrom {results : List FileOutcome}
    (hsent : s.shared.sent = sentFrom 0 results) :
    s.outcomes = results := by
  refine outcomes_eq ?_ fun m hm => ?_
  · rw [hsent, sentFrom, List.map_map, List.range_eq_range']
    exact .of_eq (List.zipIdx_map_snd 0 results)
  · rw [hsent, sentFrom] at hm
    obtain ⟨⟨outcome, position⟩, hmem, rfl⟩ := List.mem_map.1 hm
    exact List.mk_mem_zipIdx_iff_getElem?.1 hmem

end Pool

/-- To run the files one after the other is one of the orders. -/
theorem runFilesUnder_oneByOne (o : Options) (e : Experiment σ) (paths : List Path) (w : World σ) :
    runFilesUnder o e paths (oneByOne (min o.jobs paths.length) paths.length) w =
      some (runFiles o e paths w) := by
  unfold runFilesUnder
  by_cases hone : min o.jobs paths.length ≤ 1
  · simp only [if_pos hone]
  · obtain ⟨n, hn⟩ := Nat.exists_eq_add_one_of_ne_zero (n := min o.jobs paths.length) (by omega)
    have hfinished : ∀ shared : Shared σ,
        Pool.finished ⟨.replicate (n + 1) .stopped, shared⟩ = true := by simp [Pool.finished]
    simp only [if_neg hone]
    simp only [hn, Pool.follow_oneByOne, hfinished, if_true]
    rw [Pool.outcomes_sentFrom rfl]

-- ---------------------------------------------------------------------------
-- Every order
-- ---------------------------------------------------------------------------

/-- However many jobs there are and in whatever order the workers move: there are orders that come
to the end, and with each of them the outcomes are those of the files in their order, each run as
if it were alone, and the same as if the files were run one after the other. -/
theorem runFilesUnder_eq (o : Options) (e : Experiment σ) (paths : List Path) (w : World σ)
    (hind : Independent o e paths w) :
    (∃ schedule, (runFilesUnder o e paths schedule w).isSome) ∧
    ∀ schedule outcomes after, runFilesUnder o e paths schedule w = some (outcomes, after) →
      outcomes = paths.map (fun path => (runFile o e path w).1) ∧
      outcomes = (runFiles o e paths w).1 := by
  rw [hind.runFiles_eq]
  unfold runFilesUnder
  by_cases hone : min o.jobs paths.length ≤ 1
  · simp only [if_pos hone]
    refine ⟨⟨[], rfl⟩, fun _ outcomes after h => ?_⟩
    obtain rfl := congrArg Prod.fst (Option.some.inj h)
    exact ⟨hind.runFiles_eq, hind.runFiles_eq⟩
  · simp only [if_neg hone]
    constructor
    · obtain ⟨schedule, s, hfollow, hfinished⟩ :=
        Pool.exists_follow o e paths (.start (min o.jobs paths.length) w)
      exact ⟨schedule, by simp [hfollow, hfinished]⟩
    · intro schedule outcomes after h
      split at h
      · cases h
      · rename_i s hfollow
        split at h
        · rename_i hfinished
          obtain ⟨ran, hinv⟩ := (Pool.inv_start o e paths w _).follow hind hfollow
          have hworkers : s.workers ≠ [] := by
            apply List.ne_nil_of_length_pos
            rw [Pool.length_workers_follow hfollow, Pool.start, List.length_replicate]
            omega
          cases h
          exact ⟨hinv.outcomes_eq hfinished hworkers, hinv.outcomes_eq hfinished hworkers⟩
        · cases h

def twoFiles : World Unit :=
  ⟨⟨.directory (.cons ['f'] (.file (.text "(x 1)".toList))
      (.cons ['g'] (.file (.text "(x 1) (x 2)".toList)) .nil)), []⟩, false, [], (), []⟩

theorem outcomes_twoFiles :
    ([⟨['f']⟩, ⟨['g']⟩].map fun path => (runFile .default marking path twoFiles).1) =
      [⟨⟨['f']⟩, 1, 1, 1, .committed (.singleton 1)⟩,
        ⟨⟨['g']⟩, 2, 2, 3, .committed (.singleton 2)⟩] := by
  cbv

theorem independent_twoFiles :
    Independent (Options.default.withJobs 2) marking [⟨['f']⟩, ⟨['g']⟩] twoFiles := by
  rintro path (_ | ⟨other, _ | ⟨third, before⟩⟩) hsub
  · rfl
  · have hpath := hsub.subset (List.mem_cons_self)
    have hother := hsub.subset (List.mem_cons_of_mem _ List.mem_cons_self)
    simp only [List.mem_cons, List.not_mem_nil, or_false] at hpath hother
    rcases hpath with rfl | rfl <;> rcases hother with rfl | rfl
    · exact absurd (hsub.count_le ⟨['f']⟩) (by decide)
    · cbv
    · cbv
    · exact absurd (hsub.count_le ⟨['g']⟩) (by decide)
  · exact absurd hsub.length_le (by simp)

theorem runFilesUnder_eq_twoFiles :
    ∃ after, runFilesUnder (Options.default.withJobs 2) marking [⟨['f']⟩, ⟨['g']⟩]
        [0, 1, 1, 1, 0, 0, 0, 1] twoFiles =
      some ([⟨⟨['f']⟩, 1, 1, 1, .committed (.singleton 1)⟩,
        ⟨⟨['g']⟩, 2, 2, 3, .committed (.singleton 2)⟩], after) := by
  have hdone : (runFilesUnder (Options.default.withJobs 2) marking [⟨['f']⟩, ⟨['g']⟩]
      [0, 1, 1, 1, 0, 0, 0, 1] twoFiles).isSome = true := by cbv
  obtain ⟨⟨outcomes, after⟩, hrun⟩ := Option.isSome_iff_exists.1 hdone
  obtain ⟨rfl, -⟩ := (runFilesUnder_eq _ _ _ _ independent_twoFiles).2 _ _ _ hrun
  exact ⟨after, hrun.trans (congrArg (fun outcomes => some (outcomes, after)) outcomes_twoFiles)⟩

end TreeQuery.Experiment
