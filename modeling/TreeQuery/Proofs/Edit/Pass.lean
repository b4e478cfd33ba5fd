import TreeQuery.Edit.Pass
import TreeQuery.Proofs.Edit.Dispatch

/-!
# A pass visits what a search finds

`Pass.ask` is what should come of a pass: the editor is asked about given occurrences in turn, up
to the first that it refuses. `Pass.walk_agrees`: the walk over a tree, which skips the nodes that
the dispatch does not admit and numbers occurrences as it meets them, asks about exactly the
occurrences of a search.

Every occurrence has a number of its own, so an editor may answer each call in another way.
-/

namespace TreeQuery

namespace Query

def numberedFrom (n : Nat) (found : List (Site × Outcome)) : List Occurrence :=
  (found.zipIdx n).map fun ((s, outcome), i) => ⟨s, outcome, i + 1⟩

theorem search_eq (q : Query) (t : Tree) : q.search t = numberedFrom 0 (q.hits [] t) := rfl

@[simp] theorem numberedFrom_nil (n : Nat) : numberedFrom n [] = [] := rfl

@[simp] theorem numberedFrom_cons (n : Nat) (h : Site × Outcome) (found : List (Site × Outcome)) :
    numberedFrom n (h :: found) = ⟨h.1, h.2, n + 1⟩ :: numberedFrom (n + 1) found := rfl

theorem numberedFrom_append (n : Nat) (a b : List (Site × Outcome)) :
    numberedFrom n (a ++ b) = numberedFrom n a ++ numberedFrom (n + a.length) b := by
  simp [numberedFrom, List.zipIdx_append]

@[simp] theorem length_numberedFrom (n : Nat) (found : List (Site × Outcome)) :
    (numberedFrom n found).length = found.length := by
  simp [numberedFrom]

theorem dispatch_admits (q : Query) {s : Site} {tag : String} (hs : s.tree.tag? = some tag)
    (h : (q.matchSite s).isMatch = true) : q.dispatch.admits tag = true := by
  cases hj : q.root.judge (some s) [] with
  | none => simp [matchSite, hj, Outcome.isMatch] at h
  | some sites => exact Dispatch.admits_of_judge q.root hs hj

end Query

namespace Pass

-- ---------------------------------------------------------------------------
-- Asking an editor
-- ---------------------------------------------------------------------------

structure Answers where
  asked : List Occurrence
  edits : List Edit
  fault : Option Fault

def ask (edit : Editor) : List Occurrence → Answers
  | [] => ⟨[], [], none⟩
  | o :: os =>
    match edit o with
    | .ok edits => ⟨o :: (ask edit os).asked, edits ++ (ask edit os).edits, (ask edit os).fault⟩
    | .error e => ⟨[o], [], some e⟩

variable {edit : Editor} {o : Occurrence} {os rest : List Occurrence}

theorem ask_cons_ok {edits : List Edit} (h : edit o = .ok edits) :
    ask edit (o :: os) =
      ⟨o :: (ask edit os).asked, edits ++ (ask edit os).edits, (ask edit os).fault⟩ := by
  simp only [ask, h]

theorem ask_cons_error {e : Fault} (h : edit o = .error e) :
    ask edit (o :: os) = ⟨[o], [], some e⟩ := by
  simp only [ask, h]

theorem asked_of_fault_none (h : (ask edit os).fault = none) : (ask edit os).asked = os := by
  induction os with
  | nil => rfl
  | cons o os ih =>
    cases ho : edit o with
    | ok edits =>
      rw [ask_cons_ok ho] at h ⊢
      rw [ih h]
    | error e => simp [ask_cons_error ho] at h

theorem ask_append_of_none (h : (ask edit os).fault = none) :
    ask edit (os ++ rest) = ⟨os ++ (ask edit rest).asked,
      (ask edit os).edits ++ (ask edit rest).edits, (ask edit rest).fault⟩ := by
  induction os with
  | nil => rfl
  | cons o os ih =>
    cases ho : edit o with
    | ok edits =>
      rw [ask_cons_ok ho] at h
      rw [List.cons_append, ask_cons_ok ho, ask_cons_ok ho, ih h]
      simp
    | error e => simp [ask_cons_error ho] at h

theorem ask_append_of_some {e : Fault} (h : (ask edit os).fault = some e) :
    ask edit (os ++ rest) = ask edit os := by
  induction os with
  | nil => cases h
  | cons o os ih =>
    cases ho : edit o with
    | ok edits =>
      rw [ask_cons_ok ho] at h
      rw [List.cons_append, ask_cons_ok ho, ask_cons_ok ho, ih h]
    | error e => rw [List.cons_append, ask_cons_error ho, ask_cons_error ho]

theorem ask_of_forall_ok (h : ∀ o ∈ os, ∃ edits, edit o = .ok edits) :
    (ask edit os).fault = none := by
  induction os with
  | nil => rfl
  | cons o os ih =>
    obtain ⟨edits, ho⟩ := h o List.mem_cons_self
    rw [ask_cons_ok ho]
    exact ih fun o' ho' => h o' (List.mem_cons_of_mem _ ho')

theorem ask_eq {edits : Occurrence → List Edit} (h : ∀ o ∈ os, edit o = .ok (edits o)) :
    ask edit os = ⟨os, os.flatMap edits, none⟩ := by
  induction os with
  | nil => rfl
  | cons o os ih =>
    obtain ⟨ho, hos⟩ := List.forall_mem_cons.1 h
    rw [ask_cons_ok ho, ih hos, List.flatMap_cons]

theorem ask_congr {edit' : Editor} (h : ∀ o ∈ os, edit o = edit' o) :
    ask edit os = ask edit' os := by
  induction os with
  | nil => rfl
  | cons o os ih =>
    obtain ⟨ho, hos⟩ := List.forall_mem_cons.1 h
    rw [ask, ask, ho, ih hos]

theorem ask_of_exists_error (h : ∃ o ∈ os, ∃ e, edit o = .error e) :
    ∃ (k : Nat) (o : Occurrence) (e : Fault), os[k]? = some o ∧ edit o = .error e ∧
      (∀ o' ∈ os.take k, ∃ edits, edit o' = .ok edits) ∧
      (ask edit os).asked = os.take (k + 1) ∧ (ask edit os).fault = some e := by
  induction os with
  | nil => simp at h
  | cons o os ih =>
    cases ho : edit o with
    | error e =>
      rw [ask_cons_error ho]
      exact ⟨0, o, e, rfl, ho, by simp, rfl, rfl⟩
    | ok edits =>
      obtain ⟨o', ho', e', he'⟩ := h
      have hmem : o' ∈ os := by
        rcases List.mem_cons.1 ho' with rfl | hm
        · simp [ho] at he'
        · exact hm
      obtain ⟨k, p, e, hk, hp, hbefore, hasked, hfault⟩ := ih ⟨o', hmem, e', he'⟩
      rw [ask_cons_ok ho]
      refine ⟨k + 1, p, e, by simpa using hk, hp, ?_, by simp [hasked], hfault⟩
      intro x hx
      rcases List.mem_cons.1 hx with rfl | hx
      · exact ⟨edits, ho⟩
      · exact hbefore x hx

-- ---------------------------------------------------------------------------
-- The walk
-- ---------------------------------------------------------------------------

/-- What a walk from `p` has done, apart from its events, is what the answers say. -/
structure Agrees (p : Pass) (a : Answers) (result : Pass × Option Fault) : Prop where
  visited : result.1.visited = p.visited ++ a.asked
  edits : result.1.plan.edits = p.plan.edits ++ a.edits
  fault : result.2 = a.fault

theorem Agrees.refl (p : Pass) : Agrees p (ask edit []) (p, none) := by
  constructor <;> simp [ask]

theorem Agrees.of_events {p : Pass} {events : List Event} {a : Answers}
    {result : Pass × Option Fault} (h : Agrees { p with events } a result) : Agrees p a result :=
  ⟨h.visited, h.edits, h.fault⟩

theorem visit_agrees (p : Pass) (s : Site) (outcome : Outcome) (edit : Editor) :
    Agrees p (ask edit [⟨s, outcome, p.visited.length + 1⟩]) (p.visit s outcome edit) := by
  cases h : edit ⟨s, outcome, p.visited.length + 1⟩ with
  | ok edits =>
    rw [ask_cons_ok h]
    constructor <;> simp [visit, h, ask]
  | error e =>
    rw [ask_cons_error h]
    constructor <;> simp [visit, h]

section
variable (q : Query) (edit : Editor)

mutual
theorem walk_agrees : ∀ (t : Tree) (above : List Nat) (p : Pass),
    Agrees p (ask edit (Query.numberedFrom p.visited.length (q.hits above t)))
      (walk q q.dispatch edit above t p)
  | .leaf _ _, _, p => .refl p
  | .node tag cs span, above, p => by
    let s : Site := ⟨above, .node tag cs span⟩
    let tried : Pass := { p with events := p.events ++ q.traceSite s }
    by_cases hm : (q.matchSite s).isMatch = true
    · have hd : q.dispatch.admits tag = true := q.dispatch_admits rfl hm
      have h := visit_agrees tried s (q.matchSite s) edit
      simp only [walk, Query.hits, hm, hd, ↓reduceIte, s]
      exact h.of_events
    · by_cases hd : q.dispatch.admits tag = true
      · have h := walkList_agrees cs above 0 tried
        simp only [walk, Query.hits, hm, hd, Bool.false_eq_true, ↓reduceIte, s]
        exact h.of_events
      · simp only [walk, Query.hits, hm, hd, Bool.false_eq_true, ↓reduceIte, s]
        exact walkList_agrees cs above 0 p
theorem walkList_agrees : ∀ (ts : List Tree) (above : List Nat) (i : Nat) (p : Pass),
    Agrees p (ask edit (Query.numberedFrom p.visited.length (q.hitsList above i ts)))
      (walkList q q.dispatch edit above i ts p)
  | [], _, _, p => .refl p
  | t :: ts, above, i, p => by
    have h := walk_agrees t (i :: above) p
    rw [walkList, Query.hitsList, Query.numberedFrom_append]
    split
    · next p' hw =>
      rw [hw] at h
      have hnone := h.fault.symm
      have hvisited := h.visited
      rw [asked_of_fault_none hnone] at hvisited
      have hr := walkList_agrees ts above (i + 1) p'
      rw [hvisited, List.length_append, Query.length_numberedFrom] at hr
      rw [ask_append_of_none hnone]
      exact ⟨by rw [hr.visited, hvisited, List.append_assoc],
        by rw [hr.edits, h.edits, List.append_assoc], hr.fault⟩
    · next p' e hw =>
      rw [hw] at h
      rwa [ask_append_of_some h.fault.symm]
end

end

theorem pass_agrees (q : Query) (t : Tree) (edit : Editor) :
    Agrees start (ask edit (q.search t)) (q.pass t edit) :=
  walk_agrees q edit t [] start

end Pass

namespace Query

open Pass

theorem revise_ask (q : Query) (t : Tree) (source : List Char) (edit : Editor) :
    q.revise t source edit =
      match (ask edit (q.search t)).fault with
      | some e => .error e
      | none => ((Plan.mk (ask edit (q.search t)).edits).apply source).map fun output =>
          ⟨output, (ask edit (q.search t)).asked.length, (ask edit (q.search t)).edits.length⟩ := by
  obtain ⟨hvisited, hedits, hfault⟩ := pass_agrees q t edit
  rw [revise]
  generalize q.pass t edit = result at *
  obtain ⟨⟨visited, events, plan⟩, fault⟩ := result
  simp only [start, Plan.empty, List.nil_append] at hvisited hedits hfault
  rw [← hvisited, ← hedits, ← hfault]
  cases fault <;> rfl

theorem revise_congr {q : Query} {t : Tree} {edit edit' : Editor} (source : List Char)
    (h : ∀ o ∈ q.search t, edit o = edit' o) :
    q.revise t source edit = q.revise t source edit' := by
  rw [revise_ask, revise_ask, ask_congr h]

theorem revise_eq {q : Query} {t : Tree} {edit : Editor} {edits : Occurrence → List Edit}
    (source : List Char) (h : ∀ o ∈ q.search t, edit o = .ok (edits o)) :
    q.revise t source edit =
      ((Plan.mk ((q.search t).flatMap edits)).apply source).map fun output =>
        ⟨output, (q.search t).length, ((q.search t).flatMap edits).length⟩ := by
  rw [revise_ask, ask_eq h]

/-- Skipping what the dispatch does not admit loses no occurrence and changes no number: an
editor that accepts everything is handed the search result, and one that refuses is handed the
search result up to the first refusal, which then is the outcome. -/
theorem pass_visits_search (q : Query) (t : Tree) (source : List Char) (edit : Editor) :
    (∀ above tag cs span, (q.matchSite ⟨above, .node tag cs span⟩).isMatch = true →
      q.dispatch.admits tag = true) ∧
    ((∀ o ∈ q.search t, ∃ edits, edit o = .ok edits) →
      (q.pass t edit).1.visited = q.search t ∧ (q.pass t edit).2 = none) ∧
    ((∃ o ∈ q.search t, ∃ e, edit o = .error e) →
      ∃ (k : Nat) (o : Occurrence) (e : Fault), (q.search t)[k]? = some o ∧ edit o = .error e ∧
        (∀ o' ∈ (q.search t).take k, ∃ edits, edit o' = .ok edits) ∧
        (q.pass t edit).1.visited = (q.search t).take (k + 1) ∧
        q.revise t source edit = .error e) := by
  have h := pass_agrees q t edit
  refine ⟨fun above tag cs span hm => q.dispatch_admits rfl hm, fun hok => ?_, fun herr => ?_⟩
  · have hnone := ask_of_forall_ok hok
    exact ⟨h.visited.trans (asked_of_fault_none hnone), h.fault.trans hnone⟩
  · obtain ⟨k, o, e, hk, ho, hbefore, hasked, hfault⟩ := ask_of_exists_error herr
    refine ⟨k, o, e, hk, ho, hbefore, h.visited.trans hasked, ?_⟩
    have hpass : q.pass t edit = ((q.pass t edit).1, some e) :=
      Prod.ext rfl (h.fault.trans hfault)
    rw [revise, hpass]

end Query

end TreeQuery
