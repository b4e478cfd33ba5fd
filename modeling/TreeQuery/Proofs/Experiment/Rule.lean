import TreeQuery.Experiment.Runner
import TreeQuery.Proofs.Edit.Applied

/-!
# Experiments that are made from rules

A candidate of an experiment and a rule choose occurrences in two places: the candidate by its
combination, the rule by its restriction. Where both choose the same occurrences they write the
same text, or fail with the same fault (`Subject.render_eq`). The experiment of a rule knows the
query and the template only, so the candidate of all occurrences is what the rule makes without a
restriction, and the candidate of one occurrence is what the rule makes when it is restricted to
that occurrence (`Subject.render_ofRule`).
-/

namespace TreeQuery.Experiment

variable {σ : Type}

def every (q : Query) (t : Tree) : Combination :=
  .ofList (List.range' 1 (q.search t).length)

theorem contains_every {q : Query} {t : Tree} {o : Occurrence} (ho : o ∈ q.search t) :
    (every q t).indices.contains o.index = true := by
  have hindex := Rule.index_of_mem_search ho
  have hmem : o.index ∈ every q t := by
    rw [every, Combination.mem_ofList, List.mem_range'_1]
    omega
  exact List.contains_iff_mem.2 hmem

namespace Subject

/-- What a rule makes of the source, as a candidate reports it. -/
def rewritten (s : Subject σ) (r : Rule) : Except Failure (List Char) :=
  ((r.apply s.tree s.source).map Revision.output).mapError (.revise s.path)

section
variable {s : Subject σ} {r : Rule} {c : Combination}

theorem render_eq (hquery : s.experiment.query = r.query)
    (h : ∀ o ∈ r.query.search s.tree,
      (if c.indices.contains o.index then s.experiment.edit s.source o else .ok []) =
        r.edit s.source o) :
    s.render c = s.rewritten r := by
  rw [render, rewritten, Rule.apply, hquery, Query.revise_congr s.source h]
  cases r.query.revise s.tree s.source (r.edit s.source) <;> rfl

end

section
variable (name : List Char) (r : Rule) (policy : Policy σ) (reader : Reader)
  (lookup : List File.Path) (path : File.Path) (source : List Char) (t : Tree)

theorem render_only {c : Combination} {only : Option Nat}
    (h : ∀ o ∈ r.query.search t, c.indices.contains o.index = only.all (· == o.index)) :
    (Subject.mk (ofRule name r policy reader lookup) path source t).render c =
      (Subject.mk (ofRule name r policy reader lookup) path source t).rewritten
        { r with only } := by
  refine render_eq rfl fun o ho => ?_
  rw [h o ho]
  rfl

/-- The candidate of all occurrences is what the rule makes without a restriction, so it is what
the rule makes if the restriction leaves no occurrence out. The candidate of one occurrence is
what the rule makes when it is restricted to that occurrence. -/
theorem render_ofRule :
    let s : Subject σ := ⟨ofRule name r policy reader lookup, path, source, t⟩
    s.render (every r.query t) = s.rewritten { r with only := none } ∧
      ((∀ o ∈ r.query.search t, r.selects o = true) →
        s.render (every r.query t) = s.rewritten r) ∧
      ∀ k, s.render (.singleton k) = s.rewritten (r.restrict k) := by
  refine ⟨?_, fun hall => ?_, fun k => ?_⟩
  · refine render_only name r policy reader lookup path source t fun o ho => ?_
    rw [contains_every ho, Option.all_none]
  · refine render_only name r policy reader lookup path source t fun o ho => ?_
    rw [contains_every ho]
    exact (hall o ho).symm
  · refine render_only name r policy reader lookup path source t fun o ho => ?_
    rw [Combination.singleton, List.contains_cons, List.contains_nil, Bool.or_false,
      Option.all_some, Bool.beq_comm]

end

def secondForm : Rule :=
  ⟨⟨"(x _)".toList, .sequence [.literal (.sym "x"), .wildcard]⟩, "(z)".toList, some 2⟩

def oneForm (r : Rule) : Subject Unit :=
  ⟨ofRule [] r ⟨fun fs _ state => (.plain (.ok true) fs, state)⟩ Sexp.parseChars [], ⟨['f']⟩,
    "(x 1)".toList,
    .node "x" [.leaf (.int 1) (some (.between 3 4))] (some (.between 0 5))⟩

theorem render_ofRule_first :
    (oneForm (secondForm.restrict 1)).render (every secondForm.query (oneForm secondForm).tree) =
        .ok "(z)".toList ∧
      (oneForm secondForm).render (.singleton 2) = .ok "(x 1)".toList := by
  have hall : ∀ o ∈ secondForm.query.search (oneForm secondForm).tree,
      (secondForm.restrict 1).selects o = true := by
    have hselects : (secondForm.query.search (oneForm secondForm).tree).all
        (secondForm.restrict 1).selects = true := by cbv
    exact List.all_eq_true.1 hselects
  have hfirst : (oneForm (secondForm.restrict 1)).rewritten (secondForm.restrict 1) =
      .ok "(z)".toList := by cbv
  have hsecond : (oneForm secondForm).rewritten (secondForm.restrict 2) =
      .ok "(x 1)".toList := by cbv
  exact ⟨((render_ofRule [] (secondForm.restrict 1) _ _ [] _ _ _).2.1 hall).trans hfirst,
    ((render_ofRule [] secondForm _ _ [] _ _ _).2.2 2).trans hsecond⟩

/-- The experiment of a rule edits an occurrence that the rule leaves out. -/
theorem not_render_eq_rewritten :
    ¬ ∀ r : Rule,
      (oneForm r).render (every r.query (oneForm r).tree) = (oneForm r).rewritten r := by
  intro h
  have hcandidate : (oneForm secondForm).render
      (every secondForm.query (oneForm secondForm).tree) = .ok "(z)".toList := by cbv
  have hrule : (oneForm secondForm).rewritten secondForm = .ok "(x 1)".toList := by cbv
  have hsame := h secondForm
  rw [hcandidate, hrule] at hsame
  cases hsame

end Subject

end TreeQuery.Experiment
