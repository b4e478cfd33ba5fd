import Mathlib
import TreeQuery.Proofs.Combination.Largest
import TreeQuery.Proofs.Experiment.Candidate
import TreeQuery.Proofs.Experiment.Steady
import TreeQuery.Proofs.Experiment.Transcript

/-!
# A run commits what its policy passed, or nothing

However a run on a file ends, the file holds either what it held before or the text of the
committed combination; and then the policy was given exactly that text and passed it, and passed
no larger combination (`runFile_settles`).

Two things are kept along the run. The file stands as it was, since every candidate is written and
removed at another place (`Untouched`). And what the search has accepted is what the policy has
passed (`Ledger`), so that the best of the one is the largest of the other.
-/

namespace TreeQuery.Experiment

open Combination (Search)
open File (Path System)

variable {σ : Type} {s : Subject σ} {e : Experiment σ} {o : Options} {path : Path}
  {source text : List Char} {tree : Tree} {place : List File.Name} {c fragment : Combination}
  {p : Progress} {search search' : Search} {asked : List Exchange} {x : Exchange}
  {w : World (σ × List Exchange)} {fs fs' : System}

-- ---------------------------------------------------------------------------
-- The file while the search goes on
-- ---------------------------------------------------------------------------

/-- The file holds its source, and what is written for a candidate can be read again. -/
structure Untouched (path : Path) (source : List Char) (fs : System) : Prop where
  entry : fs.entry path = .ok (.file (.text source))
  candidates : ∀ c, fs.entry (candidatePath path c) ≠ .ok .sink

theorem Untouched.fileName (h : Untouched path source fs) : ∃ name, path.fileName? = some name := by
  obtain ⟨home, hhome, hsight⟩ := (System.entry_eq_ok_iff rfl).1 h.entry
  exact System.exists_fileName hhome (by simp [hsight])

theorem Untouched.changed (h : Untouched path source fs)
    (hl : fs.Leads (candidatePath path c) place) (hc : fs.ChangedAt fs' place) :
    Untouched path source fs' :=
  ⟨entry_of_changedAt_candidate hl hc rfl h.entry, fun d => hc.entry_ne_sink (h.candidates d)⟩

theorem Untouched.written (h : Untouched path source fs)
    (hw : fs.writeText (candidatePath path c) text = .ok fs') :
    Untouched path source fs' ∧ fs'.readText (candidatePath path c) = .ok text ∧
      ∀ left, fs'.removeFile (candidatePath path c) = .ok left → Untouched path source left := by
  obtain ⟨place, hl, hchanged, hwritten⟩ := System.of_writeText fileName?_candidatePath hw
  have huntouched := h.changed hl hchanged
  refine ⟨huntouched, System.readText_of_entry (hwritten (h.candidates c)), fun left hr => ?_⟩
  have hleads := hchanged.leads_iff.2 hl
  exact huntouched.changed hleads (System.of_removeFile fileName?_candidatePath hleads hr).1

theorem Policy.ReadOnly.files_eq {policy : Policy σ} (h : policy.ReadOnly) {j : Judgement}
    {state state' : σ} (hj : policy.judge fs path state = (j, state')) : j.files = fs := by
  have hfiles := h fs path state
  rwa [hj] at hfiles

theorem evaluate_spec (hro : s.experiment.policy.ReadOnly)
    (h : Untouched s.path source w.files) :
    Untouched s.path source (s.transcribed.evaluate c w).2.files ∧
      ((∃ error, (s.transcribed.evaluate c w).1 = .error error ∧
          (s.transcribed.evaluate c w).2.transcript = w.transcript) ∨
        ∃ text, s.render c = .ok text ∧
          (s.transcribed.evaluate c w).2.transcript = w.transcript ++
            [⟨candidatePath s.path c, .ok text, (s.transcribed.evaluate c w).1⟩]) := by
  unfold Subject.evaluate
  rw [Subject.transcribed, render_withPolicy]
  cases s.render c with
  | error error => exact ⟨h, .inl ⟨error, rfl, rfl⟩⟩
  | ok text =>
    rcases hw : w.files.writeText (candidatePath s.path c) text with error | files
    · simp only [Subject.withPolicy, hw]
      exact ⟨h, .inl ⟨_, rfl, trivial⟩⟩
    · obtain ⟨hwritten, hread, hremoved⟩ := h.written hw
      rcases hj : s.experiment.policy.judge files (candidatePath s.path c) w.state.1
        with ⟨j, state⟩
      have hfiles : j.files = files := hro.files_eq hj
      rw [← hfiles] at hwritten hremoved
      -- if the candidate cannot be removed it stays, and the run goes on
      rcases hr : j.files.removeFile (candidatePath s.path c) with error | left <;>
        simp only [Subject.withPolicy, withPolicy, Policy.transcribed, hw, hj, hr, hread]
      · exact ⟨hwritten, .inr ⟨text, rfl, rfl⟩⟩
      · exact ⟨hremoved left hr, .inr ⟨text, rfl, rfl⟩⟩

-- ---------------------------------------------------------------------------
-- The search and the transcript
-- ---------------------------------------------------------------------------

/-- The search has accepted what the policy has passed. -/
structure Ledger (s : Subject σ) (search : Search) (asked : List Exchange) : Prop where
  backed : ∀ c ∈ search.accepted,
    ∃ text, s.render c = .ok text ∧ ⟨candidatePath s.path c, .ok text, .ok true⟩ ∈ asked
  complete : ∀ x ∈ asked, x.answer = .ok true →
    ∃ c ∈ search.accepted, x.path = candidatePath s.path c

theorem ledger_start (n limit : Nat) : Ledger s (.start n limit) [] :=
  ⟨List.forall_mem_nil _, List.forall_mem_nil _⟩

theorem Ledger.congr (h : Ledger s search asked) (ha : search'.accepted = search.accepted) :
    Ledger s search' asked := by
  constructor
  · rw [ha]
    exact h.backed
  · rw [ha]
    exact h.complete

theorem Ledger.failed (h : Ledger s search asked) (hx : x.answer ≠ .ok true) :
    Ledger s search (asked ++ [x]) := by
  constructor
  · intro c hc
    obtain ⟨text, hr, hmem⟩ := h.backed c hc
    exact ⟨text, hr, List.mem_append_left _ hmem⟩
  · intro y hy hanswer
    rcases List.mem_append.1 hy with hy | hy
    · exact h.complete y hy hanswer
    · cases List.mem_singleton.1 hy
      exact absurd hanswer hx

theorem Ledger.record (h : Ledger s search asked) (hr : s.render c = .ok text) (passed : Bool) :
    Ledger s (search.record c passed)
      (asked ++ [⟨candidatePath s.path c, .ok text, .ok passed⟩]) := by
  cases passed with
  | false =>
    refine (h.failed ?_).congr (by simp [Search.record_accepted])
    simp
  | true =>
    have haccepted : (search.record c true).accepted = search.accepted ++ [c] := by
      simp [Search.record_accepted]
    constructor
    · rw [haccepted]
      intro d hd
      rcases List.mem_append.1 hd with hd | hd
      · obtain ⟨text', hr', hmem⟩ := h.backed d hd
        exact ⟨text', hr', List.mem_append_left _ hmem⟩
      · cases List.mem_singleton.1 hd
        exact ⟨text, hr, List.mem_concat_self⟩
    · rw [haccepted]
      intro y hy hanswer
      rcases List.mem_append.1 hy with hy | hy
      · obtain ⟨d, hd, hp⟩ := h.complete y hy hanswer
        exact ⟨d, List.mem_append_left _ hd, hp⟩
      · cases List.mem_singleton.1 hy
        exact ⟨c, List.mem_concat_self, rfl⟩

-- ---------------------------------------------------------------------------
-- The run
-- ---------------------------------------------------------------------------

structure Sofar (s : Subject σ) (p : Progress) (w : World (σ × List Exchange)) : Prop where
  untouched : Untouched s.path s.source w.files
  ledger : Ledger s p.search w.transcript

theorem Sofar.look (h : Sofar s p w) : Sofar s p w.look.2 := ⟨h.untouched, h.ledger⟩

theorem Sofar.note (h : Sofar s p w) (entries : List Log.Entry) : Sofar s p (w.note entries) :=
  ⟨h.untouched, h.ledger⟩

theorem sofar_steady (hro : s.experiment.policy.ReadOnly) :
    Steady s.transcribed (Sofar s) fun _ => Sofar s where
  look h := h.look
  note entries h := h.note entries
  propose _ h := ⟨h.untouched, h.ledger.congr Search.next_accepted⟩
  cancelled h _ := h
  exceeded _ h _ := h
  failed := by
    intro p w c error h _ hfailed
    obtain ⟨huntouched, ⟨-, -, hasked⟩ | ⟨text, -, hasked⟩⟩ :=
      evaluate_spec (c := c) hro h.untouched
    · exact ⟨huntouched, hasked ▸ h.ledger⟩
    · refine ⟨huntouched, hasked ▸ h.ledger.failed ?_⟩
      simp [hfailed]
  judged := by
    intro p w c passed h _ hjudged
    obtain ⟨huntouched, ⟨error, hfailed, -⟩ | ⟨text, hr, hasked⟩⟩ :=
      evaluate_spec (c := c) hro h.untouched
    · cases hjudged.symm.trans hfailed
    · rw [hjudged] at hasked
      exact ⟨huntouched, hasked ▸ h.ledger.record hr passed⟩

theorem tryRounds_sofar (hro : s.experiment.policy.ReadOnly) (fuel : Nat) (h : Sofar s p w) :
    Sofar s (tryRounds s.transcribed fuel p w).2.1 (tryRounds s.transcribed fuel p w).2.2 ∧
      ∀ status, (tryRounds s.transcribed fuel p w).1 = some status →
        status.isCommitted = false :=
  ⟨((sofar_steady hro).tryRounds fuel h).kept, fun _ => isCommitted_tryRounds⟩

-- ---------------------------------------------------------------------------
-- The end of the run
-- ---------------------------------------------------------------------------

/-- The file holds the text of the fragment, which the policy was given and passed, and no larger
combination passed. -/
structure Committed (s : Subject σ) (fragment : Combination) (after : System)
    (asked : List Exchange) : Prop where
  passed : ∃ text, s.render fragment = .ok text ∧ after.readText s.path = .ok text ∧
    ⟨candidatePath s.path fragment, .ok text, .ok true⟩ ∈ asked
  largest : ∀ c text, ⟨candidatePath s.path c, text, .ok true⟩ ∈ asked → c.size ≤ fragment.size

def Settles (e : Experiment σ) (path : Path) (before after : System) (asked : List Exchange) :
    Status → Prop
  | .committed fragment => ∃ source tree, before.readText path = .ok source ∧
      e.reader source = .ok tree ∧ Committed ⟨e, path, source, tree⟩ fragment after asked
  | _ => after.entry path = before.entry path

theorem settles_of_entry {before after : System} {status : Status}
    (hs : status.isCommitted = false) (h : after.entry path = before.entry path) :
    Settles e path before after asked status := by
  cases status with
  | committed fragment => cases hs
  | _ => exact h

theorem commit_spec (h : Sofar s p w) :
    match (commit s.transcribed p w).1 with
    | .committed fragment =>
      Committed s fragment (commit s.transcribed p w).2.files
        (commit s.transcribed p w).2.transcript
    | _ => (commit s.transcribed p w).2.files = w.files := by
  unfold commit
  cases hbest : p.search.best? with
  | none => rfl
  | some fragment =>
    obtain ⟨haccepted, hlargest⟩ := Search.best?_eq_some hbest
    obtain ⟨text, hr, hasked⟩ := h.ledger.backed fragment haccepted
    simp only [Subject.transcribed, render_withPolicy, hr]
    rcases hw : w.files.writeText s.path text with error | files
    · simp only [Subject.withPolicy, hw]
    · simp only [Subject.withPolicy, hw]
      obtain ⟨name, hname⟩ := h.untouched.fileName
      obtain ⟨place, -, -, hwritten⟩ := System.of_writeText hname hw
      have hentry := hwritten (by simp [h.untouched.entry])
      refine ⟨⟨text, hr, System.readText_of_entry hentry, hasked⟩, fun c text' hc => ?_⟩
      obtain ⟨d, hd, hpath⟩ := h.ledger.complete _ hc rfl
      rw [candidatePath_inj hpath]
      exact hlargest d hd

theorem searchFile_settles (hro : e.policy.ReadOnly) (h : Untouched path source w.files)
    (hnew : w.transcript = []) (hreader : e.reader source = .ok tree) :
    Settles e path w.files (searchFile o e.transcribed path source tree w).2.files
      (searchFile o e.transcribed path source tree w).2.transcript
      (searchFile o e.transcribed path source tree w).1.status := by
  unfold searchFile
  dsimp only
  split
  · exact settles_of_entry rfl rfl
  · rw [subject_transcribed]
    have hstart : Sofar ⟨e, path, source, tree⟩
        ⟨.start (e.transcribed.query.search tree).length o.maxCombinations, 0, 0⟩ w :=
      ⟨h, hnew ▸ ledger_start _ _⟩
    obtain ⟨hsofar, hstatus⟩ := tryRounds_sofar hro
      (Nat.pow 2 (e.transcribed.query.search tree).length + 2)
      (hstart.note [entry .debug "searching combinations"
        [pathField path, ("occurrences", .number (e.transcribed.query.search tree).length)]])
    generalize tryRounds _ _ _ _ = r at hsofar hstatus
    obtain ⟨_ | status, p, w'⟩ := r
    · have hcommit := commit_spec hsofar
      dsimp only at hsofar ⊢
      generalize commit _ p w' = r at hcommit
      obtain ⟨status, after⟩ := r
      cases status with
      | committed fragment =>
        exact ⟨source, tree, System.readText_of_entry h.entry, hreader, hcommit⟩
      | _ =>
        refine settles_of_entry rfl ?_
        rw [hcommit]
        exact hsofar.untouched.entry.trans h.entry.symm
    · exact settles_of_entry (hstatus status rfl) (hsofar.untouched.entry.trans h.entry.symm)

theorem logged_settles {before : System} {r : FileOutcome × World (σ × List Exchange)}
    (h : Settles e path before r.2.files r.2.transcript r.1.status) :
    Settles e path before (logged r).2.files (logged r).2.transcript (logged r).1.status := by
  obtain ⟨entries, hlogged⟩ := exists_logged r
  rw [hlogged]
  exact h

/-- Whatever the verdicts of the policy, its errors and the cancellations, the file holds what it
held before, or it holds the text of the committed combination. Then the policy was given exactly
that text and passed it, and no combination that it passed is larger.

The policy changes no files, and neither the file nor what stands in the place of a candidate is a
device, where nothing can be stored. -/
theorem runFile_settles (o : Options) (e : Experiment σ) (path : Path) (w : World σ)
    (hro : e.policy.ReadOnly) (hpath : w.files.entry path ≠ .ok .sink)
    (hcandidates : ∀ c, w.files.entry (candidatePath path c) ≠ .ok .sink) :
    (runFile o e.transcribed path w.transcribed).1 = (runFile o e path w).1 ∧
    (runFile o e.transcribed path w.transcribed).2.erase = (runFile o e path w).2 ∧
    Settles e path w.files (runFile o e path w).2.files
      (runFile o e.transcribed path w.transcribed).2.transcript (runFile o e path w).1.status := by
  have herase := runFile_erase (o := o) (e := e) (w := w.transcribed) path
  rw [World.erase_transcribed] at herase
  rw [herase]
  refine ⟨rfl, rfl, ?_⟩
  dsimp only [World.erase, World.through_files]
  unfold runFile
  have hlook : w.transcribed.look.2.files = w.files ∧ w.transcribed.look.2.transcript = [] :=
    ⟨rfl, rfl⟩
  generalize w.transcribed.look = r at hlook
  obtain ⟨cancelled, w'⟩ := r
  obtain ⟨hfiles, hnew⟩ := hlook
  dsimp only at hfiles hnew
  rw [← hfiles] at hpath hcandidates ⊢
  cases cancelled with
  | true => exact settles_of_entry rfl rfl
  | false =>
    refine logged_settles ?_
    rcases hread : w'.files.readText path with error | source
    · exact settles_of_entry rfl rfl
    · rcases hreader : e.reader source with error | tree
      · simp only [transcribed, withPolicy_reader, hreader]
        exact settles_of_entry rfl rfl
      · simp only [transcribed, withPolicy_reader, hreader]
        exact searchFile_settles hro ⟨System.entry_of_readText hread hpath, hcandidates⟩ hnew
          hreader

def marking : Experiment Unit :=
  .ofRule "marking".toList ⟨⟨"x".toList, .literal (.sym "x")⟩, "é$0".toList, none⟩
    (.ofTextRule ⟨none, [], [("é(x 1)".toList, "é(x 2)".toList)], []⟩) Sexp.parseChars []

def twoForms : World Unit :=
  ⟨⟨.directory (.cons ['f'] (.file (.text "(x 1) (x 2)".toList)) .nil), []⟩, false, [], (), []⟩

theorem entry_twoForms (p : Path) : twoForms.files.entry p ≠ .ok .sink := by
  unfold System.entry
  rcases twoForms.files.locate p with error | ⟨_ | ⟨name, names⟩⟩
  · simp [Except.bind]
  · simp [Except.bind, twoForms, File.Entry.find]
  · simp only [Except.bind, twoForms, File.Entry.find, File.Listing.find?]
    split
    · simp
    · by_cases hf : ['f'] = name
      · cases names <;> simp [hf, File.Entry.find]
      · simp [hf]

theorem runFile_settles_marking :
    (runFile .default marking ⟨['f']⟩ twoForms).1.status = .committed (.singleton 2) ∧
    (runFile .default marking ⟨['f']⟩ twoForms).2.files.readText ⟨['f']⟩ =
      .ok "(x 1) é(x 2)".toList ∧
    ⟨candidatePath ⟨['f']⟩ (.singleton 2), .ok "(x 1) é(x 2)".toList, .ok true⟩ ∈
      (runFile .default marking.transcribed ⟨['f']⟩ twoForms.transcribed).2.transcript ∧
    ∀ c text, ⟨candidatePath ⟨['f']⟩ c, text, .ok true⟩ ∈
      (runFile .default marking.transcribed ⟨['f']⟩ twoForms.transcribed).2.transcript →
        c.size ≤ 1 := by
  have hstatus : (runFile .default marking ⟨['f']⟩ twoForms).1.status =
      .committed (.singleton 2) := by cbv
  have hread : (runFile .default marking ⟨['f']⟩ twoForms).2.files.readText ⟨['f']⟩ =
      .ok "(x 1) é(x 2)".toList := by cbv
  have hro : marking.policy.ReadOnly := fun _ _ _ => rfl
  have hsettles := runFile_settles .default marking ⟨['f']⟩ twoForms hro
    (entry_twoForms _) (fun _ => entry_twoForms _)
  rw [hstatus] at hsettles
  obtain ⟨-, -, source, tree, -, -, ⟨text, -, htext, hasked⟩, hlargest⟩ := hsettles
  cases hread.symm.trans htext
  exact ⟨hstatus, hread, hasked, hlargest⟩

end TreeQuery.Experiment
