import TreeQuery.File.System
import TreeQuery.Proofs.File.Path

/-!
# What changes when a file is written or removed

Whoever writes or removes a file changes what is found at one place and at no other
(`System.ChangedAt`). Directories come and go with neither, so all paths lead where they led
before (`ChangedAt.leads_iff`), and every file at another place is there as it was
(`ChangedAt.sameFile`).
-/

namespace TreeQuery.File

/-- What is found at a place. Directories are not told apart: what they hold is found below. -/
inductive Sight where
  | nothing
  | directory
  | leaf (e : Entry)

def Sight.of : Option Entry → Sight
  | none => .nothing
  | some (.directory _) => .directory
  | some e => .leaf e

namespace Listing

variable {l : Listing} {name other : Name}

theorem find?_erase_self : (l.erase name).find? name = none := by
  fun_induction erase name l <;> simp_all [find?]

theorem find?_erase_of_ne (h : other ≠ name) : (l.erase name).find? other = l.find? other := by
  fun_induction erase name l <;> simp_all [find?, Ne.symm]

theorem find?_set_self (new : Option Entry) : (l.set name new).find? name = new := by
  cases new with
  | none => exact find?_erase_self
  | some e => exact find?_put_self l name e

theorem find?_set_of_ne (new : Option Entry) (h : other ≠ name) :
    (l.set name new).find? other = l.find? other := by
  cases new with
  | none => exact find?_erase_of_ne h
  | some e => exact find?_put_of_ne l e h

end Listing

namespace Entry

variable {e e' : Entry} {l l' : Listing} {name : Name} {names place other : List Name}
  {change : Option Entry → Except IoError (Option Entry)}

def sight (e : Entry) (place : List Name) : Sight := .of (e.find place).toOption

def sightBelow : Option Entry → List Name → Sight
  | none, _ => .nothing
  | some e, names => e.sight names

theorem sight_cons (hw : Text.width name ≤ 255) :
    (directory l).sight (name :: names) = sightBelow (l.find? name) names := by
  unfold sight
  rw [find, if_neg (Nat.not_lt.2 hw)]
  cases l.find? name <;> rfl

theorem sight_cons_congr (h : l'.find? name = l.find? name) :
    (directory l').sight (name :: names) = (directory l).sight (name :: names) := by
  unfold sight
  rw [find, find, h]

theorem sightBelow_eq_nothing {found : Option Entry} (h : Sight.of found ≠ .directory)
    (hne : names ≠ []) : sightBelow found names = .nothing := by
  cases names with
  | nil => exact absurd rfl hne
  | cons name names =>
    rcases found with _ | (_ | _ | _ | _)
    case some.directory => exact absurd rfl h
    all_goals rfl

theorem find_append (e : Entry) (names more : List Name) :
    e.find (names ++ more) = (e.find names).bind (·.find more) := by
  induction names generalizing e with
  | nil => rfl
  | cons name names ih =>
    cases e with
    | directory l =>
      simp only [List.cons_append, find]
      split
      · rfl
      · cases l.find? name with
        | none => rfl
        | some inner => exact ih inner
    | _ => rfl

theorem sight_eq_directory :
    e.sight place = .directory ↔ ∃ l, e.find place = .ok (.directory l) := by
  unfold sight
  rcases e.find place with _ | (_ | _ | _ | _) <;> simp [Except.toOption, Sight.of]

theorem sight_dropLast (h : e.sight place = .directory) : e.sight place.dropLast = .directory := by
  rcases List.eq_nil_or_concat place with rfl | ⟨above, name, rfl⟩
  · exact h
  · obtain ⟨l, hl⟩ := sight_eq_directory.1 h
    rw [List.concat_eq_append, find_append] at hl
    rw [List.concat_eq_append, List.dropLast_concat]
    cases ha : e.find above with
    | error error => simp [ha, Except.bind] at hl
    | ok inner =>
      rw [ha] at hl
      cases inner with
      | directory l' => exact sight_eq_directory.2 ⟨l', ha⟩
      | _ => cases hl

-- ---------------------------------------------------------------------------
-- Changes at one place
-- ---------------------------------------------------------------------------

theorem sight_congr (hw : Text.width name ≤ 255)
    (hothers : ∀ n, n ≠ name → l'.find? n = l.find? n)
    (hbelow : ∀ rest, rest ≠ names →
      sightBelow (l'.find? name) rest = sightBelow (l.find? name) rest)
    (ho : other ≠ name :: names) : (directory l').sight other = (directory l).sight other := by
  cases other with
  | nil => rfl
  | cons first rest =>
    by_cases hf : first = name
    · subst hf
      rw [sight_cons hw, sight_cons hw]
      exact hbelow rest fun hr => ho (hr ▸ rfl)
    · exact sight_cons_congr (hothers first hf)

theorem of_alter_cons (h : e.alter change (name :: names) = .ok e') :
    ∃ l, e = directory l ∧ Text.width name ≤ 255 ∧
      ((names = [] ∧ ∃ new, change (l.find? name) = .ok new ∧ e' = directory (l.set name new)) ∨
        ∃ inner inner', names ≠ [] ∧ l.find? name = some inner ∧
          inner.alter change names = .ok inner' ∧ e' = directory (l.put name inner')) := by
  cases e with
  | directory l =>
    simp only [alter] at h
    split at h
    · cases h
    · next hw =>
      refine ⟨l, rfl, Nat.not_lt.1 hw, ?_⟩
      cases names with
      | nil =>
        cases hc : change (l.find? name) with
        | error error => simp [hc, Except.map] at h
        | ok new => exact .inl ⟨rfl, new, rfl, by simpa [hc, Except.map] using h.symm⟩
      | cons second rest =>
        cases hf : l.find? name with
        | none => simp [hf] at h
        | some inner =>
          cases ha : inner.alter change (second :: rest) with
          | error error => simp [hf, ha, Except.map] at h
          | ok inner' =>
            exact .inr ⟨inner, inner', List.cons_ne_nil _ _, rfl, ha,
              by simpa [hf, ha, Except.map] using h.symm⟩
  | _ => simp [alter] at h

/-- A change that neither replaces a directory nor makes one. -/
def KeepsDirectories (change : Option Entry → Except IoError (Option Entry)) : Prop :=
  ∀ found new, change found = .ok new → Sight.of found ≠ .directory ∧ Sight.of new ≠ .directory

theorem alter_sights (hk : KeepsDirectories change) (hne : place ≠ [])
    (h : e.alter change place = .ok e') :
    (∀ other, other ≠ place → e'.sight other = e.sight other) ∧
      ∃ found new, change found = .ok new ∧ e.sight place = .of found ∧
        e'.sight place = .of new := by
  induction place generalizing e e' with
  | nil => exact absurd rfl hne
  | cons name names ih =>
    obtain ⟨l, rfl, hw, ⟨rfl, new, hc, rfl⟩ | ⟨inner, inner', hn, hf, ha, rfl⟩⟩ := of_alter_cons h
    · obtain ⟨hfound, hnew⟩ := hk _ _ hc
      refine ⟨fun other ho => sight_congr hw ?_ ?_ ho, l.find? name, new, hc, ?_, ?_⟩
      · exact fun n => Listing.find?_set_of_ne new
      · intro rest hr
        rw [Listing.find?_set_self, sightBelow_eq_nothing hnew hr, sightBelow_eq_nothing hfound hr]
      · rw [sight_cons hw]
        cases l.find? name <;> rfl
      · rw [sight_cons hw, Listing.find?_set_self]
        cases new <;> rfl
    · obtain ⟨helse, found, new, hc, hbefore, hafter⟩ := ih hn ha
      refine ⟨fun other ho => sight_congr hw ?_ ?_ ho, found, new, hc, ?_, ?_⟩
      · exact fun n => Listing.find?_put_of_ne l inner'
      · intro rest hr
        rw [Listing.find?_put_self, hf]
        exact helse rest hr
      · rw [sight_cons hw, hf]
        exact hbefore
      · rw [sight_cons hw, Listing.find?_put_self]
        exact hafter

theorem write_sights {contents : Contents} (hne : place ≠ [])
    (h : e.write contents place = .ok e') :
    (∀ other, other ≠ place → e'.sight other = e.sight other) ∧ e.sight place ≠ .directory ∧
      (e.sight place = .leaf .sink ∧ e'.sight place = .leaf .sink ∨
        e.sight place ≠ .leaf .sink ∧ e'.sight place = .leaf (.file contents)) := by
  unfold write at h
  obtain ⟨helse, found, new, hc, hbefore, hafter⟩ := alter_sights (fun found new hc => by
    rcases found with _ | (_ | _ | _ | _) <;> cases hc <;> simp [Sight.of]) hne h
  refine ⟨helse, ?_⟩
  rw [hbefore, hafter]
  rcases found with _ | (_ | _ | _ | _) <;> cases hc <;> simp [Sight.of]

theorem remove_sights (hne : place ≠ []) (h : e.remove place = .ok e') :
    (∀ other, other ≠ place → e'.sight other = e.sight other) ∧ e.sight place ≠ .directory ∧
      e'.sight place = .nothing := by
  unfold remove at h
  obtain ⟨helse, found, new, hc, hbefore, hafter⟩ := alter_sights (fun found new hc => by
    rcases found with _ | (_ | _ | _ | _) <;> cases hc <;> simp [Sight.of]) hne h
  refine ⟨helse, ?_⟩
  rw [hbefore, hafter]
  rcases found with _ | (_ | _ | _ | _) <;> cases hc <;> simp [Sight.of]

end Entry

namespace System

variable {s s' : System} {p p' : Path} {name name' : Name} {names done place other : List Name}
  {e : Entry} {cs : List Char}

-- ---------------------------------------------------------------------------
-- Where paths lead
-- ---------------------------------------------------------------------------

theorem follow_cons : s.follow done (name :: names) = .ok place ↔
    s.root.sight done = .directory ∧
      s.follow (if isUp name then done.dropLast else done ++ [name]) names = .ok place := by
  rw [follow, Entry.sight_eq_directory]
  rcases s.root.find done with _ | (_ | _ | _ | _) <;> simp

theorem follow_concat : s.follow done (names ++ [name]) = .ok place ↔
    ∃ above, s.follow done names = .ok above ∧ s.root.sight above = .directory ∧
      place = if isUp name then above.dropLast else above ++ [name] := by
  induction names generalizing done with
  | nil =>
    rw [List.nil_append, follow_cons]
    constructor
    · rintro ⟨hd, hf⟩
      exact ⟨done, rfl, hd, by simpa [follow] using hf.symm⟩
    · rintro ⟨above, hf, ha, rfl⟩
      cases hf
      exact ⟨ha, rfl⟩
  | cons first names ih =>
    rw [List.cons_append, follow_cons, ih]
    simp only [follow_cons]
    constructor
    · rintro ⟨hd, above, hf, ha, rfl⟩
      exact ⟨above, ⟨hd, hf⟩, ha, rfl⟩
    · rintro ⟨above, ⟨hd, hf⟩, ha, rfl⟩
      exact ⟨hd, above, hf, ha, rfl⟩

/-- The path is none that only a directory can have, and it leads to a place. -/
def Leads (s : System) (p : Path) (place : List Name) : Prop :=
  p.endsInDirectory = false ∧ s.locate p = .ok place

theorem Leads.unique (h : s.Leads p place) (h' : s.Leads p other) : place = other := by
  have := h.2.symm.trans h'.2
  simpa using this

def WellFormed (p : Path) : Prop :=
  p.text.contains '\x00' = false ∧ p.text.isEmpty = false ∧ ¬ 4096 ≤ Text.width p.text

theorem locate_eq_ok : s.locate p = .ok place ↔
    WellFormed p ∧ s.follow (s.origin p) p.names = .ok place ∧
      (p.endsInDirectory = true → ∀ e, s.root.find place = .ok e → e.isDirectory = true) := by
  unfold locate WellFormed
  split
  · simp_all
  · split
    · simp_all
    · split
      · simp_all
      · cases s.follow (s.origin p) p.names with
        | error error => simp [Except.bind]
        | ok names =>
          cases p.endsInDirectory with
          | false => simp_all [Except.bind]
          | true =>
            rcases hf : s.root.find names with error | (_ | _ | _ | _) <;>
              simp_all [Except.bind, Entry.isDirectory] <;>
              (rintro rfl; simp [hf])

theorem leads_iff : s.Leads p place ↔
    WellFormed p ∧ p.endsInDirectory = false ∧ s.follow (s.origin p) p.names = .ok place := by
  unfold Leads
  rw [locate_eq_ok]
  constructor
  · rintro ⟨hd, hp, hf, -⟩
    exact ⟨hp, hd, hf⟩
  · rintro ⟨hp, hd, hf⟩
    exact ⟨hd, hp, hf, fun h => absurd (hd.symm.trans h) Bool.false_ne_true⟩

theorem entry_eq_ok_iff (he : e.isDirectory = false) :
    s.entry p = .ok e ↔ ∃ place, s.Leads p place ∧ s.root.sight place = .leaf e := by
  have hsight {place} : s.root.sight place = .leaf e ↔ s.root.find place = .ok e := by
    unfold Entry.sight
    rcases s.root.find place with _ | (_ | _ | _ | _) <;>
      cases e <;> simp_all [Except.toOption, Sight.of, Entry.isDirectory]
  simp only [hsight, Leads]
  unfold entry
  constructor
  · intro h
    cases hl : s.locate p with
    | error error => simp [hl, Except.bind] at h
    | ok place =>
      rw [hl] at h
      refine ⟨place, ⟨?_, rfl⟩, h⟩
      rw [Bool.eq_false_iff]
      intro hd
      rw [(locate_eq_ok.1 hl).2.2 hd e h] at he
      cases he
  · rintro ⟨place, ⟨-, hl⟩, hf⟩
    rw [hl]
    exact hf

structure IsEntryName (name : Name) : Prop where
  isName : Path.IsName name
  not_up : isUp name = false
  plain : '\x00' ∉ name
  short : Text.width name ≤ 255

instance : Decidable (IsEntryName name) :=
  decidable_of_iff (Path.IsName name ∧ isUp name = false ∧ '\x00' ∉ name ∧ Text.width name ≤ 255)
    ⟨fun ⟨hn, hup, hplain, hw⟩ => ⟨hn, hup, hplain, hw⟩, fun ⟨hn, hup, hplain, hw⟩ =>
      ⟨hn, hup, hplain, hw⟩⟩

theorem WellFormed.join (h : WellFormed p) (hn : IsEntryName name)
    (hw : Text.width (p.join name).text < 4096) : WellFormed (p.join name) := by
  refine ⟨?_, by simpa using Path.text_join_ne_nil p hn.isName, Nat.not_le.2 hw⟩
  have hp : '\x00' ∉ p.text := by simpa using h.1
  have hjoin : '\x00' ∉ (p.join name).text := by
    intro hmem
    rcases Path.mem_text_join hmem with hmem | hmem | hmem
    · exact hp hmem
    · cases hmem
    · exact hn.plain hmem
  simpa using hjoin

theorem Leads.concat (h : s.Leads p place) (hp : p.fileName? = some name) :
    ∃ above, place = above ++ [name] := by
  obtain ⟨names, hnames, -, hup⟩ := Path.names_of_fileName? hp
  obtain ⟨-, -, hf⟩ := leads_iff.1 h
  rw [hnames, follow_concat] at hf
  obtain ⟨above, -, -, rfl⟩ := hf
  exact ⟨above, by simp [isUp, hup]⟩

theorem Leads.ne (h : s.Leads p place) (h' : s.Leads p' other) (hp : p.fileName? = some name)
    (hp' : p'.fileName? = some name') (hne : name ≠ name') : place ≠ other := by
  obtain ⟨above, rfl⟩ := h.concat hp
  obtain ⟨above', rfl⟩ := h'.concat hp'
  intro heq
  have hlast : [name] = [name'] := List.append_inj_right' heq rfl
  exact hne (List.singleton_inj.1 hlast)

theorem exists_fileName (hl : s.Leads p place) (hs : s.root.sight place ≠ .directory) :
    ∃ name, p.fileName? = some name := by
  rw [← Option.isSome_iff_exists, ← Option.ne_none_iff_isSome]
  intro hnone
  rcases Path.names_of_fileName?_none hnone with hnil | ⟨names, hnames⟩
  · have := Path.endsInDirectory_of_names_nil hnil
    rw [hl.1] at this
    cases this
  · obtain ⟨-, -, hf⟩ := leads_iff.1 hl
    rw [hnames, follow_concat] at hf
    obtain ⟨above, -, ha, rfl⟩ := hf
    exact hs (Entry.sight_dropLast ha)

-- ---------------------------------------------------------------------------
-- Changes
-- ---------------------------------------------------------------------------

/-- The systems differ at most in what is found at one place, which is no directory in either; if
it is a device after the change, it was one before. -/
structure ChangedAt (s s' : System) (place : List Name) : Prop where
  here : s'.here = s.here
  elsewhere : ∀ other, other ≠ place → s'.root.sight other = s.root.sight other
  before : s.root.sight place ≠ .directory
  after : s'.root.sight place ≠ .directory
  device : s'.root.sight place = .leaf .sink → s.root.sight place = .leaf .sink

theorem ChangedAt.directory_iff (h : s.ChangedAt s' place) :
    s'.root.sight other = .directory ↔ s.root.sight other = .directory := by
  by_cases ho : other = place
  · subst ho
    exact iff_of_false h.after h.before
  · rw [h.elsewhere other ho]

/-- The same places are directories, and the same one is the working directory. -/
structure SameDirectories (s s' : System) : Prop where
  here : s'.here = s.here
  directory_iff : ∀ place, s'.root.sight place = .directory ↔ s.root.sight place = .directory

theorem SameDirectories.follow_iff (h : s.SameDirectories s') :
    s'.follow done names = .ok other ↔ s.follow done names = .ok other := by
  induction names generalizing done with
  | nil => rfl
  | cons name names ih => rw [follow_cons, follow_cons, h.directory_iff, ih]

theorem SameDirectories.leads_iff (h : s.SameDirectories s') :
    s'.Leads p other ↔ s.Leads p other := by
  have horigin : s'.origin p = s.origin p := by
    unfold origin
    rw [h.here]
  rw [System.leads_iff, System.leads_iff, horigin, h.follow_iff]

theorem SameDirectories.trans {s'' : System} (h : s.SameDirectories s')
    (h' : s'.SameDirectories s'') : s.SameDirectories s'' :=
  ⟨h'.here.trans h.here, fun place => (h'.directory_iff place).trans (h.directory_iff place)⟩

theorem ChangedAt.sameDirectories (h : s.ChangedAt s' place) : s.SameDirectories s' :=
  ⟨h.here, fun _ => h.directory_iff⟩

theorem ChangedAt.leads_iff (h : s.ChangedAt s' place) : s'.Leads p other ↔ s.Leads p other :=
  h.sameDirectories.leads_iff

theorem ChangedAt.entry_ne_sink (h : s.ChangedAt s' place) (hp : s.entry p ≠ .ok .sink) :
    s'.entry p ≠ .ok .sink := by
  intro hsink
  obtain ⟨other, hl, hs⟩ := (entry_eq_ok_iff rfl).1 hsink
  refine hp ((entry_eq_ok_iff rfl).2 ⟨other, h.leads_iff.1 hl, ?_⟩)
  by_cases ho : other = place
  · subst ho
    exact h.device hs
  · exact (h.elsewhere other ho).symm.trans hs

theorem ChangedAt.trans {s'' : System} (h : s.ChangedAt s' place) (h' : s'.ChangedAt s'' place) :
    s.ChangedAt s'' place :=
  ⟨h'.here.trans h.here, fun o ho => (h'.elsewhere o ho).trans (h.elsewhere o ho), h.before,
    h'.after, fun hs => h.device (h'.device hs)⟩

/-- The same file stands at the path in both systems, or there is none in either. -/
def SameFile (p : Path) (s s' : System) : Prop :=
  ∀ e : Entry, e.isDirectory = false → (s.entry p = .ok e ↔ s'.entry p = .ok e)

theorem SameFile.refl (p : Path) (s : System) : SameFile p s s := fun _ _ => Iff.rfl

theorem SameFile.trans {s'' : System} (h : SameFile p s s') (h' : SameFile p s' s'') :
    SameFile p s s'' := fun e he => (h e he).trans (h' e he)

theorem ChangedAt.sameFile (h : s.ChangedAt s' place)
    (hne : ∀ other, s.Leads p other → other ≠ place) : SameFile p s s' := by
  intro e he
  rw [entry_eq_ok_iff he, entry_eq_ok_iff he]
  refine exists_congr fun other => ?_
  rw [h.leads_iff]
  exact and_congr_right fun hl => by rw [h.elsewhere other (hne other hl)]

theorem of_writeText_root (h : s.writeText p cs = .ok s') : ∃ place root, s.Leads p place ∧
    s.root.write (.text cs) place = .ok root ∧ s' = { s with root := root } := by
  unfold writeText at h
  cases hl : s.locate p with
  | error error => simp [hl, Except.bind] at h
  | ok place =>
    cases hd : p.endsInDirectory with
    | true => simp [hl, hd, Except.bind] at h
    | false =>
      cases hw : s.root.write (.text cs) place with
      | error error => simp [hl, hd, hw, Except.bind, Except.map] at h
      | ok root =>
        simp only [hl, hd, hw, Except.bind, Except.map, Bool.false_eq_true, if_false,
          Except.ok.injEq] at h
        exact ⟨place, root, ⟨hd, hl⟩, hw, h.symm⟩

/-- What is written is there, unless a device has swallowed it. -/
theorem of_writeText (hp : p.fileName? = some name) (h : s.writeText p cs = .ok s') :
    ∃ place, s.Leads p place ∧ s.ChangedAt s' place ∧
      (s.entry p ≠ .ok .sink → s'.entry p = .ok (.file (.text cs))) := by
  obtain ⟨place, root, hleads, hw, rfl⟩ := of_writeText_root h
  obtain ⟨above, habove⟩ := hleads.concat hp
  obtain ⟨helse, hbefore, hat⟩ := Entry.write_sights (by simp [habove]) hw
  have hchanged : s.ChangedAt { s with root := root } place := by
    refine ⟨rfl, helse, hbefore, ?_, ?_⟩
    · rcases hat with ⟨-, hat⟩ | ⟨-, hat⟩ <;> simp [hat]
    · rcases hat with ⟨hsink, -⟩ | ⟨-, hat⟩ <;> simp_all
  refine ⟨place, hleads, hchanged, fun hsink => ?_⟩
  rcases hat with ⟨hat, -⟩ | ⟨-, hat⟩
  · exact absurd ((entry_eq_ok_iff rfl).2 ⟨place, hleads, hat⟩) hsink
  · exact (entry_eq_ok_iff rfl).2 ⟨place, hchanged.leads_iff.2 hleads, hat⟩

theorem of_removeFile (hp : p.fileName? = some name) (hl : s.Leads p place)
    (h : s.removeFile p = .ok s') : s.ChangedAt s' place ∧ s'.root.sight place = .nothing := by
  unfold removeFile edit at h
  cases hr : s.root.remove place with
  | error error => simp [hl.2, hr, Except.bind, Except.map] at h
  | ok root =>
    simp only [hl.2, hr, Except.bind, Except.map, Except.ok.injEq] at h
    subst h
    obtain ⟨above, habove⟩ := hl.concat hp
    obtain ⟨helse, hbefore, hat⟩ := Entry.remove_sights (by simp [habove]) hr
    exact ⟨⟨rfl, helse, hbefore, by simp [hat], by simp [hat]⟩, hat⟩

theorem exists_leads_of_removeFile (hd : p.endsInDirectory = false)
    (h : s.removeFile p = .ok s') : ∃ place, s.Leads p place := by
  unfold removeFile edit at h
  cases hl : s.locate p with
  | error error => simp [hl, Except.bind] at h
  | ok place => exact ⟨place, hd, hl⟩

theorem readText_of_entry (h : s.entry p = .ok (.file (.text cs))) : s.readText p = .ok cs := by
  unfold readText
  rw [h]

/-- What is read where something was written is just that, or nothing if a device has swallowed
it. -/
theorem readText_of_writeText {text : List Char} (hp : p.fileName? = some name)
    (h : s.writeText p cs = .ok s') (hr : s'.readText p = .ok text) : text = cs ∨ text = [] := by
  obtain ⟨place, hl, hchanged, -⟩ := of_writeText hp h
  obtain ⟨_, root, hleads, hw, rfl⟩ := of_writeText_root h
  cases hleads.unique hl
  obtain ⟨above, habove⟩ := hl.concat hp
  have hl' := hchanged.leads_iff.2 hl
  obtain ⟨-, -, ⟨-, hat⟩ | ⟨-, hat⟩⟩ := Entry.write_sights (by simp [habove]) hw
  · have hentry := (entry_eq_ok_iff rfl).2 ⟨place, hl', hat⟩
    exact .inr (by simpa [readText, hentry] using hr.symm)
  · have hentry := (entry_eq_ok_iff rfl).2 ⟨place, hl', hat⟩
    exact .inl (by simpa [readText, hentry] using hr.symm)

theorem fileName_of_readText (h : s.readText p = .ok cs) : ∃ name, p.fileName? = some name := by
  unfold readText at h
  cases he : s.entry p with
  | error error => simp [he] at h
  | ok e =>
    have hdirectory : e.isDirectory = false := by
      cases e with
      | directory l => simp [he] at h
      | _ => rfl
    obtain ⟨place, hl, hs⟩ := (entry_eq_ok_iff hdirectory).1 he
    exact exists_fileName hl (by simp [hs])

theorem entry_of_readText (h : s.readText p = .ok cs) (hs : s.entry p ≠ .ok .sink) :
    s.entry p = .ok (.file (.text cs)) := by
  unfold readText at h
  cases he : s.entry p with
  | error error => simp [he] at h
  | ok e =>
    rw [he] at h hs
    rcases e with (_ | _) | _ | _ | _ <;> simp_all

end System

end TreeQuery.File
