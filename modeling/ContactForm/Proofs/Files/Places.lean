import ContactForm.Proofs.Files.Disk

namespace ContactForm

/-- A store whose paths lead to places, where its files are: a path leads to one place at most, and several paths may
    lead to the same one. What is read at a path is the file at its place; what is written there replaces that file
    and leaves all others, and all paths, as they are. -/
class PlacedFileStore (σ : Type) [FileStore σ] where
  Place : Type
  LeadsTo : σ → Path → Place → Prop
  file? : σ → Place → Option ByteArray
  leadsTo_unique {store : σ} {path : Path} {p q : Place} :
    LeadsTo store path p → LeadsTo store path q → p = q
  read_eq_ok_iff {store : σ} {path : Path} {content : ByteArray} :
    FileStore.read store path = .ok content ↔ ∃ place, LeadsTo store path place ∧ file? store place = some content
  write {store store' : σ} {path : Path} {content : ByteArray} :
    FileStore.write store path content = .ok store' →
      (∃ place, LeadsTo store path place ∧ file? store' place = some content ∧
        ∀ other, other ≠ place → file? store' other = file? store other) ∧
      ∀ path place, LeadsTo store' path place ↔ LeadsTo store path place

namespace Entry

def content? : Entry → Option ByteArray
  | .file content => some content
  | .folder _ => none

/-- The content of the file that names lead to. -/
def file? (root : Entry) (names : List Name) : Option ByteArray :=
  (root.find? names).bind content?

variable {root : Entry} {entries : List (Name × Entry)} {place names : List Name} {name : Name} {content : ByteArray}

theorem file?_cons (entries : List (Name × Entry)) (name : Name) (names : List Name) :
    (folder entries).file? (name :: names) = (entries.lookup name).bind fun inner => inner.file? names := by
  simp only [file?, find?, Option.bind_assoc]

/-- Beyond a file there is none. -/
theorem file?_file_cons (content : ByteArray) (name : Name) (names : List Name) :
    (file content).file? (name :: names) = none := rfl

theorem file?_eq_some_iff : root.file? names = some content ↔ root.find? names = some (.file content) := by
  rw [file?, Option.bind_eq_some_iff]
  constructor
  · rintro ⟨inner, hinner, hcontent⟩
    cases inner with
    | file content => rw [hinner, Option.some.inj hcontent]
    | folder entries => cases hcontent
  · intro h
    exact ⟨_, h, rfl⟩

/-- A file that is put where no folder is leaves all other files as they are. -/
theorem file?_put_of_ne (hname : ∀ inner, root.find? (place ++ [name]) ≠ some (.folder inner))
    (h : names ≠ place ++ [name]) : (root.put place name (.file content)).file? names = root.file? names := by
  induction place generalizing root names with
  | nil =>
    cases root with
    | file _ => rfl
    | folder entries =>
      cases names with
      | nil => rfl
      | cons step rest =>
        rw [put, file?_cons, file?_cons]
        by_cases hstep : step = name
        · subst hstep
          -- what had the name was no folder, and neither is what has it now
          obtain ⟨next, rest, rfl⟩ : ∃ next more, rest = next :: more := by
            cases rest with
            | nil => exact absurd rfl h
            | cons next more => exact ⟨next, more, rfl⟩
          rw [lookup_replace_self, Option.bind_some, file?_file_cons]
          cases hlookup : entries.lookup step with
          | none => rfl
          | some inner =>
            cases inner with
            | file _ => rfl
            | folder inner =>
              refine absurd ?_ (hname inner)
              simp [find?, hlookup]
        · rw [lookup_replace_of_ne hstep]
  | cons step place ih =>
    cases root with
    | file _ => rfl
    | folder entries =>
      cases names with
      | nil => rfl
      | cons other rest =>
        have hlookup := lookup_map entries other
          fun key inner => if key = step then inner.put place name (.file content) else inner
        rw [put, file?_cons, file?_cons, hlookup]
        cases hother : entries.lookup other with
        | none => rfl
        | some inner =>
          rw [Option.map_some, Option.bind_some, Option.bind_some]
          split
          · next hstep =>
            subst hstep
            refine ih (fun folder hfolder => hname folder ?_) (fun hrest => h (congrArg (other :: ·) hrest))
            rw [List.cons_append, find?, hother]
            exact hfolder
          · rfl

/-- Putting a file makes no folder. -/
theorem find?_folder_of_put (h : (root.put place name (.file content)).find? names = some (.folder entries)) :
    ∃ entries', root.find? names = some (.folder entries') := by
  induction place generalizing root names with
  | nil =>
    cases root with
    | file _ => exact ⟨entries, h⟩
    | folder inside =>
      cases names with
      | nil => exact ⟨inside, rfl⟩
      | cons step rest =>
        obtain ⟨around, next, haround, hnext, hinner⟩ := find?_cons_eq_some h
        obtain rfl := folder.inj haround
        by_cases hstep : step = name
        · rw [hstep, lookup_replace_self] at hnext
          obtain rfl := Option.some.inj hnext
          cases rest <;> cases hinner
        · rw [lookup_replace_of_ne hstep] at hnext
          refine ⟨entries, ?_⟩
          rw [find?, hnext]
          exact hinner
  | cons step place ih =>
    cases root with
    | file _ => exact ⟨entries, h⟩
    | folder inside =>
      cases names with
      | nil => exact ⟨inside, rfl⟩
      | cons other rest =>
        obtain ⟨around, next, haround, hnext, hinner⟩ := find?_cons_eq_some h
        obtain rfl := folder.inj haround
        rw [lookup_map inside other
          fun key inner => if key = step then inner.put place name (.file content) else inner] at hnext
        obtain ⟨inner, hother, rfl⟩ := Option.map_eq_some_iff.mp hnext
        rw [find?, hother, Option.bind_some]
        split at hinner
        · exact ih hinner
        · exact ⟨entries, hinner⟩

theorem find?_concat_of_file (h : root.find? names = some (.file content)) :
    root.find? (names ++ [name]) = none := by
  induction names generalizing root with
  | nil =>
    obtain rfl := Option.some.inj h
    rfl
  | cons step names ih =>
    obtain ⟨around, next, rfl, hnext, hinner⟩ := find?_cons_eq_some h
    rw [List.cons_append, find?, hnext, Option.bind_some]
    exact ih hinner

/-- The way to an entry is the way to an entry before it, and on from there. -/
theorem walk_split {trail found : Trail} {pieces more : List Name}
    (h : root.walk trail (pieces ++ more) = .ok found) :
    ∃ middle, root.walk trail pieces = .ok middle ∧ root.walk middle more = .ok found := by
  induction pieces generalizing trail with
  | nil => exact ⟨trail, rfl, h⟩
  | cons piece pieces ih =>
    rw [List.cons_append] at h
    obtain ⟨next, hstep, h⟩ := step_of_walk_cons h
    rw [hstep.walk_cons]
    exact ih h

end Entry

/-- The way back from a folder ends in a folder. -/
theorem Trail.Leads.last_tail {root : Entry} {trail : Trail} {entries : List (Name × Entry)} (h : trail.Leads root)
    (hlast : root.last trail = .folder entries) : ∃ entries', root.last trail.tail = .folder entries' := by
  cases trail with
  | nil => exact ⟨entries, hlast⟩
  | cons step trail =>
    obtain ⟨name, entry⟩ := step
    obtain ⟨hfind, htail⟩ := h
    cases hbefore : root.last trail with
    | folder entries' => exact ⟨entries', hbefore⟩
    | file content =>
      have hfile := hbefore ▸ htail.find?_names
      rw [Entry.find?_concat_of_file hfile] at hfind
      cases hfind

namespace Disk

variable {disk disk' : Disk} {path : Path} {place : List Name} {content : ByteArray}

/-- A path leads to a name in the folder that all its pieces but the last lead to. -/
inductive LeadsTo (disk : Disk) (path : Path) : List Name → Prop
  | intro {steps : List Name} {trail : Trail} {name : Name} {entries : List (Name × Entry)} :
      pieces path = .ok (steps ++ [name]) → disk.follow path steps = .ok trail →
      disk.root.last trail = .folder entries → Entry.Ordinary name → LeadsTo disk path (trail.names ++ [name])

theorem LeadsTo.unique {p q : List Name} (hp : disk.LeadsTo path p) (hq : disk.LeadsTo path q) : p = q := by
  obtain ⟨hpieces, hfollow, -, -⟩ := hp
  obtain ⟨hpieces', hfollow', -, -⟩ := hq
  have hsame := Except.ok.inj (hpieces.symm.trans hpieces')
  obtain ⟨hsteps, hname⟩ := List.append_inj' hsame rfl
  subst hsteps
  rw [List.singleton_inj.mp hname, Except.ok.inj (hfollow.symm.trans hfollow')]

/-- Where the folders of one disk are within another's, so is where its paths lead. -/
theorem LeadsTo.within (hworking : disk'.working = disk.working) (hfolders : disk.root.FoldersWithin disk'.root)
    (h : disk.LeadsTo path place) : disk'.LeadsTo path place := by
  obtain ⟨hpieces, hfollow, hlast, hordinary⟩ := h
  have hroot : Trail.Leads disk.root [] := trivial
  have hroot' : Trail.Leads disk'.root [] := trivial
  obtain ⟨trail', hwalk', hnames⟩ := Entry.walk_within hfolders hroot hroot' rfl hfollow hlast
  have hleads := Entry.walk_leads hroot hfollow
  obtain ⟨entries', hlast'⟩ :=
    Entry.last_within hfolders hleads (Entry.walk_leads hroot' hwalk') hnames hlast
  rw [← hnames]
  rw [← hworking] at hwalk'
  exact ⟨hpieces, hwalk', hlast', hordinary⟩

theorem follow_split {found : Trail} {steps more : List Name} (h : disk.follow path (steps ++ more) = .ok found) :
    ∃ trail, disk.follow path steps = .ok trail ∧ disk.root.walk trail more = .ok found := by
  unfold follow at h ⊢
  simp only [← List.append_assoc] at h
  exact Entry.walk_split h

/-- A file is reached by looking up the last piece of its path in the folder that the others lead to. -/
theorem leadsTo_of_file {all : List Name} {found : Trail} (hpieces : pieces path = .ok all)
    (hfollow : disk.follow path all = .ok found) (hlast : disk.root.last found = .file content) :
    ∃ place, disk.LeadsTo path place ∧ disk.root.file? place = some content := by
  obtain ⟨steps, name, rfl⟩ : ∃ steps name, all = steps ++ [name] :=
    ⟨_, _, (List.dropLast_concat_getLast (pieces_ne_nil hpieces)).symm⟩
  have hroot : Trail.Leads disk.root [] := trivial
  obtain ⟨trail, hsteps, hname⟩ := follow_split hfollow
  have hleads := Entry.walk_leads hroot hsteps
  obtain ⟨next, hstep, hend⟩ := Entry.step_of_walk_cons hname
  rw [Entry.walk] at hend
  obtain rfl := Except.ok.inj hend
  cases hstep with
  | stay hfolder _ =>
    rw [hfolder] at hlast
    cases hlast
  | up hfolder _ =>
    obtain ⟨entries, htail⟩ := hleads.last_tail hfolder
    rw [htail] at hlast
    cases hlast
  | enter hfolder hordinary hentry =>
    refine ⟨_, .intro hpieces hsteps hfolder hordinary, ?_⟩
    rw [Entry.file?_eq_some_iff, Entry.find?_concat (hfolder ▸ hleads.find?_names), hentry]
    exact congrArg some hlast

theorem read_eq_ok_iff : disk.read path = .ok content ↔
    ∃ place, disk.LeadsTo path place ∧ disk.root.file? place = some content := by
  constructor
  · intro h
    unfold read at h
    cases hpieces : pieces path with
    | error failure =>
      rw [hpieces] at h
      cases h
    | ok all =>
      rw [hpieces] at h
      change (disk.follow path all).bind _ = _ at h
      cases hfollow : disk.follow path all with
      | error failure =>
        rw [hfollow] at h
        cases h
      | ok found =>
        rw [hfollow] at h
        simp only [Except.bind] at h
        split at h
        · next hlast =>
          obtain rfl := Except.ok.inj h
          exact leadsTo_of_file hpieces hfollow hlast
        · cases h
  · rintro ⟨place, ⟨hpieces, hfollow, hlast, hordinary⟩, hfile⟩
    have hroot : Trail.Leads disk.root [] := trivial
    have hleads := Entry.walk_leads hroot hfollow
    rw [Entry.file?_eq_some_iff, Entry.find?_concat (hlast ▸ hleads.find?_names)] at hfile
    have hstep := Entry.Step.enter hlast hordinary hfile
    exact read_of_follow hpieces ((follow_append hfollow _).trans hstep.walk_cons) rfl

/-- A write replaces the file at the place that its path leads to. -/
theorem leadsTo_of_write (h : disk.write path content = .ok disk') :
    (∃ place, disk.LeadsTo path place ∧ disk'.root.file? place = some content ∧
      ∀ other, other ≠ place → disk'.root.file? other = disk.root.file? other) ∧
    ∀ path place, disk'.LeadsTo path place ↔ disk.LeadsTo path place := by
  obtain ⟨steps, trail, name, entries, hpieces, hfollow, hlast, hordinary, hfile, rfl⟩ := eq_put_of_write h
  have hroot : Trail.Leads disk.root [] := trivial
  have hleads := Entry.walk_leads hroot hfollow
  have hplace := hlast ▸ hleads.find?_names
  have hname : ∀ inner, disk.root.find? (trail.names ++ [name]) ≠ some (.folder inner) := by
    rw [Entry.find?_concat hplace]
    exact hfile
  constructor
  · refine ⟨_, .intro hpieces hfollow hlast hordinary, ?_, ?_⟩
    · exact Entry.file?_eq_some_iff.mpr (Entry.find?_put_self hplace)
    · intro other hother
      exact Entry.file?_put_of_ne hname hother
  · intro path place
    constructor
    · exact LeadsTo.within rfl fun _ _ => Entry.find?_folder_of_put
    · exact LeadsTo.within rfl fun _ _ => Entry.find?_put_folder _ hname

instance : PlacedFileStore Disk where
  Place := List Name
  LeadsTo := LeadsTo
  file? disk place := disk.root.file? place
  leadsTo_unique := LeadsTo.unique
  read_eq_ok_iff := read_eq_ok_iff
  write := leadsTo_of_write

end Disk

end ContactForm
