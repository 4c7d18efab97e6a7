import ContactForm.Files.Disk
import ContactForm.Proofs.Lines

namespace ContactForm

/-- A state that gives back what was written last under a path. -/
class LawfulFileStore (σ : Type) [FileStore σ] : Prop where
  read_write {store store' : σ} {path : Path} {content : ByteArray} :
    FileStore.write store path content = .ok store' → FileStore.read store' path = .ok content

namespace Entry

section Lookup

variable {entries : List (Name × Entry)} {name step : Name} {new : Entry}

theorem lookup_replace_self : (entries.filter (·.1 != name) ++ [(name, new)]).lookup name = some new := by
  induction entries with
  | nil => simp
  | cons entry entries ih =>
    obtain ⟨key, inner⟩ := entry
    by_cases hkey : key = name
    · simpa [hkey] using ih
    · have hname : (name == key) = false := beq_false_of_ne (Ne.symm hkey)
      simpa [hkey, List.lookup_cons, hname] using ih

theorem lookup_replace_of_ne (h : step ≠ name) :
    (entries.filter (·.1 != name) ++ [(name, new)]).lookup step = entries.lookup step := by
  induction entries with
  | nil => simp [h]
  | cons entry entries ih =>
    obtain ⟨key, inner⟩ := entry
    by_cases hkey : key = name
    · have hstep : (step == key) = false := beq_false_of_ne (hkey ▸ h)
      rw [List.lookup_cons, hstep]
      simpa [hkey] using ih
    · rw [List.filter_cons_of_pos (by simpa using hkey), List.cons_append, List.lookup_cons, List.lookup_cons, ih]

theorem lookup_map (entries : List (Name × Entry)) (step : Name) (change : Name → Entry → Entry) :
    (entries.map fun (key, inner) => (key, change key inner)).lookup step =
      (entries.lookup step).map (change step) := by
  induction entries with
  | nil => rfl
  | cons entry entries ih =>
    obtain ⟨key, inner⟩ := entry
    rw [List.map_cons, List.lookup_cons, List.lookup_cons, ih]
    cases hstep : step == key with
    | true => rw [eq_of_beq hstep, Option.map_some]
    | false => rfl

end Lookup

/-- The entry that names lead to. -/
def find? : Entry → List Name → Option Entry
  | entry, [] => some entry
  | .file _, _ :: _ => none
  | .folder entries, name :: names => (entries.lookup name).bind fun inner => inner.find? names

variable {root new inner : Entry} {entries : List (Name × Entry)} {place names : List Name} {name : Name}

theorem find?_cons_eq_some (h : root.find? (name :: names) = some inner) :
    ∃ entries next, root = .folder entries ∧ entries.lookup name = some next ∧ next.find? names = some inner := by
  cases root with
  | file content => cases h
  | folder entries =>
    rw [find?, Option.bind_eq_some_iff] at h
    obtain ⟨next, hnext, hinner⟩ := h
    exact ⟨entries, next, rfl, hnext, hinner⟩

theorem find?_concat (h : root.find? names = some (.folder entries)) :
    root.find? (names ++ [name]) = entries.lookup name := by
  induction names generalizing root with
  | nil =>
    obtain rfl := Option.some.inj h
    cases hname : entries.lookup name <;> simp [find?, hname]
  | cons step names ih =>
    obtain ⟨around, next, rfl, hnext, hinner⟩ := find?_cons_eq_some h
    rw [List.cons_append, find?, hnext, Option.bind_some]
    exact ih hinner

/-- The entry that was put is found. -/
theorem find?_put_self (h : root.find? place = some (.folder entries)) :
    (root.put place name new).find? (place ++ [name]) = some new := by
  induction place generalizing root with
  | nil =>
    obtain rfl := Option.some.inj h
    rw [put, List.nil_append, find?, lookup_replace_self]
    rfl
  | cons step place ih =>
    obtain ⟨around, next, rfl, hnext, hinner⟩ := find?_cons_eq_some h
    have hlookup := lookup_map around step
      fun key inner => if key = step then inner.put place name new else inner
    rw [put, List.cons_append, find?, hlookup, hnext, Option.map_some, if_pos rfl, Option.bind_some]
    exact ih hinner

/-- Where no folder is replaced, the folders of the tree stay. -/
theorem find?_put_folder (new : Entry)
    (hname : ∀ inner, root.find? (place ++ [name]) ≠ some (.folder inner))
    (h : root.find? names = some (.folder entries)) :
    ∃ entries, (root.put place name new).find? names = some (.folder entries) := by
  induction place generalizing root names with
  | nil =>
    cases names with
    | nil =>
      obtain rfl := Option.some.inj h
      exact ⟨_, rfl⟩
    | cons step names =>
      obtain ⟨around, next, rfl, hnext, hinner⟩ := find?_cons_eq_some h
      have hstep : step ≠ name := by
        rintro rfl
        have hfolder : ∃ inner, next = .folder inner := by
          cases names with
          | nil => exact ⟨entries, Option.some.inj hinner⟩
          | cons following names =>
            obtain ⟨inner, _, rfl, _, _⟩ := find?_cons_eq_some hinner
            exact ⟨inner, rfl⟩
        obtain ⟨inner, rfl⟩ := hfolder
        refine hname inner ?_
        rw [List.nil_append, find?, hnext]
        rfl
      refine ⟨entries, ?_⟩
      rw [put, find?, lookup_replace_of_ne hstep, hnext]
      exact hinner
  | cons step place ih =>
    cases names with
    | nil =>
      obtain rfl := Option.some.inj h
      exact ⟨_, rfl⟩
    | cons other names =>
      obtain ⟨around, next, rfl, hnext, hinner⟩ := find?_cons_eq_some h
      have hlookup := lookup_map around other
        fun key inner => if key = step then inner.put place name new else inner
      rw [put, find?, hlookup, hnext, Option.map_some, Option.bind_some]
      split
      · next hstep =>
        subst hstep
        refine ih (fun inner hinner => hname inner ?_) hinner
        rw [List.cons_append, find?, hnext]
        exact hinner
      · exact ⟨entries, hinner⟩

end Entry

namespace Trail

/-- The names that a trail leads through. -/
def names (trail : Trail) : List Name :=
  (trail.map (·.1)).reverse

@[simp]
theorem names_cons (name : Name) (entry : Entry) (trail : Trail) :
    names ((name, entry) :: trail) = trail.names ++ [name] := by
  simp [names]

theorem names_tail {trail trail' : Trail} (h : trail'.names = trail.names) :
    names trail'.tail = names trail.tail := by
  have hmap : trail'.map (·.1) = trail.map (·.1) := List.reverse_inj.mp h
  rw [names, names, List.map_tail, List.map_tail, hmap]

/-- Every entry of a trail is found where its names lead to. -/
def Leads (root : Entry) : Trail → Prop
  | [] => True
  | (name, entry) :: trail => root.find? (names trail ++ [name]) = some entry ∧ Leads root trail

variable {root : Entry} {trail : Trail}

theorem Leads.find?_names (h : trail.Leads root) : root.find? trail.names = some (root.last trail) := by
  cases trail with
  | nil => rfl
  | cons step trail =>
    rw [names_cons]
    exact h.1

theorem Leads.tail (h : trail.Leads root) : Leads root trail.tail := by
  cases trail with
  | nil => trivial
  | cons step trail => exact h.2

end Trail

namespace Entry

/-- A name that can be looked up in a folder. -/
structure Ordinary (piece : Name) : Prop where
  ne_nil : piece ≠ []
  ne_dot : piece ≠ Path.dot
  ne_dotDot : piece ≠ Path.dotDot
  length_le : piece.length ≤ maxNameLength

/-- One piece of a path leads from a folder to what comes next. -/
inductive Step (root : Entry) (trail : Trail) (piece : Name) : Trail → Prop where
  | stay {entries} : root.last trail = .folder entries → piece = [] ∨ piece = Path.dot →
      Step root trail piece trail
  | up {entries} : root.last trail = .folder entries → piece = Path.dotDot → Step root trail piece trail.tail
  | enter {entries entry} : root.last trail = .folder entries → Ordinary piece →
      entries.lookup piece = some entry → Step root trail piece ((piece, entry) :: trail)

variable {root new : Entry} {trail trail' next found : Trail} {piece name : Name} {place pieces : List Name}

theorem Step.last_eq (h : Step root trail piece next) : ∃ entries, root.last trail = .folder entries := by
  cases h with
  | stay hlast _ => exact ⟨_, hlast⟩
  | up hlast _ => exact ⟨_, hlast⟩
  | enter hlast _ _ => exact ⟨_, hlast⟩

theorem Step.walk_cons (h : Step root trail piece next) :
    root.walk trail (piece :: pieces) = root.walk next pieces := by
  cases h with
  | stay hlast hstay => simp only [walk, hlast, if_pos hstay]
  | up hlast hup =>
    have hstay : ¬ (piece = [] ∨ piece = Path.dot) := by
      rw [hup]
      decide
    simp only [walk, hlast, if_neg hstay, if_pos hup]
  | enter hlast hordinary hentry =>
    have hstay : ¬ (piece = [] ∨ piece = Path.dot) := by
      simp [hordinary.ne_nil, hordinary.ne_dot]
    have hlength : ¬ maxNameLength < piece.length := Nat.not_lt.mpr hordinary.length_le
    simp only [walk, hlast, if_neg hstay, if_neg hordinary.ne_dotDot, if_neg hlength, hentry]

/-- A path that is followed to its end starts with a step. -/
theorem step_of_walk_cons (h : root.walk trail (piece :: pieces) = .ok found) :
    ∃ next, Step root trail piece next ∧ root.walk next pieces = .ok found := by
  rw [walk] at h
  split at h
  · cases h
  · next entries hlast =>
    split at h
    · next hstay => exact ⟨trail, .stay hlast hstay, h⟩
    · next hstay =>
      rw [not_or] at hstay
      split at h
      · next hup => exact ⟨_, .up hlast hup, h⟩
      · next hup =>
        split at h
        · cases h
        · next hlength =>
          split at h
          · next entry hentry =>
            exact ⟨_, .enter hlast ⟨hstay.1, hstay.2, hup, Nat.le_of_not_lt hlength⟩ hentry, h⟩
          · cases h

theorem walk_append (h : root.walk trail pieces = .ok found) (more : List Name) :
    root.walk trail (pieces ++ more) = root.walk found more := by
  induction pieces generalizing trail with
  | nil =>
    rw [walk] at h
    cases h
    rfl
  | cons piece pieces ih =>
    obtain ⟨next, hstep, h⟩ := step_of_walk_cons h
    rw [List.cons_append, hstep.walk_cons]
    exact ih h

theorem Step.leads (hstep : Step root trail piece next) (h : trail.Leads root) : next.Leads root := by
  cases hstep with
  | stay _ _ => exact h
  | up _ _ => exact h.tail
  | enter hlast _ hentry =>
    rw [Trail.Leads, find?_concat (hlast ▸ h.find?_names)]
    exact ⟨hentry, h⟩

/-- Following a path keeps to the tree. -/
theorem walk_leads (h : trail.Leads root) (hwalk : root.walk trail pieces = .ok found) : found.Leads root := by
  induction pieces generalizing trail with
  | nil =>
    rw [walk] at hwalk
    cases hwalk
    exact h
  | cons piece pieces ih =>
    obtain ⟨next, hstep, hwalk⟩ := step_of_walk_cons hwalk
    exact ih (hstep.leads h) hwalk

/-- A path that ends in a folder starts in one. -/
theorem last_of_walk {inner : List (Name × Entry)} (hwalk : root.walk trail pieces = .ok found)
    (hfound : root.last found = .folder inner) : ∃ entries, root.last trail = .folder entries := by
  cases pieces with
  | nil =>
    rw [walk] at hwalk
    cases hwalk
    exact ⟨inner, hfound⟩
  | cons piece pieces =>
    obtain ⟨next, hstep, -⟩ := step_of_walk_cons hwalk
    exact hstep.last_eq

/-- Where a tree has a folder, another one has a folder as well. -/
def FoldersWithin (root root' : Entry) : Prop :=
  ∀ names entries, root.find? names = some (.folder entries) →
    ∃ entries', root'.find? names = some (.folder entries')

section Within

variable {root' : Entry} (hfolders : root.FoldersWithin root')

include hfolders

theorem last_within (h : trail.Leads root) (h' : trail'.Leads root') (hnames : trail'.names = trail.names)
    {entries : List (Name × Entry)} (hlast : root.last trail = .folder entries) :
    ∃ entries', root'.last trail' = .folder entries' := by
  obtain ⟨entries', hfind⟩ := hfolders _ _ (hlast ▸ h.find?_names)
  rw [← hnames, h'.find?_names] at hfind
  exact ⟨entries', Option.some.inj hfind⟩

/-- A step into a folder can also be taken in the other tree. -/
theorem Step.within (hstep : Step root trail piece next) (h : trail.Leads root) (h' : trail'.Leads root')
    (hnames : trail'.names = trail.names) {inner : List (Name × Entry)} (hnext : root.last next = .folder inner) :
    ∃ next', Step root' trail' piece next' ∧ next'.names = next.names := by
  obtain ⟨entries, hlast⟩ := hstep.last_eq
  obtain ⟨entries', hlast'⟩ := last_within hfolders h h' hnames hlast
  have hleads := hstep.leads h
  cases hstep with
  | stay _ hstay => exact ⟨trail', .stay hlast' hstay, hnames⟩
  | up _ hup => exact ⟨trail'.tail, .up hlast' hup, Trail.names_tail hnames⟩
  | enter _ hordinary _ =>
    have hfind := hleads.find?_names
    rw [hnext, Trail.names_cons] at hfind
    obtain ⟨inner', hfind'⟩ := hfolders _ _ hfind
    rw [← hnames, find?_concat (hlast' ▸ h'.find?_names)] at hfind'
    refine ⟨_, .enter hlast' hordinary hfind', ?_⟩
    rw [Trail.names_cons, Trail.names_cons, hnames]

/-- The way to a folder is also one in the other tree. -/
theorem walk_within (h : trail.Leads root) (h' : trail'.Leads root') (hnames : trail'.names = trail.names)
    {inner : List (Name × Entry)} (hwalk : root.walk trail pieces = .ok found)
    (hfound : root.last found = .folder inner) :
    ∃ found', root'.walk trail' pieces = .ok found' ∧ found'.names = found.names := by
  induction pieces generalizing trail trail' with
  | nil =>
    rw [walk] at hwalk
    cases hwalk
    exact ⟨trail', rfl, hnames⟩
  | cons piece pieces ih =>
    obtain ⟨next, hstep, hwalk⟩ := step_of_walk_cons hwalk
    obtain ⟨entries, hnext⟩ := last_of_walk hwalk hfound
    obtain ⟨next', hstep', hnames'⟩ := hstep.within hfolders h h' hnames hnext
    rw [hstep'.walk_cons]
    exact ih (hstep.leads h) (hstep'.leads h') hnames' hwalk

end Within

theorem oneLine_of_walk {failure : IoFailure}
    (h : root.walk trail pieces = .error failure) : OneLine failure.message := by
  have hname : OneLine IoFailure.nameTooLong.message := by decide
  have hfound : OneLine IoFailure.notFound.message := by decide
  have hfolder : OneLine IoFailure.notFolder.message := by decide
  induction pieces generalizing trail with
  | nil => cases h
  | cons piece pieces ih =>
    unfold walk at h
    split at h
    · cases h
      exact hfolder
    · split at h
      · exact ih h
      · split at h
        · exact ih h
        · split at h
          · cases h
            exact hname
          · split at h
            · exact ih h
            · cases h
              exact hfound

end Entry

namespace Disk

variable {disk disk' : Disk} {path : Path} {content : ByteArray}

theorem pieces_ne_nil {steps : List Name} (h : pieces path = .ok steps) : steps ≠ [] := by
  unfold pieces at h
  split at h
  · cases h
  · split at h
    · cases h
    · split at h
      · cases h
      · cases h
        exact List.splitOn_ne_nil _ _

/-- What a write that succeeds finds and leaves. -/
theorem eq_put_of_write (h : disk.write path content = .ok disk') :
    ∃ (steps : List Name) (trail : Trail) (name : Name) (entries : List (Name × Entry)),
      pieces path = .ok (steps ++ [name]) ∧ disk.follow path steps = .ok trail ∧
      disk.root.last trail = .folder entries ∧ Entry.Ordinary name ∧
      (∀ inner, entries.lookup name ≠ some (.folder inner)) ∧ disk' = disk.put trail name (.file content) := by
  unfold write at h
  cases hpieces : pieces path with
  | error failure =>
    rw [hpieces] at h
    cases h
  | ok all =>
    rw [hpieces] at h
    change (disk.follow path all.dropLast).bind _ = _ at h
    cases hfollow : disk.follow path all.dropLast with
    | error failure =>
      rw [hfollow] at h
      cases h
    | ok trail =>
      rw [hfollow] at h
      simp only [Except.bind] at h
      split at h
      · cases h
      · next entries hlast =>
        split at h
        · cases h
        · next hspecial =>
          simp only [not_or] at hspecial
          split at h
          · cases h
          · next hlength =>
            have hne := pieces_ne_nil hpieces
            have hlastPiece : all.getLast?.getD [] = all.getLast hne := by
              rw [List.getLast?_eq_some_getLast hne, Option.getD_some]
            rw [hlastPiece] at h hspecial hlength
            refine ⟨all.dropLast, trail, all.getLast hne, entries, ?_, hfollow, hlast,
              ⟨hspecial.1, hspecial.2.1, hspecial.2.2, Nat.le_of_not_lt hlength⟩, ?_⟩
            · rw [List.dropLast_concat_getLast]
            · split at h
              · cases h
              · next hfile =>
                cases h
                exact ⟨hfile, rfl⟩

theorem follow_append {trail : Trail} {steps : List Name} (h : disk.follow path steps = .ok trail)
    (more : List Name) : disk.follow path (steps ++ more) = disk.root.walk trail more := by
  unfold follow at h ⊢
  simp only at h ⊢
  rw [← List.append_assoc]
  exact Entry.walk_append h more

theorem read_of_follow {trail : Trail} {all : List Name} (hpieces : pieces path = .ok all)
    (hfollow : disk.follow path all = .ok trail) (hlast : disk.root.last trail = .file content) :
    disk.read path = .ok content := by
  unfold read
  rw [hpieces]
  change (disk.follow path all).bind _ = _
  rw [hfollow]
  simp only [Except.bind, hlast]

/-- A file that was written is read with the content that it was written with. -/
theorem read_write (h : disk.write path content = .ok disk') : disk'.read path = .ok content := by
  obtain ⟨steps, trail, name, entries, hpieces, hfollow, hlast, hordinary, hfile, rfl⟩ := eq_put_of_write h
  have hroot : Trail.Leads disk.root [] := trivial
  have hroot' : Trail.Leads (disk.put trail name (.file content)).root [] := trivial
  have hleads := Entry.walk_leads hroot hfollow
  have hplace := hleads.find?_names
  rw [hlast] at hplace
  have hname : ∀ inner, disk.root.find? (trail.names ++ [name]) ≠ some (.folder inner) := by
    rw [Entry.find?_concat hplace]
    exact hfile
  -- the folder is reached as before, and now holds the file
  have hfolders : disk.root.FoldersWithin (disk.put trail name (.file content)).root :=
    fun _ _ => Entry.find?_put_folder _ hname
  obtain ⟨trail', hwalk', hnames⟩ := Entry.walk_within hfolders hroot hroot' rfl hfollow hlast
  have hleads' := Entry.walk_leads hroot' hwalk'
  have hfollow' : (disk.put trail name (.file content)).follow path steps = .ok trail' := hwalk'
  obtain ⟨entries', hlast'⟩ := Entry.last_within hfolders hleads hleads' hnames hlast
  have hentry : entries'.lookup name = some (.file content) := by
    rw [← Entry.find?_concat (hlast' ▸ hleads'.find?_names), hnames]
    exact Entry.find?_put_self hplace
  have hstep := Entry.Step.enter hlast' hordinary hentry
  exact read_of_follow hpieces ((follow_append hfollow' [name]).trans hstep.walk_cons) rfl

instance : LawfulFileStore Disk where
  read_write := read_write

theorem oneLine_of_pieces {failure : IoFailure} (h : pieces path = .error failure) :
    OneLine failure.message := by
  have hbyte : OneLine IoFailure.nulByte.message := by decide
  have hfound : OneLine IoFailure.notFound.message := by decide
  have hname : OneLine IoFailure.nameTooLong.message := by decide
  unfold pieces at h
  split at h
  · cases h
    exact hbyte
  · split at h
    · cases h
      exact hfound
    · split at h <;> cases h
      exact hname

/-- What a disk fails to read a file with is a message on one line. -/
theorem oneLine_of_read {failure : IoFailure} (h : disk.read path = .error failure) :
    OneLine failure.message := by
  have hfolder : OneLine IoFailure.isFolder.message := by decide
  unfold read at h
  cases hpieces : pieces path with
  | error e =>
    rw [hpieces] at h
    cases h
    exact oneLine_of_pieces hpieces
  | ok pieces =>
    rw [hpieces] at h
    change (disk.follow path pieces >>= _) = _ at h
    cases hfollow : disk.follow path pieces with
    | error e =>
      rw [hfollow] at h
      cases h
      exact Entry.oneLine_of_walk hfollow
    | ok trail =>
      rw [hfollow] at h
      simp only [bind, Except.bind] at h
      split at h <;> cases h
      exact hfolder

end Disk

end ContactForm
