import ContactForm.Proofs.Files.Disk
import ContactForm.Proofs.Json.Finite
import ContactForm.Proofs.Loading
import ContactForm.Proofs.PrettyText

namespace ContactForm

namespace Question

theorem reread?_isSome (q : Question) : q.reread?.isSome := by
  rw [reread?]
  split
  · rfl
  · rw [Option.isSome_map]
    exact Json.rereadMembers?_isSome _

variable {q : Question} {n : Nat}

theorem Sound.depth_hints_le (h : q.Sound (n + 1)) : (Json.object (q.custom.getD [])).depth ≤ n + 1 := by
  cases hcustom : q.custom with
  | none => exact Nat.le_add_left 1 n
  | some hints => exact h.depth_le hints hcustom

/-- The hint that takes files of any type leaves hints sorted and as deep as they were. -/
theorem Sound.acceptAny (h : q.Sound (n + 1)) : q.acceptAny.Sound (n + 1) where
  lawful := h.lawful.acceptAny
  canonical := Question.Canonical.acceptAny h.canonical
  depth_le hints hcustom := by
    obtain hsame | rfl := custom_acceptAny hcustom
    · exact h.depth_le hints hsame
    · have hvalues := Json.depth_object_le_iff.mp h.depth_hints_le
      rw [Json.depth_object_le_iff]
      exact Members.forall_mem_set (P := fun value => value.depth ≤ n) (Nat.zero_le n) hvalues

end Question

namespace Config

theorem reread?_isSome (c : Config) : c.reread?.isSome := by
  rw [reread?, Option.isSome_map]
  induction c.questions with
  | nil => rfl
  | cons q questions ih =>
    obtain ⟨r, hr⟩ := Option.isSome_iff_exists.mp q.reread?_isSome
    rw [mapM_cons, hr, Option.bind_some, Option.isSome_map]
    exact ih

theorem Sound.prepare {c : Config} (h : c.Sound) (url : String) : (c.prepare url).Sound := by
  intro q hq
  obtain ⟨source, hsource, rfl⟩ := List.mem_map.mp hq
  exact Question.Sound.acceptAny (h source hsource)

theorem Sound.lawful {c : Config} (h : c.Sound) : c.Lawful :=
  fun q hq => (h q hq).lawful

variable {σ : Type} [FileStore σ] [LawfulFileStore σ]

/-- What is loaded from the folder that a configuration was written into: the configuration as it is read again, if
    its text is not larger than a file may be. -/
theorem loadFrom_run_of_writeTo {c d : Config} {folder target : Path} {store store' : σ} (hsound : c.Sound)
    (hread : c.reread? = some d) (hwrite : (c.writeTo folder : StateM σ _).run store = (.ok target, store')) :
    (loadFrom folder : StateM σ _).run store' =
      (if Loading.maxFileSize < c.pretty.utf8ByteSize then .fail Limit.fileSize.error
        else ⟨nameWarnings (Locator.root.key "questions") (d.questions.map (·.name)), .ok d⟩, store') := by
  obtain ⟨rfl, hpath, hwritten⟩ := write_of_writeTo hwrite
  have hdocument := Loading.documentAt_of_read hpath (LawfulFileStore.read_write hwritten)
  have htext := ofText_pretty_of_reread hsound.lawful (depth_encode hsound) hread
  rw [loadFrom, load_run, hdocument, Loading.parseContent_toUTF8]
  split
  · rfl
  · rw [← htext]
    rfl

/-- A configuration that was loaded, prepared and written is loaded again, with the numbers in its hints as they are
    read where they were written, unless its text has grown beyond the size of a file that may be loaded: the limits
    of paths, the encoding, the reader and the check never turn it away. -/
theorem loadFrom_of_prepared {override : Option (List UInt8)} {source folder target : Path} {port : UInt16}
    {route : String} {before store store' : σ} {c : Config}
    (hload : ((load override (some source) : StateM σ _).run before).1.outcome = .ok c)
    (hwrite : ((c.prepare (localUrl port route)).writeTo folder : StateM σ _).run store = (.ok target, store')) :
    ∃ d, (c.prepare (localUrl port route)).reread? = some d ∧
      (loadFrom folder : StateM σ _).run store' =
        (if Loading.maxFileSize < (c.prepare (localUrl port route)).pretty.utf8ByteSize then
          .fail Limit.fileSize.error
        else ⟨nameWarnings (Locator.root.key "questions") (d.questions.map (·.name)), .ok d⟩, store') := by
  obtain ⟨text, -, htext⟩ := ofText_of_load hload
  have hsound := (sound_of_ofText htext).prepare (localUrl port route)
  obtain ⟨d, hd⟩ := Option.isSome_iff_exists.mp (c.prepare (localUrl port route)).reread?_isSome
  exact ⟨d, hd, loadFrom_run_of_writeTo hsound hd hwrite⟩

section Titled

/-- The text of a configuration grows by as much as its title is written with. -/
theorem size_pretty_title (c : Config) (title : String) :
    ({ c with title } : Config).pretty.utf8ByteSize + 2 =
      ({ c with title := "" } : Config).pretty.utf8ByteSize + String.utf8Len (Quoted.chars title) := by
  have hempty : String.utf8Len (Quoted.chars "") = 2 := by decide
  simp only [pretty, Json.size_pretty, encode, List.cons_append, Json.chars, Json.charsMembers,
    String.utf8Len_cons, String.utf8Len_append, hempty]
  omega

/-- A form without questions and with a title of `n` letters. -/
def titled (n : Nat) : Config where
  email := "e"
  title := String.ofList (List.replicate n 'x')
  subject := "s"
  questions := []
  backendUrl := none
  ignoreFileUpload := none
  instructions := none

theorem utf8Len_chars_replicate (n : Nat) :
    String.utf8Len (Quoted.chars (String.ofList (List.replicate n 'x'))) = n + 2 := by
  have hletters : String.utf8Len ((List.replicate n 'x').flatMap fun c => (Quoted.escape c).toList) = n := by
    induction n with
    | zero => rfl
    | succ n ih =>
      rw [List.replicate_succ, List.flatMap_cons, String.utf8Len_append, ih, Nat.add_comm]
      rfl
  rw [Quoted.chars, String.toList_ofList, List.cons_append, String.utf8Len_cons, String.utf8Len_append, hletters]
  rfl

theorem size_titled (n : Nat) : (titled n).pretty.utf8ByteSize = n + 70 := by
  have hsize := size_pretty_title (titled 0) (String.ofList (List.replicate n 'x'))
  have hempty : ({ titled 0 with title := "" } : Config).pretty.utf8ByteSize = 70 := by decide +kernel
  rw [utf8Len_chars_replicate, hempty] at hsize
  change (titled n).pretty.utf8ByteSize + 2 = _ at hsize
  omega

theorem size_prepare_titled (n : Nat) :
    ((titled n).prepare (localUrl 8080 defaultRoute)).pretty.utf8ByteSize = n + 124 := by
  have hsize := size_pretty_title ((titled 0).prepare (localUrl 8080 defaultRoute))
    (String.ofList (List.replicate n 'x'))
  have hempty : ({ (titled 0).prepare (localUrl 8080 defaultRoute) with title := "" } : Config).pretty.utf8ByteSize =
      124 := by decide +kernel
  rw [utf8Len_chars_replicate, hempty] at hsize
  change ((titled n).prepare (localUrl 8080 defaultRoute)).pretty.utf8ByteSize + 2 = _ at hsize
  omega

/-- A disk with the text of the form in the file `c`. -/
def titledDisk (n : Nat) : Disk :=
  ⟨.folder [([0x63], .file (titled n).pretty.toUTF8)], []⟩

theorem load_titled {n : Nat} (h : n + 70 ≤ Loading.maxFileSize) :
    ((load none (some ⟨[0x63]⟩) : StateM Disk _).run (titledDisk n)).1.outcome = .ok (titled n) := by
  have hpath : Loading.checkPath ⟨[0x63]⟩ = .ok () := by decide +kernel
  have hread : FileStore.read (titledDisk n) ⟨[0x63]⟩ = .ok (titled n).pretty.toUTF8 := rfl
  have hlawful : (titled n).Lawful := fun q hq => absurd hq List.not_mem_nil
  have hdepth : ((titled n).encode Json.object).depth = 2 := rfl
  have hself : (titled n).reread? = some (titled n) := rfl
  have htext := ofText_pretty_of_reread hlawful (hdepth.trans_le (by decide)) hself
  rw [load_run, Loading.documentAt_of_read hpath hread, Loading.parseContent_toUTF8, size_titled,
    if_neg (Nat.not_lt.mpr h)]
  exact congrArg Review.outcome htext

theorem writeTo_titled (n : Nat) :
    ∃ after, (((titled n).prepare (localUrl 8080 defaultRoute)).writeTo ⟨[]⟩ : StateM Disk _).run (titledDisk n) =
      (.ok (Path.ofString Loading.defaultName), after) := by
  have hpath : Loading.checkPath (Path.join ⟨[]⟩ Loading.defaultName) = .ok () := by decide +kernel
  rw [writeTo_run, hpath]
  exact ⟨_, rfl⟩

theorem loadFrom_of_prepared_titled :
    (∃ after, ((load none (some ⟨[0x63]⟩) : StateM Disk _).run (titledDisk 0)).1.outcome = .ok (titled 0) ∧
      (((titled 0).prepare (localUrl 8080 defaultRoute)).writeTo ⟨[]⟩ : StateM Disk _).run (titledDisk 0) =
        (.ok (Path.ofString Loading.defaultName), after) ∧
      (loadFrom ⟨[]⟩ : StateM Disk _).run after =
        (⟨[], .ok ((titled 0).prepare (localUrl 8080 defaultRoute))⟩, after)) ∧
    ∃ n after, ((load none (some ⟨[0x63]⟩) : StateM Disk _).run (titledDisk n)).1.outcome = .ok (titled n) ∧
      (((titled n).prepare (localUrl 8080 defaultRoute)).writeTo ⟨[]⟩ : StateM Disk _).run (titledDisk n) =
        (.ok (Path.ofString Loading.defaultName), after) ∧
      (loadFrom ⟨[]⟩ : StateM Disk _).run after = (.fail Limit.fileSize.error, after) := by
  constructor
  · have hfits : 0 + 70 ≤ Loading.maxFileSize := by decide
    have hload := load_titled hfits
    obtain ⟨after, hwrite⟩ := writeTo_titled 0
    obtain ⟨d, hd, hrun⟩ := loadFrom_of_prepared hload hwrite
    obtain rfl := Option.some.inj hd
    rw [size_prepare_titled, if_neg (by decide)] at hrun
    exact ⟨after, hload, hwrite, hrun⟩
  · -- the file that is loaded is as large as a file may be
    have hfits : (Loading.maxFileSize - 70) + 70 ≤ Loading.maxFileSize := by decide
    have hload := load_titled hfits
    obtain ⟨after, hwrite⟩ := writeTo_titled (Loading.maxFileSize - 70)
    obtain ⟨d, -, hrun⟩ := loadFrom_of_prepared hload hwrite
    rw [size_prepare_titled, if_pos (by decide)] at hrun
    exact ⟨_, after, hload, hwrite, hrun⟩

end Titled

end Config

end ContactForm
