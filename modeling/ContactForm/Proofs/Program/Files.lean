import ContactForm.Proofs.Files.Places
import ContactForm.Proofs.Program.Runs

namespace ContactForm

variable {σ : Type} [FileStore σ]

namespace FileStore

variable [PlacedFileStore σ]

/-- Two paths that lead to the same place. -/
def SamePlace (store : σ) (p q : Path) : Prop :=
  ∃ place, PlacedFileStore.LeadsTo store p place ∧ PlacedFileStore.LeadsTo store q place

/-- The files before and after one of them was replaced: each path to its place now has the content, any other reads as
    before, and so do the files at all other places. -/
structure Replaced (before after : σ) (path : Path) (content : ByteArray) : Prop where
  read : FileStore.read after path = .ok content
  same {other : Path} : SamePlace before other path → FileStore.read after other = .ok content
  frame {other : Path} {found : ByteArray} : ¬SamePlace before other path →
    (FileStore.read after other = .ok found ↔ FileStore.read before other = .ok found)
  places : ∃ place, PlacedFileStore.LeadsTo before path place ∧ PlacedFileStore.file? after place = some content ∧
    ∀ other, other ≠ place → PlacedFileStore.file? after other = PlacedFileStore.file? before other

theorem replaced_of_write {before after : σ} {path : Path} {content : ByteArray}
    (h : FileStore.write before path content = .ok after) : Replaced before after path content := by
  obtain ⟨⟨place, hplace, hcontent, hothers⟩, hpaths⟩ := PlacedFileStore.write h
  have hsame {other : Path} (hother : SamePlace before other path) : FileStore.read after other = .ok content := by
    obtain ⟨q, hq, hpath⟩ := hother
    obtain rfl := PlacedFileStore.leadsTo_unique hplace hpath
    rw [PlacedFileStore.read_eq_ok_iff]
    exact ⟨place, (hpaths other place).mpr hq, hcontent⟩
  refine ⟨hsame ⟨place, hplace, hplace⟩, hsame, ?_, place, hplace, hcontent, hothers⟩
  · intro other found hother
    rw [PlacedFileStore.read_eq_ok_iff, PlacedFileStore.read_eq_ok_iff]
    apply exists_congr
    intro q
    rw [hpaths other q, and_congr_right_iff]
    intro hq
    have hne : q ≠ place := by
      rintro rfl
      exact hother ⟨q, hq, hplace⟩
    rw [hothers q hne]

end FileStore

namespace Program

variable {override : Option (List UInt8)} {config : Option Path} {store : σ}

/-- What a command does that loads a configuration which cannot be loaded. -/
theorem run_of_error {command : Command} (hcommand : command.Loads config) {e : ConfigError}
    (h : (Config.loaded override config store).outcome = .error e) :
    (run override command : StateM σ _).run store =
      ((Output.failure ("config load failed: " ++ e.message)).after (Config.loaded override config store).warnings,
        store) := by
  cases hcommand <;> exact withConfig_of_error h

theorem run_validate_of_ok {c : Config} (h : (Config.loaded override config store).outcome = .ok c) :
    (run override (.validate config) : StateM σ _).run store =
      ((Output.success (summary c)).after (Config.loaded override config store).warnings, store) :=
  withConfig_of_ok h

theorem run_normalize_of_ok {c : Config} (h : (Config.loaded override config store).outcome = .ok c) :
    (run override (.normalize config) : StateM σ _).run store =
      ((Output.success (c.pretty ++ "\n")).after (Config.loaded override config store).warnings, store) :=
  withConfig_of_ok h

/-- The configuration that preparing writes, for the backend that its options name. -/
def prepared (port : UInt16) (route : Option String) (c : Config) : Config :=
  c.prepare (localUrl port (route.getD defaultRoute))

theorem run_prepare_of_unwritten {c : Config} {port : UInt16} {route : Option String} {out : Path} {e : ConfigError}
    {after : σ} (h : (Config.loaded override config store).outcome = .ok c)
    (hwrite : ((prepared port route c).writeTo out : StateM σ _).run store = (.error e, after)) :
    (run override (.prepare config port route out) : StateM σ _).run store =
      ((Output.failure ("failed to write config: " ++ e.message)).after (Config.loaded override config store).warnings,
        after) := by
  have hrun : (run override (.prepare config port route out) : StateM σ _).run store = _ := withConfig_of_ok h
  rw [hrun]
  simp only [prepared, StateT.run, bind, StateT.bind] at hwrite ⊢
  rw [hwrite]
  rfl

theorem run_prepare_of_written {c : Config} {port : UInt16} {route : Option String} {out path : Path} {after : σ}
    (h : (Config.loaded override config store).outcome = .ok c)
    (hwrite : ((prepared port route c).writeTo out : StateM σ _).run store = (.ok path, after)) :
    (run override (.prepare config port route out) : StateM σ _).run store =
      ((Output.success ("prepared config written to " ++ path.text ++ "\n")).after
        (Config.loaded override config store).warnings, after) := by
  have hrun : (run override (.prepare config port route out) : StateM σ _).run store = _ := withConfig_of_ok h
  rw [hrun]
  simp only [prepared, StateT.run, bind, StateT.bind] at hwrite ⊢
  rw [hwrite]
  rfl

/-- Preparing a configuration that was loaded succeeds with its text written, or fails with nothing changed. -/
theorem run_prepare_of_ok {c : Config} (h : (Config.loaded override config store).outcome = .ok c) (port : UInt16)
    (route : Option String) (out : Path) :
    (∃ output after, (run override (.prepare config port route out) : StateM σ _).run store = (output, after) ∧
      output.code = 0 ∧ Loading.checkPath (out.join Loading.defaultName) = .ok () ∧
      FileStore.write store (out.join Loading.defaultName) (prepared port route c).pretty.toUTF8 = .ok after) ∨
    (∃ output, (run override (.prepare config port route out) : StateM σ _).run store = (output, store) ∧
      output.code = 1 ∧ output.stdout = "" ∧
      ¬(Loading.checkPath (out.join Loading.defaultName) = .ok () ∧
        ∃ after, FileStore.write store (out.join Loading.defaultName) (prepared port route c).pretty.toUTF8 =
          .ok after)) := by
  have hwriteTo := Config.writeTo_run out (prepared port route c) store
  cases hpath : Loading.checkPath (out.join Loading.defaultName) with
  | error e =>
    rw [hpath] at hwriteTo
    right
    refine ⟨_, run_prepare_of_unwritten h hwriteTo, rfl, rfl, ?_⟩
    rintro ⟨hok, -⟩
    cases hok
  | ok =>
    rw [hpath] at hwriteTo
    cases hwrite : FileStore.write store (out.join Loading.defaultName) (prepared port route c).pretty.toUTF8 with
    | error failure =>
      rw [hwrite] at hwriteTo
      right
      refine ⟨_, run_prepare_of_unwritten h hwriteTo, rfl, rfl, ?_⟩
      rintro ⟨-, after, hafter⟩
      cases hafter
    | ok after =>
      rw [hwrite] at hwriteTo
      left
      exact ⟨_, after, run_prepare_of_written h hwriteTo, rfl, rfl, rfl⟩

/-- Preparing succeeds with the text of the configuration that was loaded written, or fails with nothing changed. -/
theorem run_prepare_cases (override : Option (List UInt8)) (config : Option Path) (port : UInt16)
    (route : Option String) (out : Path) (store : σ) :
    (∃ output after c, (run override (.prepare config port route out) : StateM σ _).run store = (output, after) ∧
      output.code = 0 ∧ (Config.loaded override config store).outcome = .ok c ∧
      Loading.checkPath (out.join Loading.defaultName) = .ok () ∧
      FileStore.write store (out.join Loading.defaultName) (prepared port route c).pretty.toUTF8 = .ok after) ∨
    (∃ output, (run override (.prepare config port route out) : StateM σ _).run store = (output, store) ∧
      output.code ≠ 0 ∧ output.stdout = "" ∧
      ¬∃ c, (Config.loaded override config store).outcome = .ok c ∧
        Loading.checkPath (out.join Loading.defaultName) = .ok () ∧
        ∃ after, FileStore.write store (out.join Loading.defaultName) (prepared port route c).pretty.toUTF8 =
          .ok after) := by
  have hone : (1 : UInt8) ≠ 0 := by decide
  cases h : (Config.loaded override config store).outcome with
  | error e =>
    right
    refine ⟨_, run_of_error (.prepare port route out) h, hone, rfl, ?_⟩
    rintro ⟨c, hc, -⟩
    cases hc
  | ok c =>
    obtain ⟨output, after, hrun, hcode, hpath, hwrite⟩ | ⟨output, hrun, hcode, hstdout, hnot⟩ :=
      run_prepare_of_ok h port route out
    · left
      exact ⟨output, after, c, hrun, hcode, rfl, hpath, hwrite⟩
    · right
      refine ⟨output, hrun, hcode ▸ hone, hstdout, ?_⟩
      rintro ⟨d, hd, hwritten⟩
      obtain rfl := Except.ok.inj hd
      exact hnot hwritten

/-- Validating and normalizing change no file, whatever they find. -/
theorem run_keeps_files {command : Command} (hcommand : command ∈ [Command.validate config, .normalize config])
    (override : Option (List UInt8)) (store : σ) :
    ((run override command : StateM σ _).run store).2 = store ∧
    (((run override command : StateM σ _).run store).1.code = 0 ↔
      ∃ c, (Config.loaded override config store).outcome = .ok c) ∧
    (((run override command : StateM σ _).run store).1.code ≠ 0 →
      ((run override command : StateM σ _).run store).1.stdout = "") := by
  have hloads : command.Loads config := by
    simp only [List.mem_cons, List.not_mem_nil, or_false] at hcommand
    obtain rfl | rfl := hcommand
    · exact .validate
    · exact .normalize
  cases h : (Config.loaded override config store).outcome with
  | error e =>
    rw [run_of_error hloads h]
    simp [Output.after, Output.failure]
  | ok c =>
    have hsuccess : ∃ stdout, (run override command : StateM σ _).run store =
        ((Output.success stdout).after (Config.loaded override config store).warnings, store) := by
      simp only [List.mem_cons, List.not_mem_nil, or_false] at hcommand
      obtain rfl | rfl := hcommand
      · exact ⟨_, run_validate_of_ok h⟩
      · exact ⟨_, run_normalize_of_ok h⟩
    obtain ⟨stdout, hrun⟩ := hsuccess
    rw [hrun]
    simp [Output.after, Output.success]

/-- Preparing writes one file or nothing: where it fails, the files stay and nothing is printed; where it succeeds, the
    text of the configuration that was loaded, pointed at the backend on this machine, stands under the default name in
    the folder, and no other file has changed. It succeeds where the configuration loads, the path of the file keeps the limits and the file can be
    written. Validating and normalizing succeed where the configuration loads, and never change a file. -/
theorem prepare_writes_all_or_nothing [PlacedFileStore σ] (override : Option (List UInt8)) (config : Option Path)
    (port : UInt16) (route : Option String) (out : Path) (store : σ) :
    let target := out.join "config.json"
    let text (c : Config) :=
      (c.prepare ("http://localhost:" ++ port.toNat.repr ++ route.getD "/submit")).pretty.toUTF8
    let prepare := (run override (.prepare config port route out) : StateM σ _).run store
    (prepare.1.code ≠ 0 → prepare.2 = store ∧ prepare.1.stdout = "") ∧
    (prepare.1.code = 0 → ∃ c, (Config.loaded override config store).outcome = .ok c ∧
      FileStore.Replaced store prepare.2 target (text c)) ∧
    (prepare.1.code = 0 ↔ ∃ c, (Config.loaded override config store).outcome = .ok c ∧
      Loading.checkPath target = .ok () ∧ ∃ after, FileStore.write store target (text c) = .ok after) ∧
    ∀ command ∈ [Command.validate config, .normalize config],
      ((run override command : StateM σ _).run store).2 = store ∧
      (((run override command : StateM σ _).run store).1.code = 0 ↔
        ∃ c, (Config.loaded override config store).outcome = .ok c) ∧
      (((run override command : StateM σ _).run store).1.code ≠ 0 →
        ((run override command : StateM σ _).run store).1.stdout = "") := by
  intro target text prepare
  have hkeeps : ∀ command ∈ [Command.validate config, .normalize config], _ :=
    fun command hcommand => run_keeps_files hcommand override store
  obtain ⟨output, after, c, hrun, hcode, hloaded, hpath, hwrite⟩ | ⟨output, hrun, hcode, hstdout, hnot⟩ :=
    run_prepare_cases override config port route out store
  · have hprepare : prepare = (output, after) := hrun
    rw [hprepare]
    refine ⟨fun hne => absurd hcode hne, fun _ => ⟨c, hloaded, FileStore.replaced_of_write hwrite⟩, ?_, hkeeps⟩
    exact iff_of_true hcode ⟨c, hloaded, hpath, after, hwrite⟩
  · have hprepare : prepare = (output, store) := hrun
    rw [hprepare]
    exact ⟨fun _ => ⟨rfl, hstdout⟩, fun hzero => absurd hzero hcode, iff_of_false hcode hnot, hkeeps⟩

/-- A form with one question, for a file. -/
def uploadDocument : Json := .object [
  ("email", .string "a@b.example"),
  ("questions", .array [
    .object [("label", .string "Photo"), ("name", .string "photo"), ("required", .bool false),
      ("type", .string "file")]]),
  ("subject", .string "Hello"),
  ("title", .string "Contact")]

theorem loadable_uploadDocument : uploadDocument.Loadable where
  canonical := by
    simp only [uploadDocument, Json.Canonical, Json.CanonicalMembers, Json.CanonicalItems, Members.Ascending,
      and_true, true_and]
    decide +kernel
  stable := by
    simp [Json.Stable, uploadDocument, Json.numbers, Json.numbersMembers, Json.numbersItems]
  depth_le := by decide
  size_le := by
    rw [Json.size_pretty]
    decide +kernel

theorem loaded_uploadDocument : (Config.loaded none none (Disk.ofDocument uploadDocument)).outcome =
    .ok (Config.ofRecord (.ofJson uploadDocument)) := by
  have hvalid : Config.violations uploadDocument = [] := by decide +kernel
  exact Config.loaded_ofDocument_of_valid loadable_uploadDocument hvalid

section OfDocument

variable (document : Json)

theorem ordinary_defaultName : Entry.Ordinary (Path.ofString Loading.defaultName).bytes :=
  ⟨by decide +kernel, by decide +kernel, by decide +kernel, by decide +kernel⟩

theorem leadsTo_defaultName : (Disk.ofDocument document).LeadsTo (.ofString Loading.defaultName)
    [(Path.ofString Loading.defaultName).bytes] := by
  have hpieces : Disk.pieces (.ofString Loading.defaultName) =
      .ok ([] ++ [(Path.ofString Loading.defaultName).bytes]) := by decide +kernel
  have hfollow : (Disk.ofDocument document).follow (.ofString Loading.defaultName) [] = .ok [] := rfl
  exact .intro hpieces hfollow rfl ordinary_defaultName

theorem leadsTo_dot : (Disk.ofDocument document).LeadsTo ((Path.ofString ".").join Loading.defaultName)
    [(Path.ofString Loading.defaultName).bytes] := by
  have hpieces : Disk.pieces ((Path.ofString ".").join Loading.defaultName) =
      .ok ([Path.dot] ++ [(Path.ofString Loading.defaultName).bytes]) := by decide +kernel
  have hfollow : (Disk.ofDocument document).follow ((Path.ofString ".").join Loading.defaultName) [Path.dot] =
      .ok [] := rfl
  exact .intro hpieces hfollow rfl ordinary_defaultName

theorem leadsTo_other : (Disk.ofDocument document).LeadsTo (.ofString "a") [[0x61]] := by
  have hpieces : Disk.pieces (.ofString "a") = .ok ([] ++ [[0x61]]) := by decide +kernel
  have hfollow : (Disk.ofDocument document).follow (.ofString "a") [] = .ok [] := rfl
  exact .intro hpieces hfollow rfl ⟨by decide, by decide, by decide, by decide⟩

theorem samePlace_dot : FileStore.SamePlace (Disk.ofDocument document) (.ofString Loading.defaultName)
    ((Path.ofString ".").join Loading.defaultName) :=
  ⟨_, leadsTo_defaultName document, leadsTo_dot document⟩

theorem not_samePlace_dot : ¬FileStore.SamePlace (Disk.ofDocument document) (.ofString "a")
    ((Path.ofString ".").join Loading.defaultName) := by
  rintro ⟨place, hplace, htarget⟩
  have hother := Disk.LeadsTo.unique hplace (leadsTo_other document)
  have hname := Disk.LeadsTo.unique htarget (leadsTo_dot document)
  rw [hother] at hname
  exact absurd hname (by decide +kernel)

theorem read_other : FileStore.read (Disk.ofDocument document) (.ofString "a") = .ok ⟨#[0x31]⟩ := rfl

theorem exists_write_dot (content : ByteArray) : ∃ after,
    FileStore.write (Disk.ofDocument document) ((Path.ofString ".").join Loading.defaultName) content = .ok after :=
  ⟨_, rfl⟩

theorem write_missing_ne (content : ByteArray) (after : Disk) :
    FileStore.write (Disk.ofDocument document) ((Path.ofString "b").join Loading.defaultName) content ≠ .ok after := by
  intro h
  cases h

end OfDocument

/-- What preparing the form on a disk in a folder leaves. -/
def prepareIn (out : String) (disk : Disk) : Output × Disk :=
  (run none (.prepare none 8080 none (.ofString out)) : StateM Disk _).run disk

/-- What is written for that form, where the backend listens on port 8080. -/
def preparedUpload : Json := .object [
  ("email", .string "a@b.example"),
  ("title", .string "Contact"),
  ("subject", .string "Hello"),
  ("questions", .array [
    .object [("label", .string "Photo"), ("name", .string "photo"), ("type", .string "file"),
      ("required", .bool false), ("custom", .object [("accept", .string "*")])]]),
  ("form_backend_url", .string "http://localhost:8080/submit")]

theorem encode_prepare_uploadDocument :
    ((Config.ofRecord (.ofJson uploadDocument)).prepare "http://localhost:8080/submit").encode .object =
      preparedUpload := rfl

/-- The file that was loaded is replaced through another path to it, and no other file is; where the folder is
    missing, nothing changes. -/
theorem prepare_writes_all_or_nothing_of_uploadDocument :
    (∃ c, (Config.loaded none none (Disk.ofDocument uploadDocument)).outcome = .ok c ∧
      (prepareIn "." (Disk.ofDocument uploadDocument)).1.code = 0 ∧
      FileStore.read (prepareIn "." (Disk.ofDocument uploadDocument)).2 (.ofString Loading.defaultName) =
        .ok (c.prepare "http://localhost:8080/submit").pretty.toUTF8 ∧
      (c.prepare "http://localhost:8080/submit").pretty = preparedUpload.pretty ∧
      FileStore.read (prepareIn "." (Disk.ofDocument uploadDocument)).2 (.ofString "a") = .ok ⟨#[0x31]⟩) ∧
    (prepareIn "b" (Disk.ofDocument uploadDocument)).1.code ≠ 0 ∧
    (prepareIn "b" (Disk.ofDocument uploadDocument)).2 = Disk.ofDocument uploadDocument ∧
    (prepareIn "b" (Disk.ofDocument uploadDocument)).1.stdout = "" := by
  -- that the document loads is all that matters of it
  have hhere (document : Json) {c : Config}
      (hloaded : (Config.loaded none none (Disk.ofDocument document)).outcome = .ok c) :
      ∃ c, (Config.loaded none none (Disk.ofDocument document)).outcome = .ok c ∧
        (prepareIn "." (Disk.ofDocument document)).1.code = 0 ∧
        FileStore.Replaced (Disk.ofDocument document) (prepareIn "." (Disk.ofDocument document)).2
          ((Path.ofString ".").join Loading.defaultName) (c.prepare "http://localhost:8080/submit").pretty.toUTF8 := by
    obtain ⟨-, hwritten, hcode, -⟩ :=
      prepare_writes_all_or_nothing none none 8080 none (.ofString ".") (Disk.ofDocument document)
    have hzero := hcode.mpr ⟨c, hloaded, by decide +kernel, exists_write_dot document _⟩
    obtain ⟨d, hd, hreplaced⟩ := hwritten hzero
    exact ⟨d, hd, hzero, hreplaced⟩
  have hmissing (document : Json) : (prepareIn "b" (Disk.ofDocument document)).1.code ≠ 0 ∧
      (prepareIn "b" (Disk.ofDocument document)).2 = Disk.ofDocument document ∧
      (prepareIn "b" (Disk.ofDocument document)).1.stdout = "" := by
    obtain ⟨hunwritten, -, hcode, -⟩ :=
      prepare_writes_all_or_nothing none none 8080 none (.ofString "b") (Disk.ofDocument document)
    have hnot : (prepareIn "b" (Disk.ofDocument document)).1.code ≠ 0 := by
      intro hzero
      obtain ⟨c, -, -, after, hwrite⟩ := hcode.mp hzero
      exact write_missing_ne document _ after hwrite
    exact ⟨hnot, hunwritten hnot⟩
  obtain ⟨c, hc, hzero, hreplaced⟩ := hhere uploadDocument loaded_uploadDocument
  obtain rfl := Except.ok.inj (hc.symm.trans loaded_uploadDocument)
  have hpretty := congrArg Json.pretty encode_prepare_uploadDocument
  refine ⟨⟨_, hc, hzero, hreplaced.same (samePlace_dot uploadDocument), hpretty, ?_⟩, hmissing uploadDocument⟩
  exact (hreplaced.frame (not_samePlace_dot uploadDocument)).mpr (read_other uploadDocument)

end Program

end ContactForm
