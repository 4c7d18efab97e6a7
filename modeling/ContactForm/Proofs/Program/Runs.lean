import ContactForm.Program
import ContactForm.Files.Disk
import ContactForm.Proofs.Json.Stability
import ContactForm.Proofs.Loading
import ContactForm.Proofs.Validation.Outcome

namespace ContactForm

/-- The commands that load the configuration at a path, or the one chosen without it. -/
inductive Command.Loads (config : Option Path) : Command → Prop
  | validate : Loads config (.validate config)
  | normalize : Loads config (.normalize config)
  | prepare (port : UInt16) (route : Option String) (out : Path) : Loads config (.prepare config port route out)

variable {σ : Type} [FileStore σ]

namespace Config

/-- What loading from the files of a store gives. -/
def loaded (override : Option (List UInt8)) (config : Option Path) (store : σ) : Review ConfigError Config :=
  ((load override config : StateM σ _).run store).1

/-- Loading leaves the files as they are. -/
theorem load_run_eq (override : Option (List UInt8)) (config : Option Path) (store : σ) :
    (load override config : StateM σ _).run store = (loaded override config store, store) := by
  have hstate : ((load override config : StateM σ _).run store).2 = store := by
    unfold load
    cases Loading.resolve override config with
    | error e => rfl
    | ok path =>
      have hread := Loading.readDocument_run path store
      change ((Loading.readDocument path : StateM σ _).run store).2 = store
      rw [hread]
  rw [loaded]
  exact Prod.ext rfl hstate

/-- Where a document is read from the file that is chosen, it is checked. -/
theorem loaded_of_document {override : Option (List UInt8)} {config : Option Path} {store : σ} {path : Path}
    {document : Json} (hresolve : Loading.resolve override config = .ok path)
    (hdocument : Loading.documentAt store path = .ok document) :
    loaded override config store = (check document).mapError .schema := by
  have hread := Loading.readDocument_run path store
  rw [hdocument] at hread
  rw [loaded, load, hresolve]
  change Loading.reviewDocument ((Loading.readDocument path : StateM σ _).run store).1 = _
  rw [hread, Loading.reviewDocument, Review.lift_ok_bind]

end Config

/-- A disk with the text of a document in the file that is loaded where none is named, and with one other file. -/
def Disk.ofDocument (document : Json) : Disk :=
  ⟨.folder [((Path.ofString Loading.defaultName).bytes, .file document.pretty.toUTF8), ([0x61], .file ⟨#[0x31]⟩)], []⟩

/-- A document that is read from its text, which is not too large to be loaded. -/
structure Json.Loadable (document : Json) : Prop where
  canonical : document.Canonical
  stable : document.Stable
  depth_le : document.depth ≤ Reader.maxDepth
  size_le : document.pretty.utf8ByteSize ≤ Loading.maxFileSize

theorem Config.loaded_ofDocument {document : Json} (h : document.Loadable) :
    loaded none none (Disk.ofDocument document) = (check document).mapError .schema := by
  have hpath : Loading.checkPath (Path.ofString Loading.defaultName) = .ok () := by decide +kernel
  have hread : FileStore.read (Disk.ofDocument document) (Path.ofString Loading.defaultName) =
      .ok document.pretty.toUTF8 := rfl
  have hparse := Json.parse_write_of_stable h.canonical h.stable h.depth_le (.indented 0)
  have hresolve : Loading.resolve none none = .ok (Path.ofString Loading.defaultName) := rfl
  apply loaded_of_document hresolve
  rw [Loading.documentAt_of_read hpath hread, Loading.parseContent_toUTF8, if_neg (Nat.not_lt.mpr h.size_le),
    Loading.parseText]
  rw [show Json.parse document.pretty = .ok document from hparse]
  rfl

theorem Config.loaded_ofDocument_of_valid {document : Json} (h : document.Loadable)
    (hvalid : violations document = []) :
    (loaded none none (Disk.ofDocument document)).outcome = .ok (ofRecord (.ofJson document)) := by
  rw [loaded_ofDocument h, Review.mapError, check_outcome, hvalid]
  rfl

theorem Config.loaded_ofDocument_of_violation {document : Json} (h : document.Loadable) {v : Violation}
    {vs : List Violation} (hviolations : violations document = v :: vs) :
    (loaded none none (Disk.ofDocument document)).outcome = .error (.schema v) := by
  rw [loaded_ofDocument h, Review.mapError, check_outcome, hviolations]
  rfl

namespace Program

variable {override : Option (List UInt8)} {config : Option Path} {store : σ} {next : Config → StateM σ Output}

theorem withConfig_of_error {e : ConfigError} (h : (Config.loaded override config store).outcome = .error e) :
    (withConfig override config next : StateM σ _).run store =
      ((Output.failure ("config load failed: " ++ e.message)).after (Config.loaded override config store).warnings,
        store) := by
  have hload := Config.load_run_eq override config store
  unfold withConfig
  simp only [StateT.run, bind, StateT.bind] at hload ⊢
  rw [hload]
  simp only [h]
  rfl

theorem withConfig_of_ok {c : Config} (h : (Config.loaded override config store).outcome = .ok c) :
    (withConfig override config next : StateM σ _).run store =
      (((next c).run store).1.after (Config.loaded override config store).warnings, ((next c).run store).2) := by
  have hload := Config.load_run_eq override config store
  unfold withConfig
  simp only [StateT.run, bind, StateT.bind] at hload ⊢
  rw [hload]
  simp only [h]
  rfl

end Program

end ContactForm
