import ContactForm.Files.Disk
import ContactForm.Proofs.Loading
import ContactForm.Proofs.PathLimits
import ContactForm.Proofs.Review

namespace ContactForm

/-- A path that is a text is shown as it is. -/
theorem Path.shownLength_ofString (value : String) :
    Path.shownLength (Path.ofString value).bytes = value.utf8ByteSize := by
  have hbytes : (Path.ofString value).bytes.toByteArray = value.toUTF8 := ByteArray.ext List.data_toByteArray
  have hvalid : (Path.ofString value).bytes.toByteArray.IsValidUTF8 := hbytes ▸ value.isValidUTF8
  exact shownLength_of_valid hvalid

namespace Loading

theorem resolve_of_text (value : String) :
    resolve (some value.toUTF8.data.toList) none =
      if maxPathLength < value.utf8ByteSize then .error Limit.pathLength.error else .ok (.ofString value) := by
  have htext : String.fromUTF8? ⟨value.toUTF8.data.toList.toArray⟩ = some value := fromUTF8?_toUTF8 value
  simp only [resolve, Option.bind_some, htext]

theorem resolve_of_no_text {override : Option (List UInt8)}
    (h : ∀ bytes, override = some bytes → ¬(ByteArray.mk bytes.toArray).IsValidUTF8) :
    resolve override none = .ok (.ofString defaultName) := by
  have hnone : (override.bind fun bytes => String.fromUTF8? ⟨bytes.toArray⟩) = none := by
    rw [Option.bind_eq_none_iff]
    intro bytes hbytes
    exact dif_neg (h bytes hbytes)
  simp only [resolve, hnone]

/-- The value of the environment variable is limited as a path of that text is. -/
theorem checkPath_ofString_of_long {value : String} (h : maxPathLength < value.utf8ByteSize) :
    checkPath (.ofString value) = .error Limit.pathLength.error := by
  rw [checkPath_eq_pathLength_iff, Path.shownLength_ofString]
  exact h

theorem reviewDocument_ok (document : Json) :
    reviewDocument (.ok document) = (Config.check document).mapError .schema :=
  Review.lift_ok_bind _ _

/-- Where there is no document to check, nothing is recorded. -/
theorem warnings_of_reviewDocument {document : Except ConfigError Json} {e : ConfigError}
    (h : (reviewDocument document).outcome = .error e) (he : ∀ v, e ≠ .schema v) :
    (reviewDocument document).warnings = [] := by
  cases document with
  | error _ => rfl
  | ok document =>
    rw [reviewDocument_ok, Review.mapError] at h
    cases hcheck : (Config.check document).outcome with
    | ok c =>
      rw [hcheck] at h
      cases h
    | error v =>
      rw [hcheck] at h
      exact absurd (Except.error.inj h).symm (he v)

/-- What is refused as JSON is refused so before it is checked. -/
theorem reviewDocument_eq_parse_iff {document : Except ConfigError Json} {detail : String} :
    (reviewDocument document).outcome = .error (.parse detail) ↔ document = .error (.parse detail) := by
  cases document with
  | error e => exact ⟨fun h => congrArg _ (Except.error.inj h), fun h => congrArg _ (Except.error.inj h)⟩
  | ok document =>
    rw [reviewDocument_ok, Review.mapError]
    cases (Config.check document).outcome <;> simp [Except.mapError]

theorem parseContent_of_large {content : ByteArray} (h : maxFileSize < content.size) :
    parseContent content = .error Limit.fileSize.error :=
  if_pos h

theorem parseContent_of_invalid {content : ByteArray} (h : content.size ≤ maxFileSize)
    (hinvalid : ¬content.IsValidUTF8) : parseContent content = .error Limit.encoding.error := by
  have hnone : String.fromUTF8? content = none := dif_neg hinvalid
  rw [parseContent, if_neg (Nat.not_lt.mpr h), hnone]

end Loading

namespace Config

open Loading

section Access

variable {m : Type → Type} [Monad m] [FileAccess m]

/-- The path that the environment or the default comes to can as well be given. -/
theorem load_of_resolve {override : Option (List UInt8)} {path : Path} (h : resolve override none = .ok path)
    (other : Option (List UInt8)) : (load override none : m _) = load other (some path) := by
  rw [load, h]
  rfl

theorem load_of_checkPath [LawfulMonad m] {path : Path} {e : ConfigError} (h : checkPath path = .error e)
    (override : Option (List UInt8)) : (load override (some path) : m _) = pure (.fail e) := by
  change (do return reviewDocument (← readDocument path) : m _) = _
  rw [readDocument, h]
  exact pure_bind _ _

end Access

section Store

variable {σ : Type} [FileStore σ] (store : σ)

/-- What loading gives comes from what there is of a document. -/
theorem exists_reviewDocument (override : Option (List UInt8)) (config : Option Path) :
    ∃ document, ((load override config : StateM σ _).run store).1 = reviewDocument document := by
  cases config with
  | some path => exact ⟨documentAt store path, congrArg Prod.fst (load_run override path store)⟩
  | none =>
    cases hresolve : resolve override none with
    | error e =>
      rw [load, hresolve]
      exact ⟨.error e, rfl⟩
    | ok path =>
      rw [load_of_resolve hresolve none]
      exact ⟨documentAt store path, congrArg Prod.fst (load_run none path store)⟩

variable {store} {path : Path} {content : ByteArray} (hpath : checkPath path = .ok ())
  (hread : FileStore.read store path = .ok content)

include hpath hread

theorem load_run_of_read (override : Option (List UInt8)) :
    (load override (some path) : StateM σ _).run store = (reviewDocument (parseContent content), store) := by
  rw [load_run, documentAt_of_read hpath hread]

theorem readDocument_run_of_read :
    (readDocument path : StateM σ _).run store = (parseContent content, store) := by
  rw [readDocument_run, documentAt_of_read hpath hread]

end Store

/-- All ways to load a configuration agree. A value of the environment variable that is a text of any length is loaded
    as the path of that text is. Without one it is the default name that is loaded, also where that is looked for in
    the folder of the empty path. A path that is given counts alone. Content of a file is refused for its size
    whatever its encoding is, then for its encoding, and else gives what its text gives. What fails before there is a
    document to check has recorded nothing. -/
theorem load_entry_points_agree {m : Type → Type} [Monad m] [LawfulMonad m] [FileAccess m] {σ : Type}
    [FileStore σ] :
    (∀ (value : String) (other : Option (List UInt8)),
      (load (some value.toUTF8.data.toList) none : m _) = load other (some (.ofString value)) ∧
      (4096 < value.utf8ByteSize →
        (load (some value.toUTF8.data.toList) none : m _) = pure (.fail Limit.pathLength.error))) ∧
    (∀ override : Option (List UInt8),
      (∀ bytes, override = some bytes → ¬(ByteArray.mk bytes.toArray).IsValidUTF8) →
      (∀ other, (load override none : m _) = load other (some (.ofString "config.json"))) ∧
      (load override none : m _) = loadFrom (.ofString "")) ∧
    (∀ (override other : Option (List UInt8)) (path : Path),
      (load override (some path) : m _) = load other (some path)) ∧
    (∀ (store : σ) (override : Option (List UInt8)) (path : Path) (content : ByteArray),
      checkPath path = .ok () → FileStore.read store path = .ok content →
      (1024 * 1024 < content.size →
        (load override (some path) : StateM σ _).run store = (.fail Limit.fileSize.error, store)) ∧
      (content.size ≤ 1024 * 1024 → ¬content.IsValidUTF8 →
        (load override (some path) : StateM σ _).run store = (.fail Limit.encoding.error, store)) ∧
      ∀ text : String, content = text.toUTF8 → content.size ≤ 1024 * 1024 →
        (load override (some path) : StateM σ _).run store = (ofText text, store) ∧
        ∀ detail, ((readDocument path : StateM σ _).run store).1 = .error (.parse detail) ↔
          (ofText text).outcome = .error (.parse detail)) ∧
    (∀ (store : σ) (override : Option (List UInt8)) (config : Option Path) (e : ConfigError),
      ((load override config : StateM σ _).run store).1.outcome = .error e → (∀ v, e ≠ .schema v) →
      ((load override config : StateM σ _).run store).1.warnings = []) ∧
    ∀ (text : String) (e : ConfigError), (ofText text).outcome = .error e → (∀ v, e ≠ .schema v) →
      (ofText text).warnings = [] := by
  refine ⟨?_, ?_, fun _ _ _ => rfl, ?_, ?_, fun _ _ => warnings_of_reviewDocument⟩
  · intro value other
    by_cases hlong : maxPathLength < value.utf8ByteSize
    · have hgiven : (load other (some (.ofString value)) : m _) = pure (.fail Limit.pathLength.error) :=
        load_of_checkPath (checkPath_ofString_of_long hlong) other
      have hvariable : (load (some value.toUTF8.data.toList) none : m _) = pure (.fail Limit.pathLength.error) := by
        rw [load, resolve_of_text, if_pos hlong]
      exact ⟨hvariable.trans hgiven.symm, fun _ => hvariable⟩
    · have hresolve := (resolve_of_text value).trans (if_neg hlong)
      exact ⟨load_of_resolve hresolve other, fun h => absurd h hlong⟩
  · intro override h
    have hresolve := resolve_of_no_text h
    exact ⟨load_of_resolve hresolve, load_of_resolve hresolve none⟩
  · intro store override path content hpath hread
    rw [load_run_of_read hpath hread, readDocument_run_of_read hpath hread]
    refine ⟨fun hlarge => ?_, fun hsize hinvalid => ?_, ?_⟩
    · rw [parseContent_of_large hlarge]
      rfl
    · rw [parseContent_of_invalid hsize hinvalid]
      rfl
    · rintro text rfl hsize
      have hparse : parseContent text.toUTF8 = parseText text :=
        (parseContent_toUTF8 text).trans (if_neg (Nat.not_lt.mpr hsize))
      rw [hparse]
      exact ⟨rfl, fun detail => reviewDocument_eq_parse_iff.symm⟩
  · intro store override config e h he
    obtain ⟨document, hdocument⟩ := exists_reviewDocument store override config
    rw [hdocument] at h ⊢
    exact warnings_of_reviewDocument h he

/-- A disk with just the file that is loaded where none is named. -/
def diskHolding (content : ByteArray) : Disk :=
  ⟨.folder [((Path.ofString defaultName).bytes, .file content)], []⟩

/-- Content of one byte more than is read. -/
def oversized : ByteArray :=
  ⟨Array.replicate (1024 * 1024 + 1) 0xff⟩

theorem load_entry_points_agree_of_diskHolding :
    (∃ value : String, 4096 < value.utf8ByteSize ∧
      (load (some value.toUTF8.data.toList) none : StateM Disk _) = pure (.fail Limit.pathLength.error)) ∧
    (load (some [0xff]) none : StateM Disk _) = loadFrom (.ofString "") ∧
    (load (some [0xff]) none : StateM Disk _).run (diskHolding oversized) =
      (.fail Limit.fileSize.error, diskHolding oversized) ∧
    (load (some [0xff]) none : StateM Disk _).run (diskHolding ⟨#[0xff]⟩) =
      (.fail Limit.encoding.error, diskHolding ⟨#[0xff]⟩) ∧
    (load (some [0xff]) none : StateM Disk _).run (diskHolding "".toUTF8) =
      (.fail (.parse "EOF while parsing a value at line 1 column 0"), diskHolding "".toUTF8) ∧
    (ofText "").warnings = [] := by
  obtain ⟨htext, hnotext, -, hstore, -, hbefore⟩ := @load_entry_points_agree (StateM Disk) _ _ _ Disk _
  have hinvalid : ∀ bytes, some [0xff] = some bytes → ¬(ByteArray.mk bytes.toArray).IsValidUTF8 := by
    intro bytes hbytes
    obtain rfl := Option.some.inj hbytes
    decide
  obtain ⟨hgiven, hfolder⟩ := hnotext (some [0xff]) hinvalid
  have hpath : checkPath (Path.ofString "config.json") = .ok () := by decide +kernel
  have hholds (content : ByteArray) :
      FileStore.read (diskHolding content) (Path.ofString "config.json") = .ok content := rfl
  have hread (content : ByteArray) := hstore (diskHolding content) none _ content hpath (hholds content)
  have hlength (n : Nat) : (String.ofList (List.replicate n 'a')).utf8ByteSize = n := by
    rw [String.utf8ByteSize_ofList]
    induction n with
    | zero => rfl
    | succ n ih =>
      rw [List.replicate_succ, String.utf8Len_cons, ih]
      rfl
  have hlong : 4096 < (String.ofList (List.replicate 4097 'a')).utf8ByteSize := by
    rw [hlength]
    decide
  have hlarge : 1024 * 1024 < oversized.size := by simp [oversized, ByteArray.size]
  have hfault : ofText "" = .fail (.parse "EOF while parsing a value at line 1 column 0") := by
    have hmessage : Fault.message "" (.atEnd .endOfValue) = "EOF while parsing a value at line 1 column 0" := by
      decide +kernel
    rw [← hmessage]
    rfl
  refine ⟨⟨_, hlong, (htext _ none).2 hlong⟩, hfolder, ?_, ?_, ?_, ?_⟩
  · rw [hgiven none]
    exact (hread _).1 hlarge
  · rw [hgiven none]
    exact (hread _).2.1 (by decide) (by decide)
  · rw [hgiven none, ((hread _).2.2 "" rfl (by decide)).1, hfault]
  · exact hbefore "" _ (congrArg Review.outcome hfault) nofun

end Config

end ContactForm
