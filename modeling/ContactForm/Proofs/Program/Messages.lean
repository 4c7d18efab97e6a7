import ContactForm.Proofs.Json.Printable
import ContactForm.Proofs.Program.Runs
import ContactForm.Proofs.Validation.DeclaredPaths

namespace ContactForm

theorem Level.printable_of_declared {key : String} (h : ∃ level : Level, key ∈ level.declared) :
    Printable key.toList := by
  obtain ⟨level, hkey⟩ := h
  have hall : ∀ key ∈ level.declared, Printable key.toList := by
    cases level <;> decide
  exact hall key hkey

namespace Locator

variable {path : Locator}

/-- Keys that are declared are shown on one line. -/
theorem Declared.printable_render (h : path.Declared) : Printable path.render.toList := by
  have hsegment : ∀ segment ∈ path, Printable segment.text.toList := by
    intro segment hmem
    cases segment with
    | key name =>
      have hname := Level.printable_of_declared (h name hmem)
      have hpoint : Printable ".".toList := by decide
      simpa [Segment.text, hpoint] using hname
    | index i =>
      have hdigits := Numeral.printable_toDigits i
      simpa [Segment.text] using hdigits
  have hjoin {rest : Locator} (hrest : rest ⊆ path) : Printable (String.join (rest.map Segment.text)).toList := by
    rw [String.toList_join, List.flatMap_map]
    exact Printable.flatMap fun segment hmem => hsegment segment (hrest hmem)
  unfold render
  split
  · decide
  · next name rest =>
    have hname := Level.printable_of_declared (h name List.mem_cons_self)
    simpa [hname] using hjoin (List.subset_cons_self (.key name) rest)
  · exact hjoin (List.Subset.refl _)

end Locator

theorem Shape.printable_name (shape : Shape) : Printable shape.name.toList := by
  cases shape <;> decide

theorem Kind.printable_name (kind : Kind) : Printable kind.name.toList := by
  cases kind <;> decide

/-- What is said of a broken rule is on one line, unless it names the type of a question. -/
theorem Json.Breaks.printable {document : Json} {path : Locator} {rule expected actual : String}
    (h : document.Breaks path rule expected actual) :
    Printable expected.toList ∧ (rule ≠ "unexpected_options" → Printable actual.toList) := by
  have habsent : Printable "absent".toList := by decide
  have hempty : Printable "empty array".toList := by decide
  have hoptions : Printable "non-empty array of options".toList := by decide
  cases h with
  | missing _ _ _ _ _ => exact ⟨Shape.printable_name _, fun _ => habsent⟩
  | mismatch _ _ _ => exact ⟨Shape.printable_name _, fun _ => Kind.printable_name _⟩
  | noOptions _ _ _ => exact ⟨hoptions, fun _ => habsent⟩
  | emptyOptions _ _ _ => exact ⟨hoptions, fun _ => hempty⟩
  | unexpectedOptions _ _ _ _ _ => exact ⟨by decide, fun hrule => absurd rfl hrule⟩

namespace Violation

/-- What a message says before it tells what was found. -/
def lead (v : Violation) : String :=
  v.path.render ++ ": " ++ v.cause.label ++ ": expected " ++ v.cause.expected ++ ", got "

theorem message_eq (v : Violation) : v.message = v.lead ++ v.cause.actual := rfl

theorem Cause.printable_label (cause : Cause) : Printable cause.label.toList := by
  cases cause <;> simp only [label] <;> decide

variable {document : Json} {v : Violation}

theorem Holds.printable_lead (h : v.Holds document) : Printable v.lead.toList := by
  have hpath := h.declared.printable_render
  have hexpected := h.printable.1
  have hlabel := v.cause.printable_label
  have hcolon : Printable ": ".toList := by decide
  have hbefore : Printable ": expected ".toList := by decide
  have hgot : Printable ", got ".toList := by decide
  exact ((((hpath.append hcolon).append hlabel).append hbefore).append hexpected).append hgot

/-- The message of a violation is on one line, with the type of a question as the one part that may not be. -/
theorem Holds.message_cases (h : v.Holds document) :
    (Printable v.message.toList ∧ ∀ path type, v ≠ ⟨path, .unexpectedOptions type⟩) ∨
    ∃ path type start, v = ⟨path, .unexpectedOptions type⟩ ∧ Printable start.toList ∧
      v.message = start ++ type ++ "\" question" := by
  have hlead := h.printable_lead
  by_cases hrule : v.cause.name = "unexpected_options"
  · right
    obtain ⟨path, cause⟩ := v
    cases cause with
    | unexpectedOptions type =>
      have hopen : Printable "options on a \"".toList := by decide
      refine ⟨path, type, lead ⟨path, .unexpectedOptions type⟩ ++ "options on a \"", rfl, hlead.append hopen, ?_⟩
      exact append_between _ _ _ _
    | _ => simp [Cause.name] at hrule
  · left
    constructor
    · rw [message_eq]
      exact hlead.append (h.printable.2 hrule)
    · rintro path type rfl
      exact hrule rfl

end Violation

theorem Fault.printable_message (text : String) (fault : Fault) : Printable (fault.message text).toList := by
  have hreason : Printable fault.reason.message.toList := by
    cases fault.reason <;> decide +kernel
  have hline : Printable " at line ".toList := by decide
  have hcolumn : Printable " column ".toList := by decide
  have hdigits (n : Nat) : Printable (toString n).toList := by
    simpa using Numeral.printable_toDigits n
  change Printable (fault.reason.message ++ " at line " ++ toString (fault.position text).1 ++ " column " ++
    toString (fault.position text).2).toList
  exact (((hreason.append hline).append (hdigits _)).append hcolumn).append (hdigits _)

theorem Limit.printable_message (limit : Limit) : Printable limit.message.toList := by
  cases limit <;> decide

variable {σ : Type} [FileStore σ] {store : σ}

/-- How loading a configuration fails: a file cannot be read, its text is not JSON, a limit is not kept, or the
    document breaks a rule. -/
inductive Config.LoadFailure (store : σ) : ConfigError → Prop
  | io {path : Path} {failure : IoFailure} : FileStore.read store path = .error failure →
      LoadFailure store (.io failure.message)
  | parse (text : String) (fault : Fault) : LoadFailure store (.parse (fault.message text))
  | limit (limit : Limit) : LoadFailure store limit.error
  | schema {document : Json} {v : Violation} : (check document).outcome = .error v → LoadFailure store (.schema v)

namespace Loading

theorem loadFailure_of_checkPath {path : Path} {e : ConfigError} (h : checkPath path = .error e) :
    Config.LoadFailure store e := by
  unfold checkPath at h
  split at h
  · cases h
    exact .limit .pathLength
  · split at h <;> cases h
    exact .limit .componentLength

theorem loadFailure_of_parseContent {content : ByteArray} {e : ConfigError} (h : parseContent content = .error e) :
    Config.LoadFailure store e := by
  unfold parseContent at h
  split at h
  · cases h
    exact .limit .fileSize
  · split at h
    · cases h
      exact .limit .encoding
    · next text _ =>
      unfold parseText at h
      cases hparse : Json.parse text with
      | ok document =>
        rw [hparse] at h
        cases h
      | error fault =>
        rw [hparse] at h
        cases h
        exact .parse text fault

theorem loadFailure_of_documentAt {path : Path} {e : ConfigError} (h : documentAt store path = .error e) :
    Config.LoadFailure store e := by
  unfold documentAt at h
  split at h
  · next hpath =>
    cases h
    exact loadFailure_of_checkPath hpath
  · split at h
    · next hread =>
      cases h
      exact .io hread
    · exact loadFailure_of_parseContent h

end Loading

theorem Config.loadFailure_of_loaded {override : Option (List UInt8)} {config : Option Path} {e : ConfigError}
    (h : (loaded override config store).outcome = .error e) : LoadFailure store e := by
  cases hresolve : Loading.resolve override config with
  | error failure =>
    have hfailure : failure = Limit.pathLength.error := by
      unfold Loading.resolve at hresolve
      split at hresolve
      · cases hresolve
      · split at hresolve <;> cases hresolve
        rfl
      · cases hresolve
    rw [loaded, load, hresolve] at h
    cases h
    rw [hfailure]
    exact .limit .pathLength
  | ok path =>
    cases hdocument : Loading.documentAt store path with
    | error failure =>
      have hread := Loading.readDocument_run path store
      rw [hdocument] at hread
      rw [loaded, load, hresolve] at h
      change (Loading.reviewDocument ((Loading.readDocument path : StateM σ _).run store).1).outcome = _ at h
      rw [hread] at h
      cases h
      exact Loading.loadFailure_of_documentAt hdocument
    | ok document =>
      rw [loaded_of_document hresolve hdocument] at h
      cases hcheck : (check document).outcome with
      | ok c =>
        rw [Review.mapError, hcheck] at h
        cases h
      | error v =>
        rw [Review.mapError, hcheck] at h
        cases h
        exact .schema hcheck

end ContactForm
