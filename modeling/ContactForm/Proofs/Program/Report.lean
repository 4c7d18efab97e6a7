import ContactForm.Proofs.Json.Reading
import ContactForm.Proofs.Program.Messages
import ContactForm.Proofs.Program.WarningLines

namespace ContactForm

namespace Warning

/-- Whether a line is read as an object whose event is that of a warning. -/
def isLine (line : String) : Bool :=
  match Json.parse line with
  | .ok (.object members) => (members.lookup "event").bind Json.string? == some "config_warning"
  | _ => false

theorem WrittenAs.isLine {w : Warning} {line : String} (h : w.WrittenAs line) : isLine line = true := by
  rw [Warning.isLine, h.parse]
  rfl

theorem filter_isLine_text (warnings : List Warning) : (warnings.map text).filter isLine = warnings.map text := by
  rw [List.filter_eq_self]
  intro line hline
  obtain ⟨w, -, rfl⟩ := List.mem_map.mp hline
  exact w.writtenAs_text.isLine

theorem isLine_eq_false {line : String} (h : ∀ members, Json.parse line ≠ .ok (.object members)) :
    isLine line = false := by
  unfold isLine
  split
  · next members hparse => exact absurd hparse (h members)
  · rfl

theorem isLine_empty : isLine "" = false := by decide

/-- A line that starts with a word is not one of a warning. -/
theorem isLine_report (rest : String) : isLine ("config load failed: " ++ rest) = false := by
  apply isLine_eq_false
  intro members h
  obtain ⟨blanks, -, hread⟩ := Json.readValue_of_parse h
  have hword : "config load failed: ".toList = 'c' :: "onfig load failed: ".toList := by decide
  rw [String.toList_append, hword, List.cons_append,
    Reader.readValue_stray _ _ _ (by decide) (by decide) (by decide)] at hread
  cases hread

/-- Nor is a line that ends with a word. -/
theorem isLine_question (rest : String) : isLine (rest ++ "\" question") = false := by
  have hword : rest ++ "\" question" = (rest ++ "\" questio").push 'n' := by
    rw [← String.append_singleton, String.append_assoc]
    rfl
  rw [hword]
  exact isLine_eq_false (Json.parse_ne_object (by decide) (by decide))

end Warning

namespace ConfigError

/-- The line that tells why a configuration could not be loaded, without the line feed that ends it. -/
def report (e : ConfigError) : String :=
  "config load failed: " ++ e.message

/-- The lines of a report that the type of a question has to itself: all but its first and its last line, which stand
    beside other words of the report. -/
def typeLines : ConfigError → List String
  | .schema ⟨_, .unexpectedOptions type⟩ => (lines type).tail.dropLast
  | _ => []

end ConfigError

variable {σ : Type} [FileStore σ] {store : σ}

/-- Where files fail with messages on one line, a report is on one line, with the type of a question as the one part
    that may not be. -/
theorem Config.LoadFailure.report_cases {e : ConfigError} (h : LoadFailure store e)
    (hfiles : ∀ path failure, FileStore.read store path = .error failure → OneLine failure.message) :
    (OneLine e.report ∧ ∀ path type, e ≠ .schema ⟨path, .unexpectedOptions type⟩) ∨
    ∃ path type start, e = .schema ⟨path, .unexpectedOptions type⟩ ∧ OneLine start ∧
      e.report = "config load failed: " ++ start ++ type ++ "\" question" := by
  have hreport : OneLine "config load failed: " := by decide
  have hinvalid : OneLine "invalid config: " := by decide
  cases h with
  | io hread =>
    left
    have hio : OneLine "config io error: " := by decide
    exact ⟨hreport.append (hio.append (hfiles _ _ hread)), fun path type heq => nomatch heq⟩
  | parse text fault =>
    left
    have hparse : OneLine "config parse error: " := by decide
    exact ⟨hreport.append (hparse.append (fault.printable_message text).oneLine), fun path type heq => nomatch heq⟩
  | limit limit =>
    left
    exact ⟨hreport.append (hinvalid.append limit.printable_message.oneLine), fun path type heq => nomatch heq⟩
  | schema hcheck =>
    obtain ⟨hplain, hne⟩ | ⟨path, type, start, rfl, hstart, hmessage⟩ :=
      (Config.violations_hold (Config.mem_violations_of_check hcheck)).message_cases
    · left
      refine ⟨hreport.append (hinvalid.append hplain.oneLine), ?_⟩
      intro path type heq
      exact hne path type (ConfigError.schema.inj heq)
    · right
      refine ⟨path, type, "invalid config: " ++ start, rfl, hinvalid.append hstart.oneLine, ?_⟩
      have hschema := (congrArg ("invalid config: " ++ ·) hmessage).trans (append_between _ _ _ _)
      exact (congrArg ("config load failed: " ++ ·) hschema).trans (append_between _ _ _ _)

/-- Of the lines of a report, only those that the type of a question has to itself can be read as lines of warnings. -/
theorem Config.LoadFailure.filter_lines_report {e : ConfigError} (h : LoadFailure store e)
    (hfiles : ∀ path failure, FileStore.read store path = .error failure → OneLine failure.message) :
    (lines e.report).filter Warning.isLine = e.typeLines.filter Warning.isLine := by
  have hreport : OneLine "config load failed: " := by decide
  have hquestion : OneLine "\" question" := by decide
  obtain ⟨hplain, hne⟩ | ⟨path, type, start, rfl, hstart, heq⟩ := h.report_cases hfiles
  · have htype : e.typeLines = [] := by
      unfold ConfigError.typeLines
      split
      · next path type => exact absurd rfl (hne path type)
      · rfl
    have hline : Warning.isLine e.report = false := Warning.isLine_report e.message
    rw [lines_of_oneLine hplain, htype, List.filter_singleton, hline]
    rfl
  · have hfirst (rest : String) : Warning.isLine ("config load failed: " ++ start ++ rest) = false := by
      rw [String.append_assoc]
      exact Warning.isLine_report _
    exact (congrArg (fun report => (lines report).filter Warning.isLine) heq).trans
      (filter_lines_between (hreport.append hstart) hquestion hfirst Warning.isLine_question type)

theorem Config.LoadFailure.oneLine_report_iff {e : ConfigError} (h : LoadFailure store e)
    (hfiles : ∀ path failure, FileStore.read store path = .error failure → OneLine failure.message) :
    OneLine e.report ↔ ∀ path type, e = .schema ⟨path, .unexpectedOptions type⟩ → OneLine type := by
  have hreport : OneLine "config load failed: " := by decide
  have hquestion : OneLine "\" question" := by decide
  obtain ⟨hplain, hne⟩ | ⟨path, type, start, rfl, hstart, heq⟩ := h.report_cases hfiles
  · constructor
    · intro _ path type heq
      exact absurd heq (hne path type)
    · intro _
      exact hplain
  · rw [heq]
    constructor
    · intro hone path' type' hsame
      cases hsame
      exact (oneLine_append_iff.mp (oneLine_append_iff.mp hone).1).2
    · intro htype
      exact ((hreport.append hstart).append (htype path type rfl)).append hquestion

namespace Program

variable {override : Option (List UInt8)} {config : Option Path}

/-- The second output of a command that cannot load a configuration has the lines of the warnings that were recorded,
    and then the report of the failure. The report is one line unless it names the type of a question that has line
    feeds; of the lines of such a type, those between the first and the last stand in the output as they are, and no
    others than them and the warnings can be read as lines of warnings. -/
theorem stderr_lines_of_failure {command : Command} (hcommand : command.Loads config) {e : ConfigError}
    (hfiles : ∀ path failure, FileStore.read store path = .error failure → OneLine failure.message)
    (h : (Config.loaded override config store).outcome = .error e) :
    let stderr := ((run override command : StateM σ _).run store).1.stderr
    ∃ written, List.Forall₂ Warning.WrittenAs (Config.loaded override config store).warnings written ∧
      stderr = String.join (written.map (· ++ "\n")) ++ (e.report ++ "\n") ∧
      lines stderr = written ++ lines e.report ++ [""] ∧
      (OneLine e.report ↔ ∀ path type, e = .schema ⟨path, .unexpectedOptions type⟩ → OneLine type) ∧
      (lines stderr).filter Warning.isLine = written ++ e.typeLines.filter Warning.isLine := by
  intro stderr
  let warnings := (Config.loaded override config store).warnings
  have hfailure := Config.loadFailure_of_loaded h
  have hstderr : stderr = String.join (warnings.map Warning.line) ++ (e.report ++ "\n") := by
    have hrun := run_of_error hcommand h
    change ((run override command : StateM σ _).run store).1.stderr = _
    rw [hrun]
    rfl
  have hlines : lines stderr = warnings.map Warning.text ++ lines e.report ++ [""] := by
    have hend : lines "" = [""] := by decide
    have hreport := lines_append_lineFeed e.report ""
    rw [String.append_empty, hend] at hreport
    rw [hstderr, Warning.lines_join_line, hreport, List.append_assoc]
  refine ⟨warnings.map Warning.text, Warning.forall₂_writtenAs warnings, ?_, hlines,
    hfailure.oneLine_report_iff hfiles, ?_⟩
  · rw [hstderr, List.map_map]
    rfl
  · rw [hlines, List.filter_append, List.filter_append, Warning.filter_isLine_text,
      hfailure.filter_lines_report hfiles, List.filter_singleton, Warning.isLine_empty]
    simp

/-- A line that is read as one of a warning. -/
def forgedLine : String := "\x7b\"event\":\"config_warning\"\x7d"

/-- The type of a question with such a line in it. -/
def forgedType : String := "a\n" ++ forgedLine ++ "\nb"

/-- A form with options for a question that can have none, which is refused with the type of the question. -/
def forgingDocument : Json := .object [
  ("email", .string "a@b.example"),
  ("questions", .array [
    .object [("label", .string "Name"), ("name", .string "name"), ("options", .array []), ("required", .bool true),
      ("type", .string forgedType)]]),
  ("subject", .string "Hello"),
  ("title", .string "Contact")]

theorem loadable_forgingDocument : forgingDocument.Loadable where
  canonical := by
    simp only [forgingDocument, Json.Canonical, Json.CanonicalMembers, Json.CanonicalItems, Members.Ascending,
      and_true, true_and]
    decide +kernel
  stable := by
    simp [Json.Stable, forgingDocument, Json.numbers, Json.numbersMembers, Json.numbersItems]
  depth_le := by decide
  size_le := by
    rw [Json.size_pretty]
    decide +kernel

/-- No warning was recorded, and yet a line is read as one. -/
theorem stderr_lines_of_failure_of_forgingDocument :
    (Config.loaded none none (Disk.ofDocument forgingDocument)).outcome =
      .error (.schema ⟨[.key "questions", .index 0, .key "options"], .unexpectedOptions forgedType⟩) ∧
    (Config.loaded none none (Disk.ofDocument forgingDocument)).warnings = [] ∧
    (lines ((run none (.validate none) : StateM Disk _).run (Disk.ofDocument forgingDocument)).1.stderr).filter
      Warning.isLine = [forgedLine] := by
  have hviolations : Config.violations forgingDocument =
      [⟨[.key "questions", .index 0, .key "options"], .unexpectedOptions forgedType⟩] := by
    decide +kernel
  have houtcome := Config.loaded_ofDocument_of_violation loadable_forgingDocument hviolations
  have hwarnings : (Config.loaded none none (Disk.ofDocument forgingDocument)).warnings = [] := by
    rw [Config.loaded_ofDocument loadable_forgingDocument, Review.mapError]
    decide +kernel
  have hlines : lines forgedType = ["a", forgedLine, "b"] := by decide +kernel
  have hforged : Warning.isLine forgedLine = true := by decide +kernel
  obtain ⟨written, htold, -, -, -, hfilter⟩ := stderr_lines_of_failure .validate
    (fun _ _ hread => Disk.oneLine_of_read hread) houtcome
  rw [hwarnings, List.forall₂_nil_left_iff] at htold
  refine ⟨houtcome, hwarnings, ?_⟩
  rw [hfilter, htold, ConfigError.typeLines, hlines]
  simp [hforged]

end Program

end ContactForm
