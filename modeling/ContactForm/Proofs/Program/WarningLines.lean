import ContactForm.Proofs.Json.Printable
import ContactForm.Proofs.Program.Files

namespace ContactForm

namespace Warning

/-- The line of a warning without the line feed that ends it. -/
def text (w : Warning) : String :=
  (Json.object (("event", .string "config_warning") :: w.members)).compact

/-- A line that tells of a warning: it has no control characters, and what is read from it is an object with the
    kind, the path and the message of the warning, and the event. -/
structure WrittenAs (w : Warning) (line : String) : Prop where
  printable : Printable line.toList
  parse : Json.parse line = .ok (.object [
    ("event", .string "config_warning"),
    ("kind", .string w.kind),
    ("message", .string w.message),
    ("path", .string w.path.render)])

theorem writtenAs_text (w : Warning) : w.WrittenAs w.text where
  printable := Json.printable_compact _
  parse := by
    have hdepth : (Json.object (("event", .string "config_warning") :: w.members)).depth ≤ Reader.maxDepth := by
      simp [members, Json.depth, Json.depthMembers, Reader.maxDepth]
    -- the message comes before the path once the keys are sorted
    have hsorted : Members.ofList (("event", .string "config_warning") :: w.members) = [
        ("event", .string "config_warning"),
        ("kind", .string w.kind),
        ("message", .string w.message),
        ("path", .string w.path.render)] := by
      apply Members.ofList_eq_of_perm
      · exact .cons _ (.cons _ (.swap _ _ _))
      · simp only [Members.Ascending, List.pairwise_cons, List.forall_mem_cons, List.not_mem_nil, false_implies,
          implies_true, List.Pairwise.nil, and_true]
        decide
    have hreread : (Json.object (("event", .string "config_warning") :: w.members)).reread? =
        some (.ofMembers (("event", .string "config_warning") :: w.members)) := rfl
    rw [text, ← Except.toOption_eq_some_iff, Json.parse_compact hdepth, hreread, Json.ofMembers, hsorted]

/-- The lines of warnings, and then those of whatever follows. -/
theorem lines_join_line (warnings : List Warning) (rest : String) :
    lines (String.join (warnings.map line) ++ rest) = warnings.map text ++ lines rest := by
  have hplain : ∀ line ∈ warnings.map text, OneLine line := by
    intro line hline
    obtain ⟨w, -, rfl⟩ := List.mem_map.mp hline
    exact (writtenAs_text w).printable.oneLine
  have hjoin := lines_join hplain rest
  rw [List.map_map] at hjoin
  exact hjoin

theorem forall₂_writtenAs (warnings : List Warning) : List.Forall₂ WrittenAs warnings (warnings.map text) := by
  rw [List.forall₂_map_right_iff, List.forall₂_same]
  intro w _
  exact writtenAs_text w

end Warning

namespace Program

variable {σ : Type} [FileStore σ] {override : Option (List UInt8)} {config : Option Path} {store : σ}

/-- A command that succeeds tells nothing on its second output but warnings. -/
theorem stderr_of_success {command : Command} (hcommand : command.Loads config)
    (h : ((run override command : StateM σ _).run store).1.code = 0) :
    ((run override command : StateM σ _).run store).1.stderr =
      String.join ((Config.loaded override config store).warnings.map Warning.line) := by
  have hone : (1 : UInt8) ≠ 0 := by decide
  cases hloaded : (Config.loaded override config store).outcome with
  | error e =>
    rw [run_of_error hcommand hloaded] at h
    exact absurd h hone
  | ok c =>
    cases hcommand with
    | validate =>
      rw [run_validate_of_ok hloaded]
      exact String.append_empty
    | normalize =>
      rw [run_normalize_of_ok hloaded]
      exact String.append_empty
    | prepare port route out =>
      cases hwrite : ((prepared port route c).writeTo out : StateM σ _).run store with
      | mk written after =>
        cases written with
        | error e =>
          rw [run_prepare_of_unwritten hloaded hwrite] at h
          exact absurd h hone
        | ok path =>
          rw [run_prepare_of_written hloaded hwrite]
          exact String.append_empty

/-- The second output of a command that succeeds has a line for each warning that was recorded, in the order of
    recording, and each line tells all of its warning whatever characters the document has. -/
theorem stderr_lines_of_success {command : Command} (hcommand : command.Loads config)
    (h : ((run override command : StateM σ _).run store).1.code = 0) :
    ∃ written, lines ((run override command : StateM σ _).run store).1.stderr = written ++ [""] ∧
      List.Forall₂ Warning.WrittenAs (Config.loaded override config store).warnings written := by
  have hend : lines "" = [""] := by decide
  have hlines := Warning.lines_join_line (Config.loaded override config store).warnings ""
  rw [String.append_empty, hend] at hlines
  refine ⟨_, ?_, Warning.forall₂_writtenAs _⟩
  rw [stderr_of_success hcommand h]
  exact hlines

/-- A form with line breaks, quotes and backslashes in a name and in keys that are not declared. -/
def unrulyDocument : Json := .object [
  ("a\nb", .null),
  ("email", .string "a@b.example"),
  ("questions", .array [
    .object [("\r\"\\", .null), ("label", .string "First"), ("name", .string "x\ny"), ("required", .bool true),
      ("type", .string "text")],
    .object [("label", .string "Second"), ("name", .string "x\ny"), ("required", .bool true),
      ("type", .string "text")]]),
  ("subject", .string "Hello"),
  ("title", .string "Contact")]

theorem loadable_unrulyDocument : unrulyDocument.Loadable where
  canonical := by
    simp only [unrulyDocument, Json.Canonical, Json.CanonicalMembers, Json.CanonicalItems, Members.Ascending,
      and_true, true_and]
    decide +kernel
  stable := by
    simp [Json.Stable, unrulyDocument, Json.numbers, Json.numbersMembers, Json.numbersItems]
  depth_le := by decide
  size_le := by
    rw [Json.size_pretty]
    decide +kernel

/-- The form is valid, and three warnings about it take three lines. -/
theorem stderr_lines_of_success_of_unrulyDocument :
    ((run none (.validate none) : StateM Disk _).run (Disk.ofDocument unrulyDocument)).1.code = 0 ∧
    ∃ written,
      lines ((run none (.validate none) : StateM Disk _).run (Disk.ofDocument unrulyDocument)).1.stderr =
        written ++ [""] ∧
      List.Forall₂ Warning.WrittenAs [
        .unknownField [.key "a\nb"],
        .unknownField [.key "questions", .index 0, .key "\r\"\\"],
        .duplicateName [.key "questions", .index 1, .key "name"] "x\ny" [.key "questions", .index 0, .key "name"]]
        written := by
  have hvalid : Config.violations unrulyDocument = [] := by decide +kernel
  -- that the document loads is all that matters of it
  have haccepted (document : Json) {c : Config}
      (h : (Config.loaded none none (Disk.ofDocument document)).outcome = .ok c) :
      ((run none (.validate none) : StateM Disk _).run (Disk.ofDocument document)).1.code = 0 := by
    rw [run_validate_of_ok h]
    rfl
  have hcode := haccepted unrulyDocument (Config.loaded_ofDocument_of_valid loadable_unrulyDocument hvalid)
  have hwarnings : (Config.loaded none none (Disk.ofDocument unrulyDocument)).warnings = [
      .unknownField [.key "a\nb"],
      .unknownField [.key "questions", .index 0, .key "\r\"\\"],
      .duplicateName [.key "questions", .index 1, .key "name"] "x\ny" [.key "questions", .index 0, .key "name"]] := by
    rw [Config.loaded_ofDocument loadable_unrulyDocument, Review.mapError]
    decide +kernel
  obtain ⟨written, hlines, htold⟩ := stderr_lines_of_success .validate hcode
  rw [hwarnings] at htold
  exact ⟨hcode, written, hlines, htold⟩

end Program

end ContactForm
