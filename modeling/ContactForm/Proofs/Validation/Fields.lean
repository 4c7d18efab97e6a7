import ContactForm.Proofs.Review
import ContactForm.Proofs.Validation.Violations

namespace ContactForm

namespace Shape

theorem checkLines_eq_verdict (path : Locator) (i : Nat) (lines : List Json) :
    checkLines path i lines = verdict
      ((((lines.zipIdx i).find? fun entry => entry.1.kind != .string).map fun entry =>
        entry.1.mismatch (path.index entry.2) "string").toList) := by
  induction lines generalizing i with
  | nil => rfl
  | cons line lines ih =>
    cases line with
    | string s => simpa [checkLines, Json.kind] using ih (i + 1)
    | _ => rfl

theorem check_eq_verdict (path : Locator) (shape : Shape) (value : Json) :
    shape.check path value = verdict (shape.violations path value) := by
  cases shape <;> cases value <;> first | rfl | exact checkLines_eq_verdict path 0 _

theorem lineViolations_eq_nil_iff (path : Locator) (lines : List Json) :
    lineViolations path lines = [] ↔ ∀ line ∈ lines, line.kind = .string := by
  simp only [lineViolations, Option.toList_eq_nil_iff, Option.map_eq_none_iff,
    List.find?_eq_none, bne_iff_ne, ne_eq, Decidable.not_not]
  constructor
  · intro h line hline
    obtain ⟨i, hi, rfl⟩ := List.getElem_of_mem hline
    exact h (lines[i], i) (List.mk_mem_zipIdx_iff_getElem?.mpr (by simp))
  · intro h entry hmem
    obtain ⟨line, i⟩ := entry
    exact h line (List.fst_mem_of_mem_zipIdx hmem)

/-- The lines of a text can be joined where all of them are strings. -/
theorem mapM_string?_isSome_iff (lines : List Json) :
    (lines.mapM Json.string?).isSome ↔ ∀ line ∈ lines, line.kind = .string := by
  induction lines with
  | nil => simp
  | cons line lines ih =>
    cases line with
    | string s =>
      rw [List.forall_mem_cons, ← ih, List.mapM_cons]
      cases List.mapM Json.string? lines <;> simp [Json.string?, Json.kind]
    | _ => simp [Json.kind, Json.string?]

/-- What a value of a shape is: a text is whatever can be made one string. -/
theorem violations_eq_nil_iff (path : Locator) (shape : Shape) (value : Json) :
    shape.violations path value = [] ↔
      match shape with
      | .string => ∃ s, value = .string s
      | .boolean => ∃ b, value = .bool b
      | .array => ∃ items, value = .array items
      | .object => ∃ members, value = .object members
      | .text => ∃ s, Record.textOf? value = some s := by
  cases shape with
  | text =>
    cases value with
    | array lines =>
      simp only [violations, lineViolations_eq_nil_iff, ← mapM_string?_isSome_iff,
        Record.textOf?, Option.isSome_iff_exists, Option.map_eq_some_iff]
      exact ⟨fun ⟨texts, h⟩ => ⟨joinLines texts, texts, h, rfl⟩, fun ⟨_, texts, h, _⟩ => ⟨texts, h⟩⟩
    | _ => simp [violations, kinds, Json.kind, Record.textOf?]
  | _ => cases value <;> simp [violations, kinds, Json.kind]

end Shape

theorem Row.check_eq_verdict (members : Members) (path : Locator) (row : Row) :
    row.check members path = verdict (row.violations members path) := by
  obtain ⟨name, shape, required⟩ := row
  unfold Row.check Row.violations
  cases members.lookup name with
  | none => cases required <;> rfl
  | some value =>
    cases required <;> cases value <;> simp [Shape.check_eq_verdict, Json.isNull, verdict]

theorem checkTable_eq_verdict (members : Members) (path : Locator) (table : List Row) :
    checkTable members path table = verdict (tableViolations members path table) := by
  induction table with
  | nil => rfl
  | cons row table ih =>
    rw [tableViolations, List.flatMap_cons, verdict_append, ← tableViolations, ← ih,
      ← Row.check_eq_verdict]
    rfl

namespace Record

variable {r : Record} {name : String}

theorem present?_of_lookup {value : Json} (h : r.members.lookup name = some value)
    (hn : value.isNull = false) : r.present? name = some value := by
  rw [present?, h, Option.filter_some, hn]
  rfl

theorem present?_of_null (h : r.members.lookup name = some .null) : r.present? name = none := by
  rw [present?, h]
  rfl

theorem present?_of_absent (h : r.members.lookup name = none) : r.present? name = none := by
  rw [present?, h]
  rfl

theorem string?_eq_some_iff {s : String} :
    r.string? name = some s ↔ r.members.lookup name = some (.string s) := by
  cases h : r.members.lookup name with
  | none => simp [string?, present?_of_absent h]
  | some value =>
    cases value with
    | null => simp [string?, present?_of_null h]
    | _ => simp [string?, present?_of_lookup h rfl, Json.string?]

theorem bool?_eq_some_iff {b : Bool} :
    r.bool? name = some b ↔ r.members.lookup name = some (.bool b) := by
  cases h : r.members.lookup name with
  | none => simp [bool?, present?_of_absent h]
  | some value =>
    cases value with
    | null => simp [bool?, present?_of_null h]
    | _ => simp [bool?, present?_of_lookup h rfl, Json.bool?]

theorem array?_eq_some_iff {items : List Json} :
    r.array? name = some items ↔ r.members.lookup name = some (.array items) := by
  cases h : r.members.lookup name with
  | none => simp [array?, present?_of_absent h]
  | some value =>
    cases value with
    | null => simp [array?, present?_of_null h]
    | _ => simp [array?, present?_of_lookup h rfl, Json.array?]

theorem object?_eq_some_iff {members : Members} :
    r.object? name = some members ↔ r.members.lookup name = some (.object members) := by
  cases h : r.members.lookup name with
  | none => simp [object?, present?_of_absent h]
  | some value =>
    cases value with
    | null => simp [object?, present?_of_null h]
    | _ => simp [object?, present?_of_lookup h rfl, Json.object?]

theorem text?_eq_some_iff {s : String} :
    r.text? name = some s ↔ ∃ value, r.members.lookup name = some value ∧ textOf? value = some s := by
  cases h : r.members.lookup name with
  | none => simp [text?, present?_of_absent h]
  | some value =>
    cases value with
    | null => simp [text?, present?_of_null h, textOf?]
    | _ => simp [text?, present?_of_lookup h rfl]

end Record

namespace Row

variable {r : Record} {name : String} {path : Locator}

/-- A required field that is not broken has a value of its shape. -/
theorem requires_eq_nil_iff {members : Members} {shape : Shape} :
    (requires name shape).violations members path = [] ↔
      ∃ value, members.lookup name = some value ∧
        shape.violations (path.key name) value = [] := by
  cases h : members.lookup name <;> simp [violations, requires, h]

/-- An optional field that is not broken is absent, null or of its shape. -/
theorem allows_eq_nil_iff {members : Members} {shape : Shape} :
    (allows name shape).violations members path = [] ↔
      ∀ value, members.lookup name = some value →
        value = .null ∨ shape.violations (path.key name) value = [] := by
  cases h : members.lookup name with
  | none => simp [violations, allows, h]
  | some value => cases value <;> simp [violations, allows, h, Json.isNull]

theorem string_of_requires (h : (requires name .string).violations r.members path = []) :
    ∃ s, r.string? name = some s := by
  obtain ⟨value, hl, hv⟩ := requires_eq_nil_iff.mp h
  obtain ⟨s, rfl⟩ := (Shape.violations_eq_nil_iff _ _ _).mp hv
  exact ⟨s, Record.string?_eq_some_iff.mpr hl⟩

theorem bool_of_requires (h : (requires name .boolean).violations r.members path = []) :
    ∃ b, r.bool? name = some b := by
  obtain ⟨value, hl, hv⟩ := requires_eq_nil_iff.mp h
  obtain ⟨b, rfl⟩ := (Shape.violations_eq_nil_iff _ _ _).mp hv
  exact ⟨b, Record.bool?_eq_some_iff.mpr hl⟩

theorem array_of_requires (h : (requires name .array).violations r.members path = []) :
    ∃ items, r.array? name = some items := by
  obtain ⟨value, hl, hv⟩ := requires_eq_nil_iff.mp h
  obtain ⟨items, rfl⟩ := (Shape.violations_eq_nil_iff _ _ _).mp hv
  exact ⟨items, Record.array?_eq_some_iff.mpr hl⟩

theorem text_of_requires (h : (requires name .text).violations r.members path = []) :
    ∃ s, r.text? name = some s := by
  obtain ⟨value, hl, hv⟩ := requires_eq_nil_iff.mp h
  obtain ⟨s, hs⟩ := (Shape.violations_eq_nil_iff _ _ _).mp hv
  exact ⟨s, Record.text?_eq_some_iff.mpr ⟨value, hl, hs⟩⟩

end Row

end ContactForm
