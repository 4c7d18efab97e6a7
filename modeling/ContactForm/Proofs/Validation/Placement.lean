import ContactForm.Proofs.Validation.UnknownPlaces

namespace ContactForm

/-- A violation as it is told of a value that stands at `outer` in a larger document. -/
def Violation.under (outer : Locator) (v : Violation) : Violation :=
  ⟨outer ++ v.path, v.cause⟩

/-- A warning as it is told of a value that stands at `outer` in a larger document. -/
def Warning.under (outer : Locator) : Warning → Warning
  | .unknownField place => .unknownField (outer ++ place)
  | .duplicateName place name first => .duplicateName (outer ++ place) name (outer ++ first)

@[simp] theorem Locator.append_key (outer path : Locator) (name : String) :
    (outer ++ path).key name = outer ++ path.key name :=
  List.append_assoc outer path _

@[simp] theorem Locator.append_index (outer path : Locator) (i : Nat) :
    (outer ++ path).index i = outer ++ path.index i :=
  List.append_assoc outer path _

theorem verdict_under (outer : Locator) (violations : List Violation) :
    verdict (violations.map (.under outer)) = (verdict violations).mapError (.under outer) := by
  cases violations <;> rfl

section Violations

variable (outer path : Locator)

theorem lineViolations_under (lines : List Json) :
    lineViolations (outer ++ path) lines = (lineViolations path lines).map (.under outer) := by
  unfold lineViolations
  cases lines.zipIdx.find? fun entry => entry.1.kind != .string with
  | none => rfl
  | some entry => simp [Json.mismatch, Violation.under]

theorem Shape.violations_under (shape : Shape) (value : Json) :
    shape.violations (outer ++ path) value = (shape.violations path value).map (.under outer) := by
  unfold violations
  split
  · exact lineViolations_under outer path _
  · split <;> rfl

theorem Row.violations_under (members : Members) (row : Row) :
    row.violations members (outer ++ path) = (row.violations members path).map (.under outer) := by
  unfold violations
  cases members.lookup row.name with
  | none => cases row.required <;> simp [Violation.under]
  | some value =>
    simp only [Locator.append_key, Shape.violations_under]
    split <;> rfl

theorem tableViolations_under (members : Members) (table : List Row) :
    tableViolations members (outer ++ path) table =
      (tableViolations members path table).map (.under outer) := by
  rw [tableViolations, tableViolations, List.map_flatMap]
  exact List.flatMap_congr fun row _ => Row.violations_under outer path members row

theorem Json.objectViolations_under {within within' : Members → List Violation} (value : Json)
    (h : ∀ members, within' members = (within members).map (.under outer)) :
    value.objectViolations (outer ++ path) within' =
      (value.objectViolations path within).map (.under outer) := by
  cases value with
  | object members => exact h members
  | _ => rfl

theorem listViolations_under {within : Locator → Json → List Violation} (values : List Json)
    (h : ∀ path value, within (outer ++ path) value = (within path value).map (.under outer)) :
    listViolations (outer ++ path) within values =
      (listViolations path within values).map (.under outer) := by
  simp only [listViolations, Locator.append_index, h, List.map_flatMap]

theorem Choice.violations_under (value : Json) :
    violations (outer ++ path) value = (violations path value).map (.under outer) :=
  Json.objectViolations_under outer path value fun members =>
    tableViolations_under outer path members table

theorem Question.choicesViolations_under (options : Option Json) :
    choicesViolations (outer ++ path) options = (choicesViolations path options).map (.under outer) := by
  unfold choicesViolations
  split
  · rfl
  · rfl
  · rfl
  · exact listViolations_under outer path _ (Choice.violations_under outer)
  · rfl

theorem Question.noChoicesViolations_under (type : String) (options : Option Json) :
    noChoicesViolations (outer ++ path) type options =
      (noChoicesViolations path type options).map (.under outer) := by
  unfold noChoicesViolations
  split <;> rfl

theorem Question.choicesRuleViolations_under (members : Members) :
    choicesRuleViolations members (outer ++ path) =
      (choicesRuleViolations members path).map (.under outer) := by
  unfold choicesRuleViolations
  simp only [Locator.append_key, choicesViolations_under, noChoicesViolations_under]
  split
  · split <;> rfl
  · rfl

theorem Question.violations_under (value : Json) :
    violations (outer ++ path) value = (violations path value).map (.under outer) :=
  Json.objectViolations_under outer path value fun members => by
    simp only [tableViolations_under, choicesRuleViolations_under, Row.violations_under, List.map_append]

end Violations

section Traces

variable (outer path : Locator)

theorem undeclaredWarnings_under (table : List Row) (members : Members) :
    undeclaredWarnings table (outer ++ path) members =
      (undeclaredWarnings table path members).map (.under outer) := by
  simp [undeclaredWarnings, Warning.under]

theorem listTrace_under {violations : Locator → Json → List Violation}
    {trace : Locator → Json → List Warning} (values : List Json)
    (hviolations : ∀ path value, violations (outer ++ path) value =
      (violations path value).map (.under outer))
    (htrace : ∀ path value, trace (outer ++ path) value = (trace path value).map (.under outer)) :
    listTrace (outer ++ path) violations trace values =
      (listTrace path violations trace values).map (.under outer) := by
  simp only [listTrace, Locator.append_index, hviolations, htrace, List.isEmpty_map, List.map_flatMap]

theorem Choice.trace_under (value : Json) :
    trace (outer ++ path) value = (trace path value).map (.under outer) := by
  cases value with
  | object members =>
    simp only [trace, tableViolations_under, List.isEmpty_map, undeclaredWarnings_under]
    split <;> rfl
  | _ => rfl

theorem Question.choicesTrace_under (members : Members) :
    choicesTrace (outer ++ path) members = (choicesTrace path members).map (.under outer) := by
  unfold choicesTrace
  split
  · rw [Locator.append_key,
      listTrace_under outer _ _ (Choice.violations_under outer) (Choice.trace_under outer)]
    split <;> rfl
  · rfl

theorem Question.trace_under (value : Json) :
    trace (outer ++ path) value = (trace path value).map (.under outer) := by
  cases value with
  | object members =>
    simp only [trace, tableViolations_under, List.isEmpty_map, undeclaredWarnings_under,
      choicesTrace_under]
    split
    · exact List.map_append.symm
    · rfl
  | _ => rfl

end Traces

namespace Review

variable {β : Type}

/-- What the check of a value comes to where the value stands at `outer` in a larger document. -/
def under (outer : Locator) (r : Review Violation β) : Review Violation β :=
  ⟨r.warnings.map (.under outer), r.outcome.mapError (.under outer)⟩

theorem under_eq_of {check : Locator → Json → Review Violation β} {result : Json → β}
    {violations : Locator → Json → List Violation} {trace : Locator → Json → List Warning}
    (hw : ∀ path value, (check path value).warnings = trace path value)
    (ho : ∀ path value, (check path value).outcome =
      (verdict (violations path value)).map fun _ => result value)
    (outer path : Locator) (value : Json)
    (htrace : trace (outer ++ path) value = (trace path value).map (.under outer))
    (hviolations : violations (outer ++ path) value = (violations path value).map (.under outer)) :
    check (outer ++ path) value = (check path value).under outer := by
  have houtcome : (check (outer ++ path) value).outcome =
      (check path value).outcome.mapError (.under outer) := by
    rw [ho, ho, hviolations, verdict_under]
    cases verdict (violations path value) <;> rfl
  calc check (outer ++ path) value
      = ⟨(check (outer ++ path) value).warnings, (check (outer ++ path) value).outcome⟩ := rfl
    _ = _ := by rw [houtcome, hw, htrace, ← hw]; rfl

end Review

/-- A choice is checked the same wherever it stands, and its findings are told from there. -/
theorem Choice.check_under (outer path : Locator) (value : Json) :
    check (outer ++ path) value = (check path value).under outer :=
  Review.under_eq_of check_warnings check_outcome outer path value (trace_under outer path value)
    (violations_under outer path value)

/-- A question is checked the same wherever it stands, and its findings are told from there. -/
theorem Question.check_under (outer path : Locator) (value : Json) :
    check (outer ++ path) value = (check path value).under outer :=
  Review.under_eq_of check_warnings check_outcome outer path value (trace_under outer path value)
    (violations_under outer path value)

end ContactForm
