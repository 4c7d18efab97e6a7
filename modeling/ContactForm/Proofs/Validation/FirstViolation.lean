import ContactForm.Proofs.Validation.Outcome

namespace ContactForm.Config

/-- A document is accepted where it has no violation, and refused for the first one where it has some. -/
theorem check_reports_first_violation (document : Json) :
    ((∃ c, (check document).outcome = .ok c) ↔ violations document = []) ∧
    ∀ v, (check document).outcome = .error v ↔ (violations document).head? = some v := by
  refine ⟨check_outcome_eq_ok_iff document, fun v => ?_⟩
  rw [check_outcome]
  cases violations document <;> simp [verdict, Except.map]

/-- A question with three faults: the rule about choices comes before `custom`, and both after its own fields. -/
example : (Question.violations .root (.object [("custom", .bool true), ("label", .string "Name"),
    ("name", .null), ("options", .array []), ("required", .bool true), ("type", .string "text")])).map
      Violation.message =
    ["name: type mismatch: expected string, got null",
      "options: unexpected options: expected no options outside selectbox questions, got options on a \"text\" question",
      "custom: type mismatch: expected object, got boolean"] := by
  decide +kernel

end ContactForm.Config
