import ContactForm.Proofs.Validation.Reported

namespace ContactForm

/-- The places of the keys of an object that no row declares, in the order of its members. -/
def undeclaredPlaces (table : List Row) (path : Locator) (members : Members) : List Locator :=
  (undeclared table members).map path.key

namespace Question

/-- The places of undeclared keys in the choices of a question, up to the first choice that fails. Only a selectbox
    question is asked for choices. -/
def choicePlaces (path : Locator) (members : Members) : List Locator :=
  match members.lookup "type", members.lookup "options" with
  | some (.string type), some (.array values) =>
    if type = "selectbox" then
      (values.zipIdx.takeWhile fun entry =>
          (Choice.check ((path.key "options").index entry.2) entry.1).outcome.isOk).flatMap fun entry =>
        undeclaredPlaces Choice.table ((path.key "options").index entry.2) (Record.ofJson entry.1).members
    else []
  | _, _ => []

/-- The places of undeclared keys in a question whose own fields are in order: its own come first, then those of its
    choices. -/
def unknownPlaces (path : Locator) : Json → List Locator
  | .object members =>
    if (checkTable members path table).isOk then
      undeclaredPlaces declared path members ++ choicePlaces path members
    else []
  | _ => []

end Question

namespace Config

/-- The places of undeclared keys in the questions of a document, up to the first question that fails and with those
    found in it before it does. -/
def questionPlaces (members : Members) : List Locator :=
  match members.lookup "questions" with
  | some (.array values) =>
    (throughFirst (fun entry =>
        !(Question.check ((Locator.root.key "questions").index entry.2) entry.1).outcome.isOk)
      values.zipIdx).flatMap fun entry =>
        Question.unknownPlaces ((Locator.root.key "questions").index entry.2) entry.1
  | _ => []

/-- The places of undeclared keys in a document whose own fields are in order: its own come first, then those of its
    questions. -/
def unknownPlaces : Json → List Locator
  | .object members =>
    if (checkTable members .root table).isOk then
      undeclaredPlaces table .root members ++ questionPlaces members
    else []
  | _ => []

end Config

theorem undeclaredWarnings_eq (table : List Row) (path : Locator) (members : Members) :
    undeclaredWarnings table path members = (undeclaredPlaces table path members).map .unknownField := by
  rw [undeclaredWarnings, undeclaredPlaces, List.map_map]
  rfl

theorem isOk_checkTable (members : Members) (path : Locator) (table : List Row) :
    (checkTable members path table).isOk = (tableViolations members path table).isEmpty := by
  rw [checkTable_eq_verdict]
  cases tableViolations members path table <;> rfl

theorem isOk_verdict_map {β : Type} (violations : List Violation) (b : β) :
    ((verdict violations).map fun _ => b).isOk = violations.isEmpty := by
  cases violations <;> rfl

/-- Where an element that stops a walk over a list has nothing to show, the walk shows what comes before it. -/
theorem throughFirst_flatMap {α β : Type} {p : α → Bool} {f g : α → List β}
    (hstop : ∀ a, p a = true → f a = []) (hgo : ∀ a, p a = false → f a = g a) (list : List α) :
    (throughFirst p list).flatMap f = (list.takeWhile fun a => !p a).flatMap g := by
  induction list with
  | nil => rfl
  | cons a rest ih =>
    rw [throughFirst, List.flatMap_cons, List.takeWhile_cons]
    cases h : p a with
    | true =>
      rw [hstop a h]
      rfl
    | false =>
      rw [hgo a h]
      simpa using ih

theorem Choice.trace_of_violations {path : Locator} {value : Json} (h : violations path value ≠ []) :
    trace path value = [] := by
  cases value with
  | object members =>
    have hrows : tableViolations members path table ≠ [] := h
    rw [trace, if_neg (by simpa using hrows)]
  | _ => rfl

theorem Choice.trace_of_valid {path : Locator} {value : Json} (h : violations path value = []) :
    trace path value =
      (undeclaredPlaces table path (Record.ofJson value).members).map .unknownField := by
  cases value with
  | object members =>
    have hrows : tableViolations members path table = [] := h
    rw [trace, hrows, ← undeclaredWarnings_eq]
    rfl
  | _ => cases h

/-- A list of choices is gone through up to the first that fails, which itself has nothing recorded. -/
theorem Choice.listTrace_eq (path : Locator) (values : List Json) :
    listTrace path violations trace values =
      ((values.zipIdx.takeWhile fun entry => (check (path.index entry.2) entry.1).outcome.isOk).flatMap
        fun entry => undeclaredPlaces table (path.index entry.2) (Record.ofJson entry.1).members).map
          .unknownField := by
  have hwalk := throughFirst_flatMap
    (p := fun entry => !(violations (path.index entry.2) entry.1).isEmpty)
    (f := fun entry => trace (path.index entry.2) entry.1)
    (g := fun entry =>
      (undeclaredPlaces table (path.index entry.2) (Record.ofJson entry.1).members).map .unknownField)
    (fun entry hfails => trace_of_violations (by simpa using hfails))
    (fun entry hvalid => trace_of_valid (by simpa using hvalid)) values.zipIdx
  simp only [listTrace, hwalk, check_outcome, isOk_verdict_map, Bool.not_not, List.map_flatMap]

theorem Question.choicesTrace_eq (path : Locator) (members : Members) :
    choicesTrace path members = (choicePlaces path members).map .unknownField := by
  rw [choicesTrace, choicePlaces]
  cases members.lookup "type" with
  | none => rfl
  | some type =>
    cases type with
    | string type =>
      cases members.lookup "options" with
      | none => rfl
      | some options =>
        cases options with
        | array values =>
          by_cases hs : type = "selectbox"
          · simp only [if_pos hs]
            exact Choice.listTrace_eq (path.key "options") values
          · simp only [if_neg hs]
            rfl
        | _ => rfl
    | _ => rfl

theorem Question.trace_eq (path : Locator) (value : Json) :
    trace path value = (unknownPlaces path value).map .unknownField := by
  cases value with
  | object members =>
    rw [trace, unknownPlaces, isOk_checkTable, undeclaredWarnings_eq, choicesTrace_eq]
    split
    · exact List.map_append.symm
    · rfl
  | _ => rfl

theorem Config.questionsTrace_eq (members : Members) :
    questionsTrace members = (questionPlaces members).map .unknownField := by
  rw [questionsTrace, questionPlaces]
  cases members.lookup "questions" with
  | none => rfl
  | some questions =>
    cases questions with
    | array values =>
      simp only [listTrace, List.map_flatMap, Question.check_outcome, isOk_verdict_map, Question.trace_eq]
    | _ => rfl

/-- The warnings of a check: about undeclared keys, then about names that the questions of an accepted document
    share. -/
theorem Config.check_warnings_eq (document : Json) :
    (check document).warnings = (unknownPlaces document).map .unknownField ++
      match (check document).outcome with
      | .ok c => nameWarnings (Locator.root.key "questions") (c.questions.map (·.name))
      | .error _ => [] := by
  rw [check_warnings, check_outcome]
  cases document with
  | object members =>
    rw [trace, unknownPlaces, isOk_checkTable, undeclaredWarnings_eq, questionsTrace_eq, repeatedNames_eq]
    cases h : tableViolations members .root table with
    | cons v vs =>
      have hviolations : violations (.object members) = (v :: vs) ++ questionsViolations members := by
        rw [violations, Json.objectViolations, h]
      rw [hviolations]
      rfl
    | nil =>
      simp only [List.isEmpty_nil, if_true, List.map_append]
      cases violations (.object members) <;> rfl
  | _ => rfl

namespace Config

theorem filter_kind_unknownField (places : List Locator) :
    (places.map Warning.unknownField).filter (·.kind == "duplicate_question_name") = [] := by
  simp [List.filter_eq_nil_iff, Warning.kind]

theorem filter_kind_nameWarnings (path : Locator) (names : List String) :
    (nameWarnings path names).filter (·.kind == "duplicate_question_name") = nameWarnings path names := by
  refine List.filter_eq_self.mpr fun w hw => ?_
  cases w with
  | unknownField place => exact absurd hw (unknownField_not_mem_nameWarnings path place names)
  | duplicateName place name first => rfl

end Config

end ContactForm
