import ContactForm.Proofs.Validation.Fields

namespace ContactForm

namespace Record

theorem ofTable_eq (table : List Row) (members : Members) (path : Locator) :
    ofTable table members path =
      (verdict (tableViolations members path table)).map fun _ => ⟨members, path⟩ := by
  unfold ofTable
  rw [checkTable_eq_verdict]
  cases verdict (tableViolations members path table) <;> rfl

theorem string_of_checked {r : Record} {name : String}
    (h : (Row.requires name .string).violations r.members r.path = []) :
    r.string name = .ok ((r.string? name).getD "") := by
  obtain ⟨s, hs⟩ := Row.string_of_requires h
  simp [string, hs]

theorem bool_of_checked {r : Record} {name : String}
    (h : (Row.requires name .boolean).violations r.members r.path = []) :
    r.bool name = .ok ((r.bool? name).getD false) := by
  obtain ⟨b, hb⟩ := Row.bool_of_requires h
  simp [bool, hb]

theorem text_of_checked {r : Record} {name : String}
    (h : (Row.requires name .text).violations r.members r.path = []) :
    r.text name = .ok ((r.text? name).getD "") := by
  obtain ⟨s, hs⟩ := Row.text_of_requires h
  simp [text, hs]

/-- The members of a value, none where it is no object. -/
def ofJson (value : Json) : Record :=
  ⟨value.object?.getD [], .root⟩

end Record

namespace Choice

/-- The choice that a record tells of; what the record lacks is blank. -/
def ofRecord (r : Record) : Choice where
  label := (r.string? "label").getD ""
  value := (r.string? "value").getD ""
  selected := r.bool? "selected"
  disabled := r.bool? "disabled"

theorem check_of_broken {members : Members} {path : Locator} {v : Violation} {vs : List Violation}
    (h : tableViolations members path table = v :: vs) :
    check path (.object members) = .fail v := by
  simp only [check, Json.expectObject, Review.lift_ok_bind, Record.ofTable_eq, h, verdict,
    Except.map, Review.lift_error_bind]

theorem check_of_checked {members : Members} {path : Locator}
    (h : tableViolations members path table = []) :
    check path (.object members) =
      ⟨(undeclared table members).map fun key => .unknownField (path.key key),
        .ok (ofRecord ⟨members, path⟩)⟩ := by
  have hrows := h
  simp only [tableViolations, table, List.flatMap_cons, List.append_eq_nil_iff] at hrows
  obtain ⟨hlabel, hvalue, -⟩ := hrows
  have hl := Record.string_of_checked (r := ⟨members, path⟩) hlabel
  have hv := Record.string_of_checked (r := ⟨members, path⟩) hvalue
  simp only [check, Json.expectObject, Review.lift_ok_bind, Record.ofTable_eq, h, verdict,
    Except.map, hl, hv, warnUndeclared]
  exact congrArg (Review.mk · _) (List.append_nil _)

theorem check_outcome (path : Locator) (value : Json) :
    (check path value).outcome =
      (verdict (violations path value)).map fun _ => ofRecord (Record.ofJson value) := by
  cases value with
  | object members =>
    rw [violations, Json.objectViolations]
    cases h : tableViolations members path table with
    | cons v vs => rw [check_of_broken h]; rfl
    | nil => rw [check_of_checked h]; rfl
  | _ => rfl

end Choice

namespace Question

/-- The question that a record tells of; what the record lacks is blank. -/
def ofRecord (r : Record) : Question where
  label := (r.text? "label").getD ""
  name := (r.string? "name").getD ""
  type := (r.string? "type").getD ""
  required := (r.bool? "required").getD false
  choices :=
    if r.string? "type" = some selectboxType then
      some (((r.array? "options").getD []).map fun value => Choice.ofRecord (Record.ofJson value))
    else none
  custom := r.object? "custom"

theorem checkChoices_outcome (r : Record) :
    (checkChoices r).outcome =
      (verdict (choicesViolations (r.path.key "options") (r.members.lookup "options"))).map fun _ =>
        ((r.array? "options").getD []).map fun value => Choice.ofRecord (Record.ofJson value) := by
  have hrow : choicesRow.check r.members r.path = _ := Row.check_eq_verdict r.members r.path choicesRow
  rw [Row.violations, choicesRow, Row.allows] at hrow
  unfold checkChoices
  rw [choicesRow, Row.allows, hrow]
  cases h : r.members.lookup "options" with
  | none =>
    rw [Record.array?, Record.present?_of_absent h]
    rfl
  | some value =>
    cases value with
    | null =>
      rw [Record.array?, Record.present?_of_null h]
      rfl
    | array values =>
      rw [Record.array?, Record.present?_of_lookup h rfl]
      cases values with
      | nil => rfl
      | cons first rest =>
        exact Review.each_outcome (fun i value => Choice.check_outcome _ value) (first :: rest)
    | _ => rfl

theorem forbidChoices_eq_verdict (r : Record) (type : String) :
    forbidChoices r type =
      verdict (noChoicesViolations (r.path.key "options") type (r.members.lookup "options")) := by
  unfold forbidChoices
  cases h : r.members.lookup "options" with
  | none => rw [Record.present?_of_absent h]; rfl
  | some value =>
    cases value with
    | null => rw [Record.present?_of_null h]; rfl
    | _ => rw [Record.present?_of_lookup h rfl]; rfl

theorem readChoices_outcome (r : Record) {type : String} (h : r.string? "type" = some type) :
    (readChoices r type).outcome =
      (verdict (choicesRuleViolations r.members r.path)).map fun _ => (ofRecord r).choices := by
  have hl := Record.string?_eq_some_iff.mp h
  unfold readChoices choicesRuleViolations
  simp only [hl, ofRecord, h, Option.some.injEq]
  by_cases ht : type = selectboxType
  · have hc := checkChoices_outcome r
    simp only [ht, selectboxType, ↓reduceIte]
    cases hv : verdict (choicesViolations (r.path.key "options") (r.members.lookup "options")) with
    | error v =>
      rw [hv] at hc
      rw [Review.bind_of_error hc]
      rfl
    | ok u =>
      rw [hv] at hc
      rw [Review.bind_of_ok hc]
      rfl
  · have hs : ¬type = "selectbox" := ht
    simp only [ht, hs, ↓reduceIte, forbidChoices_eq_verdict]
    cases verdict (noChoicesViolations (r.path.key "options") type (r.members.lookup "options")) with
    | error v => rfl
    | ok u => rfl

theorem check_of_broken {members : Members} {path : Locator} {v : Violation} {vs : List Violation}
    (h : tableViolations members path table = v :: vs) :
    check path (.object members) = .fail v := by
  simp only [check, Json.expectObject, Review.lift_ok_bind, Record.ofTable_eq, h, verdict,
    Except.map, Review.lift_error_bind]

/-- A question whose own fields are in order goes on with its choices, then with `custom`. -/
theorem check_of_checked {members : Members} {path : Locator}
    (h : tableViolations members path table = []) :
    check path (.object members) = (do
      Review.warn ((undeclared declared members).map fun key => .unknownField (path.key key))
      let choices ← readChoices ⟨members, path⟩ (ofRecord ⟨members, path⟩).type
      verdict (customRow.violations members path)
      return { ofRecord ⟨members, path⟩ with choices }) := by
  have hrows := h
  simp only [tableViolations, table, List.flatMap_cons, List.append_eq_nil_iff] at hrows
  obtain ⟨hlabel, hname, htype, hrequired, -⟩ := hrows
  have hl := Record.text_of_checked (r := ⟨members, path⟩) hlabel
  have hn := Record.string_of_checked (r := ⟨members, path⟩) hname
  have ht := Record.string_of_checked (r := ⟨members, path⟩) htype
  have hr := Record.bool_of_checked (r := ⟨members, path⟩) hrequired
  simp only [check, Json.expectObject, Review.lift_ok_bind, Record.ofTable_eq, h, verdict,
    Except.map, hl, hn, ht, hr, warnUndeclared, Row.check_eq_verdict]
  rfl

theorem check_outcome (path : Locator) (value : Json) :
    (check path value).outcome =
      (verdict (violations path value)).map fun _ => ofRecord (Record.ofJson value) := by
  cases value with
  | object members =>
    rw [violations, Json.objectViolations]
    cases h : tableViolations members path table with
    | cons v vs => rw [check_of_broken h]; rfl
    | nil =>
      have hrows := h
      simp only [tableViolations, table, List.flatMap_cons, List.append_eq_nil_iff] at hrows
      obtain ⟨type, ht⟩ := Row.string_of_requires (r := ⟨members, path⟩) hrows.2.2.1
      have hc := readChoices_outcome ⟨members, path⟩ ht
      have htype : (ofRecord ⟨members, path⟩).type = type := by simp [ofRecord, ht]
      rw [check_of_checked h, Review.warn_bind_outcome, List.nil_append, verdict_append, htype]
      cases hv : verdict (choicesRuleViolations members path) with
      | error v =>
        rw [hv] at hc
        rw [Review.bind_of_error hc]
        rfl
      | ok u =>
        rw [hv] at hc
        rw [Review.bind_of_ok hc]
        cases verdict (customRow.violations members path) with
        | error v => rfl
        | ok u => rfl
  | _ => rfl

end Question

namespace Config

/-- The configuration that a record tells of; what the record lacks is blank. -/
def ofRecord (r : Record) : Config where
  email := (r.string? "email").getD ""
  title := (r.string? "title").getD ""
  subject := (r.string? "subject").getD ""
  questions := ((r.array? "questions").getD []).map fun value => Question.ofRecord (Record.ofJson value)
  backendUrl := r.string? "form_backend_url"
  ignoreFileUpload := r.bool? "ignore_file_upload"
  instructions := r.text? "instructions"

theorem questionsViolations_of_array {members : Members} {values : List Json}
    (h : members.lookup "questions" = some (.array values)) :
    questionsViolations members =
      listViolations (Locator.root.key "questions") Question.violations values := by
  rw [questionsViolations, h]

theorem check_of_broken {members : Members} {v : Violation} {vs : List Violation}
    (h : tableViolations members .root table = v :: vs) : check (.object members) = .fail v := by
  simp only [check, Json.expectObject, Review.lift_ok_bind, Record.ofTable_eq, h, verdict,
    Except.map, Review.lift_error_bind]

/-- A document whose own fields are in order goes on with its questions. -/
theorem check_of_checked {members : Members} (h : tableViolations members .root table = []) :
    check (.object members) = (do
      Review.warn ((undeclared table members).map fun key => .unknownField (Locator.root.key key))
      let questions ← Review.each
        (fun i value => Question.check ((Locator.root.key "questions").index i) value)
        ((Record.array? ⟨members, .root⟩ "questions").getD [])
      Review.warn (repeatedNames (Locator.root.key "questions") questions)
      return { ofRecord ⟨members, .root⟩ with questions }) := by
  have hrows := h
  simp only [tableViolations, table, List.flatMap_cons, List.append_eq_nil_iff] at hrows
  obtain ⟨hemail, htitle, hsubject, -⟩ := hrows
  have he := Record.string_of_checked (r := ⟨members, .root⟩) hemail
  have ht := Record.string_of_checked (r := ⟨members, .root⟩) htitle
  have hs := Record.string_of_checked (r := ⟨members, .root⟩) hsubject
  simp only [check, Json.expectObject, Review.lift_ok_bind, Record.ofTable_eq, h, verdict,
    Except.map, he, ht, hs, warnUndeclared]
  rfl

/-- A document is refused for the first of its violations; without one it is the configuration that its
    members tell of. -/
theorem check_outcome (document : Json) :
    (check document).outcome =
      (verdict (violations document)).map fun _ => ofRecord (Record.ofJson document) := by
  cases document with
  | object members =>
    rw [violations, Json.objectViolations]
    cases h : tableViolations members .root table with
    | cons v vs => rw [check_of_broken h]; rfl
    | nil =>
      have hrows := h
      simp only [tableViolations, table, List.flatMap_cons, List.append_eq_nil_iff] at hrows
      obtain ⟨values, hv⟩ := Row.array_of_requires (r := ⟨members, .root⟩) hrows.2.2.2.1
      have hq := Review.each_outcome (fun i value => Question.check_outcome
        ((Locator.root.key "questions").index i) value) values
      change _ = (verdict (listViolations _ _ values)).map _ at hq
      rw [check_of_checked h, Review.warn_bind_outcome, List.nil_append, hv, Option.getD_some,
        questionsViolations_of_array (Record.array?_eq_some_iff.mp hv)]
      cases hvs : verdict (listViolations (Locator.root.key "questions") Question.violations values) with
      | error v =>
        rw [hvs] at hq
        rw [Review.bind_of_error hq]
        rfl
      | ok u =>
        rw [hvs] at hq
        rw [Review.bind_of_ok hq]
        simp [Except.map, Record.ofJson, Json.object?, ofRecord, hv]
  | _ => rfl

theorem check_outcome_eq_ok_iff (document : Json) :
    (∃ c, (check document).outcome = .ok c) ↔ violations document = [] := by
  rw [check_outcome]
  cases violations document <;> simp [verdict, Except.map]

theorem isValid_eq_true_iff (document : Json) : isValid document = true ↔ violations document = [] := by
  rw [isValid, check_outcome]
  cases violations document <;> simp [verdict, Except.map, Except.isOk, Except.toBool]

end Config

end ContactForm
