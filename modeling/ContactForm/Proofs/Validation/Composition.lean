import ContactForm.Proofs.Validation.Placement

namespace ContactForm

namespace Review

variable {β : Type} {path : Locator}

/-- The element at an index is the first of a list that a check fails on. -/
structure FirstFailure (alone : Json → Review Violation β) (values : List Json) (i : Nat)
    (v : Violation) : Prop where
  failing : ∃ value, values[i]? = some value ∧ (alone value).outcome = .error v
  earlier : ∀ j < i, ∃ value b, values[j]? = some value ∧ (alone value).outcome = .ok b

/-- The check of an element of a list, with the findings told from the list at `path`. -/
def placed (alone : Json → Review Violation β) (path : Locator) (i : Nat) (value : Json) :
    Review Violation β :=
  (alone value).under (path.index i)

/-- The warnings of the elements of a list up to the first that a check fails on, told from the list at `path`. -/
def placedWarnings (alone : Json → Review Violation β) (path : Locator) (values : List Json) :
    List Warning :=
  (throughFirst (fun entry => !(alone entry.1).outcome.isOk) values.zipIdx).flatMap fun entry =>
    (alone entry.1).warnings.map (.under (path.index entry.2))

variable {alone : Json → Review Violation β} {values : List Json}

theorem placed_of_ok {value : Json} {b : β} (h : (alone value).outcome = .ok b) (i : Nat) :
    (placed alone path i value).outcome = .ok b := by
  rw [placed, under, h]
  rfl

theorem placed_of_error {value : Json} {v : Violation} (h : (alone value).outcome = .error v)
    (i : Nat) : (placed alone path i value).outcome = .error (v.under (path.index i)) := by
  rw [placed, under, h]
  rfl

theorem each_placed_warnings :
    (each (placed alone path) values).warnings = placedWarnings alone path values := by
  have hok (i : Nat) (value : Json) :
      (placed alone path i value).outcome.isOk = (alone value).outcome.isOk := by
    cases h : (alone value).outcome with
    | error v =>
      rw [placed_of_error h]
      rfl
    | ok b => rw [placed_of_ok h]
  rw [each_warnings, placedWarnings]
  simp only [hok]
  rfl

variable (path) in
/-- Where no element fails, the results are those of the elements on their own. -/
theorem each_placed_of_ok (h : ∀ value ∈ values, ∃ b, (alone value).outcome = .ok b) :
    ∃ results, (each (placed alone path) values).outcome = .ok results ∧
      values.map (fun value => (alone value).outcome) = results.map .ok := by
  rw [each_eq_inOrder]
  generalize 0 = i
  induction values generalizing i with
  | nil => exact ⟨[], rfl, rfl⟩
  | cons value values ih =>
    obtain ⟨⟨b, hb⟩, hrest⟩ := List.forall_mem_cons.mp h
    obtain ⟨results, hresults, hmap⟩ := ih hrest (i + 1)
    refine ⟨b :: results, ?_, ?_⟩
    · rw [inOrder, bind_of_ok (placed_of_ok hb i), bind_of_ok hresults]
      rfl
    · rw [List.map_cons, List.map_cons, hb, hmap]

theorem FirstFailure.tail {value : Json} {i : Nat} {v : Violation}
    (h : FirstFailure alone (value :: values) (i + 1) v) :
    (∃ b, (alone value).outcome = .ok b) ∧ FirstFailure alone values i v := by
  obtain ⟨head, b, hhead, hb⟩ := h.earlier 0 (Nat.zero_lt_succ i)
  obtain rfl := Option.some.inj hhead
  refine ⟨⟨b, hb⟩, h.failing, fun j hj => ?_⟩
  exact h.earlier (j + 1) (Nat.succ_lt_succ hj)

theorem FirstFailure.second {value value' : Json} {v : Violation}
    (h : ∃ b, (alone value).outcome = .ok b) (h' : (alone value').outcome = .error v) :
    FirstFailure alone [value, value'] 1 v := by
  obtain ⟨b, hb⟩ := h
  refine ⟨⟨value', rfl, h'⟩, fun j hj => ?_⟩
  obtain rfl : j = 0 := by omega
  exact ⟨value, b, rfl, hb⟩

/-- The first element that fails decides the outcome. -/
theorem each_placed_of_firstFailure {i : Nat} {v : Violation} (h : FirstFailure alone values i v) :
    (each (placed alone path) values).outcome = .error (v.under (path.index i)) := by
  suffices hall : ∀ start, (inOrder (placed alone path) start values).outcome =
      .error (v.under (path.index (start + i))) by
    rw [each_eq_inOrder, hall, Nat.zero_add]
  induction values generalizing i with
  | nil =>
    obtain ⟨value, hvalue, -⟩ := h.failing
    cases hvalue
  | cons value values ih =>
    intro start
    cases i with
    | zero =>
      obtain ⟨head, hhead, hv⟩ := h.failing
      obtain rfl := Option.some.inj hhead
      rw [inOrder, bind_of_error (placed_of_error hv start)]
      rfl
    | succ i =>
      obtain ⟨⟨b, hb⟩, hrest⟩ := h.tail
      have hfails := ih hrest (start + 1)
      rw [inOrder, bind_of_ok (placed_of_ok hb start), bind_of_error hfails, Nat.add_right_comm]
      rfl

/-- What follows an element that fails is not looked at. -/
theorem each_placed_of_error {value : Json} {v : Violation} (h : (alone value).outcome = .error v)
    (before after after' : List Json) :
    each (placed alone path) (before ++ value :: after) =
      each (placed alone path) (before ++ value :: after') := by
  rw [each_eq_inOrder, each_eq_inOrder]
  generalize 0 = i
  induction before generalizing i with
  | nil =>
    rw [List.nil_append, List.nil_append, inOrder, inOrder, bind_of_error (placed_of_error h i),
      bind_of_error (placed_of_error h i)]
  | cons first before ih =>
    rw [List.cons_append, List.cons_append, inOrder, inOrder, ih]

end Review

theorem Choice.check_eq_under (path : Locator) (value : Json) :
    check path value = (check .root value).under path := by
  rw [← check_under, Locator.root, List.append_nil]

theorem Question.check_eq_under (path : Locator) (value : Json) :
    check path value = (check .root value).under path := by
  rw [← check_under, Locator.root, List.append_nil]

theorem Choice.placed_check (path : Locator) :
    (fun i value => check (path.index i) value) = Review.placed (check .root) path := by
  funext i value
  exact check_eq_under (path.index i) value

theorem Choice.unknownField_of_mem_trace {path : Locator} {value : Json} {w : Warning}
    (h : w ∈ trace path value) : ∃ place, w = .unknownField place := by
  cases value with
  | object members =>
    rw [trace] at h
    split at h
    · obtain ⟨key, -, rfl⟩ := List.mem_map.mp h
      exact ⟨path.key key, rfl⟩
    · cases h
  | _ => cases h

theorem Question.unknownField_of_mem_trace {path : Locator} {value : Json} {w : Warning}
    (h : w ∈ trace path value) : ∃ place, w = .unknownField place := by
  rw [trace_eq] at h
  obtain ⟨place, -, rfl⟩ := List.mem_map.mp h
  exact ⟨place, rfl⟩

theorem checkTable_eq_ok_iff (members : Members) (path : Locator) (table : List Row) :
    checkTable members path table = .ok () ↔ tableViolations members path table = [] := by
  rw [checkTable_eq_verdict]
  cases tableViolations members path table <;> simp [verdict]

namespace Question

theorem placed_check (path : Locator) :
    (fun i value => check (path.index i) value) = Review.placed (check .root) path := by
  funext i value
  exact check_eq_under (path.index i) value

theorem checkChoices_of_array {r : Record} {values : List Json}
    (h : r.members.lookup "options" = some (.array values)) (hne : values ≠ []) :
    checkChoices r = Review.each (Review.placed (Choice.check .root) (r.path.key "options")) values := by
  have hrow : choicesRow.check r.members r.path = .ok () := by
    rw [Row.check_eq_verdict, Row.violations, choicesRow, Row.allows, h]
    rfl
  have harray := Record.array?_eq_some_iff.mpr h
  rw [checkChoices, hrow, Review.lift_ok_bind, harray, ← Choice.placed_check]
  cases values with
  | nil => exact absurd rfl hne
  | cons first rest => rfl

section Choices

variable {members : Members} {values : List Json} (htable : checkTable members .root table = .ok ())
  (htype : members.lookup "type" = some (.string "selectbox"))
  (hvalues : members.lookup "options" = some (.array values)) (hne : values ≠ [])

include htable htype hvalues hne

/-- A selectbox question with choices goes on with them, one by one, and then with `custom`. -/
theorem check_of_choices :
    check .root (.object members) = (do
      Review.warn (undeclaredWarnings declared .root members)
      let choices ← Review.each (Review.placed (Choice.check .root) [.key "options"]) values
      customRow.check members .root
      return { ofRecord ⟨members, .root⟩ with choices := some choices }) := by
  have hselectbox : (ofRecord ⟨members, .root⟩).type = selectboxType := by
    have hs : Record.string? ⟨members, .root⟩ "type" = some "selectbox" :=
      Record.string?_eq_some_iff.mpr htype
    simp [ofRecord, hs, selectboxType]
  have hchoices := checkChoices_of_array (r := ⟨members, .root⟩) hvalues hne
  rw [check_of_checked ((checkTable_eq_ok_iff _ _ _).mp htable), hselectbox, readChoices, if_pos rfl,
    hchoices, Row.check_eq_verdict]
  simp only [Review.bind_bind]
  rfl

/-- Where all choices are accepted, `custom` decides. -/
theorem check_of_accepted_choices
    (hall : ∀ value ∈ values, ∃ choice, (Choice.check .root value).outcome = .ok choice) :
    ∃ choices, values.map (fun value => (Choice.check .root value).outcome) = choices.map .ok ∧
      (check .root (.object members)).outcome = (customRow.check members .root).map fun _ =>
        { ofRecord ⟨members, .root⟩ with choices := some choices } := by
  obtain ⟨choices, hchoices, hmap⟩ := Review.each_placed_of_ok [.key "options"] hall
  refine ⟨choices, hmap, ?_⟩
  rw [check_of_choices htable htype hvalues hne, Review.warn_bind_outcome, Review.bind_of_ok hchoices]
  cases customRow.check members .root <;> rfl

theorem check_of_refused_choice {j : Nat} {v : Violation}
    (h : Review.FirstFailure (Choice.check .root) values j v) :
    (check .root (.object members)).outcome = .error (v.under [.key "options", .index j]) := by
  rw [check_of_choices htable htype hvalues hne, Review.warn_bind_outcome,
    Review.bind_of_error (Review.each_placed_of_firstFailure h)]
  rfl

theorem warnings_of_choices :
    (check .root (.object members)).warnings = undeclaredWarnings declared .root members ++
      Review.placedWarnings (Choice.check .root) [.key "options"] values := by
  rw [check_of_choices htable htype hvalues hne, Review.warn_bind_warnings, ← Review.each_placed_warnings]
  refine congrArg (undeclaredWarnings declared .root members ++ ·) ?_
  cases hchoices :
      (Review.each (Review.placed (Choice.check .root) [.key "options"]) values).outcome with
  | error v => rw [Review.bind_of_error hchoices]
  | ok choices =>
    rw [Review.bind_of_ok hchoices]
    cases customRow.check members .root <;> exact List.append_nil _

end Choices

end Question

namespace Config

section Questions

variable {members : Members} {values : List Json} (htable : checkTable members .root table = .ok ())
  (hvalues : members.lookup "questions" = some (.array values))

include htable hvalues

/-- A document whose own fields are in order goes on with its questions, one by one. -/
theorem check_of_questions :
    check (.object members) = (do
      Review.warn (undeclaredWarnings table .root members)
      let questions ← Review.each (Review.placed (Question.check .root) [.key "questions"]) values
      Review.warn (repeatedNames [.key "questions"] questions)
      return { ofRecord ⟨members, .root⟩ with questions }) := by
  have harray := (Record.array?_eq_some_iff (r := ⟨members, .root⟩)).mpr hvalues
  rw [check_of_checked ((checkTable_eq_ok_iff _ _ _).mp htable), harray, Option.getD_some,
    Question.placed_check]
  rfl

theorem check_of_accepted_questions
    (hall : ∀ value ∈ values, ∃ q, (Question.check .root value).outcome = .ok q) :
    ∃ c, (check (.object members)).outcome = .ok c ∧
      values.map (fun value => (Question.check .root value).outcome) = c.questions.map .ok := by
  obtain ⟨questions, hquestions, hmap⟩ := Review.each_placed_of_ok [.key "questions"] hall
  rw [check_of_questions htable hvalues, Review.warn_bind_outcome, Review.bind_of_ok hquestions]
  exact ⟨_, rfl, hmap⟩

theorem check_of_refused_question {i : Nat} {v : Violation}
    (h : Review.FirstFailure (Question.check .root) values i v) :
    (check (.object members)).outcome = .error (v.under [.key "questions", .index i]) := by
  rw [check_of_questions htable hvalues, Review.warn_bind_outcome,
    Review.bind_of_error (Review.each_placed_of_firstFailure h)]
  rfl

theorem warnings_of_questions :
    (check (.object members)).warnings = undeclaredWarnings table .root members ++
      Review.placedWarnings (Question.check .root) [.key "questions"] values ++
      match (check (.object members)).outcome with
      | .ok c => nameWarnings [.key "questions"] (c.questions.map (·.name))
      | .error _ => [] := by
  rw [check_of_questions htable hvalues, Review.warn_bind_warnings, Review.warn_bind_outcome,
    ← Review.each_placed_warnings, List.append_assoc]
  refine congrArg (undeclaredWarnings table .root members ++ ·) ?_
  cases hquestions :
      (Review.each (Review.placed (Question.check .root) [.key "questions"]) values).outcome with
  | error v =>
    rw [Review.bind_of_error hquestions]
    exact (List.append_nil _).symm
  | ok questions =>
    rw [Review.bind_of_ok hquestions, repeatedNames_eq]
    exact congrArg (_ ++ ·) (List.append_nil _)

end Questions

/-- What follows a question that fails is of no account. -/
theorem check_congr_of_error {members members' : Members} {before after after' : List Json}
    {value : Json} {v : Violation}
    (hkeys : members.map (·.1) = members'.map (·.1))
    (hsame : ∀ key, key ≠ "questions" → members.lookup key = members'.lookup key)
    (hvalues : members.lookup "questions" = some (.array (before ++ value :: after)))
    (hvalues' : members'.lookup "questions" = some (.array (before ++ value :: after')))
    (h : (Question.check .root value).outcome = .error v) :
    check (.object members) = check (.object members') := by
  have htable : tableViolations members .root table = tableViolations members' .root table := by
    refine List.flatMap_congr fun row hrow => ?_
    by_cases hname : row.name = "questions"
    · have honly : ∀ row ∈ table, row.name = "questions" → row = .requires "questions" .array := by decide
      obtain rfl := honly row hrow hname
      simp only [Row.violations, Row.requires, hvalues, hvalues']
      rfl
    · rw [Row.violations, Row.violations, hsame _ hname]
  cases hviolations : tableViolations members .root table with
  | cons first rest => rw [check_of_broken hviolations, check_of_broken (htable ▸ hviolations)]
  | nil =>
    have hchecked := (checkTable_eq_ok_iff _ _ _).mpr hviolations
    have hchecked' := (checkTable_eq_ok_iff _ _ _).mpr (htable ▸ hviolations)
    have hundeclared : undeclaredWarnings table .root members = undeclaredWarnings table .root members' := by
      rw [undeclaredWarnings, undeclared, hkeys]
      rfl
    rw [check_of_questions hchecked hvalues, check_of_questions hchecked' hvalues', hundeclared,
      Review.each_placed_of_error h before after after']
    have hread (name : String) (hne : name ≠ "questions") :
        Record.present? ⟨members, .root⟩ name = Record.present? ⟨members', .root⟩ name := by
      rw [Record.present?, hsame _ hne]
      rfl
    simp [ofRecord, Record.string?, Record.bool?, Record.text?, hread]

/-- Checks compose: the questions of a document are checked as each is on its own, and so are the choices of a
    question, before `custom` is. The first of them that fails decides the outcome, its findings are told from where
    it stands, and what follows it is of no account. -/
theorem check_composes :
    (∀ (members : Members) (values : List Json), checkTable members .root table = .ok () →
      members.lookup "questions" = some (.array values) →
      ((∀ value ∈ values, ∃ q, (Question.check .root value).outcome = .ok q) →
        ∃ c, (check (.object members)).outcome = .ok c ∧
          values.map (fun value => (Question.check .root value).outcome) = c.questions.map .ok) ∧
      (∀ i v, Review.FirstFailure (Question.check .root) values i v →
        (check (.object members)).outcome = .error (v.under [.key "questions", .index i])) ∧
      (check (.object members)).warnings = undeclaredWarnings table .root members ++
        Review.placedWarnings (Question.check .root) [.key "questions"] values ++
        match (check (.object members)).outcome with
        | .ok c => nameWarnings [.key "questions"] (c.questions.map (·.name))
        | .error _ => []) ∧
    (∀ (members : Members) (values : List Json), checkTable members .root Question.table = .ok () →
      members.lookup "type" = some (.string "selectbox") →
      members.lookup "options" = some (.array values) → values ≠ [] →
      ((∀ value ∈ values, ∃ choice, (Choice.check .root value).outcome = .ok choice) →
        (∀ v, Question.customRow.check members .root = .error v →
          (Question.check .root (.object members)).outcome = .error v) ∧
        (Question.customRow.check members .root = .ok () →
          ∃ q choices, (Question.check .root (.object members)).outcome = .ok q ∧
            q.choices = some choices ∧
            values.map (fun value => (Choice.check .root value).outcome) = choices.map .ok)) ∧
      (∀ j v, Review.FirstFailure (Choice.check .root) values j v →
        (Question.check .root (.object members)).outcome =
          .error (v.under [.key "options", .index j])) ∧
      (Question.check .root (.object members)).warnings =
        undeclaredWarnings Question.declared .root members ++
          Review.placedWarnings (Choice.check .root) [.key "options"] values) ∧
    (∀ path value, Question.check path value = (Question.check .root value).under path ∧
      Choice.check path value = (Choice.check .root value).under path) ∧
    (∀ path value w,
      w ∈ (Question.check .root value).warnings ∨ w ∈ (Choice.check .root value).warnings →
      (w.under path).kind = w.kind ∧ (w.under path).path = path ++ w.path ∧
        (w.under path).message = "unknown field " ++ Locator.render (path ++ w.path) ++ " is ignored") ∧
    ∀ (members members' : Members) (before after after' : List Json) (value : Json) (v : Violation),
      members.map (·.1) = members'.map (·.1) →
      (∀ key, key ≠ "questions" → members.lookup key = members'.lookup key) →
      members.lookup "questions" = some (.array (before ++ value :: after)) →
      members'.lookup "questions" = some (.array (before ++ value :: after')) →
      (Question.check .root value).outcome = .error v →
      check (.object members) = check (.object members') := by
  refine ⟨?_, ?_, ?_, ?_, ?_⟩
  · intro members values htable hvalues
    exact ⟨check_of_accepted_questions htable hvalues,
      fun _ _ => check_of_refused_question htable hvalues, warnings_of_questions htable hvalues⟩
  · intro members values htable htype hvalues hne
    refine ⟨fun hall => ?_, fun _ _ => Question.check_of_refused_choice htable htype hvalues hne,
      Question.warnings_of_choices htable htype hvalues hne⟩
    obtain ⟨choices, hmap, houtcome⟩ := Question.check_of_accepted_choices htable htype hvalues hne hall
    constructor
    · intro v hcustom
      rw [houtcome, hcustom]
      rfl
    · intro hcustom
      rw [houtcome, hcustom]
      exact ⟨_, choices, rfl, rfl, hmap⟩
  · intro path value
    exact ⟨Question.check_eq_under path value, Choice.check_eq_under path value⟩
  · intro path value w hw
    rw [Question.check_warnings, Choice.check_warnings] at hw
    obtain ⟨place, rfl⟩ : ∃ place, w = .unknownField place :=
      hw.elim Question.unknownField_of_mem_trace Choice.unknownField_of_mem_trace
    exact ⟨rfl, rfl, rfl⟩
  · intro members members' before after after' value v hkeys hsame hvalues hvalues' h
    exact check_congr_of_error hkeys hsame hvalues hvalues' h

/-- A question that is in order. -/
def nameQuestion : Json := .object [
  ("label", .string "Name"), ("name", .string "name"), ("required", .bool true), ("type", .string "text")]

/-- A choice in order with an undeclared key. -/
def salesChoice : Json := .object [
  ("icon", .null), ("label", .string "Sales"), ("value", .string "sales")]

/-- A choice without a value. -/
def otherChoice : Json := .object [("label", .string "Other")]

/-- A selectbox question with the given choices and an undeclared key. -/
def topicQuestion (choices : List Json) : Members := [
  ("hint", .null), ("label", .string "Topic"), ("name", .string "topic"), ("options", .array choices),
  ("required", .bool true), ("type", .string "selectbox")]

/-- A document with the given questions. -/
def documentOf (questions : List Json) : Members := [
  ("email", .string "a@b.example"), ("questions", .array questions), ("subject", .string "Hello"),
  ("title", .string "Contact")]

theorem check_salesChoice : ∃ c, (Choice.check .root salesChoice).outcome = .ok c := by
  rw [Choice.check_outcome, show Choice.violations .root salesChoice = [] by decide +kernel]
  exact ⟨_, rfl⟩

theorem check_otherChoice : (Choice.check .root otherChoice).outcome =
    .error ⟨[.key "value"], .missingField "string"⟩ := by
  rw [Choice.check_outcome,
    show Choice.violations .root otherChoice = [⟨[.key "value"], .missingField "string"⟩] by decide +kernel]
  rfl

theorem check_nameQuestion : ∃ q, (Question.check .root nameQuestion).outcome = .ok q := by
  rw [Question.check_outcome, show Question.violations .root nameQuestion = [] by decide +kernel]
  exact ⟨_, rfl⟩

theorem check_composes_of_otherChoice :
    (Question.check .root (.object (topicQuestion [salesChoice, otherChoice]))).outcome =
      .error ⟨[.key "options", .index 1, .key "value"], .missingField "string"⟩ ∧
    (check (.object (documentOf [nameQuestion, .object (topicQuestion [salesChoice, otherChoice])]))).outcome =
      .error ⟨[.key "questions", .index 1, .key "options", .index 1, .key "value"], .missingField "string"⟩ ∧
    check (.object (documentOf
        [nameQuestion, .object (topicQuestion [salesChoice, otherChoice]), .null])) =
      check (.object (documentOf [nameQuestion, .object (topicQuestion [salesChoice, otherChoice])])) ∧
    (∃ q choices, (Question.check .root (.object (topicQuestion [salesChoice]))).outcome = .ok q ∧
      q.choices = some choices ∧
      [(Choice.check .root salesChoice).outcome] = choices.map .ok) ∧
    (∃ c, (check (.object (documentOf [nameQuestion]))).outcome = .ok c ∧
      [(Question.check .root nameQuestion).outcome] = c.questions.map .ok) ∧
    (Question.check .root (.object (topicQuestion [salesChoice, otherChoice]))).warnings =
      [.unknownField [.key "hint"], .unknownField [.key "options", .index 0, .key "icon"]] ∧
    (check (.object (documentOf [nameQuestion, .object (topicQuestion [salesChoice, otherChoice])]))).warnings =
      (Question.check .root (.object (topicQuestion [salesChoice, otherChoice]))).warnings.map
        (.under [.key "questions", .index 1]) ∧
    (Warning.under [.key "questions", .index 1] (.unknownField [.key "hint"])).message =
      "unknown field questions[1].hint is ignored" := by
  obtain ⟨hquestions, hchoices, -, hwarnings, htail⟩ := check_composes
  obtain ⟨-, hfirst, hrecorded⟩ := hchoices (topicQuestion [salesChoice, otherChoice]) _ (by decide +kernel)
    rfl rfl (by simp)
  have htopic := hfirst 1 _ (.second check_salesChoice check_otherChoice)
  have htold : (Question.check .root (.object (topicQuestion [salesChoice, otherChoice]))).warnings =
      [.unknownField [.key "hint"], .unknownField [.key "options", .index 0, .key "icon"]] := by
    rw [hrecorded]
    decide +kernel
  obtain ⟨-, hdocument, hembedded⟩ := hquestions
    (documentOf [nameQuestion, .object (topicQuestion [salesChoice, otherChoice])]) _ (by decide +kernel) rfl
  have hrefused := hdocument 1 _ (.second check_nameQuestion htopic)
  -- what the refused question recorded is all that the document records
  have htoldThere : (check (.object
      (documentOf [nameQuestion, .object (topicQuestion [salesChoice, otherChoice])]))).warnings =
      (Question.check .root (.object (topicQuestion [salesChoice, otherChoice]))).warnings.map
        (.under [.key "questions", .index 1]) := by
    rw [hembedded, hrefused, List.append_nil]
    decide +kernel
  obtain ⟨haccepted, -⟩ := hchoices (topicQuestion [salesChoice]) _ (by decide +kernel) rfl rfl (by simp)
  obtain ⟨-, hcustom⟩ := haccepted (List.forall_mem_singleton.mpr check_salesChoice)
  obtain ⟨hall, -⟩ := hquestions (documentOf [nameQuestion]) _ (by decide +kernel) rfl
  refine ⟨htopic, hrefused, ?_, hcustom (by decide +kernel),
    hall (List.forall_mem_singleton.mpr check_nameQuestion), htold, htoldThere, ?_⟩
  · refine htail _ _ [nameQuestion] [.null] [] _ _ rfl ?_ rfl rfl htopic
    intro key hkey
    have hother : (key == "questions") = false := by simpa using hkey
    simp only [documentOf, List.lookup_cons, hother]
  · have hhint : .unknownField [.key "hint"] ∈
        (Question.check .root (.object (topicQuestion [salesChoice, otherChoice]))).warnings := by
      rw [htold]
      exact List.mem_cons_self
    exact (hwarnings [.key "questions", .index 1] _ _ (.inl hhint)).2.2.trans (by decide +kernel)

end Config

end ContactForm
