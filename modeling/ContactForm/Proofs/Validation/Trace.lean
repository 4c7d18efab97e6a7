import ContactForm.Proofs.Validation.Outcome

namespace ContactForm

/-- The elements of a list up to the first with a property, that one included. -/
def throughFirst {α : Type} (p : α → Bool) : List α → List α
  | [] => []
  | a :: rest => a :: if p a then [] else throughFirst p rest

theorem throughFirst_eq_self {α : Type} {p : α → Bool} {list : List α}
    (h : ∀ a ∈ list, p a = false) : throughFirst p list = list := by
  induction list with
  | nil => rfl
  | cons a rest ih =>
    rw [List.forall_mem_cons] at h
    rw [throughFirst, h.1, ih h.2]
    rfl

theorem throughFirst_sublist {α : Type} (p : α → Bool) (list : List α) :
    (throughFirst p list).Sublist list := by
  induction list with
  | nil => exact List.Sublist.slnil
  | cons a rest ih =>
    rw [throughFirst]
    split
    · exact (List.nil_sublist rest).cons_cons a
    · exact ih.cons_cons a

/-- The loop over a list records the warnings of the elements up to the first that fails. -/
theorem Review.each_warnings {ε α β : Type} (check : Nat → α → Review ε β) (list : List α) :
    (each check list).warnings =
      (throughFirst (fun entry => !(check entry.2 entry.1).outcome.isOk) list.zipIdx).flatMap
        fun entry => (check entry.2 entry.1).warnings := by
  suffices hall : ∀ i, (inOrder check i list).warnings =
      (throughFirst (fun entry => !(check entry.2 entry.1).outcome.isOk) (list.zipIdx i)).flatMap
        fun entry => (check entry.2 entry.1).warnings by
    rw [each_eq_inOrder]
    exact hall 0
  induction list with
  | nil =>
    intro _
    rfl
  | cons a rest ih =>
    intro i
    rw [inOrder, List.zipIdx_cons, throughFirst, List.flatMap_cons]
    cases h : (check i a).outcome with
    | error e => simp [bind_of_error h, Except.isOk, Except.toBool]
    | ok b =>
      have hrest := ih (i + 1)
      rw [bind_of_ok h]
      cases hr : (inOrder check (i + 1) rest).outcome with
      | error e => simp [bind_of_error hr, hrest, Except.isOk, Except.toBool]
      | ok bs => simp [bind_of_ok hr, hrest, Except.isOk, Except.toBool]

/-- The warnings about the keys of an object that no row declares. -/
def undeclaredWarnings (table : List Row) (path : Locator) (members : Members) : List Warning :=
  (undeclared table members).map fun key => .unknownField (path.key key)

/-- The warnings about the elements of a list, up to the first with a violation. -/
def listTrace (path : Locator) (violations : Locator → Json → List Violation)
    (trace : Locator → Json → List Warning) (values : List Json) : List Warning :=
  (throughFirst (fun entry => !(violations (path.index entry.2) entry.1).isEmpty) values.zipIdx).flatMap
    fun entry => trace (path.index entry.2) entry.1

/-- Where checking an element of a list records its trace and fails on its violations, so does the list. -/
theorem Review.each_warnings_eq_listTrace {β : Type} {check : Locator → Json → Review Violation β}
    {violations : Locator → Json → List Violation} {trace : Locator → Json → List Warning}
    {result : Json → β}
    (hw : ∀ path value, (check path value).warnings = trace path value)
    (ho : ∀ path value, (check path value).outcome =
      (verdict (violations path value)).map fun _ => result value)
    (path : Locator) (values : List Json) :
    (each (fun i value => check (path.index i) value) values).warnings =
      listTrace path violations trace values := by
  rw [each_warnings, listTrace]
  have hok : ∀ path value, (check path value).outcome.isOk = (violations path value).isEmpty := by
    intro path value
    rw [ho]
    cases violations path value <;> rfl
  simp only [hok, hw]

namespace Choice

/-- The warnings of checking a choice. -/
def trace (path : Locator) : Json → List Warning
  | .object members =>
    if (tableViolations members path table).isEmpty then undeclaredWarnings table path members else []
  | _ => []

theorem check_warnings (path : Locator) (value : Json) :
    (check path value).warnings = trace path value := by
  cases value with
  | object members =>
    rw [trace]
    cases h : tableViolations members path table with
    | cons v vs => rw [check_of_broken h]; rfl
    | nil => rw [check_of_checked h]; rfl
  | _ => rfl

end Choice

namespace Question

/-- The warnings of reading the choices of a question. -/
def choicesTrace (path : Locator) (members : Members) : List Warning :=
  match members.lookup "type", members.lookup "options" with
  | some (.string type), some (.array values) =>
    if type = "selectbox" then listTrace (path.key "options") Choice.violations Choice.trace values
    else []
  | _, _ => []

/-- The warnings of checking a question: its own come first, then those of its choices. -/
def trace (path : Locator) : Json → List Warning
  | .object members =>
    if (tableViolations members path table).isEmpty then
      undeclaredWarnings declared path members ++ choicesTrace path members
    else []
  | _ => []

theorem checkChoices_warnings (r : Record) :
    (checkChoices r).warnings =
      match r.members.lookup "options" with
      | some (.array values) =>
        listTrace (r.path.key "options") Choice.violations Choice.trace values
      | _ => [] := by
  have hrow : choicesRow.check r.members r.path = _ := Row.check_eq_verdict r.members r.path choicesRow
  rw [Row.violations, choicesRow, Row.allows] at hrow
  unfold checkChoices
  rw [choicesRow, Row.allows, hrow]
  cases h : r.members.lookup "options" with
  | none =>
    rw [Record.array?, Record.present?_of_absent h]
    rfl
  | some value =>
    cases value with
    | null =>
      rw [Record.array?, Record.present?_of_null h]
      rfl
    | array values =>
      rw [Record.array?, Record.present?_of_lookup h rfl]
      cases values with
      | nil => rfl
      | cons first rest =>
        exact Review.each_warnings_eq_listTrace Choice.check_warnings Choice.check_outcome
          (r.path.key "options") (first :: rest)
    | _ => rfl

theorem readChoices_warnings (r : Record) {type : String} (h : r.string? "type" = some type) :
    (readChoices r type).warnings = choicesTrace r.path r.members := by
  unfold readChoices choicesTrace
  rw [Record.string?_eq_some_iff.mp h]
  by_cases ht : type = selectboxType
  · have hw := checkChoices_warnings r
    simp only [ht, ↓reduceIte]
    have hbind : (checkChoices r >>= fun choices =>
        (pure (some choices) : Review Violation (Option (List Choice)))).warnings =
        (checkChoices r).warnings := by
      cases ho : (checkChoices r).outcome with
      | error e => rw [Review.bind_of_error ho]
      | ok choices => rw [Review.bind_of_ok ho, Review.pure_warnings, List.append_nil]
    rw [hbind, hw]
    cases r.members.lookup "options" with
    | none => rfl
    | some value => cases value <;> rfl
  · have hs : ¬type = "selectbox" := ht
    have hnone : (do forbidChoices r type; return none :
        Review Violation (Option (List Choice))).warnings = [] := by
      cases forbidChoices r type <;> rfl
    simp only [ht, ↓reduceIte, hnone]
    cases r.members.lookup "options" with
    | none => rfl
    | some value => cases value <;> simp [hs]

theorem check_warnings (path : Locator) (value : Json) :
    (check path value).warnings = trace path value := by
  cases value with
  | object members =>
    rw [trace]
    cases h : tableViolations members path table with
    | cons v vs => rw [check_of_broken h]; rfl
    | nil =>
      have hrows := h
      simp only [tableViolations, table, List.flatMap_cons, List.append_eq_nil_iff] at hrows
      obtain ⟨type, ht⟩ := Row.string_of_requires (r := ⟨members, path⟩) hrows.2.2.1
      have htype : (ofRecord ⟨members, path⟩).type = type := by simp [ofRecord, ht]
      rw [check_of_checked h, Review.warn_bind_warnings, htype, ← readChoices_warnings _ ht]
      refine congrArg (undeclaredWarnings declared path members ++ ·) ?_
      cases ho : (readChoices ⟨members, path⟩ type).outcome with
      | error e => rw [Review.bind_of_error ho]
      | ok choices =>
        rw [Review.bind_of_ok ho]
        cases verdict (customRow.violations members path) <;> exact List.append_nil _
  | _ => rfl

end Question

namespace Config

/-- The warnings of checking the questions of a document. -/
def questionsTrace (members : Members) : List Warning :=
  match members.lookup "questions" with
  | some (.array values) =>
    listTrace (Locator.root.key "questions") Question.violations Question.trace values
  | _ => []

/-- The warnings of checking a document: about its own keys, then about its questions up to the first with a
    violation; repeated names are looked for where there is none. -/
def trace : Json → List Warning
  | .object members =>
    if (tableViolations members .root table).isEmpty then
      undeclaredWarnings table .root members ++ questionsTrace members ++
        if (violations (.object members)).isEmpty then
          repeatedNames (Locator.root.key "questions") (ofRecord ⟨members, .root⟩).questions
        else []
    else []
  | _ => []

theorem check_warnings (document : Json) : (check document).warnings = trace document := by
  cases document with
  | object members =>
    cases h : tableViolations members .root table with
    | cons v vs =>
      rw [check_of_broken h, trace, h]
      rfl
    | nil =>
      have hrows := h
      simp only [tableViolations, table, List.flatMap_cons, List.append_eq_nil_iff] at hrows
      obtain ⟨values, hv⟩ := Row.array_of_requires (r := ⟨members, .root⟩) hrows.2.2.2.1
      have hlookup := Record.array?_eq_some_iff.mp hv
      have ho := Review.each_outcome (fun i value => Question.check_outcome
        ((Locator.root.key "questions").index i) value) values
      have hw := Review.each_warnings_eq_listTrace Question.check_warnings Question.check_outcome
        (Locator.root.key "questions") values
      have hall : violations (.object members) =
          listViolations (Locator.root.key "questions") Question.violations values := by
        rw [violations, Json.objectViolations, h, questionsViolations_of_array hlookup, List.nil_append]
      change _ = (verdict (listViolations _ _ values)).map _ at ho
      rw [trace, h, hall, questionsTrace, hlookup, check_of_checked h, Review.warn_bind_warnings, hv,
        Option.getD_some, List.isEmpty_nil, if_pos rfl, List.append_assoc]
      refine congrArg (undeclaredWarnings table .root members ++ ·) ?_
      cases hvs : listViolations (Locator.root.key "questions") Question.violations values with
      | cons v vs =>
        rw [hvs] at ho
        rw [Review.bind_of_error ho, hw]
        exact (List.append_nil _).symm
      | nil =>
        rw [hvs] at ho
        rw [Review.bind_of_ok ho, hw]
        simp [ofRecord, hv]
  | _ => rfl

end Config

end ContactForm
