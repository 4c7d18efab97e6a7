import ContactForm.Proofs.Validation.Reported

namespace ContactForm

namespace Json

variable {document : Json} {here : Locator}

theorem at?_key_of_object {members : Members} (h : document.at? here = some (.object members))
    (key : String) : document.at? (here.key key) = members.lookup key := by
  rw [Locator.key, at?_append, h, Option.bind_some, at?_key]

theorem at?_index_of_array {items : List Json} (h : document.at? here = some (.array items))
    (i : Nat) : document.at? (here.index i) = items[i]? := by
  rw [Locator.index, at?_append, h, Option.bind_some]
  cases hi : items[i]? <;> simp [at?, hi]

/-- An index on the way to a value is within an array. -/
theorem array_of_at? {before after : Locator} {i : Nat} {value : Json}
    (h : document.at? (before ++ .index i :: after) = some value) :
    ∃ items, document.at? before = some (.array items) ∧ i < items.length := by
  rw [at?_append, Option.bind_eq_some_iff] at h
  obtain ⟨inner, hinner, hafter⟩ := h
  cases inner with
  | array items =>
    simp only [at?, Option.bind_eq_some_iff] at hafter
    obtain ⟨item, hi, -⟩ := hafter
    exact ⟨items, hinner, (List.getElem?_eq_some_iff.mp hi).1⟩
  | _ => simp [at?] at hafter

end Json

namespace Level

/-- The fields that objects of a level have. -/
def rows : Level → List Row
  | .document => Config.table
  | .question => Question.declared
  | .choice => Choice.table

theorem declared_eq (level : Level) : level.declared = level.rows.map (·.name) := by
  cases level <;> rfl

/-- The shape that is asked of what stands at a place. -/
inductive Expects : Locator → Shape → Prop
  | object {here level} : at? here = some level → Expects here .object
  | field {here level row} : at? here = some level → row ∈ level.rows →
      Expects (here.key row.name) row.shape
  | line {here level row} (k : Nat) : at? here = some level → row ∈ level.rows →
      row.shape = .text → Expects ((here.key row.name).index k) .string

end Level

/-- A place at which a document breaks a rule, with the name of the rule, what is expected there and what stands
    there instead. -/
inductive Json.Breaks (document : Json) : Locator → (rule expected actual : String) → Prop
  | missing {here level row members} : Level.at? here = some level → row ∈ level.rows →
      row.required = true → document.at? here = some (.object members) →
      members.lookup row.name = none →
      Breaks document (here.key row.name) "missing_field" row.shape.name "absent"
  | mismatch {path shape value} : Level.Expects path shape → document.at? path = some value →
      value.kind ∉ shape.kinds →
      Breaks document path "type_mismatch" shape.name value.kind.name
  | noOptions {i question} : document.at? [.key "questions", .index i] = some (.object question) →
      question.lookup "type" = some (.string "selectbox") →
      question.lookup "options" = none ∨ question.lookup "options" = some .null →
      Breaks document [.key "questions", .index i, .key "options"] "empty_options"
        "non-empty array of options" "absent"
  | emptyOptions {i question} : document.at? [.key "questions", .index i] = some (.object question) →
      question.lookup "type" = some (.string "selectbox") →
      question.lookup "options" = some (.array []) →
      Breaks document [.key "questions", .index i, .key "options"] "empty_options"
        "non-empty array of options" "empty array"
  | unexpectedOptions {i question type value} :
      document.at? [.key "questions", .index i] = some (.object question) →
      question.lookup "type" = some (.string type) → type ≠ "selectbox" →
      document.at? [.key "questions", .index i, .key "options"] = some value →
      value.isNull = false →
      Breaks document [.key "questions", .index i, .key "options"] "unexpected_options"
        "no options outside selectbox questions" ("options on a \"" ++ type ++ "\" question")

/-- A violation tells the truth about a document. -/
def Violation.Holds (document : Json) (v : Violation) : Prop :=
  document.Breaks v.path v.cause.name v.cause.expected v.cause.actual

variable {document : Json} {here : Locator} {v : Violation}

/-- The indices that a broken rule is found by are within their arrays. -/
theorem Json.Breaks.index_lt {path : Locator} {rule expected actual : String}
    (h : document.Breaks path rule expected actual) {before after : Locator} {i : Nat}
    (hpath : path = before ++ .index i :: after) :
    ∃ items, document.at? before = some (.array items) ∧ i < items.length := by
  -- a key at the end of the path need not be there, and no index is lost with it
  have hkey {here : Locator} {key : String} {value : Json} (hhere : document.at? here = some value)
      (hpath : here ++ [.key key] = before ++ .index i :: after) :
      ∃ items, document.at? before = some (.array items) ∧ i < items.length := by
    obtain rfl | ⟨after, last, rfl⟩ := List.eq_nil_or_concat after
    · have hlast := List.append_inj_right' hpath rfl
      cases hlast
    · rw [List.concat_eq_append, ← List.cons_append, ← List.append_assoc] at hpath
      obtain rfl := List.append_inj_left' hpath rfl
      exact Json.array_of_at? hhere
  cases h with
  | missing _ _ _ hhere _ => exact hkey hhere hpath
  | mismatch _ hvalue _ =>
    subst hpath
    exact Json.array_of_at? hvalue
  | noOptions hquestion _ _ => exact hkey hquestion hpath
  | emptyOptions hquestion _ _ => exact hkey hquestion hpath
  | unexpectedOptions hquestion _ _ _ _ => exact hkey hquestion hpath

/-- The lines of a text are asked to be strings. -/
theorem Shape.violations_hold {shape : Shape} {value : Json} (hvalue : document.at? here = some value)
    (hshape : Level.Expects here shape)
    (hexpects : shape = .text → ∀ k, Level.Expects (here.index k) .string)
    (hv : v ∈ shape.violations here value) : v.Holds document := by
  unfold Shape.violations at hv
  split at hv
  · next lines =>
    simp only [lineViolations, Option.mem_toList, Option.map_eq_some_iff] at hv
    obtain ⟨⟨line, k⟩, hfound, rfl⟩ := hv
    have hkind : line.kind ≠ .string := by simpa using List.find?_some hfound
    have hk := List.mk_mem_zipIdx_iff_getElem?.mp (List.mem_of_find?_eq_some hfound)
    have hat := (Json.at?_index_of_array hvalue k).trans hk
    have hline : line.kind ∉ Shape.string.kinds := by simpa [Shape.kinds] using hkind
    exact Json.Breaks.mismatch (hexpects rfl k) hat hline
  · split at hv
    · cases hv
    · next hkind =>
      obtain rfl := List.mem_singleton.mp hv
      exact Json.Breaks.mismatch hshape hvalue hkind

section Level

variable {level : Level} (hlevel : Level.at? here = some level)

include hlevel

theorem Row.violations_hold {row : Row} {members : Members} (hrow : row ∈ level.rows)
    (hhere : document.at? here = some (.object members)) (hv : v ∈ row.violations members here) :
    v.Holds document := by
  have hkey := Json.at?_key_of_object hhere row.name
  unfold Row.violations at hv
  split at hv
  · next hnone =>
    split at hv
    · next hrequired =>
      obtain rfl := List.mem_singleton.mp hv
      exact Json.Breaks.missing hlevel hrow hrequired hhere hnone
    · cases hv
  · next value hvalue =>
    split at hv
    · cases hv
    · exact Shape.violations_hold (hkey.trans hvalue) (.field hlevel hrow)
        (fun htext k => .line k hlevel hrow htext) hv

theorem tableViolations_hold {table : List Row} {members : Members} (htable : table ⊆ level.rows)
    (hhere : document.at? here = some (.object members))
    (hv : v ∈ tableViolations members here table) : v.Holds document := by
  obtain ⟨row, hrow, hv⟩ := List.mem_flatMap.mp hv
  exact Row.violations_hold hlevel (htable hrow) hhere hv

/-- Where an object is asked for, either it stands there or its absence is what is told. -/
theorem Json.objectViolations_hold {within : Members → List Violation} {value : Json}
    (hvalue : document.at? here = some value)
    (hwithin : ∀ members, document.at? here = some (.object members) → v ∈ within members →
      v.Holds document)
    (hv : v ∈ value.objectViolations here within) : v.Holds document := by
  cases value with
  | object members => exact hwithin members hvalue hv
  | _ =>
    obtain rfl := List.mem_singleton.mp hv
    exact Json.Breaks.mismatch (.object hlevel) hvalue (by simp [Shape.kinds, Json.kind])

end Level

theorem listViolations_hold {within : Locator → Json → List Violation} {values : List Json}
    (hhere : document.at? here = some (.array values))
    (hwithin : ∀ i value, document.at? (here.index i) = some value →
      v ∈ within (here.index i) value → v.Holds document)
    (hv : v ∈ listViolations here within values) : v.Holds document := by
  obtain ⟨⟨value, i⟩, hmem, hv⟩ := List.mem_flatMap.mp hv
  have hi := List.mk_mem_zipIdx_iff_getElem?.mp hmem
  exact hwithin i value ((Json.at?_index_of_array hhere i).trans hi) hv

theorem Choice.violations_hold {i j : Nat} {value : Json}
    (hvalue : document.at? [.key "questions", .index i, .key "options", .index j] = some value)
    (hv : v ∈ violations [.key "questions", .index i, .key "options", .index j] value) :
    v.Holds document := by
  have hlevel := (Level.at?_eq_some_iff _ .choice).mpr ⟨i, j, rfl⟩
  refine Json.objectViolations_hold hlevel hvalue ?_ hv
  intro members hmembers hv
  exact tableViolations_hold hlevel (List.Subset.refl _) hmembers hv

namespace Question

variable {i : Nat} {members : Members}

theorem choicesViolations_hold (hquestion : document.at? [.key "questions", .index i] = some (.object members))
    (htype : members.lookup "type" = some (.string "selectbox"))
    (hv : v ∈ choicesViolations [.key "questions", .index i, .key "options"] (members.lookup "options")) :
    v.Holds document := by
  have hlevel := (Level.at?_eq_some_iff _ .question).mpr ⟨i, rfl⟩
  have hoptions : document.at? [.key "questions", .index i, .key "options"] = members.lookup "options" :=
    Json.at?_key_of_object hquestion "options"
  unfold choicesViolations at hv
  split at hv
  · next hnone =>
    obtain rfl := List.mem_singleton.mp hv
    exact Json.Breaks.noOptions hquestion htype (.inl hnone)
  · next hnull =>
    obtain rfl := List.mem_singleton.mp hv
    exact Json.Breaks.noOptions hquestion htype (.inr hnull)
  · next hempty =>
    obtain rfl := List.mem_singleton.mp hv
    exact Json.Breaks.emptyOptions hquestion htype hempty
  · next values _ hvalues =>
    exact listViolations_hold (hoptions.trans hvalues) (fun _ _ => Choice.violations_hold) hv
  · next value _ _ harray hvalue =>
    obtain rfl := List.mem_singleton.mp hv
    have hrow : choicesRow ∈ Level.question.rows := by decide
    have hexpects : Level.Expects [.key "questions", .index i, .key "options"] .array := .field hlevel hrow
    refine Json.Breaks.mismatch hexpects (hoptions.trans hvalue) ?_
    cases value with
    | array values => exact absurd rfl (harray values)
    | _ => simp [Shape.kinds, Json.kind]

theorem noChoicesViolations_hold {type : String}
    (hquestion : document.at? [.key "questions", .index i] = some (.object members))
    (htype : members.lookup "type" = some (.string type)) (hs : type ≠ "selectbox")
    (hv : v ∈ noChoicesViolations [.key "questions", .index i, .key "options"] type
      (members.lookup "options")) : v.Holds document := by
  have hoptions : document.at? [.key "questions", .index i, .key "options"] = members.lookup "options" :=
    Json.at?_key_of_object hquestion "options"
  unfold noChoicesViolations at hv
  split at hv
  · cases hv
  · cases hv
  · next value hnull hvalue =>
    obtain rfl := List.mem_singleton.mp hv
    refine Json.Breaks.unexpectedOptions hquestion htype hs (hoptions.trans hvalue) ?_
    cases value with
    | null => exact absurd rfl hnull
    | _ => rfl

theorem violations_hold {value : Json} (hvalue : document.at? [.key "questions", .index i] = some value)
    (hv : v ∈ violations [.key "questions", .index i] value) : v.Holds document := by
  have hlevel := (Level.at?_eq_some_iff _ .question).mpr ⟨i, rfl⟩
  refine Json.objectViolations_hold hlevel hvalue ?_ hv
  intro members hmembers hv
  simp only [List.mem_append] at hv
  obtain (hrows | hchoices) | hcustom := hv
  · exact tableViolations_hold hlevel (List.subset_append_left _ _) hmembers hrows
  · unfold choicesRuleViolations at hchoices
    split at hchoices
    · next type htype =>
      split at hchoices
      · next hs => exact choicesViolations_hold hmembers (hs ▸ htype) hchoices
      · next hs => exact noChoicesViolations_hold hmembers htype hs hchoices
    · cases hchoices
  · have hrow : customRow ∈ Level.question.rows := by decide
    exact Row.violations_hold hlevel hrow hmembers hcustom

end Question

/-- What a check reports is one of the violations. -/
theorem mem_of_verdict_map {β : Type} {violations : List Violation} {f : Unit → β}
    (h : (verdict violations).map f = .error v) : v ∈ violations := by
  cases violations with
  | nil => cases h
  | cons first rest =>
    obtain rfl := Except.error.inj h
    exact .head _

namespace Config

theorem violations_hold (hv : v ∈ violations document) : v.Holds document := by
  have hlevel : Level.at? .root = some .document := rfl
  have hroot : document.at? .root = some document := rfl
  refine Json.objectViolations_hold hlevel hroot ?_ hv
  intro members hmembers hv
  obtain hrows | hquestions := List.mem_append.mp hv
  · exact tableViolations_hold hlevel (List.Subset.refl _) hmembers hrows
  · unfold questionsViolations at hquestions
    split at hquestions
    · next values hvalues =>
      have harray := (Json.at?_key_of_object hmembers "questions").trans hvalues
      exact listViolations_hold harray (fun _ _ => Question.violations_hold) hquestions
    · cases hquestions

theorem mem_violations_of_check {document : Json} (h : (check document).outcome = .error v) :
    v ∈ violations document := by
  rw [check_outcome] at h
  exact mem_of_verdict_map h

/-- The violation that a document is refused for tells the truth about the place it names: what is missing there, or
    what stands there instead of what is expected; and the indices on the way are within their arrays. -/
theorem check_error_holds {document : Json} {v : Violation}
    (h : (check document).outcome = .error v) :
    document.Breaks v.path v.cause.name v.cause.expected v.cause.actual ∧
      ∀ before i after, v.path = before ++ .index i :: after →
        ∃ items, document.at? before = some (.array items) ∧ i < items.length := by
  have hholds : v.Holds document := violations_hold (mem_violations_of_check h)
  exact ⟨hholds, fun _ _ _ hpath => Json.Breaks.index_lt hholds hpath⟩

/-- A document with a choice whose value is a number. -/
def misshapenDocument : Json := .object [
  ("email", .string "a@b.example"),
  ("questions", .array [
    .object [("label", .string "Name"), ("name", .string "name"), ("required", .bool true),
      ("type", .string "text")],
    .object [("label", .string "Topic"), ("name", .string "topic"),
      ("options", .array [
        .object [("label", .string "Sales"), ("value", .string "sales")],
        .object [("label", .string "Support"), ("value", .number (.natural ⟨2, by decide⟩))]]),
      ("required", .bool true), ("type", .string "selectbox")]]),
  ("subject", .string "Hello"),
  ("title", .string "Contact")]

theorem check_error_holds_of_misshapenDocument :
    ∃ v, (check misshapenDocument).outcome = .error v ∧
      v.path.render = "questions[1].options[1].value" ∧
      misshapenDocument.Breaks v.path "type_mismatch" "string" "number" ∧
      ∃ items, misshapenDocument.at? [.key "questions", .index 1, .key "options"] = some (.array items) ∧
        1 < items.length := by
  have hviolations : violations misshapenDocument =
      [⟨[.key "questions", .index 1, .key "options", .index 1, .key "value"],
        .typeMismatch "string" "number"⟩] := by
    decide +kernel
  have herror : (check misshapenDocument).outcome = .error
      ⟨[.key "questions", .index 1, .key "options", .index 1, .key "value"],
        .typeMismatch "string" "number"⟩ := by
    rw [check_outcome, hviolations]
    rfl
  obtain ⟨hbreaks, hindex⟩ := check_error_holds herror
  exact ⟨_, herror, by decide +kernel, hbreaks, hindex _ _ [.key "value"] rfl⟩

end Config

end ContactForm
