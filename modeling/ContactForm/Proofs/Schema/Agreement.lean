import ContactForm.ConfigSchema
import ContactForm.Proofs.Schema.Document
import ContactForm.Proofs.Validation.Outcome

namespace ContactForm

/-- A field of some members has a value of a shape, where it is there. -/
def Members.Fits (members : Members) (name : String) (shape : Shape) : Prop :=
  ∀ value, members.lookup name = some value → shape.violations .root value = []

/-- A field of some members is null or has a value of a shape, where it is there. -/
def Members.FitsOrNull (members : Members) (name : String) (shape : Shape) : Prop :=
  ∀ value, members.lookup name = some value → value = .null ∨ shape.violations .root value = []

theorem Shape.violations_eq_nil_of_path (p q : Locator) (shape : Shape) (value : Json) :
    shape.violations p value = [] ↔ shape.violations q value = [] := by
  rw [violations_eq_nil_iff, violations_eq_nil_iff q]

namespace Row

variable {members : Members} {name : String} {shape : Shape} {path : Locator}

theorem requires_iff_fits : (requires name shape).violations members path = [] ↔
    (members.lookup name).isSome = true ∧ members.Fits name shape := by
  rw [requires_eq_nil_iff, Members.Fits]
  cases members.lookup name <;>
    simp [Shape.violations_eq_nil_of_path (path.key name) .root]

theorem allows_iff_fits : (allows name shape).violations members path = [] ↔
    members.FitsOrNull name shape := by
  rw [allows_eq_nil_iff, Members.FitsOrNull]
  simp only [Shape.violations_eq_nil_of_path (path.key name) .root]

end Row

namespace Schema

/-- What a schema says of a field: nothing where the field is not there. -/
def acceptsField (schema : Schema) (members : Members) (name : String) : Bool :=
  match members.lookup name with
  | none => true
  | some value => acceptsAll schema value

theorem acceptsMembers_cons (name : String) (schema : Schema)
    (schemas : List (String × List Keyword)) (members : Members) :
    acceptsMembers ((name, schema) :: schemas) members =
      (acceptsField schema members name && acceptsMembers schemas members) := rfl

theorem acceptsMembers_nil (members : Members) : acceptsMembers [] members = true := rfl

theorem acceptsAll_cons (keyword : Keyword) (schema : Schema) (value : Json) :
    acceptsAll (keyword :: schema) value = (accepts keyword value && acceptsAll schema value) := rfl

theorem acceptsAll_nil (value : Json) : acceptsAll [] value = true := rfl

theorem accepts_object (members : Members) : accepts (.type [.object]) (.object members) = true := rfl

theorem accepts_required (keys : List String) (members : Members) :
    accepts (.required keys) (.object members) =
      keys.all fun key => (members.lookup key).isSome := rfl

theorem accepts_properties (schemas : List (String × List Keyword)) (members : Members) :
    accepts (.properties schemas) (.object members) = acceptsMembers schemas members := rfl

theorem accepts_note (name : String) (argument value : Json) :
    accepts (.note name argument) value = true := rfl

theorem accepts_describe (text : String) (value : Json) : accepts (describe text) value = true := rfl

theorem acceptsField_eq_true_iff (schema : Schema) (members : Members) (name : String) :
    acceptsField schema members name = true ↔
      ∀ value, members.lookup name = some value → acceptsAll schema value = true := by
  unfold acceptsField
  cases members.lookup name <;> simp

theorem accepts_string_iff (description : String) (value : Json) :
    acceptsAll (stringSchema description) value = true ↔ Shape.string.violations .root value = [] := by
  cases value <;>
    simp [stringSchema, describe, acceptsAll, accepts, Json.kind, Shape.violations, Shape.kinds]

theorem accepts_text_iff (description : String) (value : Json) :
    acceptsAll (textSchema description) value = true ↔ Shape.text.violations .root value = [] := by
  cases value with
  | array lines =>
    rw [Shape.violations, Shape.lineViolations_eq_nil_iff]
    simp [textSchema, describe, acceptsAll, accepts, countAccepting, Json.kind]
  | _ =>
    simp [textSchema, describe, acceptsAll, accepts, countAccepting, Json.kind, Shape.violations,
      Shape.kinds]

/-- One kind alone, or that kind or null, whatever is noted beside it. -/
theorem accepts_kinds_iff (kinds : List Kind) (notes : Schema)
    (hnotes : ∀ value, acceptsAll notes value = true) (value : Json) :
    acceptsAll (.type kinds :: notes) value = true ↔ value.kind ∈ kinds := by
  simp [acceptsAll, accepts, hnotes]

/-- No shape admits null, so `orNull` accepts it just once. -/
theorem accepts_orNull_iff (schema : Schema) (value : Json) (h : acceptsAll schema .null = false) :
    acceptsAll (orNull schema) value = true ↔ value = .null ∨ acceptsAll schema value = true := by
  cases value with
  | null => simp [orNull, acceptsAll, accepts, countAccepting, Json.kind, h]
  | _ =>
    cases hs : acceptsAll schema _ <;>
      simp [orNull, acceptsAll, accepts, countAccepting, Json.kind, hs]

variable (members : Members) (name : String)

theorem acceptsField_string (description : String) :
    acceptsField (stringSchema description) members name = true ↔ members.Fits name .string := by
  simp only [acceptsField_eq_true_iff, accepts_string_iff, Members.Fits]

theorem acceptsField_text (description : String) :
    acceptsField (textSchema description) members name = true ↔ members.Fits name .text := by
  simp only [acceptsField_eq_true_iff, accepts_text_iff, Members.Fits]

theorem acceptsField_stringOrNull (description : String) :
    acceptsField (orNull (stringSchema description)) members name = true ↔
      members.FitsOrNull name .string := by
  simp only [acceptsField_eq_true_iff, accepts_orNull_iff (stringSchema description) _ rfl,
    accepts_string_iff, Members.FitsOrNull]

theorem acceptsField_textOrNull (description : String) :
    acceptsField (orNull (textSchema description)) members name = true ↔
      members.FitsOrNull name .text := by
  simp only [acceptsField_eq_true_iff, accepts_orNull_iff (textSchema description) _ rfl,
    accepts_text_iff, Members.FitsOrNull]

/-- A shape that admits one kind, told apart from a text, which looks into its lines. -/
theorem Shape.violations_of_kind {shape : Shape} {kind : Kind} (h : shape.kinds = [kind])
    (value : Json) : shape.violations .root value = [] ↔ value.kind = kind := by
  cases shape with
  | text => simp [Shape.kinds] at h
  | _ =>
    simp only [Shape.kinds, List.cons.injEq, and_true] at h
    subst h
    cases value <;> simp [Shape.violations, Shape.kinds, Json.kind]

theorem acceptsField_kind (shape : Shape) {kind : Kind} (notes : Schema) (h : shape.kinds = [kind])
    (hnotes : ∀ value, acceptsAll notes value = true) :
    acceptsField (.type [kind] :: notes) members name = true ↔ members.Fits name shape := by
  simp [acceptsField_eq_true_iff, accepts_kinds_iff _ notes hnotes, Members.Fits,
    Shape.violations_of_kind h]

theorem acceptsField_kindOrNull (shape : Shape) {kind : Kind} (notes : Schema)
    (h : shape.kinds = [kind]) (hnotes : ∀ value, acceptsAll notes value = true) :
    acceptsField (.type [kind, .null] :: notes) members name = true ↔
      members.FitsOrNull name shape := by
  have hnull (value : Json) : value.kind = .null ↔ value = .null := by
    cases value <;> simp [Json.kind]
  simp [acceptsField_eq_true_iff, accepts_kinds_iff _ notes hnotes, Members.FitsOrNull,
    Shape.violations_of_kind h, hnull, or_comm]

end Schema

namespace Choice

theorem accepts_schema_iff (path : Locator) (value : Json) :
    Schema.acceptsAll schema value = true ↔ violations path value = [] := by
  cases value with
  | object members =>
    have hflag (name : String) := Schema.acceptsField_kindOrNull members name
      .boolean [] rfl fun _ => rfl
    simp only [violations, Json.objectViolations, tableViolations, table, List.flatMap_cons,
      List.flatMap_nil, List.append_eq_nil_iff, Row.requires_iff_fits, Row.allows_iff_fits, schema,
      Schema.acceptsAll_cons, Schema.acceptsAll_nil, Schema.accepts_object, Schema.accepts_required,
      Schema.accepts_properties, Schema.acceptsMembers_cons, Schema.acceptsMembers_nil,
      Bool.and_eq_true, List.all_cons, List.all_nil, Schema.acceptsField_string, hflag]
    tauto
  | _ => simp [schema, Schema.acceptsAll, Schema.accepts, Json.kind, violations, Json.objectViolations]

end Choice

/-- A schema that speaks for each element of a list speaks for the list. -/
theorem all_accept_iff {schema : Schema} {within : Locator → Json → List Violation}
    (h : ∀ path value, Schema.acceptsAll schema value = true ↔ within path value = [])
    (path : Locator) (values : List Json) :
    (values.all fun value => Schema.acceptsAll schema value) = true ↔
      listViolations path within values = [] := by
  simp only [listViolations, List.flatMap_eq_nil_iff, Prod.forall, List.all_eq_true]
  constructor
  · intro hall value i hmem
    exact (h _ value).mp (hall value (List.fst_mem_of_mem_zipIdx hmem))
  · intro hall value hmem
    obtain ⟨i, hi, rfl⟩ := List.getElem_of_mem hmem
    exact (h (path.index i) _).mpr (hall _ i (List.mk_mem_zipIdx_iff_getElem?.mpr (by simp)))

namespace Question

theorem accepts_choices_iff (path : Locator) (members : Members) {type : String}
    (h : members.lookup "type" = some (.string type)) :
    (Schema.acceptsField [.type [.array, .null], .items Choice.schema] members "options" = true ∧
      Schema.accepts choicesCondition (.object members) = true) ↔
    choicesRuleViolations members path = [] := by
  have htest : Schema.acceptsAll
      [.properties [("type", [.const selectboxType])], .required ["type"]] (.object members) =
        decide (type = "selectbox") := by
    simp [Schema.acceptsAll, Schema.accepts, Schema.acceptsMembers, h, Json.string?, selectboxType]
    rfl
  simp only [choicesCondition, Schema.accepts, htest, choicesRuleViolations, h]
  by_cases ht : type = "selectbox"
  · simp only [ht, decide_true, ↓reduceIte]
    cases ho : members.lookup "options" with
    | none => simp [Schema.acceptsField, ho, choicesViolations, Schema.acceptsAll, Schema.accepts]
    | some value =>
      cases value with
      | array values =>
        cases values with
        | nil =>
          simp [Schema.acceptsField, ho, choicesViolations, Schema.acceptsAll, Schema.accepts,
            Schema.acceptsMembers, Json.kind]
        | cons first rest =>
          rw [choicesViolations, ← all_accept_iff Choice.accepts_schema_iff]
          · simp [Schema.acceptsField, ho, Schema.acceptsAll, Schema.accepts, Schema.acceptsMembers,
              Json.kind]
          · simp
      | _ =>
        simp [Schema.acceptsField, ho, choicesViolations, Schema.acceptsAll, Schema.accepts,
          Schema.acceptsMembers, Json.kind]
  · simp only [ht, decide_false, ↓reduceIte]
    cases ho : members.lookup "options" with
    | none => simp [Schema.acceptsField, ho, noChoicesViolations, Schema.acceptsAll, Schema.accepts,
        Schema.acceptsMembers]
    | some value =>
      cases value <;> simp [Schema.acceptsField, ho, noChoicesViolations, Schema.acceptsAll,
        Schema.accepts, Schema.acceptsMembers, Json.kind]

theorem accepts_schema_iff (path : Locator) (value : Json) :
    Schema.acceptsAll schema value = true ↔ violations path value = [] := by
  cases value with
  | object members =>
    have hflag := Schema.acceptsField_kind members "required" .boolean
      [describe "Whether the field must be filled before submission."] rfl fun _ => rfl
    have hcustom := Schema.acceptsField_kindOrNull members "custom" .object
      [describe "Free-form rendering hints."] rfl fun _ => rfl
    have htype (hsome : (members.lookup "type").isSome = true)
        (hfits : Members.Fits members "type" .string) :
        ∃ type, members.lookup "type" = some (.string type) := by
      obtain ⟨value, hv⟩ := Option.isSome_iff_exists.mp hsome
      obtain ⟨type, rfl⟩ := (Shape.violations_eq_nil_iff _ _ _).mp (hfits value hv)
      exact ⟨type, hv⟩
    have hschema : schema = [
      .type [.object], .required ["label", "name", "type", "required"], .properties _,
      choicesCondition] := rfl
    simp only [violations, Json.objectViolations, tableViolations, table, customRow,
      List.flatMap_cons, List.flatMap_nil, List.append_eq_nil_iff, Row.requires_iff_fits,
      Row.allows_iff_fits, hschema, Schema.acceptsAll_cons, Schema.acceptsAll_nil,
      Schema.accepts_object, Schema.accepts_required, Schema.accepts_properties,
      Schema.acceptsMembers_cons, Schema.acceptsMembers_nil, Bool.and_eq_true, List.all_cons,
      List.all_nil, Schema.acceptsField_string, Schema.acceptsField_text, hflag, hcustom]
    constructor
    · intro hfound
      obtain ⟨-, ⟨hl, hn, ht, hr, -⟩, ⟨fl, fn, ft, fr, ho, fc, -⟩, hcond, -⟩ := hfound
      obtain ⟨type, h⟩ := htype ht ft
      exact ⟨⟨⟨⟨hl, fl⟩, ⟨hn, fn⟩, ⟨ht, ft⟩, ⟨hr, fr⟩, trivial⟩,
        (accepts_choices_iff path members h).mp ⟨ho, hcond⟩⟩, fc⟩
    · intro hfound
      obtain ⟨⟨⟨⟨hl, fl⟩, ⟨hn, fn⟩, ⟨ht, ft⟩, ⟨hr, fr⟩, -⟩, hrule⟩, fc⟩ := hfound
      obtain ⟨type, h⟩ := htype ht ft
      obtain ⟨ho, hcond⟩ := (accepts_choices_iff path members h).mpr hrule
      exact ⟨trivial, ⟨hl, hn, ht, hr, trivial⟩, ⟨fl, fn, ft, fr, ho, fc, trivial⟩, hcond, trivial⟩
  | _ => simp [schema, Schema.acceptsAll, Schema.accepts, Json.kind, violations, Json.objectViolations]

end Question

namespace Config

theorem accepts_schema_iff (document : Json) :
    Schema.acceptsAll schema document = true ↔ violations document = [] := by
  cases document with
  | object members =>
    have hflag := Schema.acceptsField_kindOrNull members "ignore_file_upload" .boolean
      [describe "Leave file answers out of the submission."] rfl fun _ => rfl
    have hquestions :
        ((members.lookup "questions").isSome = true ∧
          Schema.acceptsField [.type [.array], .items Question.schema,
            describe "Questions in on-page order."] members "questions" = true) ↔
        ((members.lookup "questions").isSome = true ∧ Members.Fits members "questions" .array) ∧
          questionsViolations members = [] := by
      rw [Schema.acceptsField, Members.Fits, questionsViolations]
      cases members.lookup "questions" with
      | none => simp
      | some value =>
        cases value with
        | array values =>
          rw [← all_accept_iff Question.accepts_schema_iff]
          simp [Schema.acceptsAll, Schema.accepts, describe, Json.kind, Shape.violations, Shape.kinds]
        | _ => simp [Schema.acceptsAll, Schema.accepts, Json.kind, Shape.violations, Shape.kinds]
    simp only [violations, Json.objectViolations, tableViolations, table, List.flatMap_cons,
      List.flatMap_nil, List.append_eq_nil_iff, Row.requires_iff_fits, Row.allows_iff_fits, schema,
      Schema.acceptsAll_cons, Schema.acceptsAll_nil, Schema.accepts_note, Schema.accepts_describe,
      Schema.accepts_object, Schema.accepts_required, Schema.accepts_properties,
      Schema.acceptsMembers_cons, Schema.acceptsMembers_nil, Bool.and_eq_true, List.all_cons,
      List.all_nil, Schema.acceptsField_string, Schema.acceptsField_stringOrNull,
      Schema.acceptsField_textOrNull, hflag]
    tauto
  | _ => simp [schema, describe, Schema.acceptsAll, Schema.accepts, Json.kind, violations,
      Json.objectViolations]

/-- The published schema, as the JSON value that is handed out, accepts the documents that are valid. -/
theorem schema_accepts_valid_documents (document : Json) :
    Json.conforms schema.toJson document = isValid document := by
  have hproper : Schema.hasDistinctKeywords schema = true ∧ Schema.areProperKeywords schema = true := by
    decide
  rw [Schema.toJson, Schema.conforms_toJson schema hproper.1 hproper.2, Bool.eq_iff_iff,
    accepts_schema_iff, isValid_eq_true_iff]

end Config

end ContactForm
