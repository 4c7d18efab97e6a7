import ContactForm.Proofs.Fields
import ContactForm.Proofs.Validation.Reported

namespace ContactForm

/-- The members of an object have the values of the given fields under their keys, and no others. -/
def Members.Hold (members : Members) (fields : List (String × Option Json)) : Prop :=
  ∀ key, members.lookup key = (fields.lookup key).join

theorem Members.ofList_present_hold {fields : List (String × Option Json)}
    (h : (fields.map (·.1)).Nodup) : Hold (ofList (present fields)) fields := by
  intro key
  rw [lookup_ofList (nodup_keys_present h), lookup_present h]

section Rows

variable {α : Type} {members : Members} {name : String} {path : Locator} {shape : Shape}
  {value : Option α} {write : α → Json}

theorem Row.requires_of_lookup {v : Json} (h : members.lookup name = some v)
    (hv : shape.violations (path.key name) v = []) :
    (requires name shape).violations members path = [] :=
  requires_eq_nil_iff.mpr ⟨v, h, hv⟩

theorem Row.allows_of_lookup (h : members.lookup name = value.map write)
    (hwrite : ∀ a, shape.violations (path.key name) (write a) = []) :
    (allows name shape).violations members path = [] := by
  rw [allows_eq_nil_iff, h]
  intro v hv
  obtain ⟨a, -, rfl⟩ := Option.map_eq_some_iff.mp hv
  exact .inr (hwrite a)

end Rows

namespace Record

variable {r : Record} {name : String}

/-- A field is read as what was written under its key, whatever its kind. -/
theorem read_of_lookup {α : Type} {read : Json → Option α} {write : α → Json} {value : Option α}
    (hread : ∀ a, read (write a) = some a) (hnull : ∀ a, (write a).isNull = false)
    (h : r.members.lookup name = value.map write) : (r.present? name).bind read = value := by
  rw [present?, h]
  cases value with
  | none => rfl
  | some a =>
    rw [Option.map_some, Option.filter_some, hnull]
    exact hread a

theorem string?_of_lookup {s : Option String} (h : r.members.lookup name = s.map .string) :
    r.string? name = s :=
  read_of_lookup (fun _ => rfl) (fun _ => rfl) h

theorem bool?_of_lookup {b : Option Bool} (h : r.members.lookup name = b.map .bool) :
    r.bool? name = b :=
  read_of_lookup (fun _ => rfl) (fun _ => rfl) h

theorem object?_of_lookup {members : Option Members}
    (h : r.members.lookup name = members.map .object) : r.object? name = members :=
  read_of_lookup (fun _ => rfl) (fun _ => rfl) h

theorem text?_of_lookup {s : Option String} (h : r.members.lookup name = s.map .string) :
    r.text? name = s :=
  read_of_lookup (fun _ => rfl) (fun _ => rfl) h

end Record

namespace Choice

variable {c : Choice} {members : Members}

theorem violations_of_hold (h : members.Hold c.fields) (path : Locator) :
    violations path (.object members) = [] := by
  have hlabel : members.lookup "label" = some (.string c.label) := h "label"
  have hvalue : members.lookup "value" = some (.string c.value) := h "value"
  have hselected : members.lookup "selected" = c.selected.map .bool := h "selected"
  have hdisabled : members.lookup "disabled" = c.disabled.map .bool := h "disabled"
  simp only [violations, Json.objectViolations, tableViolations, table, List.flatMap_cons,
    List.flatMap_nil, List.append_eq_nil_iff, and_true]
  exact ⟨Row.requires_of_lookup hlabel rfl, Row.requires_of_lookup hvalue rfl,
    Row.allows_of_lookup hselected fun _ => rfl, Row.allows_of_lookup hdisabled fun _ => rfl⟩

theorem ofRecord_of_hold {r : Record} (h : r.members.Hold c.fields) : ofRecord r = c := by
  have hlabel := Record.string?_of_lookup (s := some c.label) (h "label")
  have hvalue := Record.string?_of_lookup (s := some c.value) (h "value")
  have hselected : r.bool? "selected" = c.selected := Record.bool?_of_lookup (h "selected")
  have hdisabled : r.bool? "disabled" = c.disabled := Record.bool?_of_lookup (h "disabled")
  rw [ofRecord, hlabel, hvalue, hselected, hdisabled]
  rfl

theorem toJson_eq (c : Choice) :
    ∃ members : Members, c.toJson = .object members ∧ members.Hold c.fields :=
  ⟨_, c.encode_eq Json.ofMembers, Members.ofList_present_hold c.nodup_fields⟩

end Choice

namespace Question

/-- A question has choices, at least one, where its type calls for them, and else none. -/
def Lawful (q : Question) : Prop :=
  if q.type = selectboxType then ∃ first rest, q.choices = some (first :: rest) else q.choices = none

variable {q : Question} {members : Members}

theorem violations_of_hold (h : members.Hold (q.fields Json.ofMembers)) (hq : q.Lawful)
    (path : Locator) : violations path (.object members) = [] := by
  have hlabel : members.lookup "label" = some (.string q.label) := h "label"
  have hname : members.lookup "name" = some (.string q.name) := h "name"
  have htype : members.lookup "type" = some (.string q.type) := h "type"
  have hrequired : members.lookup "required" = some (.bool q.required) := h "required"
  have hoptions : members.lookup "options" =
      q.choices.map fun choices => .array (choices.map Choice.toJson) := h "options"
  have hcustom : members.lookup "custom" = q.custom.map .object := h "custom"
  have hchoices : choicesRuleViolations members path = [] := by
    rw [choicesRuleViolations, htype]
    unfold Lawful at hq
    by_cases hs : q.type = selectboxType
    · rw [if_pos hs] at hq
      obtain ⟨first, rest, hchoices⟩ := hq
      rw [hchoices] at hoptions
      simp only [if_pos (show q.type = "selectbox" from hs), hoptions]
      change listViolations (path.key "options") Choice.violations
        ((first :: rest).map Choice.toJson) = []
      rw [listViolations_eq_nil_iff]
      intro i value hi
      rw [List.getElem?_map] at hi
      obtain ⟨c, -, rfl⟩ := Option.map_eq_some_iff.mp hi
      obtain ⟨inner, heq, hold⟩ := c.toJson_eq
      rw [heq]
      exact Choice.violations_of_hold hold _
    · rw [if_neg hs] at hq
      rw [hq] at hoptions
      simp only [if_neg (show ¬q.type = "selectbox" from hs), hoptions]
      rfl
  simp only [violations, Json.objectViolations, tableViolations, table, List.flatMap_cons,
    List.flatMap_nil, List.append_eq_nil_iff, and_true]
  exact ⟨⟨⟨Row.requires_of_lookup hlabel rfl, Row.requires_of_lookup hname rfl,
    Row.requires_of_lookup htype rfl, Row.requires_of_lookup hrequired rfl⟩, hchoices⟩,
    Row.allows_of_lookup hcustom fun _ => rfl⟩

theorem ofRecord_of_hold {r : Record} (h : r.members.Hold (q.fields Json.ofMembers)) (hq : q.Lawful) :
    ofRecord r = q := by
  have hlabel := Record.text?_of_lookup (s := some q.label) (h "label")
  have hname := Record.string?_of_lookup (s := some q.name) (h "name")
  have htype := Record.string?_of_lookup (s := some q.type) (h "type")
  have hrequired := Record.bool?_of_lookup (b := some q.required) (h "required")
  have hoptions : r.members.lookup "options" =
      q.choices.map fun choices => .array (choices.map Choice.toJson) := h "options"
  have hcustom : r.object? "custom" = q.custom := Record.object?_of_lookup (h "custom")
  have hchoices : (ofRecord r).choices = q.choices := by
    simp only [ofRecord, htype, Option.some.injEq]
    unfold Lawful at hq
    by_cases hs : q.type = selectboxType
    · rw [if_pos hs] at hq ⊢
      obtain ⟨first, rest, hchoices⟩ := hq
      rw [hchoices] at hoptions ⊢
      have hvalues := Record.array?_eq_some_iff.mpr hoptions
      rw [hvalues, Option.getD_some, List.map_map]
      have hread (c : Choice) : Choice.ofRecord (Record.ofJson c.toJson) = c := by
        obtain ⟨inner, heq, hold⟩ := c.toJson_eq
        rw [heq]
        exact Choice.ofRecord_of_hold hold
      simp [Function.comp_def, hread]
    · rw [if_neg hs] at hq ⊢
      exact hq.symm
  have hrest : ofRecord r = { q with choices := (ofRecord r).choices } := by
    rw [ofRecord, hlabel, hname, htype, hrequired, hcustom]
    rfl
  rw [hrest, hchoices]

theorem toJson_eq (q : Question) :
    ∃ members : Members, q.toJson = .object members ∧ members.Hold (q.fields Json.ofMembers) :=
  ⟨_, q.encode_eq Json.ofMembers, Members.ofList_present_hold (q.nodup_fields Json.ofMembers)⟩

end Question

namespace Config

/-- Each question of a configuration keeps the rule about choices. -/
def Lawful (c : Config) : Prop :=
  ∀ q ∈ c.questions, q.Lawful

variable {c : Config} {members : Members}

theorem violations_of_hold (h : members.Hold (c.fields Json.ofMembers)) (hc : c.Lawful) :
    violations (.object members) = [] := by
  have hemail : members.lookup "email" = some (.string c.email) := h "email"
  have htitle : members.lookup "title" = some (.string c.title) := h "title"
  have hsubject : members.lookup "subject" = some (.string c.subject) := h "subject"
  have hquestions : members.lookup "questions" =
      some (.array (c.questions.map Question.toJson)) := h "questions"
  have hurl : members.lookup "form_backend_url" = c.backendUrl.map .string := h "form_backend_url"
  have hupload : members.lookup "ignore_file_upload" = c.ignoreFileUpload.map .bool :=
    h "ignore_file_upload"
  have hinstructions : members.lookup "instructions" = c.instructions.map .string :=
    h "instructions"
  have heach : listViolations (Locator.root.key "questions") Question.violations
      (c.questions.map Question.toJson) = [] := by
    rw [listViolations_eq_nil_iff]
    intro i value hi
    rw [List.getElem?_map] at hi
    obtain ⟨q, hq, rfl⟩ := Option.map_eq_some_iff.mp hi
    obtain ⟨inner, heq, hold⟩ := q.toJson_eq
    rw [heq]
    exact Question.violations_of_hold hold (hc q (List.mem_of_getElem? hq)) _
  simp only [violations, Json.objectViolations, tableViolations, table, List.flatMap_cons,
    List.flatMap_nil, List.append_eq_nil_iff, and_true]
  refine ⟨⟨Row.requires_of_lookup hemail rfl, Row.requires_of_lookup htitle rfl,
    Row.requires_of_lookup hsubject rfl, Row.requires_of_lookup hquestions rfl,
    Row.allows_of_lookup hurl fun _ => rfl, Row.allows_of_lookup hupload fun _ => rfl,
    Row.allows_of_lookup hinstructions fun _ => rfl⟩, ?_⟩
  rw [questionsViolations_of_array hquestions]
  exact heach

theorem ofRecord_of_hold {r : Record} (h : r.members.Hold (c.fields Json.ofMembers))
    (hc : c.Lawful) : ofRecord r = c := by
  have hemail := Record.string?_of_lookup (s := some c.email) (h "email")
  have htitle := Record.string?_of_lookup (s := some c.title) (h "title")
  have hsubject := Record.string?_of_lookup (s := some c.subject) (h "subject")
  have hquestions : r.array? "questions" = some (c.questions.map Question.toJson) :=
    Record.array?_eq_some_iff.mpr (h "questions")
  have hurl : r.string? "form_backend_url" = c.backendUrl :=
    Record.string?_of_lookup (h "form_backend_url")
  have hupload : r.bool? "ignore_file_upload" = c.ignoreFileUpload :=
    Record.bool?_of_lookup (h "ignore_file_upload")
  have hinstructions : r.text? "instructions" = c.instructions :=
    Record.text?_of_lookup (h "instructions")
  have heach : (c.questions.map Question.toJson).map
      (fun value => Question.ofRecord (.ofJson value)) = c.questions := by
    rw [List.map_map]
    conv_rhs => rw [← List.map_id c.questions]
    apply List.map_congr_left
    intro q hq
    obtain ⟨inner, heq, hold⟩ := q.toJson_eq
    simp only [Function.comp_apply, heq]
    exact Question.ofRecord_of_hold hold (hc q hq)
  rw [ofRecord, hemail, htitle, hsubject, hquestions, hurl, hupload, hinstructions]
  simp only [Option.getD_some, heach]

/-- A configuration that keeps the rule about choices is what is checked out of its own JSON value. -/
theorem check_toJson (hc : c.Lawful) : (check c.toJson).outcome = .ok c := by
  have hold : Members.Hold (Members.ofList (Members.present (c.fields Json.ofMembers)))
      (c.fields Json.ofMembers) := Members.ofList_present_hold (c.nodup_fields Json.ofMembers)
  have hjson : c.toJson = .object _ := c.encode_eq Json.ofMembers
  rw [hjson, check_outcome, violations_of_hold hold hc, ofRecord_of_hold hold hc]
  rfl

end Config

end ContactForm
