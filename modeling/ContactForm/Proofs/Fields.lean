import ContactForm.Config
import ContactForm.Proofs.Json.Members

namespace ContactForm

/-- The members for the fields that have a value. -/
def Members.present (fields : List (String × Option Json)) : Members :=
  fields.flatMap fun field => optionalMember field.1 field.2

namespace Members

variable {fields : List (String × Option Json)}

theorem nodup_keys_present (h : (fields.map (·.1)).Nodup) :
    ((present fields).map (·.1)).Nodup := by
  refine h.sublist ?_
  clear h
  induction fields with
  | nil => exact List.Sublist.slnil
  | cons field fields ih =>
    obtain ⟨name, value⟩ := field
    rw [present, List.flatMap_cons, List.map_append, ← present]
    cases value with
    | none => exact ih.cons name
    | some value => exact ih.cons_cons name

theorem lookup_present (h : (fields.map (·.1)).Nodup) (key : String) :
    (present fields).lookup key = (fields.lookup key).join := by
  induction fields with
  | nil => rfl
  | cons field fields ih =>
    obtain ⟨name, value⟩ := field
    rw [List.map_cons, List.nodup_cons] at h
    have hrest := ih h.2
    rw [present, List.flatMap_cons, ← present]
    by_cases hk : key = name
    · subst hk
      rw [lookup_eq_none_of_not_mem h.1] at hrest
      cases value <;> simp [optionalMember, hrest]
    · have hb : (key == name) = false := by simpa using hk
      cases value <;> simp [optionalMember, hrest, List.lookup_cons, hb]

/-- An object with the values of the fields under their keys and no other keys is what the fields are written as. -/
theorem ofList_present_eq {members : Members} (hf : (fields.map (·.1)).Nodup)
    (hm : Ascending members) (h : ∀ key, members.lookup key = (fields.lookup key).join) :
    ofList (present fields) = members := by
  apply (ofList_ascending _).ext hm
  intro key
  rw [lookup_ofList (nodup_keys_present hf), lookup_present hf, h]

end Members

namespace Choice

/-- What a choice is written as under each of its keys. -/
def fields (c : Choice) : List (String × Option Json) := [
  ("label", some (.string c.label)),
  ("value", some (.string c.value)),
  ("selected", c.selected.map .bool),
  ("disabled", c.disabled.map .bool)]

theorem encode_eq (object : Members → Json) (c : Choice) :
    c.encode object = object (Members.present c.fields) := by
  simp [encode, Members.present, fields, optionalMember]

theorem nodup_fields (c : Choice) : (c.fields.map (·.1)).Nodup := by
  simp [fields]

end Choice

namespace Question

/-- What a question is written as under each of its keys, with `object` for its choices. -/
def fields (object : Members → Json) (q : Question) : List (String × Option Json) := [
  ("label", some (.string q.label)),
  ("name", some (.string q.name)),
  ("type", some (.string q.type)),
  ("required", some (.bool q.required)),
  ("options", q.choices.map fun choices => .array (choices.map (Choice.encode object))),
  ("custom", q.custom.map .object)]

theorem encode_eq (object : Members → Json) (q : Question) :
    q.encode object = object (Members.present (q.fields object)) := by
  simp [encode, Members.present, fields, optionalMember]

theorem nodup_fields (object : Members → Json) (q : Question) :
    ((q.fields object).map (·.1)).Nodup := by
  simp [fields]

end Question

namespace Config

/-- What a configuration is written as under each of its keys, with `object` for its questions. -/
def fields (object : Members → Json) (c : Config) : List (String × Option Json) := [
  ("email", some (.string c.email)),
  ("title", some (.string c.title)),
  ("subject", some (.string c.subject)),
  ("questions", some (.array (c.questions.map (Question.encode object)))),
  ("form_backend_url", c.backendUrl.map .string),
  ("ignore_file_upload", c.ignoreFileUpload.map .bool),
  ("instructions", c.instructions.map .string)]

theorem encode_eq (object : Members → Json) (c : Config) :
    c.encode object = object (Members.present (c.fields object)) := by
  simp [encode, Members.present, fields, optionalMember]

theorem nodup_fields (object : Members → Json) (c : Config) :
    ((c.fields object).map (·.1)).Nodup := by
  simp [fields]

end Config

end ContactForm
