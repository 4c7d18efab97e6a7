import ContactForm.Proofs.Json.Edits
import ContactForm.Proofs.Validation.RepeatedNames
import ContactForm.Proofs.Validation.Trace

namespace ContactForm

/-- The objects of a document whose keys mean something. -/
inductive Level where
  | document | question | choice

namespace Level

/-- The level of the object at a place, where it has one. -/
def at? : Locator → Option Level
  | [] => some .document
  | [.key a, .index _] => if a = "questions" then some .question else none
  | [.key a, .index _, .key b, .index _] =>
    if a = "questions" ∧ b = "options" then some .choice else none
  | _ => none

def declared : Level → List String
  | .document => ["email", "title", "subject", "questions", "form_backend_url", "ignore_file_upload",
    "instructions"]
  | .question => ["label", "name", "type", "required", "options", "custom"]
  | .choice => ["label", "value", "selected", "disabled"]

theorem at?_eq_some_iff (here : Locator) (level : Level) :
    at? here = some level ↔
      match level with
      | .document => here = []
      | .question => ∃ i, here = [.key "questions", .index i]
      | .choice => ∃ i j, here = [.key "questions", .index i, .key "options", .index j] := by
  constructor
  · intro h
    unfold at? at h
    split at h
    · obtain rfl := Option.some.inj h
      rfl
    · next i =>
      split at h
      · next ha =>
        obtain rfl := Option.some.inj h
        exact ⟨i, by rw [ha]⟩
      · cases h
    · next i b j =>
      split at h
      · next hab =>
        obtain rfl := Option.some.inj h
        exact ⟨i, j, by rw [hab.1, hab.2]⟩
      · cases h
    · cases h
  · cases level with
    | document =>
      intro heq
      obtain rfl := heq
      rfl
    | question =>
      intro entry
      obtain ⟨i, rfl⟩ := entry
      simp [at?]
    | choice =>
      intro hfound
      obtain ⟨i, j, rfl⟩ := hfound
      simp [at?]

end Level

theorem Locator.key_inj {p q : Locator} {a b : String} (h : p.key a = q.key b) : p = q ∧ a = b := by
  obtain ⟨hp, hs⟩ := List.append_inj' h rfl
  simpa using And.intro hp hs

/-- A place in a document with a key that its object does not declare. -/
def Config.Undeclared (document : Json) (place : Locator) : Prop :=
  ∃ (level : Level) (here : Locator) (key : String), Level.at? here = some level ∧
    place = here.key key ∧ (document.at? place).isSome ∧ key ∉ level.declared

/-- The place of a key of a value that is not among the declared ones. -/
def Json.UnknownKey (declared : List String) (path place : Locator) (value : Json) : Prop :=
  ∃ key, place = path.key key ∧ (value.at? [.key key]).isSome ∧ key ∉ declared

theorem mem_undeclared_iff (table : List Row) (members : Members) (key : String) :
    key ∈ undeclared table members ↔ (members.lookup key).isSome ∧ key ∉ table.map (·.name) := by
  have hlookup : (members.lookup key).isSome ↔ key ∈ members.map (·.1) := by
    rw [← not_iff_not, Option.not_isSome_iff_eq_none, List.lookup_eq_none_iff, List.mem_map]
    simp only [bne_iff_ne, not_exists, not_and, ne_comm, ne_eq]
  rw [hlookup]
  simp [undeclared]

theorem mem_undeclaredWarnings_iff (table : List Row) (path : Locator) (members : Members)
    (place : Locator) :
    .unknownField place ∈ undeclaredWarnings table path members ↔
      Json.UnknownKey (table.map (·.name)) path place (.object members) := by
  simp only [undeclaredWarnings, List.mem_map, mem_undeclared_iff, Json.UnknownKey, Json.at?_key,
    Warning.unknownField.injEq]
  constructor
  · intro hfound
    obtain ⟨key, hkey, rfl⟩ := hfound
    exact ⟨key, rfl, hkey⟩
  · intro hfound
    obtain ⟨key, rfl, hkey⟩ := hfound
    exact ⟨key, hkey, rfl⟩

theorem listViolations_eq_nil_iff (path : Locator) (violations : Locator → Json → List Violation)
    (values : List Json) : listViolations path violations values = [] ↔
      ∀ i value, values[i]? = some value → violations (path.index i) value = [] := by
  rw [listViolations, List.flatMap_eq_nil_iff]
  constructor
  · intro h i value hi
    exact h (value, i) (List.mk_mem_zipIdx_iff_getElem?.mpr hi)
  · intro h entry hmem
    obtain ⟨value, i⟩ := entry
    exact h i value (List.mk_mem_zipIdx_iff_getElem?.mp hmem)

theorem mem_listTrace_iff {path : Locator} {violations : Locator → Json → List Violation}
    {trace : Locator → Json → List Warning} {values : List Json}
    (h : listViolations path violations values = []) (w : Warning) :
    w ∈ listTrace path violations trace values ↔
      ∃ i value, values[i]? = some value ∧ w ∈ trace (path.index i) value := by
  rw [listViolations_eq_nil_iff] at h
  rw [listTrace, throughFirst_eq_self]
  · rw [List.mem_flatMap]
    constructor
    · intro hfound
      obtain ⟨⟨value, i⟩, hmem, hw⟩ := hfound
      exact ⟨i, value, List.mk_mem_zipIdx_iff_getElem?.mp hmem, hw⟩
    · intro hfound
      obtain ⟨i, value, hi, hw⟩ := hfound
      exact ⟨(value, i), List.mk_mem_zipIdx_iff_getElem?.mpr hi, hw⟩
  · intro entry hmem
    obtain ⟨value, i⟩ := entry
    simp [h i value (List.mk_mem_zipIdx_iff_getElem?.mp hmem)]

theorem Choice.mem_trace_iff {path : Locator} {value : Json} (h : violations path value = [])
    (place : Locator) :
    .unknownField place ∈ trace path value ↔
      Json.UnknownKey Level.choice.declared path place value := by
  cases value with
  | object members =>
    change tableViolations members path table = [] at h
    rw [trace, h, List.isEmpty_nil, if_pos rfl, mem_undeclaredWarnings_iff]
    rfl
  | _ => simp [violations, Json.objectViolations] at h

namespace Question

/-- The choices of a question in order are an array of choices in order, or there are none. -/
theorem choices_of_valid {path : Locator} {members : Members}
    (h : violations path (.object members) = []) :
    (∃ values, members.lookup "type" = some (.string "selectbox") ∧
      members.lookup "options" = some (.array values) ∧ values ≠ [] ∧
      listViolations (path.key "options") Choice.violations values = []) ∨
    (∃ type, members.lookup "type" = some (.string type) ∧ type ≠ "selectbox" ∧
      (members.lookup "options" = none ∨ members.lookup "options" = some .null)) := by
  simp only [violations, Json.objectViolations, List.append_eq_nil_iff] at h
  obtain ⟨⟨hrows, hchoices⟩, -⟩ := h
  simp only [tableViolations, table, List.flatMap_cons, List.append_eq_nil_iff] at hrows
  obtain ⟨type, ht⟩ := Row.string_of_requires (r := ⟨members, path⟩) hrows.2.2.1
  have hlookup := Record.string?_eq_some_iff.mp ht
  rw [choicesRuleViolations, hlookup] at hchoices
  by_cases hs : type = "selectbox"
  · subst hs
    left
    simp only [↓reduceIte] at hchoices
    cases ho : members.lookup "options" with
    | none => simp [ho, choicesViolations] at hchoices
    | some value =>
      rw [ho] at hchoices
      cases value with
      | array values =>
        cases values with
        | nil => cases hchoices
        | cons first rest => exact ⟨first :: rest, hlookup, rfl, by simp, hchoices⟩
      | _ => cases hchoices
  · right
    refine ⟨type, hlookup, hs, ?_⟩
    simp only [hs, ↓reduceIte] at hchoices
    cases ho : members.lookup "options" with
    | none => exact .inl rfl
    | some value =>
      rw [ho] at hchoices
      cases value with
      | null => exact .inr rfl
      | _ => cases hchoices

theorem mem_trace_iff {path : Locator} {value : Json} (h : violations path value = [])
    (place : Locator) :
    .unknownField place ∈ trace path value ↔
      Json.UnknownKey Level.question.declared path place value ∨
      ∃ j choice, value.at? [.key "options", .index j] = some choice ∧
        Json.UnknownKey Level.choice.declared ((path.key "options").index j) place choice := by
  cases value with
  | object members =>
    have hrows := h
    simp only [violations, Json.objectViolations, List.append_eq_nil_iff] at hrows
    rw [trace, hrows.1.1, List.isEmpty_nil, if_pos rfl, List.mem_append, mem_undeclaredWarnings_iff]
    refine or_congr Iff.rfl ?_
    obtain ⟨values, ht, ho, -, hv⟩ | ⟨type, ht, hs, ho⟩ := choices_of_valid h
    · have hat (j : Nat) : (Json.object members).at? [.key "options", .index j] = values[j]? := by
        cases hj : values[j]? <;> simp [Json.at?, ho, hj]
      rw [choicesTrace, ht, ho]
      simp only [↓reduceIte, mem_listTrace_iff hv, hat]
      refine exists_congr fun j => exists_congr fun choice => and_congr_right fun hj => ?_
      exact Choice.mem_trace_iff ((listViolations_eq_nil_iff _ _ _).mp hv j choice hj) place
    · have hat (j : Nat) : (Json.object members).at? [.key "options", .index j] = none := by
        obtain ho | ho := ho <;> simp [Json.at?, ho]
      have hnone : choicesTrace path members = [] := by
        obtain ho | ho := ho <;> simp [choicesTrace, ht, ho]
      simp [hnone, hat]
  | _ => simp [violations, Json.objectViolations] at h

end Question

namespace Config

theorem questions_of_valid {members : Members} (h : violations (.object members) = []) :
    ∃ values, members.lookup "questions" = some (.array values) ∧
      listViolations (Locator.root.key "questions") Question.violations values = [] := by
  simp only [violations, Json.objectViolations, List.append_eq_nil_iff] at h
  obtain ⟨hrows, hquestions⟩ := h
  simp only [tableViolations, table, List.flatMap_cons, List.append_eq_nil_iff] at hrows
  obtain ⟨values, hv⟩ := Row.array_of_requires (r := ⟨members, .root⟩) hrows.2.2.2.1
  have hlookup := Record.array?_eq_some_iff.mp hv
  exact ⟨values, hlookup, (questionsViolations_of_array hlookup).symm.trans hquestions⟩

theorem undeclared_iff (document : Json) (place : Locator) :
    Undeclared document place ↔
      ∃ level here value, Level.at? here = some level ∧ document.at? here = some value ∧
        Json.UnknownKey level.declared here place value := by
  constructor
  · intro hfound
    obtain ⟨level, here, key, hlevel, rfl, hsome, hkey⟩ := hfound
    rw [Locator.key, Json.at?_append] at hsome
    obtain ⟨value, hvalue⟩ := Option.isSome_of_isSome_bind hsome |> Option.isSome_iff_exists.mp
    rw [hvalue] at hsome
    exact ⟨level, here, value, hlevel, hvalue, key, rfl, hsome, hkey⟩
  · intro hfound
    obtain ⟨level, here, value, hlevel, hvalue, key, rfl, hsome, hkey⟩ := hfound
    refine ⟨level, here, key, hlevel, rfl, ?_, hkey⟩
    rw [Locator.key, Json.at?_append, hvalue]
    exact hsome

/-- The warnings about unknown fields name the undeclared keys of the document, of its questions and of their
    choices. -/
theorem unknownField_mem_warnings_iff {document : Json} (h : violations document = [])
    (place : Locator) :
    .unknownField place ∈ (check document).warnings ↔ Undeclared document place := by
  rw [check_warnings, undeclared_iff]
  cases document with
  | object members =>
    have hrows := h
    simp only [violations, Json.objectViolations, List.append_eq_nil_iff] at hrows
    obtain ⟨values, hq, hv⟩ := questions_of_valid h
    have hat (i : Nat) : (Json.object members).at? [.key "questions", .index i] = values[i]? := by
      cases hi : values[i]? <;> simp [Json.at?, hq, hi]
    have htrace (i : Nat) (question : Json) (hi : values[i]? = some question) :=
      Question.mem_trace_iff ((listViolations_eq_nil_iff _ _ _).mp hv i question hi) place
    rw [trace, h, hrows.1, questionsTrace, hq]
    simp only [List.isEmpty_nil, if_true, List.mem_append, mem_undeclaredWarnings_iff,
      repeatedNames_eq, unknownField_not_mem_nameWarnings, or_false, mem_listTrace_iff hv]
    constructor
    · intro hfound
      obtain hw | ⟨i, question, hi, hw⟩ := hfound
      · exact ⟨.document, [], _, rfl, rfl, hw⟩
      · obtain hw | ⟨j, choice, hj, hw⟩ := (htrace i question hi).mp hw
        · exact ⟨.question, _, question, (Level.at?_eq_some_iff _ _).mpr ⟨i, rfl⟩,
            (hat i).trans hi, hw⟩
        · refine ⟨.choice, _, choice, (Level.at?_eq_some_iff _ _).mpr ⟨i, j, rfl⟩, ?_, hw⟩
          change (Json.object members).at?
            ([.key "questions", .index i] ++ [.key "options", .index j]) = some choice
          rw [Json.at?_append, hat, hi, Option.bind_some, hj]
    · intro hfound
      obtain ⟨level, here, value, hlevel, hvalue, hw⟩ := hfound
      rw [Level.at?_eq_some_iff] at hlevel
      cases level with
      | document =>
        obtain rfl := hlevel
        obtain rfl := Option.some.inj hvalue
        exact .inl hw
      | question =>
        obtain ⟨i, rfl⟩ := hlevel
        have hi := (hat i).symm.trans hvalue
        exact .inr ⟨i, value, hi, (htrace i value hi).mpr (.inl hw)⟩
      | choice =>
        obtain ⟨i, j, rfl⟩ := hlevel
        change (Json.object members).at?
          ([.key "questions", .index i] ++ [.key "options", .index j]) = some value at hvalue
        rw [Json.at?_append, hat, Option.bind_eq_some_iff] at hvalue
        obtain ⟨question, hi, hj⟩ := hvalue
        exact .inr ⟨i, question, hi, (htrace i question hi).mpr (.inr ⟨j, value, hj, hw⟩)⟩
  | _ => simp [violations, Json.objectViolations] at h

end Config

end ContactForm
