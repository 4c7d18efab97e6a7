import ContactForm.Proofs.Validation.Outcome
import ContactForm.Proofs.Validation.TableRows

namespace ContactForm

/-- The accessor for an optional field of a shape. -/
def Record.optional? (r : Record) (name : String) : (shape : Shape) → Option shape.Value
  | .string => r.string? name
  | .boolean => r.bool? name
  | .array => r.array? name
  | .object => r.object? name
  | .text => r.text? name

/-- What the accessor for a required field of a shape gives. -/
def Record.Gives (r : Record) (name : String) : (shape : Shape) → shape.Value → Prop
  | .string, s => r.string name = .ok s
  | .boolean, b => r.bool name = .ok b
  | .array, items => r.array? name = some items
  | .object, members => r.object? name = some members
  | .text, s => r.text name = .ok s

namespace Record

section Read

variable {r : Record}

theorem optional?_eq_some_iff {name : String} {shape : Shape} {value : shape.Value} :
    r.optional? name shape = some value ↔
      ∃ json, r.members.lookup name = some json ∧ shape.Takes json value := by
  cases shape with
  | string => simp [optional?, string?_eq_some_iff, Shape.Takes]
  | boolean => simp [optional?, bool?_eq_some_iff, Shape.Takes]
  | array => simp [optional?, array?_eq_some_iff, Shape.Takes]
  | object => simp [optional?, object?_eq_some_iff, Shape.Takes]
  | text =>
    refine text?_eq_some_iff.trans (exists_congr fun json => and_congr_right fun _ => ?_)
    exact Shape.textOf?_eq_some_iff

/-- The accessors for required fields give what those for optional fields do. -/
theorem gives_iff {name : String} {shape : Shape} {value : shape.Value} :
    r.Gives name shape value ↔ r.optional? name shape = some value := by
  cases shape with
  | string => unfold Gives string optional?; cases r.string? name <;> simp
  | boolean => unfold Gives bool optional?; cases r.bool? name <;> simp
  | text => unfold Gives text optional?; cases r.text? name <;> simp
  | array => exact Iff.rfl
  | object => exact Iff.rfl

variable {row : Row}

theorem gives_of_kept (h : row.Kept r.members) (hrequired : row.required = true) :
    ∃ json value, r.members.lookup row.name = some json ∧ row.shape.Takes json value ∧
      r.Gives row.name row.shape value := by
  obtain ⟨json, value, hlookup, htakes⟩ | ⟨hoptional, -⟩ := h
  · exact ⟨json, value, hlookup, htakes, gives_iff.mpr (optional?_eq_some_iff.mpr ⟨json, hlookup, htakes⟩)⟩
  · simp [hoptional] at hrequired

theorem optional?_of_kept {json : Json} (h : row.Kept r.members)
    (hlookup : r.members.lookup row.name = some json) (hnull : json ≠ .null) :
    ∃ value, row.shape.Takes json value ∧ r.optional? row.name row.shape = some value := by
  obtain ⟨json', value, hlookup', htakes⟩ | ⟨-, hblank⟩ := h
  · obtain rfl := Option.some.inj (hlookup.symm.trans hlookup')
    exact ⟨value, htakes, optional?_eq_some_iff.mpr ⟨json, hlookup, htakes⟩⟩
  · exact absurd (by simpa [hlookup] using hblank) hnull

theorem optional?_eq_none_iff (h : row.Kept r.members) :
    r.optional? row.name row.shape = none ↔
      r.members.lookup row.name = none ∨ r.members.lookup row.name = some .null := by
  constructor
  · intro hnone
    cases hlookup : r.members.lookup row.name with
    | none => exact .inl rfl
    | some json =>
      by_cases hnull : json = .null
      · exact .inr (congrArg some hnull)
      · obtain ⟨value, -, hsome⟩ := optional?_of_kept h hlookup hnull
        cases hnone.symm.trans hsome
  · intro hblank
    rw [Option.eq_none_iff_forall_ne_some]
    intro value hsome
    obtain ⟨json, hlookup, htakes⟩ := optional?_eq_some_iff.mp hsome
    exact htakes.ne_null (by simpa [hlookup] using hblank)

end Read

variable {table : List Row} {members : Members} {path : Locator}

theorem ofTable_eq_ok_iff {r : Record} :
    ofTable table members path = .ok r ↔ (∀ row ∈ table, row.Kept members) ∧ r = ⟨members, path⟩ := by
  rw [← checkTable_ok_iff _ path, ofTable]
  cases checkTable members path table <;> simp [bind, Except.bind, pure, Except.pure, eq_comm]

theorem ofTable_eq_error_iff {v : Violation} :
    ofTable table members path = .error v ↔ checkTable members path table = .error v := by
  rw [ofTable]
  cases checkTable members path table <;> simp [bind, Except.bind, pure, Except.pure]

theorem exists_ofTable_error_iff :
    (∃ v, ofTable table members path = .error v) ↔ ∃ row ∈ table, ¬row.Kept members := by
  have hok := checkTable_ok_iff members path table
  simp only [ofTable_eq_error_iff]
  cases h : checkTable members path table with
  | ok u =>
    rw [h] at hok
    simpa using hok
  | error v =>
    rw [h] at hok
    simpa using hok

end Record

/-- What comes after a step only has to agree on what the step can give. -/
theorem Review.lift_bind_congr {ε α β : Type} {outcome : Except ε α} {next next' : α → Review ε β}
    (h : ∀ a, outcome = .ok a → next a = next' a) :
    (liftM outcome : Review ε α) >>= next = liftM outcome >>= next' := by
  cases outcome with
  | error e => rfl
  | ok a => rw [lift_ok_bind, lift_ok_bind, h a rfl]

/-- What a check falls back on: the violation it reports of a required field without a usable value, and the questions
    of a document that has no array of them. -/
structure Fallback where
  unusable : Record → String → Shape → Violation
  questions : List Json

namespace Fallback

/-- What the checks do fall back on. -/
def standard : Fallback := ⟨Record.unusable, []⟩

section Checks

variable (f : Fallback)

def string (r : Record) (name : String) : Except Violation String :=
  match r.string? name with
  | some s => .ok s
  | none => .error (f.unusable r name .string)

def bool (r : Record) (name : String) : Except Violation Bool :=
  match r.bool? name with
  | some b => .ok b
  | none => .error (f.unusable r name .boolean)

def text (r : Record) (name : String) : Except Violation String :=
  match r.text? name with
  | some s => .ok s
  | none => .error (f.unusable r name .text)

/-- `Choice.check` with another fallback. -/
def choice (path : Locator) (value : Json) : Review Violation Choice := do
  let members ← value.expectObject path
  let record ← Record.ofTable Choice.table members path
  warnUndeclared Choice.table members path
  return {
    label := ← f.string record "label"
    value := ← f.string record "value"
    selected := record.bool? "selected"
    disabled := record.bool? "disabled" }

/-- `Question.checkChoices` with another fallback. -/
def choices (record : Record) : Review Violation (List Choice) := do
  let path := record.path.key "options"
  Question.choicesRow.check record.members record.path
  match record.array? "options" with
  | none => .fail ⟨path, .emptyOptions "absent"⟩
  | some [] => .fail ⟨path, .emptyOptions "empty array"⟩
  | some values => Review.each (fun i value => f.choice (path.index i) value) values

/-- `Question.readChoices` with another fallback. -/
def readChoices (record : Record) (type : String) : Review Violation (Option (List Choice)) :=
  if type = Question.selectboxType then do return some (← f.choices record)
  else do
    Question.forbidChoices record type
    return none

/-- `Question.check` with another fallback. -/
def question (path : Locator) (value : Json) : Review Violation Question := do
  let members ← value.expectObject path
  let record ← Record.ofTable Question.table members path
  warnUndeclared Question.declared members path
  let type ← f.string record "type"
  let choices ← f.readChoices record type
  Question.customRow.check members path
  return {
    label := ← f.text record "label"
    name := ← f.string record "name"
    type
    required := ← f.bool record "required"
    choices
    custom := record.object? "custom" }

/-- `Config.check` with another fallback. -/
def config (document : Json) : Review Violation Config := do
  let path := Locator.root
  let members ← document.expectObject path
  let record ← Record.ofTable Config.table members path
  warnUndeclared Config.table members path
  let path := path.key "questions"
  let questions ← Review.each (fun i value => f.question (path.index i) value)
    ((record.array? "questions").getD f.questions)
  Review.warn (Config.repeatedNames path questions)
  return {
    email := ← f.string record "email"
    title := ← f.string record "title"
    subject := ← f.string record "subject"
    questions
    backendUrl := record.string? "form_backend_url"
    ignoreFileUpload := record.bool? "ignore_file_upload"
    instructions := record.text? "instructions" }

end Checks

theorem choice_standard : standard.choice = Choice.check := rfl

theorem question_standard : standard.question = Question.check := rfl

theorem config_standard : standard.config = Config.check := rfl

variable (f g : Fallback)

section Accessors

variable {table : List Row} {members : Members} {path : Locator} {r : Record}
  (hr : Record.ofTable table members path = .ok r)

include hr

/-- A required row of a table that was passed has a value. -/
theorem exists_gives_of_ofTable {name : String} {shape : Shape} (hrow : .requires name shape ∈ table) :
    ∃ value, r.optional? name shape = some value := by
  obtain ⟨hkept, rfl⟩ := Record.ofTable_eq_ok_iff.mp hr
  obtain ⟨_, value, -, -, hgives⟩ := Record.gives_of_kept (r := ⟨members, path⟩) (hkept _ hrow) rfl
  exact ⟨value, Record.gives_iff.mp hgives⟩

theorem string_eq {name : String} (hrow : .requires name .string ∈ table) : f.string r name = g.string r name := by
  obtain ⟨s, hs⟩ := exists_gives_of_ofTable hr hrow
  simp only [string, show r.string? name = some s from hs]

theorem bool_eq {name : String} (hrow : .requires name .boolean ∈ table) : f.bool r name = g.bool r name := by
  obtain ⟨b, hb⟩ := exists_gives_of_ofTable hr hrow
  simp only [bool, show r.bool? name = some b from hb]

theorem text_eq {name : String} (hrow : .requires name .text ∈ table) : f.text r name = g.text r name := by
  obtain ⟨s, hs⟩ := exists_gives_of_ofTable hr hrow
  simp only [text, show r.text? name = some s from hs]

theorem array_getD_eq {name : String} (hrow : .requires name .array ∈ table) (none none' : List Json) :
    (r.array? name).getD none = (r.array? name).getD none' := by
  obtain ⟨items, hitems⟩ := exists_gives_of_ofTable hr hrow
  simp only [show r.array? name = some items from hitems, Option.getD_some]

end Accessors

theorem choice_eq : f.choice = g.choice := by
  funext path value
  refine Review.lift_bind_congr fun members _ => Review.lift_bind_congr fun r hr => ?_
  simp only [string_eq f g hr (show .requires "label" .string ∈ Choice.table by decide),
    string_eq f g hr (show .requires "value" .string ∈ Choice.table by decide)]

theorem readChoices_eq : f.readChoices = g.readChoices := by
  funext record type
  simp only [readChoices, choices, choice_eq f g]

theorem question_eq : f.question = g.question := by
  funext path value
  refine Review.lift_bind_congr fun members _ => Review.lift_bind_congr fun r hr => ?_
  simp only [string_eq f g hr (show .requires "type" .string ∈ Question.table by decide),
    text_eq f g hr (show .requires "label" .text ∈ Question.table by decide),
    string_eq f g hr (show .requires "name" .string ∈ Question.table by decide),
    bool_eq f g hr (show .requires "required" .boolean ∈ Question.table by decide), readChoices_eq f g]

theorem config_eq : f.config = g.config := by
  funext document
  refine Review.lift_bind_congr fun members _ => Review.lift_bind_congr fun r hr => ?_
  simp only [string_eq f g hr (show .requires "email" .string ∈ Config.table by decide),
    string_eq f g hr (show .requires "title" .string ∈ Config.table by decide),
    string_eq f g hr (show .requires "subject" .string ∈ Config.table by decide),
    array_getD_eq hr (show .requires "questions" .array ∈ Config.table by decide) f.questions g.questions,
    question_eq f g]

end Fallback

namespace Record

/-- What passes a table has what its accessors read: the value of every required field, and of an optional one unless
    it is absent or null. What does not is refused for the first row that is broken. So it makes no difference what
    the checks fall back on where an accessor would find nothing. -/
theorem ofTable_makes_accessors_total :
    (∀ table members path r, ofTable table members path = .ok r → r.members = members ∧ ∀ row ∈ table,
      (row.required = true → ∃ json value, members.lookup row.name = some json ∧ row.shape.Takes json value ∧
        r.Gives row.name row.shape value) ∧
      (row.required = false →
        (r.optional? row.name row.shape = none ↔
          members.lookup row.name = none ∨ members.lookup row.name = some .null) ∧
        ∀ json, members.lookup row.name = some json → json ≠ .null →
          ∃ value, row.shape.Takes json value ∧ r.optional? row.name row.shape = some value)) ∧
    (∀ table members path,
      (∃ v, ofTable table members path = .error v) ↔ ∃ row ∈ table, ¬row.Kept members) ∧
    (∀ table members path v, ofTable table members path = .error v ↔
      ∃ before row after, table = before ++ row :: after ∧ (∀ earlier ∈ before, earlier.Kept members) ∧
        row.Breaks members path v) ∧
    ∀ f : Fallback, f.choice = Choice.check ∧ f.question = Question.check ∧ f.config = Config.check := by
  refine ⟨?_, fun _ _ _ => exists_ofTable_error_iff, ?_, ?_⟩
  · intro table members path r hr
    obtain ⟨hkept, rfl⟩ := ofTable_eq_ok_iff.mp hr
    refine ⟨rfl, fun row hrow => ⟨gives_of_kept (r := ⟨members, path⟩) (hkept row hrow), fun _ => ?_⟩⟩
    refine ⟨optional?_eq_none_iff (r := ⟨members, path⟩) (hkept row hrow), fun json hlookup hnull => ?_⟩
    exact optional?_of_kept (r := ⟨members, path⟩) (hkept row hrow) hlookup hnull
  · intro table members path v
    rw [ofTable_eq_error_iff, checkTable_error_iff]
  · intro f
    refine ⟨?_, ?_, ?_⟩
    · rw [Fallback.choice_eq f .standard, Fallback.choice_standard]
    · rw [Fallback.question_eq f .standard, Fallback.question_standard]
    · rw [Fallback.config_eq f .standard, Fallback.config_standard]

/-- A table that has a row of each sort. -/
def mixedTable : List Row := [
  .requires "label" .text, .allows "label" .array, .allows "note" .string, .requires "options" .array]

def mixedMembers : Members := [
  ("label", .array [.string "Fill out", .string "the form"]), ("note", .null), ("options", .array [.bool true])]

theorem ofTable_makes_accessors_total_of_mixedMembers :
    ∃ r, ofTable mixedTable mixedMembers .root = .ok r ∧ r.text "label" = .ok "Fill out the form" ∧
      r.string? "note" = none ∧ ∃ items, r.array? "options" = some items := by
  have hr : ofTable mixedTable mixedMembers .root = .ok ⟨mixedMembers, .root⟩ := rfl
  obtain ⟨-, hrows⟩ := ofTable_makes_accessors_total.1 _ _ _ _ hr
  obtain ⟨json, text, hlookup, htakes, htext⟩ := (hrows (.requires "label" .text) (by decide)).1 rfl
  obtain ⟨hnote, -⟩ := (hrows (.allows "note" .string) (by decide)).2 rfl
  obtain ⟨_, items, -, -, hitems⟩ := (hrows (.requires "options" .array) (by decide)).1 rfl
  have hjson : json = .array [.string "Fill out", .string "the form"] := (Option.some.inj hlookup).symm
  have hlabel : text = "Fill out the form" := by
    obtain hstring | ⟨lines, hlines, hjoined⟩ := htakes
    · cases hjson.symm.trans hstring
    · have hmap := Shape.mapM_string?_eq_some_iff.mpr (Json.array.inj (hjson.symm.trans hlines))
      obtain rfl : ["Fill out", "the form"] = lines := Option.some.inj hmap
      exact hjoined
  exact ⟨_, hr, hlabel ▸ htext, hnote.mpr (.inr rfl), items, hitems⟩

end Record

end ContactForm
