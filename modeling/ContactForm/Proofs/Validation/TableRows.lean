import ContactForm.Proofs.Validation.Fields

namespace ContactForm

/-- What a field of a shape is read as. -/
abbrev Shape.Value : Shape → Type
  | .string => String
  | .boolean => Bool
  | .array => List Json
  | .object => Members
  | .text => String

/-- Which value a field is read as. The lines of a text are joined with single spaces. -/
def Shape.Takes : (shape : Shape) → Json → shape.Value → Prop
  | .string, json, s => json = .string s
  | .boolean, json, b => json = .bool b
  | .array, json, items => json = .array items
  | .object, json, members => json = .object members
  | .text, json, s => json = .string s ∨ ∃ lines, json = .array (lines.map .string) ∧ s = " ".intercalate lines

/-- A field that is as its row asks: with a value of its shape or, where it is optional, absent or null. -/
def Row.Kept (members : Members) (row : Row) : Prop :=
  (∃ json value, members.lookup row.name = some json ∧ row.shape.Takes json value) ∨
    row.required = false ∧ (members.lookup row.name = none ∨ members.lookup row.name = some .null)

/-- What is wrong with a value that is not of a shape: its kind, or the first line that is no string. -/
inductive Shape.Breaks (path : Locator) (shape : Shape) : Json → Violation → Prop
  | kind {json : Json} : json.kind ∉ shape.kinds →
      Breaks path shape json ⟨path, .typeMismatch shape.name json.kind.name⟩
  | line {texts : List String} {line : Json} {rest : List Json} : shape = .text → line.kind ≠ .string →
      Breaks path shape (.array (texts.map .string ++ line :: rest))
        ⟨path.index texts.length, .typeMismatch "string" line.kind.name⟩

/-- What is wrong with a field that is not as its row asks. -/
inductive Row.Breaks (members : Members) (path : Locator) (row : Row) : Violation → Prop
  | missing : members.lookup row.name = none → row.required = true →
      Breaks members path row ⟨path.key row.name, .missingField row.shape.name⟩
  | value {json : Json} {v : Violation} : members.lookup row.name = some json →
      json ≠ .null ∨ row.required = true → row.shape.Breaks (path.key row.name) json v →
      Breaks members path row v

namespace Shape

theorem Takes.ne_null {shape : Shape} {json : Json} {value : shape.Value} (h : shape.Takes json value) :
    json ≠ .null := by
  rintro rfl
  cases shape <;> simp [Takes] at h

theorem mapM_string?_eq_some_iff {lines : List Json} {texts : List String} :
    lines.mapM Json.string? = some texts ↔ lines = texts.map .string := by
  induction lines generalizing texts with
  | nil => cases texts <;> simp
  | cons line lines ih =>
    cases line with
    | string s =>
      simp only [List.mapM_cons, Json.string?, Option.bind_eq_bind, Option.bind_some, Option.bind_eq_some_iff,
        Option.pure_def, Option.some.injEq, ih]
      cases texts with
      | nil => simp
      | cons text texts =>
        rw [List.map_cons, List.cons.injEq, Json.string.injEq]
        constructor
        · rintro ⟨_, hlines, heq⟩
          obtain ⟨rfl, rfl⟩ := List.cons.inj heq
          exact ⟨rfl, hlines⟩
        · rintro ⟨rfl, hlines⟩
          exact ⟨texts, hlines, rfl⟩
    | _ => cases texts <;> simp [Json.string?]

theorem textOf?_eq_some_iff {json : Json} {s : String} : Record.textOf? json = some s ↔ Takes .text json s := by
  cases json with
  | array lines =>
    simp only [Record.textOf?, Option.map_eq_some_iff, mapM_string?_eq_some_iff, Takes, joinLines,
      Json.array.injEq, reduceCtorEq, false_or]
    exact exists_congr fun texts => and_congr_right fun _ => eq_comm
  | _ => simp [Record.textOf?, Takes]

/-- A value of a shape is one that is read as something. -/
theorem exists_takes_iff (path : Locator) {shape : Shape} {json : Json} :
    (∃ value, shape.Takes json value) ↔ shape.violations path json = [] := by
  rw [violations_eq_nil_iff]
  cases shape with
  | text => exact exists_congr fun s => textOf?_eq_some_iff.symm
  | _ => exact Iff.rfl

/-- A line that is a string is passed over. -/
theorem checkLines_cons (path : Locator) (i : Nat) (line : Json) (lines : List Json) :
    checkLines path i (line :: lines) =
      if line.kind = .string then checkLines path (i + 1) lines
      else .error ⟨path.index i, .typeMismatch "string" line.kind.name⟩ := by
  cases line <;> rfl

theorem checkLines_eq_error_iff {path : Locator} {i : Nat} {lines : List Json} {v : Violation} :
    checkLines path i lines = .error v ↔ ∃ texts line rest, lines = List.map Json.string texts ++ line :: rest ∧
      line.kind ≠ .string ∧ v = ⟨path.index (i + texts.length), .typeMismatch "string" line.kind.name⟩ := by
  induction lines generalizing i with
  | nil => simp [checkLines]
  | cons first lines ih =>
    rw [checkLines_cons]
    split
    · next hkind =>
      obtain ⟨s, rfl⟩ : ∃ s, first = .string s := by
        cases first <;> simp [Json.kind] at hkind
        exact ⟨_, rfl⟩
      rw [ih]
      constructor
      · rintro ⟨texts, line, rest, rfl, hline, rfl⟩
        refine ⟨s :: texts, line, rest, rfl, hline, ?_⟩
        rw [List.length_cons, Nat.add_right_comm, Nat.add_assoc]
      · rintro ⟨texts, line, rest, hlines, hline, rfl⟩
        cases texts with
        | nil =>
          obtain ⟨rfl, -⟩ := List.cons.inj hlines
          exact absurd rfl hline
        | cons text texts =>
          refine ⟨texts, line, rest, (List.cons.inj hlines).2, hline, ?_⟩
          rw [List.length_cons, Nat.add_right_comm, Nat.add_assoc]
    · next hkind =>
      constructor
      · intro h
        exact ⟨[], first, lines, rfl, hkind, (Except.error.inj h).symm⟩
      · rintro ⟨texts, line, rest, hlines, hline, rfl⟩
        cases texts with
        | nil =>
          obtain ⟨rfl, -⟩ := List.cons.inj hlines
          rfl
        | cons text texts =>
          obtain ⟨rfl, -⟩ := List.cons.inj hlines
          exact absurd rfl hkind

theorem check_text_array (path : Locator) (lines : List Json) :
    Shape.text.check path (.array lines) = checkLines path 0 lines := rfl

/-- Other than the lines of a text, a value is refused for its kind. -/
theorem check_eq_of_kind {path : Locator} {shape : Shape} {json : Json}
    (h : ∀ lines, ¬(shape = .text ∧ json = .array lines)) :
    shape.check path json = if json.kind ∈ shape.kinds then .ok ()
      else .error ⟨path, .typeMismatch shape.name json.kind.name⟩ := by
  cases shape <;> cases json <;> first | rfl | exact absurd ⟨rfl, rfl⟩ (h _)

theorem check_eq_ok_iff {path : Locator} {shape : Shape} {json : Json} :
    shape.check path json = .ok () ↔ ∃ value, shape.Takes json value := by
  rw [check_eq_verdict, exists_takes_iff path]
  cases shape.violations path json <;> simp [verdict]

theorem check_eq_error_iff {path : Locator} {shape : Shape} {json : Json} {v : Violation} :
    shape.check path json = .error v ↔ shape.Breaks path json v := by
  by_cases htext : ∃ lines, shape = .text ∧ json = .array lines
  · obtain ⟨lines, rfl, rfl⟩ := htext
    rw [check_text_array, checkLines_eq_error_iff]
    constructor
    · rintro ⟨texts, line, rest, rfl, hline, rfl⟩
      rw [Nat.zero_add]
      exact .line rfl hline
    · intro h
      cases h with
      | kind hkind => exact absurd (by simp [kinds, Json.kind]) hkind
      | line _ hline => exact ⟨_, _, _, rfl, hline, by rw [Nat.zero_add]⟩
  · have hother : ∀ lines, ¬(shape = .text ∧ json = .array lines) := not_exists.mp htext
    rw [check_eq_of_kind hother]
    split
    · next hkind =>
      constructor
      · intro h
        cases h
      · intro h
        cases h with
        | kind hnot => exact absurd hkind hnot
        | line hshape _ => exact absurd ⟨hshape, rfl⟩ (hother _)
    · next hkind =>
      constructor
      · intro h
        obtain rfl := Except.error.inj h
        exact .kind hkind
      · intro h
        cases h with
        | kind _ => rfl
        | line hshape _ => exact absurd ⟨hshape, rfl⟩ (hother _)

end Shape

namespace Row

variable {members : Members} {path : Locator} {row : Row}

/-- What the check of a row looks at: nothing more where a field is missing or may be, the value of it else. -/
theorem check_cases (members : Members) (path : Locator) (row : Row) :
    (members.lookup row.name = none ∧ row.required = true ∧
      row.check members path = .error ⟨path.key row.name, .missingField row.shape.name⟩) ∨
    (row.required = false ∧ (members.lookup row.name = none ∨ members.lookup row.name = some .null) ∧
      row.check members path = .ok ()) ∨
    ∃ json, members.lookup row.name = some json ∧ (json ≠ .null ∨ row.required = true) ∧
      row.check members path = row.shape.check (path.key row.name) json := by
  unfold Row.check
  split
  · next hlookup hrequired => exact .inl ⟨hlookup, hrequired, rfl⟩
  · next hlookup hoptional => exact .inr (.inl ⟨hoptional, .inl hlookup, rfl⟩)
  · next hlookup hoptional => exact .inr (.inl ⟨hoptional, .inr hlookup, rfl⟩)
  · next json hlookup hthere =>
    refine .inr (.inr ⟨json, hlookup, ?_, rfl⟩)
    cases hrequired : row.required with
    | true => exact .inr rfl
    | false => exact .inl (hthere hrequired)

theorem check_eq_ok_iff (members : Members) (path : Locator) (row : Row) :
    row.check members path = .ok () ↔ row.Kept members := by
  obtain ⟨hlookup, hrequired, hcheck⟩ | ⟨hoptional, hblank, hcheck⟩ | ⟨json, hlookup, hthere, hcheck⟩ :=
    check_cases members path row
  · simp [hcheck, Kept, hlookup, hrequired]
  · exact ⟨fun _ => .inr ⟨hoptional, hblank⟩, fun _ => hcheck⟩
  · rw [hcheck, Shape.check_eq_ok_iff]
    constructor
    · rintro ⟨value, htakes⟩
      exact .inl ⟨json, value, hlookup, htakes⟩
    · rintro (⟨json', value, hlookup', htakes⟩ | ⟨hoptional, hblank⟩)
      · obtain rfl := Option.some.inj (hlookup.symm.trans hlookup')
        exact ⟨value, htakes⟩
      · have hnull : json = .null := by simpa [hlookup] using hblank
        simp [hnull, hoptional] at hthere

theorem check_eq_error_iff {v : Violation} :
    row.check members path = .error v ↔ row.Breaks members path v := by
  obtain ⟨hlookup, hrequired, hcheck⟩ | ⟨hoptional, hblank, hcheck⟩ | ⟨json, hlookup, hthere, hcheck⟩ :=
    check_cases members path row
  · rw [hcheck]
    constructor
    · intro h
      obtain rfl := Except.error.inj h
      exact .missing hlookup hrequired
    · intro h
      cases h with
      | missing _ _ => rfl
      | value hvalue _ _ => simp [hlookup] at hvalue
  · rw [hcheck]
    refine ⟨fun h => (nomatch h), fun h => ?_⟩
    cases h with
    | missing _ hrequired => simp [hoptional] at hrequired
    | value hvalue hthere _ =>
      have hnull := by simpa [hvalue] using hblank
      simp [hnull, hoptional] at hthere
  · rw [hcheck, Shape.check_eq_error_iff]
    constructor
    · exact .value hlookup hthere
    · intro h
      cases h with
      | missing hnone _ => simp [hlookup] at hnone
      | value hvalue _ hbreaks =>
        obtain rfl := Option.some.inj (hlookup.symm.trans hvalue)
        exact hbreaks

end Row

section Table

variable {members : Members} {path : Locator} {table : List Row}

theorem checkTable_ok_iff (members : Members) (path : Locator) (table : List Row) :
    checkTable members path table = .ok () ↔ ∀ row ∈ table, row.Kept members := by
  induction table with
  | nil => simp [checkTable]
  | cons row table ih =>
    rw [List.forall_mem_cons, ← ih, ← Row.check_eq_ok_iff _ path, checkTable]
    cases row.check members path <;> simp [bind, Except.bind]

/-- A table is refused for the first row that is broken. -/
theorem checkTable_error_iff {v : Violation} :
    checkTable members path table = .error v ↔ ∃ before row after, table = before ++ row :: after ∧
      (∀ earlier ∈ before, earlier.Kept members) ∧ row.Breaks members path v := by
  induction table with
  | nil => simp [checkTable]
  | cons first table ih =>
    rw [checkTable]
    cases hfirst : first.check members path with
    | error w =>
      have hbroken : ¬first.Kept members := by simp [← Row.check_eq_ok_iff _ path, hfirst]
      constructor
      · intro h
        obtain rfl := Except.error.inj h
        exact ⟨[], first, table, rfl, by simp, Row.check_eq_error_iff.mp hfirst⟩
      · rintro ⟨before, row, after, htable, hbefore, hbreaks⟩
        cases before with
        | nil =>
          obtain ⟨rfl, -⟩ := List.cons.inj htable
          obtain rfl := Except.error.inj (hfirst.symm.trans (Row.check_eq_error_iff.mpr hbreaks))
          rfl
        | cons earlier before =>
          obtain ⟨rfl, -⟩ := List.cons.inj htable
          exact absurd (hbefore first (.head _)) hbroken
    | ok u =>
      have hkept : first.Kept members := (Row.check_eq_ok_iff _ _ _).mp hfirst
      change checkTable members path table = _ ↔ _
      rw [ih]
      constructor
      · rintro ⟨before, row, after, rfl, hbefore, hbreaks⟩
        exact ⟨first :: before, row, after, rfl, List.forall_mem_cons.mpr ⟨hkept, hbefore⟩, hbreaks⟩
      · rintro ⟨before, row, after, htable, hbefore, hbreaks⟩
        cases before with
        | nil =>
          obtain ⟨rfl, -⟩ := List.cons.inj htable
          cases hfirst.symm.trans (Row.check_eq_error_iff.mpr hbreaks)
        | cons earlier before =>
          obtain ⟨-, rfl⟩ := List.cons.inj htable
          exact ⟨before, row, after, rfl, fun earlier hmem => hbefore earlier (.tail _ hmem), hbreaks⟩

end Table

end ContactForm
