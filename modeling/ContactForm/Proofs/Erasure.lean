import ContactForm.Proofs.Normalization
import ContactForm.Proofs.Validation.Located
import ContactForm.Proofs.Validation.UnknownPlaces

namespace ContactForm

/-- What erasing makes of a member of an object of a level: an undeclared key goes, so does an optional one with null,
    and the lines of a text are joined. Choices have no texts: the label of a choice is a string. -/
def Level.erase (level : Level) (key : String) (value : Json) : Json.Edit :=
  if key ∉ level.declared ∨ (value.isNull ∧ key ∈ level.optional) then .remove
  else if key ∈ level.texts then value.joined?.elim .keep fun text => .replace (.string text)
  else .keep

namespace Config

/-- Members of other objects are kept as they are. -/
def erasure (here : Locator) (key : String) (value : Json) : Json.Edit :=
  match Level.at? here with
  | some level => level.erase key value
  | none => .keep

/-- A document without what the check of it passes over, in its own fields, its questions and their choices. -/
def erase (document : Json) : Json :=
  document.revise erasure .root

end Config

namespace Json

variable (edit : Locator → String → Json → Edit) (here : Locator)

@[simp] theorem kind_revise (value : Json) : (value.revise edit here).kind = value.kind := by
  cases value <;> rfl

@[simp] theorem isNull_revise (value : Json) : (value.revise edit here).isNull = value.isNull := by
  cases value <;> rfl

@[simp] theorem string?_revise (value : Json) : (value.revise edit here).string? = value.string? := by
  cases value <;> rfl

@[simp] theorem bool?_revise (value : Json) : (value.revise edit here).bool? = value.bool? := by
  cases value <;> rfl

theorem array?_revise (value : Json) :
    (value.revise edit here).array? = value.array?.map (reviseItems edit here 0) := by
  cases value <;> rfl

/-- The elements of an array keep their places. -/
theorem zipIdx_reviseItems (i : Nat) (items : List Json) :
    (reviseItems edit here i items).zipIdx i =
      (items.zipIdx i).map fun entry => (entry.1.revise edit (here.index entry.2), entry.2) := by
  induction items generalizing i with
  | nil => rfl
  | cons item items ih => rw [reviseItems, List.zipIdx_cons, List.zipIdx_cons, List.map_cons, ih]

/-- Edits within the elements of an array are not seen by what does not see them in any element. -/
theorem map_reviseItems {β : Type} {f : Json → β} {items : List Json}
    (h : ∀ i item, items[i]? = some item → f (item.revise edit (here.index i)) = f item) :
    (reviseItems edit here 0 items).map f = items.map f := by
  have hplaces (list : List Json) : list.map f = list.zipIdx.map fun entry => f entry.1 := by
    conv_lhs => rw [← List.zipIdx_map_fst 0 list, List.map_map]
    rfl
  rw [hplaces, hplaces items, zipIdx_reviseItems, List.map_map]
  refine List.map_congr_left fun entry hmem => ?_
  obtain ⟨item, i⟩ := entry
  exact h i item (List.mk_mem_zipIdx_iff_getElem?.mp hmem)

theorem mapM_string?_reviseItems (i : Nat) (items : List Json) :
    (reviseItems edit here i items).mapM string? = items.mapM string? := by
  induction items generalizing i with
  | nil => rfl
  | cons item items ih => rw [reviseItems, List.mapM_cons, List.mapM_cons, string?_revise, ih]

theorem textOf?_revise (value : Json) :
    Record.textOf? (value.revise edit here) = Record.textOf? value := by
  cases value with
  | array lines => rw [revise_array, Record.textOf?, mapM_string?_reviseItems, Record.textOf?]
  | _ => rfl

theorem lineViolations_reviseItems (path : Locator) (lines : List Json) :
    lineViolations path (reviseItems edit here 0 lines) = lineViolations path lines := by
  simp [lineViolations, zipIdx_reviseItems, List.find?_map, Function.comp_def, mismatch]

theorem violations_revise (path : Locator) (shape : Shape) (value : Json) :
    shape.violations path (value.revise edit here) = shape.violations path value := by
  cases shape <;> cases value <;> first | rfl | exact lineViolations_reviseItems edit here path _

theorem listViolations_reviseItems {path : Locator} {within : Locator → Json → List Violation}
    {values : List Json}
    (h : ∀ i value, values[i]? = some value →
      within (path.index i) (value.revise edit (here.index i)) = within (path.index i) value) :
    listViolations path within (reviseItems edit here 0 values) = listViolations path within values := by
  rw [listViolations, listViolations, zipIdx_reviseItems, List.flatMap_map]
  refine List.flatMap_congr fun entry hmem => ?_
  obtain ⟨value, i⟩ := entry
  exact h i value (List.mk_mem_zipIdx_iff_getElem?.mp hmem)

end Json

theorem Json.textOf?_of_joined? {value : Json} {text : String} (h : value.joined? = some text) :
    Record.textOf? value = some text := by
  cases value with
  | array lines => exact h
  | _ => cases h

/-- What erasing leaves of the value of a declared field. -/
def Row.erased (row : Row) (here : Locator) (value : Json) : Option Json :=
  if value.isNull ∧ row.required = false then none
  else if row.shape = .text then
    some (value.joined?.elim (value.revise Config.erasure (here.key row.name)) .string)
  else some (value.revise Config.erasure (here.key row.name))

/-- The rows of a level say the same as its lists of keys. -/
theorem Level.rows_eq (level : Level) : ∀ row ∈ level.rows, row.name ∈ level.declared ∧
    (row.name ∈ level.optional ↔ row.required = false) ∧ (row.name ∈ level.texts ↔ row.shape = .text) := by
  cases level <;> decide

section Object

variable {level : Level} {here : Locator} {members : Members} (hlevel : Level.at? here = some level)
  (h : Members.Ascending members)

include hlevel h

theorem lookup_erased (row : Row) (hrow : row ∈ level.rows) :
    (Json.reviseMembers Config.erasure here members).lookup row.name =
      (members.lookup row.name).bind (row.erased here) := by
  obtain ⟨hdeclared, hoptional, htext⟩ := level.rows_eq row hrow
  rw [Json.lookup_reviseMembers _ _ h]
  refine congrArg ((members.lookup row.name).bind ·) (funext fun value => ?_)
  rw [Json.reviseMember, Config.erasure, hlevel, Row.erased]
  simp only [Level.erase, hdeclared, not_true_eq_false, false_or, hoptional, htext]
  by_cases hnull : value.isNull ∧ row.required = false
  · simp only [if_pos hnull]
  · simp only [if_neg hnull]
    by_cases hshape : row.shape = .text
    · simp only [if_pos hshape]
      cases value.joined? <;> rfl
    · simp only [if_neg hshape]

theorem undeclared_erased : undeclared level.rows (Json.reviseMembers Config.erasure here members) = [] := by
  rw [List.eq_nil_iff_forall_not_mem]
  intro key hkey
  obtain ⟨hsome, hname⟩ := (mem_undeclared_iff _ _ key).mp hkey
  rw [← level.declared_eq] at hname
  rw [Json.lookup_reviseMembers _ _ h, Option.isSome_iff_exists] at hsome
  obtain ⟨value, hvalue⟩ := hsome
  obtain ⟨before, -, hbefore⟩ := Option.bind_eq_some_iff.mp hvalue
  simp [Json.reviseMember, Config.erasure, hlevel, Level.erase, hname] at hbefore

/-- A row is broken after erasing as it was before. -/
theorem Row.violations_erased {row : Row} (hrow : row ∈ level.rows) (path : Locator) :
    row.violations (Json.reviseMembers Config.erasure here members) path = row.violations members path := by
  rw [Row.violations, Row.violations, lookup_erased hlevel h row hrow]
  cases members.lookup row.name with
  | none => rfl
  | some value =>
    rw [Option.bind_some, Row.erased]
    by_cases hnull : value.isNull ∧ row.required = false
    · simp [hnull]
    · have hpresent : (value.isNull && !row.required) = false := by simpa using hnull
      simp only [if_neg hnull, hpresent]
      by_cases hshape : row.shape = .text
      · cases hjoined : value.joined? with
        | none => simp [hshape, hpresent, Json.violations_revise]
        | some text =>
          have htext := (Shape.violations_eq_nil_iff (path.key row.name) .text value).mpr
            ⟨text, Json.textOf?_of_joined? hjoined⟩
          simp only [hshape, htext, ite_self]
          rfl
      · simp [hshape, hpresent, Json.violations_revise]

theorem tableViolations_erased {table : List Row} (htable : table ⊆ level.rows) (path : Locator) :
    tableViolations (Json.reviseMembers Config.erasure here members) path table =
      tableViolations members path table :=
  List.flatMap_congr fun _ hrow => Row.violations_erased hlevel h (htable hrow) path

/-- What a field is read as after erasing is what it was read as before, where the value of a field is read so with
    what erasing leaves of it, and null is not read at all. -/
theorem read_erased {α : Type} {read read' : Json → Option α} {row : Row} (hrow : row ∈ level.rows)
    (hnull : read .null = none) (hnull' : read' .null = none)
    (hread : ∀ value, (row.erased here value).bind read' = read value) (path path' : Locator) :
    (Record.present? ⟨Json.reviseMembers Config.erasure here members, path'⟩ row.name).bind read' =
      (Record.present? ⟨members, path⟩ row.name).bind read := by
  have hpresent {read : Json → Option α} (hnull : read .null = none) (r : Record) :
      (r.present? row.name).bind read = (r.members.lookup row.name).bind read := by
    rw [Record.present?]
    cases r.members.lookup row.name with
    | none => rfl
    | some value => cases value <;> first | rfl | exact hnull.symm
  rw [hpresent hnull', hpresent hnull, lookup_erased hlevel h row hrow, Option.bind_assoc]
  exact congrArg _ (funext hread)

end Object

/-- What is read of the value of a field that is no text, of whatever erasing leaves of it. -/
theorem Row.bind_erased {α : Type} {read read' : Json → Option α} {row : Row} {here : Locator}
    (hshape : row.shape ≠ .text) (hnull : read .null = none)
    (hread : ∀ value, read' (value.revise Config.erasure (here.key row.name)) = read value) (value : Json) :
    (row.erased here value).bind read' = read value := by
  rw [erased]
  by_cases hn : value.isNull ∧ row.required = false
  · rw [if_pos hn, Option.bind_none]
    cases value with
    | null => exact hnull.symm
    | _ => cases hn.1
  · rw [if_neg hn, if_neg hshape, Option.bind_some]
    exact hread value

theorem Row.bind_textOf?_erased {row : Row} {here : Locator} (value : Json) :
    (row.erased here value).bind Record.textOf? = Record.textOf? value := by
  rw [erased]
  by_cases hn : value.isNull ∧ row.required = false
  · rw [if_pos hn, Option.bind_none]
    cases value with
    | null => rfl
    | _ => cases hn.1
  · rw [if_neg hn]
    by_cases hshape : row.shape = .text
    · rw [if_pos hshape, Option.bind_some]
      cases hjoined : value.joined? with
      | none => exact Json.textOf?_revise _ _ value
      | some text => exact (Json.textOf?_of_joined? hjoined).symm
    · rw [if_neg hshape, Option.bind_some]
      exact Json.textOf?_revise _ _ value

section Fields

variable {level : Level} {here : Locator} {members : Members} (hlevel : Level.at? here = some level)
  (h : Members.Ascending members) (row : Row) (hrow : row ∈ level.rows) (path : Locator)

include hlevel h hrow

theorem string?_erased (hshape : row.shape ≠ .text) :
    Record.string? ⟨Json.reviseMembers Config.erasure here members, path⟩ row.name =
      Record.string? ⟨members, path⟩ row.name :=
  read_erased hlevel h hrow rfl rfl (Row.bind_erased hshape rfl fun _ => Json.string?_revise _ _ _) _ _

theorem bool?_erased (hshape : row.shape ≠ .text) :
    Record.bool? ⟨Json.reviseMembers Config.erasure here members, path⟩ row.name =
      Record.bool? ⟨members, path⟩ row.name :=
  read_erased hlevel h hrow rfl rfl (Row.bind_erased hshape rfl fun _ => Json.bool?_revise _ _ _) _ _

theorem text?_erased :
    Record.text? ⟨Json.reviseMembers Config.erasure here members, path⟩ row.name =
      Record.text? ⟨members, path⟩ row.name :=
  read_erased hlevel h hrow rfl rfl Row.bind_textOf?_erased _ _

/-- The elements of an array are read as what erasing leaves of each of them. -/
theorem array?_erased (hshape : row.shape ≠ .text) :
    Record.array? ⟨Json.reviseMembers Config.erasure here members, path⟩ row.name =
      (Record.array? ⟨members, path⟩ row.name).map (Json.reviseItems Config.erasure (here.key row.name) 0) := by
  rw [Record.array?, Record.array?, Option.map_bind]
  exact read_erased hlevel h hrow rfl rfl (Row.bind_erased hshape rfl fun _ => Json.array?_revise _ _ _) _ _

theorem object?_erased (hshape : row.shape ≠ .text)
    (hkeep : ∀ value : Json, value.revise Config.erasure (here.key row.name) = value) :
    Record.object? ⟨Json.reviseMembers Config.erasure here members, path⟩ row.name =
      Record.object? ⟨members, path⟩ row.name :=
  read_erased hlevel h hrow rfl rfl
    (Row.bind_erased hshape rfl fun value => congrArg Json.object? (hkeep value)) _ _

end Fields

/-- An array that erasing leaves in a field was an array before, with what is now left of each of its elements. -/
theorem getElem?_array_erased {level : Level} {here : Locator} {members : Members}
    (hlevel : Level.at? here = some level) (h : Members.Ascending members) (row : Row)
    (hrow : row ∈ level.rows) (hshape : row.shape ≠ .text) {values : List Json}
    (hvalues : (Json.reviseMembers Config.erasure here members).lookup row.name = some (.array values))
    {i : Nat} {value : Json} (hi : values[i]? = some value) :
    ∃ items item, members.lookup row.name = some (.array items) ∧ item ∈ items ∧
      value = item.revise Config.erasure ((here.key row.name).index i) := by
  rw [lookup_erased hlevel h row hrow, Option.bind_eq_some_iff] at hvalues
  obtain ⟨before, hbefore, herased⟩ := hvalues
  cases before with
  | array items =>
    rw [Row.erased, if_neg (fun hnull => Bool.false_ne_true hnull.1), if_neg hshape] at herased
    obtain rfl := Json.array.inj (Option.some.inj herased)
    rw [Json.reviseItems_eq, List.getElem?_map, Option.map_eq_some_iff] at hi
    obtain ⟨⟨item, j⟩, hitem, rfl⟩ := hi
    rw [List.getElem?_zipIdx, Option.map_eq_some_iff] at hitem
    obtain ⟨found, hfound, heq⟩ := hitem
    obtain ⟨rfl, rfl⟩ := Prod.mk.inj heq
    exact ⟨items, found, hbefore, List.mem_of_getElem? hfound, by rw [Nat.zero_add]⟩
  | _ => simp [Row.erased, Json.revise, hshape] at herased

/-- Elements of an array are read the same after erasing where each of them is. -/
theorem map_array?_erased {β : Type} {read : Json → β} {values : Option (List Json)} {here : Locator}
    (h : ∀ items, values = some items → ∀ i item, items[i]? = some item →
      read (item.revise Config.erasure (here.index i)) = read item) :
    (((values.map (Json.reviseItems Config.erasure here 0)).getD []).map read) = (values.getD []).map read := by
  cases values with
  | none => rfl
  | some items => exact Json.map_reviseItems _ _ (h items rfl)

namespace Choice

variable {here : Locator} {value : Json} (hlevel : Level.at? here = some .choice) (h : value.Canonical)

include hlevel h

theorem violations_erased (path : Locator) :
    violations path (value.revise Config.erasure here) = violations path value := by
  cases value with
  | object members =>
    exact tableViolations_erased hlevel ((Json.canonical_object members).mp h).1 (List.Subset.refl _) path
  | _ => rfl

theorem ofRecord_erased :
    ofRecord (.ofJson (value.revise Config.erasure here)) = ofRecord (.ofJson value) := by
  cases value with
  | object members =>
    have hm := ((Json.canonical_object members).mp h).1
    have hlabel := string?_erased hlevel hm (.requires "label" .string) (by decide) .root (by decide)
    have hvalue := string?_erased hlevel hm (.requires "value" .string) (by decide) .root (by decide)
    have hselected := bool?_erased hlevel hm (.allows "selected" .boolean) (by decide) .root (by decide)
    have hdisabled := bool?_erased hlevel hm (.allows "disabled" .boolean) (by decide) .root (by decide)
    change ofRecord ⟨Json.reviseMembers Config.erasure here members, .root⟩ = ofRecord ⟨members, .root⟩
    simp only [Row.requires, Row.allows] at hlabel hvalue hselected hdisabled
    simp only [ofRecord, hlabel, hvalue, hselected, hdisabled]
  | _ => rfl

theorem undeclaredPlaces_erased (path : Locator) :
    undeclaredPlaces table path (Record.ofJson (value.revise Config.erasure here)).members = [] := by
  cases value with
  | object members =>
    have hnone : undeclared table (Json.reviseMembers Config.erasure here members) = [] :=
      undeclared_erased hlevel ((Json.canonical_object members).mp h).1
    exact congrArg (List.map path.key) hnone
  | _ => rfl

end Choice

theorem Level.at?_root : at? Locator.root = some .document := rfl

theorem Level.at?_questions (i : Nat) : at? ((Locator.root.key "questions").index i) = some .question :=
  (at?_eq_some_iff _ .question).mpr ⟨i, rfl⟩

theorem Level.at?_options {here : Locator} (h : at? here = some .question) (j : Nat) :
    at? ((here.key "options").index j) = some .choice := by
  obtain ⟨i, rfl⟩ := (at?_eq_some_iff here .question).mp h
  exact (at?_eq_some_iff _ .choice).mpr ⟨i, j, rfl⟩

/-- Hints are left as they are, whatever they hold. -/
theorem Config.erase_custom {here : Locator} (h : Level.at? here = some .question) (value : Json) :
    value.revise erasure (here.key "custom") = value := by
  obtain ⟨i, rfl⟩ := (Level.at?_eq_some_iff here .question).mp h
  refine Json.revise_eq_self (fun rest key value => ?_) value
  have hnone := Level.at?_within_custom i rest
  change erasure ([.key "questions", .index i, .key "custom"] ++ rest) key value = .keep
  rw [erasure, hnone]

namespace Question

theorem choicesRow_name : choicesRow.name = "options" := rfl

theorem noChoicesViolations_erased (path : Locator) (type : String) (here : Locator) (value? : Option Json) :
    noChoicesViolations path type (value?.bind (choicesRow.erased here)) =
      noChoicesViolations path type value? := by
  cases value? with
  | none => rfl
  | some value => cases value <;> rfl

variable {here : Locator} (hlevel : Level.at? here = some .question)

include hlevel

/-- Choices that are null are as good as absent ones, with which a selectbox question fails. -/
theorem choicesViolations_erased (path : Locator) {value? : Option Json}
    (h : ∀ value, value? = some value → value.Canonical) :
    choicesViolations path (value?.bind (choicesRow.erased here)) = choicesViolations path value? := by
  cases value? with
  | none => rfl
  | some value =>
    cases value with
    | array values =>
      cases values with
      | nil => rfl
      | cons first rest =>
        refine Json.listViolations_reviseItems _ (here.key "options") fun j value hj => ?_
        exact Choice.violations_erased (Level.at?_options hlevel j)
          ((Json.canonical_array _).mp (h _ rfl) value (List.mem_of_getElem? hj)) _
    | _ => rfl

section Members

variable {members : Members} (h : (Json.object members).Canonical)

include h

theorem choicesRuleViolations_erased (path : Locator) :
    choicesRuleViolations (Json.reviseMembers Config.erasure here members) path =
      choicesRuleViolations members path := by
  have hm := ((Json.canonical_object members).mp h).1
  have htype := lookup_erased hlevel hm (.requires "type" .string) (by decide)
  have hoptions := lookup_erased hlevel hm choicesRow (by decide)
  simp only [Row.requires, choicesRow_name] at htype hoptions
  rw [choicesRuleViolations, choicesRuleViolations, htype, hoptions]
  cases members.lookup "type" with
  | none => rfl
  | some type =>
    cases type with
    | string type =>
      change (if type = "selectbox" then _ else _) = if type = "selectbox" then _ else _
      rw [choicesViolations_erased hlevel _ fun value hvalue => h.of_lookup hvalue, noChoicesViolations_erased]
    | _ => rfl

theorem ofRecord_erased :
    ofRecord ⟨Json.reviseMembers Config.erasure here members, .root⟩ = ofRecord ⟨members, .root⟩ := by
  have hm := ((Json.canonical_object members).mp h).1
  have hlabel := text?_erased hlevel hm (.requires "label" .text) (by decide) .root
  have hname := string?_erased hlevel hm (.requires "name" .string) (by decide) .root (by decide)
  have htype := string?_erased hlevel hm (.requires "type" .string) (by decide) .root (by decide)
  have hrequired := bool?_erased hlevel hm (.requires "required" .boolean) (by decide) .root (by decide)
  have hoptions := array?_erased hlevel hm choicesRow (by decide) .root (by decide)
  have hcustom := object?_erased hlevel hm customRow (by decide) .root (by decide)
    (Config.erase_custom hlevel)
  simp only [Row.requires, choicesRow, customRow, Row.allows] at hlabel hname htype hrequired hoptions hcustom
  simp only [ofRecord, hlabel, hname, htype, hrequired, hoptions, hcustom]
  rw [map_array?_erased]
  intro values hvalues j value hj
  have hlookup := Record.array?_eq_some_iff.mp hvalues
  exact Choice.ofRecord_erased (Level.at?_options hlevel j)
    (h.of_mem_array hlookup (List.mem_of_getElem? hj))

theorem choicePlaces_erased (path : Locator) :
    choicePlaces path (Json.reviseMembers Config.erasure here members) = [] := by
  have hm := ((Json.canonical_object members).mp h).1
  unfold choicePlaces
  split
  · next type values htype hvalues =>
    split
    · refine List.flatMap_eq_nil_iff.mpr fun entry hmem => ?_
      have hentry := List.mk_mem_zipIdx_iff_getElem?.mp (List.takeWhile_subset _ hmem)
      obtain ⟨items, item, hitems, hitem, hvalue⟩ :=
        getElem?_array_erased hlevel hm choicesRow (by decide) (by decide) hvalues hentry
      rw [hvalue]
      exact Choice.undeclaredPlaces_erased (Level.at?_options hlevel entry.2) (h.of_mem_array hitems hitem) _
    · rfl
  · rfl

end Members

variable {value : Json} (h : value.Canonical)

include h

theorem violations_erased (path : Locator) :
    violations path (value.revise Config.erasure here) = violations path value := by
  cases value with
  | object members =>
    have hm := ((Json.canonical_object members).mp h).1
    change tableViolations _ path table ++ choicesRuleViolations _ path ++ Row.violations _ path customRow = _
    rw [tableViolations_erased hlevel hm (by decide), choicesRuleViolations_erased hlevel h,
      Row.violations_erased hlevel hm (by decide)]
    rfl
  | _ => rfl

theorem ofJson_erased :
    ofRecord (.ofJson (value.revise Config.erasure here)) = ofRecord (.ofJson value) := by
  cases value with
  | object members => exact ofRecord_erased hlevel h
  | _ => rfl

theorem unknownPlaces_erased (path : Locator) :
    unknownPlaces path (value.revise Config.erasure here) = [] := by
  cases value with
  | object members =>
    have hnone : undeclared declared (Json.reviseMembers Config.erasure here members) = [] :=
      undeclared_erased hlevel ((Json.canonical_object members).mp h).1
    rw [Json.revise_object, unknownPlaces, undeclaredPlaces, hnone, choicePlaces_erased hlevel h]
    exact ite_self _
  | _ => rfl

end Question

/-- There are two kinds of warnings. -/
theorem Warning.kind_ne_unknownField (w : Warning) :
    (w.kind != "unknown_field") = (w.kind == "duplicate_question_name") := by
  cases w <;> rfl

namespace Config

section Members

variable {members : Members} (h : (Json.object members).Canonical)

include h

theorem questionsViolations_erased :
    questionsViolations (Json.reviseMembers erasure .root members) = questionsViolations members := by
  have hm := ((Json.canonical_object members).mp h).1
  have hquestions := lookup_erased Level.at?_root hm (.requires "questions" .array) (by decide)
  simp only [Row.requires] at hquestions
  rw [questionsViolations, questionsViolations, hquestions]
  cases hvalue : members.lookup "questions" with
  | none => rfl
  | some value =>
    cases value with
    | array values =>
      refine Json.listViolations_reviseItems _ (Locator.root.key "questions") fun i value hi => ?_
      exact Question.violations_erased (Level.at?_questions i)
        (h.of_mem_array hvalue (List.mem_of_getElem? hi)) _
    | _ => rfl

theorem ofRecord_erased :
    ofRecord ⟨Json.reviseMembers erasure .root members, .root⟩ = ofRecord ⟨members, .root⟩ := by
  have hm := ((Json.canonical_object members).mp h).1
  have hemail := string?_erased Level.at?_root hm (.requires "email" .string) (by decide) .root (by decide)
  have htitle := string?_erased Level.at?_root hm (.requires "title" .string) (by decide) .root (by decide)
  have hsubject := string?_erased Level.at?_root hm (.requires "subject" .string) (by decide) .root (by decide)
  have hquestions := array?_erased Level.at?_root hm (.requires "questions" .array) (by decide) .root (by decide)
  have hurl := string?_erased Level.at?_root hm (.allows "form_backend_url" .string) (by decide) .root (by decide)
  have hignore := bool?_erased Level.at?_root hm (.allows "ignore_file_upload" .boolean) (by decide) .root
    (by decide)
  have hinstructions := text?_erased Level.at?_root hm (.allows "instructions" .text) (by decide) .root
  simp only [Row.requires, Row.allows] at hemail htitle hsubject hquestions hurl hignore hinstructions
  simp only [ofRecord, hemail, htitle, hsubject, hquestions, hurl, hignore, hinstructions]
  rw [map_array?_erased]
  intro values hvalues i value hi
  have hlookup := Record.array?_eq_some_iff.mp hvalues
  exact Question.ofJson_erased (Level.at?_questions i)
    (h.of_mem_array hlookup (List.mem_of_getElem? hi))

theorem questionPlaces_erased : questionPlaces (Json.reviseMembers erasure .root members) = [] := by
  have hm := ((Json.canonical_object members).mp h).1
  unfold questionPlaces
  split
  · next values hvalues =>
    refine List.flatMap_eq_nil_iff.mpr fun entry hmem => ?_
    have hentry := List.mk_mem_zipIdx_iff_getElem?.mp ((throughFirst_sublist _ _).subset hmem)
    obtain ⟨items, item, hitems, hitem, hvalue⟩ :=
      getElem?_array_erased Level.at?_root hm (.requires "questions" .array) (by decide) (by decide) hvalues hentry
    rw [hvalue]
    exact Question.unknownPlaces_erased (Level.at?_questions entry.2) (h.of_mem_array hitems hitem) _
  · rfl

end Members

section Document

variable {document : Json} (h : document.Canonical)

include h

theorem violations_erase : violations (erase document) = violations document := by
  cases document with
  | object members =>
    have hm := ((Json.canonical_object members).mp h).1
    change tableViolations _ .root table ++ questionsViolations _ = _
    rw [tableViolations_erased Level.at?_root hm (List.Subset.refl table), questionsViolations_erased h]
    rfl
  | _ => rfl

/-- Erasing changes neither what a document is nor why it is refused. -/
theorem check_erase_outcome : (check (erase document)).outcome = (check document).outcome := by
  rw [check_outcome, check_outcome, violations_erase h]
  cases document with
  | object members => exact congrArg (fun c => (verdict _).map fun _ => c) (ofRecord_erased h)
  | _ => rfl

theorem unknownPlaces_erase : unknownPlaces (erase document) = [] := by
  cases document with
  | object members =>
    have hm := ((Json.canonical_object members).mp h).1
    have hnone : undeclared table (Json.reviseMembers erasure .root members) = [] :=
      undeclared_erased Level.at?_root hm
    change (if _ then undeclaredPlaces _ _ _ ++ _ else []) = _
    rw [undeclaredPlaces, hnone, questionPlaces_erased h]
    exact ite_self _
  | _ => rfl

/-- What is recorded about an erased document is what else was recorded about the document than undeclared keys. -/
theorem check_erase_warnings : (check (erase document)).warnings =
    (check document).warnings.filter (·.kind == "duplicate_question_name") := by
  rw [check_warnings_eq, check_warnings_eq, unknownPlaces_erase h, check_erase_outcome h, List.filter_append,
    filter_kind_unknownField]
  cases (check document).outcome with
  | error v => rfl
  | ok c => exact (filter_kind_nameWarnings _ _).symm

end Document

/-- Undeclared keys, null for an optional field and lines of a text have no say in what a document is, why it is
    refused or which names are reported: documents that differ in nothing else are told apart by warnings about
    undeclared keys alone. -/
theorem check_erase {document : Json} (h : document.Canonical) :
    (check (erase document)).outcome = (check document).outcome ∧
    (check (erase document)).warnings =
      (check document).warnings.filter (·.kind == "duplicate_question_name") ∧
    ∀ other : Json, other.Canonical → erase other = erase document →
      (check other).outcome = (check document).outcome ∧
      (check other).warnings.filter (·.kind != "unknown_field") =
        (check document).warnings.filter (·.kind != "unknown_field") := by
  refine ⟨check_erase_outcome h, check_erase_warnings h, fun other hother herase => ⟨?_, ?_⟩⟩
  · rw [← check_erase_outcome h, ← check_erase_outcome hother, herase]
  · simp only [Warning.kind_ne_unknownField]
    rw [← check_erase_warnings h, ← check_erase_warnings hother, herase]

/-- A document with something to erase in every object: undeclared keys, null for optional fields, lines of texts. -/
def wordyDocument : Json := .object [
  ("email", .string "a@b.example"),
  ("form_backend_url", .null),
  ("instructions", .array [.string "Fill in", .string "all fields."]),
  ("lang", .string "en"),
  ("questions", .array [
    .object [("custom", .null), ("hint", .null), ("label", .array [.string "Your", .string "name"]),
      ("name", .string "name"), ("required", .bool true), ("type", .string "text")],
    .object [("label", .string "Topic"), ("name", .string "name"),
      ("options", .array [.object [("disabled", .null), ("icon", .null), ("label", .string "Sales"),
        ("value", .string "sales")]]),
      ("required", .bool true), ("type", .string "selectbox")]]),
  ("subject", .string "Hello"),
  ("title", .string "Contact")]

/-- The same form with nothing to erase. -/
def terseDocument : Json := .object [
  ("email", .string "a@b.example"),
  ("instructions", .string "Fill in all fields."),
  ("questions", .array [
    .object [("label", .string "Your name"), ("name", .string "name"), ("required", .bool true),
      ("type", .string "text")],
    .object [("label", .string "Topic"), ("name", .string "name"),
      ("options", .array [.object [("label", .string "Sales"), ("value", .string "sales")]]),
      ("required", .bool true), ("type", .string "selectbox")]]),
  ("subject", .string "Hello"),
  ("title", .string "Contact")]

theorem check_erase_of_wordyDocument :
    erase wordyDocument = terseDocument ∧
    (check terseDocument).outcome = (check wordyDocument).outcome ∧
    (check wordyDocument).warnings.filter (·.kind == "duplicate_question_name") =
      [.duplicateName [.key "questions", .index 1, .key "name"] "name"
        [.key "questions", .index 0, .key "name"]] ∧
    (check terseDocument).warnings.filter (·.kind != "unknown_field") =
      (check wordyDocument).warnings.filter (·.kind != "unknown_field") := by
  have hwordy : wordyDocument.Canonical := by
    simp only [wordyDocument, Json.Canonical, Json.CanonicalMembers, Json.CanonicalItems,
      Members.Ascending, and_true, true_and]
    decide +kernel
  have hterse : terseDocument.Canonical := by
    simp only [terseDocument, Json.Canonical, Json.CanonicalMembers, Json.CanonicalItems,
      Members.Ascending, and_true, true_and]
    decide +kernel
  have herase : erase wordyDocument = terseDocument := rfl
  obtain ⟨houtcome, hwarnings, hothers⟩ := check_erase hwordy
  rw [herase] at houtcome hwarnings hothers
  refine ⟨herase, houtcome, ?_, (hothers terseDocument hterse rfl).2⟩
  rw [← hwarnings]
  decide +kernel

end Config

end ContactForm
