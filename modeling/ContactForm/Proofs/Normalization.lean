import ContactForm.Proofs.Fields
import ContactForm.Proofs.Validation.Reported

namespace ContactForm

namespace Level

/-- The keys that may be left out. -/
def optional : Level → List String
  | .document => ["form_backend_url", "ignore_file_upload", "instructions"]
  | .question => ["options", "custom"]
  | .choice => ["selected", "disabled"]

/-- The keys of texts, which may be given line by line. -/
def texts : Level → List String
  | .document => ["instructions"]
  | .question => ["label"]
  | .choice => []

end Level

/-- An array of strings as one string, with a space between them. -/
def Json.joined? : Json → Option String
  | .array lines => (lines.mapM Json.string?).map (" ".intercalate ·)
  | _ => none

/-- What becomes of a member of an accepted document: it goes where it was warned of or is an optional key with
    null, the lines of a text are joined, and anything else is kept. -/
def Config.normalization (warnings : List Warning) (here : Locator) (key : String) (value : Json) :
    Json.Edit :=
  if .unknownField (here.key key) ∈ warnings then .remove
  else
    match Level.at? here with
    | none => .keep
    | some level =>
      if value.isNull ∧ key ∈ level.optional then .remove
      else if key ∈ level.texts then value.joined?.elim .keep fun text => .replace (.string text)
      else .keep

/-- An object of a document at a place with declared keys, where the warnings name the undeclared ones. -/
structure Site (document : Json) (warnings : List Warning) (level : Level) (here : Locator)
    (members : Members) : Prop where
  level_eq : Level.at? here = some level
  found : document.at? here = some (.object members)
  ascending : Members.Ascending members
  reported : ∀ place, .unknownField place ∈ warnings ↔ Config.Undeclared document place

namespace Site

variable {document : Json} {warnings : List Warning} {level : Level} {here : Locator}
  {members : Members}

theorem unknownField_mem_iff (site : Site document warnings level here members) {key : String}
    {value : Json} (h : members.lookup key = some value) :
    .unknownField (here.key key) ∈ warnings ↔ key ∉ level.declared := by
  rw [site.reported, Config.Undeclared]
  constructor
  · intro hfound
    obtain ⟨other, place, name, hlevel, heq, -, hname⟩ := hfound
    obtain ⟨rfl, rfl⟩ := Locator.key_inj heq
    obtain rfl := Option.some.inj (hlevel.symm.trans site.level_eq)
    exact hname
  · intro hkey
    refine ⟨level, here, key, site.level_eq, rfl, ?_, hkey⟩
    rw [Locator.key, Json.at?_append, site.found, Option.bind_some, Json.at?_key, h]
    rfl

/-- What the edits leave of the members. -/
def rest (_ : Site document warnings level here members) : Members :=
  Json.reviseMembers (Config.normalization warnings) here members

theorem rest_of_absent (site : Site document warnings level here members) {key : String}
    (h : members.lookup key = none) : site.rest.lookup key = none := by
  rw [rest, Json.lookup_reviseMembers _ _ site.ascending, h]
  rfl

theorem rest_of_undeclared (site : Site document warnings level here members) {key : String}
    (hkey : key ∉ level.declared) : site.rest.lookup key = none := by
  rw [rest, Json.lookup_reviseMembers _ _ site.ascending]
  cases h : members.lookup key with
  | none => rfl
  | some value =>
    rw [Option.bind_some, Json.reviseMember, Config.normalization,
      if_pos ((site.unknownField_mem_iff h).mpr hkey)]

theorem rest_of_declared (site : Site document warnings level here members) {key : String}
    {value : Json} (hkey : key ∈ level.declared) (h : members.lookup key = some value) :
    site.rest.lookup key =
      if value.isNull ∧ key ∈ level.optional then none
      else if key ∈ level.texts then
        some (value.joined?.elim (value.revise (Config.normalization warnings) (here.key key)) .string)
      else some (value.revise (Config.normalization warnings) (here.key key)) := by
  have hknown : .unknownField (here.key key) ∉ warnings :=
    fun hmem => (site.unknownField_mem_iff h).mp hmem hkey
  rw [rest, Json.lookup_reviseMembers _ _ site.ascending, h, Option.bind_some, Json.reviseMember,
    Config.normalization, if_neg hknown, site.level_eq]
  by_cases hnull : value.isNull ∧ key ∈ level.optional
  · simp only [if_pos hnull]
  · simp only [if_neg hnull]
    by_cases htext : key ∈ level.texts
    · simp only [if_pos htext]
      cases value.joined? <;> rfl
    · simp only [if_neg htext]

variable {name : String}

theorem rest_of_kept (site : Site document warnings level here members) {value : Json}
    (h : members.lookup name = some value) (hn : value.isNull = false)
    (hd : name ∈ level.declared) (ht : name ∉ level.texts) :
    site.rest.lookup name = some (value.revise (Config.normalization warnings) (here.key name)) := by
  simp [site.rest_of_declared hd h, hn, ht]

theorem rest_of_null (site : Site document warnings level here members)
    (h : members.lookup name = some .null) (hd : name ∈ level.declared) (ho : name ∈ level.optional) :
    site.rest.lookup name = none := by
  simp [site.rest_of_declared hd h, ho, Json.isNull]

theorem rest_of_text (site : Site document warnings level here members) {value : Json} {text : String}
    (h : members.lookup name = some value) (hv : Record.textOf? value = some text)
    (hd : name ∈ level.declared) (ht : name ∈ level.texts) :
    site.rest.lookup name = some (.string text) := by
  rw [site.rest_of_declared hd h, if_pos ht]
  cases value with
  | string s =>
    obtain rfl := Option.some.inj hv
    simp [Json.isNull, Json.joined?, Json.revise]
  | array lines =>
    have hj : (Json.array lines).joined? = some text := hv
    simp [Json.isNull, hj]
  | _ => cases hv

variable {path : Locator}

theorem rest_string (site : Site document warnings level here members)
    (h : (Row.requires name .string).violations members path = [])
    (hd : name ∈ level.declared) (ht : name ∉ level.texts) :
    site.rest.lookup name = some (.string (((Record.ofJson (.object members)).string? name).getD "")) := by
  obtain ⟨s, hs⟩ := Row.string_of_requires (r := ⟨members, path⟩) h
  have hs : (Record.ofJson (.object members)).string? name = some s := hs
  rw [site.rest_of_kept (Record.string?_eq_some_iff.mp hs) rfl hd ht, hs]
  rfl

theorem rest_bool (site : Site document warnings level here members)
    (h : (Row.requires name .boolean).violations members path = [])
    (hd : name ∈ level.declared) (ht : name ∉ level.texts) :
    site.rest.lookup name = some (.bool (((Record.ofJson (.object members)).bool? name).getD false)) := by
  obtain ⟨b, hb⟩ := Row.bool_of_requires (r := ⟨members, path⟩) h
  have hb : (Record.ofJson (.object members)).bool? name = some b := hb
  rw [site.rest_of_kept (Record.bool?_eq_some_iff.mp hb) rfl hd ht, hb]
  rfl

theorem rest_text (site : Site document warnings level here members)
    (h : (Row.requires name .text).violations members path = [])
    (hd : name ∈ level.declared) (ht : name ∈ level.texts) :
    site.rest.lookup name = some (.string (((Record.ofJson (.object members)).text? name).getD "")) := by
  obtain ⟨s, hs⟩ := Row.text_of_requires (r := ⟨members, path⟩) h
  have hs : (Record.ofJson (.object members)).text? name = some s := hs
  obtain ⟨value, hl, hv⟩ := Record.text?_eq_some_iff.mp hs
  rw [site.rest_of_text hl hv hd ht, hs]
  rfl

/-- An optional field is left out where it is absent or null; where it has a value of its shape, what becomes of
    that decides. -/
theorem rest_optional (site : Site document warnings level here members) {shape : Shape}
    {result : Option Json} (h : (Row.allows name shape).violations members path = [])
    (hd : name ∈ level.declared) (ho : name ∈ level.optional)
    (hnone : (Record.ofJson (.object members)).present? name = none → result = none)
    (hsome : ∀ value, members.lookup name = some value → shape.violations (path.key name) value = [] →
      site.rest.lookup name = result) :
    site.rest.lookup name = result := by
  cases hl : members.lookup name with
  | none => rw [site.rest_of_absent hl, hnone (Record.present?_of_absent hl)]
  | some value =>
    obtain rfl | hv := Row.allows_eq_nil_iff.mp h value hl
    · rw [site.rest_of_null hl hd ho, hnone (Record.present?_of_null hl)]
    · exact hsome value hl hv

/-- An optional field is read and written as it is where a value of its shape is one that is written so. -/
theorem rest_same (site : Site document warnings level here members) {α : Type} {shape : Shape}
    {read : Json → Option α} {write : α → Json}
    (h : (Row.allows name shape).violations members path = [])
    (hd : name ∈ level.declared) (ho : name ∈ level.optional) (ht : name ∉ level.texts)
    (hwritten : ∀ value, shape.violations (path.key name) value = [] → ∃ a, value = write a)
    (hread : ∀ a, read (write a) = some a) (hnull : ∀ a, (write a).isNull = false)
    (hkeep : ∀ a, (write a).revise (Config.normalization warnings) (here.key name) = write a) :
    site.rest.lookup name =
      (((Record.ofJson (.object members)).present? name).bind read).map write := by
  apply site.rest_optional h hd ho
  · intro hn
    rw [hn]
    rfl
  · intro value hl hv
    obtain ⟨a, rfl⟩ := hwritten value hv
    have hp : (Record.ofJson (.object members)).present? name = some (write a) := by
      rw [Record.present?, show (Record.ofJson (.object members)).members = members from rfl, hl,
        Option.filter_some, hnull]
      rfl
    rw [site.rest_of_kept hl (hnull a) hd ht, hkeep, hp, Option.bind_some, hread]
    rfl

theorem rest_string? (site : Site document warnings level here members)
    (h : (Row.allows name .string).violations members path = [])
    (hd : name ∈ level.declared) (ho : name ∈ level.optional) (ht : name ∉ level.texts) :
    site.rest.lookup name = ((Record.ofJson (.object members)).string? name).map .string :=
  site.rest_same h hd ho ht (fun value hv => (Shape.violations_eq_nil_iff _ _ value).mp hv)
    (fun _ => rfl) (fun _ => rfl) fun _ => rfl

theorem rest_bool? (site : Site document warnings level here members)
    (h : (Row.allows name .boolean).violations members path = [])
    (hd : name ∈ level.declared) (ho : name ∈ level.optional) (ht : name ∉ level.texts) :
    site.rest.lookup name = ((Record.ofJson (.object members)).bool? name).map .bool :=
  site.rest_same h hd ho ht (fun value hv => (Shape.violations_eq_nil_iff _ _ value).mp hv)
    (fun _ => rfl) (fun _ => rfl) fun _ => rfl

theorem rest_text? (site : Site document warnings level here members)
    (h : (Row.allows name .text).violations members path = [])
    (hd : name ∈ level.declared) (ho : name ∈ level.optional) (ht : name ∈ level.texts) :
    site.rest.lookup name = ((Record.ofJson (.object members)).text? name).map .string := by
  apply site.rest_optional h hd ho
  · intro hn
    rw [Record.text?, hn]
    rfl
  · intro value hl hv
    obtain ⟨s, hs⟩ := (Shape.violations_eq_nil_iff _ _ _).mp hv
    rw [site.rest_of_text hl hs hd ht, Record.text?_eq_some_iff.mpr ⟨value, hl, hs⟩]
    rfl

theorem rest_object? (site : Site document warnings level here members)
    (h : (Row.allows name .object).violations members path = [])
    (hd : name ∈ level.declared) (ho : name ∈ level.optional) (ht : name ∉ level.texts)
    (hkeep : ∀ value : Json, value.revise (Config.normalization warnings) (here.key name) = value) :
    site.rest.lookup name = ((Record.ofJson (.object members)).object? name).map .object :=
  site.rest_same h hd ho ht (fun value hv => (Shape.violations_eq_nil_iff _ _ value).mp hv)
    (fun _ => rfl) (fun _ => rfl) fun inner => hkeep (.object inner)

/-- An array is kept with what becomes of each of its elements. -/
theorem rest_array (site : Site document warnings level here members) {values : List Json}
    {result : Json → Json} (hl : members.lookup name = some (.array values))
    (hd : name ∈ level.declared) (ht : name ∉ level.texts)
    (h : ∀ i value, values[i]? = some value →
      result value = value.revise (Config.normalization warnings) ((here.key name).index i)) :
    site.rest.lookup name = some (.array (values.map result)) := by
  rw [site.rest_of_kept hl rfl hd ht, Json.revise_array, Json.reviseItems_eq]
  have hmap : values.map result = values.zipIdx.map fun entry => result entry.1 := by
    conv_lhs => rw [← List.zipIdx_map_fst 0 values, List.map_map]
    rfl
  rw [hmap]
  refine congrArg (fun items => some (Json.array items)) (List.map_congr_left ?_)
  intro entry hmem
  obtain ⟨value, i⟩ := entry
  exact (h i value (List.mk_mem_zipIdx_iff_getElem?.mp hmem)).symm

/-- An object in an array of a site is a site of the level below. -/
theorem within (site : Site document warnings level here members) {values : List Json}
    {inner : Members} {i : Nat} {below : Level} (hl : members.lookup name = some (.array values))
    (hi : values[i]? = some (.object inner)) (ha : Members.Ascending inner)
    (hlevel : Level.at? ((here.key name).index i) = some below) :
    Site document warnings below ((here.key name).index i) inner where
  level_eq := hlevel
  found := by
    have hat : (Json.object members).at? [.key name, .index i] = some (.object inner) := by
      simp [Json.at?, hl, hi]
    rw [Locator.index, Locator.key, List.append_assoc, Json.at?_append, site.found]
    exact hat
  ascending := ha
  reported := site.reported

end Site

theorem Json.members_of_objectViolations {path : Locator} {within : Members → List Violation}
    {value : Json} (h : value.objectViolations path within = []) :
    ∃ members, value = .object members := by
  cases value with
  | object members => exact ⟨members, rfl⟩
  | _ => cases h

/-- The fields of a choice in order are what the edits leave of it. -/
theorem Choice.toJson_ofRecord {document : Json} {warnings : List Warning} {here path : Locator}
    {members : Members} (site : Site document warnings .choice here members)
    (h : violations path (.object members) = []) :
    (ofRecord (.ofJson (.object members))).toJson =
      (Json.object members).revise (Config.normalization warnings) here := by
  simp only [violations, Json.objectViolations, tableViolations, table, List.flatMap_cons,
    List.append_eq_nil_iff] at h
  obtain ⟨hlabel, hvalue, hselected, hdisabled, -⟩ := h
  rw [toJson, encode_eq, Json.revise_object]
  refine congrArg Json.object (Members.ofList_present_eq (nodup_fields _)
    (Json.reviseMembers_ascending _ _ site.ascending) fun key => ?_)
  by_cases hkey : key ∈ Level.choice.declared
  · simp only [Level.declared, List.mem_cons, List.not_mem_nil, or_false] at hkey
    obtain rfl | rfl | rfl | rfl := hkey
    · exact site.rest_string hlabel (by decide) (by decide)
    · exact site.rest_string hvalue (by decide) (by decide)
    · exact site.rest_bool? hselected (by decide) (by decide) (by decide)
    · exact site.rest_bool? hdisabled (by decide) (by decide) (by decide)
  · have hnone : (ofRecord (.ofJson (.object members))).fields.lookup key = none :=
      Members.lookup_eq_none_of_not_mem hkey
    rw [hnone]
    exact site.rest_of_undeclared hkey

/-- A place where no keys are declared is left as it is, with everything in it. -/
theorem Config.normalization_eq_keep {document : Json} {warnings : List Warning} {here : Locator}
    (hreported : ∀ place, .unknownField place ∈ warnings ↔ Undeclared document place)
    (h : Level.at? here = none) (key : String) (value : Json) :
    normalization warnings here key value = .keep := by
  have hknown : .unknownField (here.key key) ∉ warnings := by
    rw [hreported]
    intro hfound
    obtain ⟨level, place, name, hlevel, heq, -⟩ := hfound
    obtain ⟨rfl, -⟩ := Locator.key_inj heq
    rw [h] at hlevel
    cases hlevel
  rw [normalization, if_neg hknown, h]

theorem Level.at?_within_custom (i : Nat) (rest : Locator) :
    Level.at? ([.key "questions", .index i, .key "custom"] ++ rest) = none := by
  cases h : Level.at? ([.key "questions", .index i, .key "custom"] ++ rest) with
  | none => rfl
  | some level =>
    rw [Level.at?_eq_some_iff] at h
    cases level <;> simp at h

/-- The hints of a question are left as they are, whatever they hold. -/
theorem Config.revise_custom {document : Json} {warnings : List Warning}
    (hreported : ∀ place, .unknownField place ∈ warnings ↔ Undeclared document place) (i : Nat)
    (value : Json) :
    value.revise (normalization warnings) [.key "questions", .index i, .key "custom"] = value :=
  Json.revise_eq_self (fun rest key value =>
    normalization_eq_keep hreported (Level.at?_within_custom i rest) key value) value

/-- The choices of a question in order are what the edits leave of its options. -/
theorem Question.rest_options {document : Json} {warnings : List Warning} {here path : Locator}
    {members : Members} (site : Site document warnings .question here members)
    (hcanonical : (Json.object members).Canonical) (h : violations path (.object members) = []) :
    site.rest.lookup "options" =
      (ofRecord (.ofJson (.object members))).choices.map fun choices =>
        .array (choices.map Choice.toJson) := by
  obtain ⟨values, ht, ho, -, hvalues⟩ | ⟨type, ht, hs, ho⟩ := choices_of_valid h
  · have htype := (Record.string?_eq_some_iff (r := .ofJson (.object members))).mpr ht
    have hoptions := (Record.array?_eq_some_iff (r := .ofJson (.object members))).mpr ho
    obtain ⟨i, hi⟩ := (Level.at?_eq_some_iff here .question).mp site.level_eq
    rw [listViolations_eq_nil_iff] at hvalues
    have heach (j : Nat) (value : Json) (hj : values[j]? = some value) :
        (Choice.ofRecord (Record.ofJson value)).toJson =
          value.revise (Config.normalization warnings) ((here.key "options").index j) := by
      obtain ⟨inner, rfl⟩ := Json.members_of_objectViolations (hvalues j value hj)
      have hinner := Json.canonical_array values |>.mp (hcanonical.of_lookup ho) _
        (List.mem_of_getElem? hj)
      refine Choice.toJson_ofRecord (site.within ho hj (Json.canonical_object inner |>.mp hinner).1 ?_)
        (hvalues j _ hj)
      subst hi
      exact (Level.at?_eq_some_iff _ .choice).mpr ⟨i, j, rfl⟩
    rw [site.rest_array ho (by decide) (by decide) heach]
    simp [ofRecord, htype, selectboxType, hoptions]
  · have htype := (Record.string?_eq_some_iff (r := .ofJson (.object members))).mpr ht
    have hnone : (ofRecord (.ofJson (.object members))).choices = none := by
      simp [ofRecord, htype, selectboxType, hs]
    rw [hnone]
    obtain ho | ho := ho
    · exact site.rest_of_absent ho
    · exact site.rest_of_null ho (by decide) (by decide)

/-- The fields of a question in order are what the edits leave of it. -/
theorem Question.toJson_ofRecord {document : Json} {warnings : List Warning} {here path : Locator}
    {members : Members} (site : Site document warnings .question here members)
    (hcanonical : (Json.object members).Canonical)
    (h : violations path (.object members) = []) :
    (ofRecord (.ofJson (.object members))).toJson =
      (Json.object members).revise (Config.normalization warnings) here := by
  have hoptions := rest_options site hcanonical h
  simp only [violations, Json.objectViolations, tableViolations, table, List.flatMap_cons,
    List.append_eq_nil_iff] at h
  obtain ⟨⟨⟨hlabel, hname, htype, hrequired, -⟩, -⟩, hcustom⟩ := h
  rw [toJson, encode_eq, Json.revise_object]
  refine congrArg Json.object (Members.ofList_present_eq (nodup_fields _ _)
    (Json.reviseMembers_ascending _ _ site.ascending) fun key => ?_)
  by_cases hkey : key ∈ Level.question.declared
  · simp only [Level.declared, List.mem_cons, List.not_mem_nil, or_false] at hkey
    obtain rfl | rfl | rfl | rfl | rfl | rfl := hkey
    · exact site.rest_text hlabel (by decide) (by decide)
    · exact site.rest_string hname (by decide) (by decide)
    · exact site.rest_string htype (by decide) (by decide)
    · exact site.rest_bool hrequired (by decide) (by decide)
    · exact hoptions
    · apply site.rest_object? hcustom (by decide) (by decide) (by decide)
      intro value
      obtain ⟨i, rfl⟩ := (Level.at?_eq_some_iff here .question).mp site.level_eq
      exact Config.revise_custom site.reported i value
  · have hnone : ((ofRecord (.ofJson (.object members))).fields Json.ofMembers).lookup key = none :=
      Members.lookup_eq_none_of_not_mem hkey
    rw [hnone]
    exact site.rest_of_undeclared hkey

namespace Config

/-- A document without violations is an object whose undeclared keys the warnings name. -/
theorem site_of_valid {document : Json} (hcanonical : document.Canonical)
    (h : violations document = []) :
    ∃ members, document = .object members ∧
      Site document (check document).warnings .document .root members := by
  obtain ⟨members, rfl⟩ := Json.members_of_objectViolations h
  refine ⟨members, rfl, rfl, rfl, (Json.canonical_object members |>.mp hcanonical).1, ?_⟩
  exact unknownField_mem_warnings_iff h

/-- The fields of a document in order are what the edits leave of it. -/
theorem toJson_ofRecord {document : Json} (hcanonical : document.Canonical)
    (h : violations document = []) :
    (ofRecord (.ofJson document)).toJson =
      document.revise (normalization (check document).warnings) .root := by
  obtain ⟨members, rfl, site⟩ := site_of_valid hcanonical h
  obtain ⟨values, hl, hvalues⟩ := questions_of_valid h
  have hquestions := (Record.array?_eq_some_iff (r := .ofJson (.object members))).mpr hl
  simp only [violations, Json.objectViolations, tableViolations, table, List.flatMap_cons,
    List.append_eq_nil_iff] at h
  obtain ⟨⟨hemail, htitle, hsubject, -, hurl, hupload, hinstructions, -⟩, -⟩ := h
  rw [toJson, encode_eq, Json.revise_object]
  refine congrArg Json.object (Members.ofList_present_eq (nodup_fields _ _)
    (Json.reviseMembers_ascending _ _ site.ascending) fun key => ?_)
  by_cases hkey : key ∈ Level.document.declared
  · simp only [Level.declared, List.mem_cons, List.not_mem_nil, or_false] at hkey
    obtain rfl | rfl | rfl | rfl | rfl | rfl | rfl := hkey
    · exact site.rest_string hemail (by decide) (by decide)
    · exact site.rest_string htitle (by decide) (by decide)
    · exact site.rest_string hsubject (by decide) (by decide)
    · rw [listViolations_eq_nil_iff] at hvalues
      have heach (i : Nat) (value : Json) (hi : values[i]? = some value) :
          (Question.ofRecord (.ofJson value)).toJson =
            value.revise (normalization (check (.object members)).warnings)
              ((Locator.root.key "questions").index i) := by
        obtain ⟨inner, rfl⟩ := Json.members_of_objectViolations (hvalues i value hi)
        have hinner := Json.canonical_array values |>.mp (hcanonical.of_lookup hl) _
          (List.mem_of_getElem? hi)
        exact Question.toJson_ofRecord
          (site.within hl hi (Json.canonical_object inner |>.mp hinner).1
            ((Level.at?_eq_some_iff _ .question).mpr ⟨i, rfl⟩)) hinner (hvalues i _ hi)
      refine (site.rest_array hl (by decide) (by decide) heach).trans ?_
      simp [fields, ofRecord, hquestions, Question.toJson, List.lookup_cons, Function.comp_def]
    · exact site.rest_string? hurl (by decide) (by decide) (by decide)
    · exact site.rest_bool? hupload (by decide) (by decide) (by decide)
    · exact site.rest_text? hinstructions (by decide) (by decide) (by decide)
  · have hnone : ((ofRecord (.ofJson (.object members))).fields Json.ofMembers).lookup key = none :=
      Members.lookup_eq_none_of_not_mem hkey
    rw [hnone]
    exact site.rest_of_undeclared hkey

theorem check_eq_ok {document : Json} {c : Config} (h : (check document).outcome = .ok c) :
    violations document = [] ∧ c = ofRecord (.ofJson document) := by
  rw [check_outcome] at h
  cases hv : violations document with
  | nil =>
    rw [hv] at h
    exact ⟨rfl, (Except.ok.inj h).symm⟩
  | cons v vs =>
    rw [hv] at h
    cases h

/-- The hints of a question are handed on with everything in them. -/
theorem revise_at?_custom {document : Json} (hcanonical : document.Canonical)
    (h : violations document = []) {i : Nat} {value : Json} (hn : value.isNull = false)
    (hvalue : document.at? [.key "questions", .index i, .key "custom"] = some value) :
    (document.revise (normalization (check document).warnings) .root).at?
      [.key "questions", .index i, .key "custom"] = some value := by
  obtain ⟨members, rfl, site⟩ := site_of_valid hcanonical h
  obtain ⟨values, hl, hvalues⟩ := questions_of_valid h
  rw [listViolations_eq_nil_iff] at hvalues
  have hquestion := site.rest_of_kept hl rfl (by decide) (by decide)
  simp only [Json.at?, hl, Option.bind_some, Option.bind_eq_some_iff] at hvalue
  obtain ⟨question, hi, hcustom⟩ := hvalue
  obtain ⟨inner, rfl⟩ := Json.members_of_objectViolations (hvalues i question hi)
  have hinner := Json.canonical_array values |>.mp (hcanonical.of_lookup hl) _
    (List.mem_of_getElem? hi)
  have below := site.within hl hi (Json.canonical_object inner |>.mp hinner).1
    ((Level.at?_eq_some_iff _ .question).mpr ⟨i, rfl⟩)
  have hlookup : inner.lookup "custom" = some value := (Json.at?_key inner "custom").symm.trans hcustom
  have hkept := (below.rest_of_kept hlookup hn (by decide) (by decide)).trans
    (congrArg some (revise_custom site.reported i value))
  have hitem : (Json.reviseItems (normalization (check (.object members)).warnings)
      (Locator.root.key "questions") 0 values)[i]? =
      some ((Json.object inner).revise (normalization (check (.object members)).warnings)
        ((Locator.root.key "questions").index i)) := by
    simp [Json.reviseItems_eq, hi]
  change (site.rest.lookup "questions").bind _ = _
  rw [hquestion, Option.bind_some, Json.revise_array]
  change Option.bind _ _ = _
  rw [hitem, Option.bind_some, Json.revise_object]
  exact (Json.at?_key _ "custom").trans hkept

/-- Writing what was read of a document gives the document back, without the keys that were warned of and the
    optional ones with null, and with its texts in one line; the keys that are warned of are the undeclared ones,
    and `custom` values stay as they are. -/
theorem toJson_of_accepted {document : Json} {c : Config} (hcanonical : document.Canonical)
    (h : (check document).outcome = .ok c) :
    (∀ place, .unknownField place ∈ (check document).warnings ↔ Undeclared document place) ∧
    c.toJson = document.revise (normalization (check document).warnings) .root ∧
    ∀ i value, document.at? [.key "questions", .index i, .key "custom"] = some value →
      value.isNull = false → c.toJson.at? [.key "questions", .index i, .key "custom"] = some value := by
  obtain ⟨hvalid, rfl⟩ := check_eq_ok h
  refine ⟨unknownField_mem_warnings_iff hvalid, toJson_ofRecord hcanonical hvalid, ?_⟩
  intro i value hvalue hn
  rw [toJson_ofRecord hcanonical hvalid]
  exact revise_at?_custom hcanonical hvalid hn hvalue

/-- A document with a key to warn of, optional keys with null and a label in two lines. -/
def editedDocument : Json := .object [
  ("email", .string "a@b.example"),
  ("instructions", .null),
  ("questions", .array [.object [
    ("custom", .object [("label", .null)]),
    ("label", .array [.string "Your", .string "name"]),
    ("name", .string "name"),
    ("options", .null),
    ("required", .bool true),
    ("type", .string "text")]]),
  ("subject", .string "Hello"),
  ("theme", .string "dark"),
  ("title", .string "Contact")]

theorem toJson_of_editedDocument :
    editedDocument.Canonical ∧ ∃ c, (check editedDocument).outcome = .ok c ∧
      Undeclared editedDocument [.key "theme"] ∧
      .unknownField [.key "theme"] ∈ (check editedDocument).warnings ∧
      c.toJson = editedDocument.revise (normalization (check editedDocument).warnings) .root ∧
      c.toJson.at? [.key "questions", .index 0, .key "custom"] =
        some (.object [("label", .null)]) := by
  have hcanonical : editedDocument.Canonical := by
    simp only [editedDocument, Json.Canonical, Json.CanonicalMembers, Json.CanonicalItems,
      Members.Ascending, and_true, true_and]
    decide +kernel
  obtain ⟨c, hc⟩ := (check_outcome_eq_ok_iff editedDocument).mpr (by decide +kernel)
  have hundeclared : Undeclared editedDocument [.key "theme"] :=
    ⟨.document, [], "theme", rfl, rfl, by decide +kernel, by decide⟩
  obtain ⟨hreported, hedits, hcustom⟩ := toJson_of_accepted hcanonical hc
  exact ⟨hcanonical, c, hc, hundeclared, (hreported _).mpr hundeclared, hedits,
    hcustom 0 _ rfl rfl⟩

end Config

end ContactForm
