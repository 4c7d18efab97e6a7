import ContactForm.Schema
import ContactForm.Proofs.Json.Members

namespace ContactForm

namespace Json

/-- Whether the kind of a value is the named one, or one of those named in a list. -/
def hasType (value : Json) : Json → Bool
  | .string name => name == value.kind.name
  | .array names => names.any fun name => name.string? == some value.kind.name
  | _ => false

/-- Whether a value has all the keys of a list, where it is an object. -/
def hasKeys (value : Json) : Json → Bool
  | .array keys =>
    match value with
    | .object members => keys.all fun key => key.string?.any fun key => (members.lookup key).isSome
    | _ => true
  | _ => false

/-- Whether a value is the given text, the only kind of constant that is asked for here. -/
def isConstant (value : Json) : Json → Bool
  | .string text => value.string? == some text
  | _ => false

/-- Whether a value has at least as many elements, where it is an array. -/
def hasMinItems (value : Json) : Json → Bool
  | .number (.natural count) =>
    match value with
    | .array items => decide (count.val ≤ items.length)
    | _ => true
  | _ => false

mutual

/-- Whether a value conforms to a JSON Schema that is a JSON value itself. Keywords that are not looked at below, and
    an `if` without `then` and `else`, ask nothing. -/
def conforms : Json → Json → Bool
  | .object keywords, value =>
    satisfiesAll keywords value &&
      match satisfiesNamed "if" keywords value with
      | none => true
      | some true => (satisfiesNamed "then" keywords value).getD true
      | some false => (satisfiesNamed "else" keywords value).getD true
  | .bool b, _ => b
  | _, _ => false
termination_by structural schema => schema

/-- Whether a value satisfies each keyword that stands for itself. -/
def satisfiesAll : List (String × Json) → Json → Bool
  | [], _ => true
  | (keyword, argument) :: keywords, value =>
    (if keyword = "type" then hasType value argument
    else if keyword = "required" then hasKeys value argument
    else if keyword = "properties" then satisfiesProperties argument value
    else if keyword = "items" then
      match value with
      | .array items => items.all fun item => conforms argument item
      | _ => true
    else if keyword = "oneOf" then countAlternatives argument value == 1
    else if keyword = "const" then isConstant value argument
    else if keyword = "minItems" then hasMinItems value argument
    else true) && satisfiesAll keywords value
termination_by structural keywords => keywords

/-- Whether a value conforms to the schema that a keyword names, where that keyword is there. -/
def satisfiesNamed (name : String) : List (String × Json) → Json → Option Bool
  | [], _ => none
  | (keyword, argument) :: keywords, value =>
    if keyword = name then some (conforms argument value) else satisfiesNamed name keywords value
termination_by structural keywords => keywords

def satisfiesProperties : Json → Json → Bool
  | .object schemas, .object members => conformsMembers schemas members
  | .object _, _ => true
  | _, _ => false
termination_by structural schemas => schemas

def conformsMembers : List (String × Json) → Members → Bool
  | [], _ => true
  | (name, schema) :: schemas, members =>
    (match members.lookup name with
      | none => true
      | some value => conforms schema value) && conformsMembers schemas members
termination_by structural schemas => schemas

def countAlternatives : Json → Json → Nat
  | .array schemas, value => countConforming schemas value
  | _, _ => 0
termination_by structural schemas => schemas

def countConforming : List Json → Json → Nat
  | [], _ => 0
  | schema :: schemas, value => (if conforms schema value then 1 else 0) + countConforming schemas value
termination_by structural schemas => schemas

end

theorem satisfiesAll_cons (entry : String × Json) (keywords : List (String × Json)) (value : Json) :
    satisfiesAll (entry :: keywords) value =
      (satisfiesAll [entry] value && satisfiesAll keywords value) := by
  simp [satisfiesAll]

theorem satisfiesAll_append (xs ys : List (String × Json)) (value : Json) :
    satisfiesAll (xs ++ ys) value = (satisfiesAll xs value && satisfiesAll ys value) := by
  induction xs with
  | nil => simp [satisfiesAll]
  | cons entry xs ih =>
    rw [List.cons_append, satisfiesAll_cons, ih, satisfiesAll_cons entry xs, Bool.and_assoc]

theorem satisfiesAll_eq_all (keywords : List (String × Json)) (value : Json) :
    satisfiesAll keywords value = keywords.all fun entry => satisfiesAll [entry] value := by
  induction keywords with
  | nil => rfl
  | cons entry keywords ih => rw [satisfiesAll_cons, ih, List.all_cons]

/-- The order of the keywords does not count. -/
theorem satisfiesAll_perm {xs ys : List (String × Json)} (h : xs.Perm ys) (value : Json) :
    satisfiesAll xs value = satisfiesAll ys value := by
  rw [satisfiesAll_eq_all, satisfiesAll_eq_all ys, h.all_eq]

theorem conformsMembers_eq_all (schemas : List (String × Json)) (members : Members) :
    conformsMembers schemas members = schemas.all fun entry =>
      match members.lookup entry.1 with
      | none => true
      | some value => conforms entry.2 value := by
  induction schemas with
  | nil => rfl
  | cons entry schemas ih => rw [conformsMembers, ih, List.all_cons]

theorem conformsMembers_perm {xs ys : List (String × Json)} (h : xs.Perm ys) (members : Members) :
    conformsMembers xs members = conformsMembers ys members := by
  rw [conformsMembers_eq_all, conformsMembers_eq_all ys, h.all_eq]

theorem satisfiesNamed_eq (name : String) (keywords : List (String × Json)) (value : Json) :
    satisfiesNamed name keywords value = (keywords.lookup name).map fun schema => conforms schema value := by
  induction keywords with
  | nil => rfl
  | cons entry keywords ih =>
    obtain ⟨keyword, argument⟩ := entry
    by_cases h : keyword = name
    · simp [satisfiesNamed, h]
    · have hb : (name == keyword) = false := by simpa using Ne.symm h
      simp [satisfiesNamed, h, List.lookup_cons, hb, ih]

/-- What the keywords `if`, `then` and `else` ask together. -/
def satisfiesConditional (keywords : List (String × Json)) (value : Json) : Bool :=
  match (keywords.lookup "if").map fun schema => conforms schema value with
  | none => true
  | some true => ((keywords.lookup "then").map fun schema => conforms schema value).getD true
  | some false => ((keywords.lookup "else").map fun schema => conforms schema value).getD true

theorem conforms_ofMembers {keywords : List (String × Json)} (h : (keywords.map (·.1)).Nodup)
    (value : Json) :
    conforms (.ofMembers keywords) value =
      (satisfiesAll keywords value && satisfiesConditional keywords value) := by
  rw [ofMembers, conforms, satisfiesAll_perm (Members.ofList_perm h), satisfiesConditional]
  simp only [satisfiesNamed_eq, Members.lookup_ofList h]

end Json

namespace Schema

/-- The keywords that ask something of a value. -/
def assertions : List String :=
  ["type", "required", "properties", "items", "oneOf", "const", "minItems", "if", "then", "else"]

/-- Whether each keyword of a schema stands once. -/
def hasDistinctKeywords (schema : List Keyword) : Bool :=
  decide ((membersOfAll schema).map (·.1)).Nodup

mutual

/-- Whether the schemas within a keyword are proper, and a note has a name of its own. -/
def isProperKeyword : Keyword → Bool
  | .properties schemas => decide (schemas.map (·.1)).Nodup && isProperEach schemas
  | .items schema => hasDistinctKeywords schema && areProperKeywords schema
  | .oneOf schemas => areProper schemas
  | .conditional test consequence alternative =>
    hasDistinctKeywords test && areProperKeywords test &&
      (hasDistinctKeywords consequence && areProperKeywords consequence) &&
      (hasDistinctKeywords alternative && areProperKeywords alternative)
  | .note name _ => !assertions.contains name
  | _ => true

def areProperKeywords : List Keyword → Bool
  | [] => true
  | keyword :: schema => isProperKeyword keyword && areProperKeywords schema

def isProperEach : List (String × List Keyword) → Bool
  | [] => true
  | (_, schema) :: schemas =>
    hasDistinctKeywords schema && areProperKeywords schema && isProperEach schemas

def areProper : List (List Keyword) → Bool
  | [] => true
  | schema :: schemas => hasDistinctKeywords schema && areProperKeywords schema && areProper schemas

end

theorem isNamed_iff (a b : Kind) : (a.name == b.name) = (a == b) := by
  cases a <;> cases b <;> decide

theorem satisfiesAll_type (kinds : List Kind) (value : Json) :
    Json.satisfiesAll (membersOf (.type kinds)) value = kinds.contains value.kind := by
  have hany : (kinds.map fun kind => Json.string kind.name).any
      (fun name => name.string? == some value.kind.name) = kinds.contains value.kind := by
    rw [List.any_map, List.contains_eq_any_beq]
    congr 1
    funext kind
    simpa [Json.string?, eq_comm] using isNamed_iff kind value.kind
  match kinds with
  | [] => rfl
  | [kind] => simpa [membersOf, Json.satisfiesAll, Json.hasType, Json.string?] using hany
  | first :: second :: rest =>
    simpa [membersOf, Json.satisfiesAll, Json.hasType] using hany

theorem membersOfEach_keys (schemas : List (String × List Keyword)) :
    (membersOfEach schemas).map (·.1) = schemas.map (·.1) := by
  induction schemas with
  | nil => rfl
  | cons entry schemas ih => simp [membersOfEach, ih]

/-- Two parts of a schema ask apart what they ask together, as long as `if`, `then` and `else` stand in one of them. -/
theorem satisfiesConditional_append {xs ys : List (String × Json)} (value : Json)
    (h : (∀ name ∈ ["if", "then", "else"], xs.lookup name = none) ∨
      (∀ name ∈ ["if", "then", "else"], ys.lookup name = none)) :
    Json.satisfiesConditional (xs ++ ys) value =
      (Json.satisfiesConditional xs value && Json.satisfiesConditional ys value) := by
  unfold Json.satisfiesConditional
  simp only [List.lookup_append]
  rcases h with h | h
  · have hif := h "if" (by simp)
    have hthen := h "then" (by simp)
    have helse := h "else" (by simp)
    simp [hif, hthen, helse]
  · have hif := h "if" (by simp)
    have hthen := h "then" (by simp)
    have helse := h "else" (by simp)
    simp [hif, hthen, helse]

/-- Only a condition has the keywords `if`, `then` and `else`. -/
theorem lookup_membersOf (keyword : Keyword) (h : isProperKeyword keyword = true)
    (hc : ∀ test consequence alternative, keyword ≠ .conditional test consequence alternative) :
    ∀ name ∈ ["if", "then", "else"], (membersOf keyword).lookup name = none := by
  have hsingle (key : String) (argument : Json) (hkey : key ∉ ["if", "then", "else"]) :
      ∀ name ∈ ["if", "then", "else"], [(key, argument)].lookup name = none := by
    intro name hname
    have hne : name ≠ key := fun heq => hkey (heq ▸ hname)
    simp [hne]
  match keyword with
  | .type [kind] => exact hsingle _ _ (by decide)
  | .type [] => exact hsingle _ _ (by decide)
  | .type (_ :: _ :: _) => exact hsingle _ _ (by decide)
  | .required _ => exact hsingle _ _ (by decide)
  | .properties _ => exact hsingle _ _ (by decide)
  | .items _ => exact hsingle _ _ (by decide)
  | .oneOf _ => exact hsingle _ _ (by decide)
  | .const _ => exact hsingle _ _ (by decide)
  | .minItems _ => exact hsingle _ _ (by decide)
  | .conditional _ _ _ => exact absurd rfl (hc _ _ _)
  | .note name _ =>
    apply hsingle
    intro hname
    have hnot : name ∉ assertions := by simpa [isProperKeyword] using h
    simp only [assertions, List.mem_cons] at hname hnot
    tauto

theorem satisfiesConditional_of_lookup {keywords : List (String × Json)} {value : Json}
    (h : ∀ name ∈ ["if", "then", "else"], keywords.lookup name = none) :
    Json.satisfiesConditional keywords value = true := by
  have hif := h "if" (by simp)
  simp [Json.satisfiesConditional, hif]

mutual

theorem asks_membersOf (keyword : Keyword) (h : isProperKeyword keyword = true) (value : Json) :
    (Json.satisfiesAll (membersOf keyword) value &&
      Json.satisfiesConditional (membersOf keyword) value) = accepts keyword value := by
  match keyword with
  | .type kinds =>
    rw [satisfiesConditional_of_lookup (lookup_membersOf _ h (by simp)), Bool.and_true,
      satisfiesAll_type]
    cases value <;> rfl
  | .required keys =>
    rw [satisfiesConditional_of_lookup (lookup_membersOf _ h (by simp)), Bool.and_true]
    cases value <;>
      simp [membersOf, Json.satisfiesAll, Json.hasKeys, accepts, List.all_map, Json.string?, Function.comp_def]
  | .properties schemas =>
    rw [satisfiesConditional_of_lookup (lookup_membersOf _ h (by simp)), Bool.and_true]
    simp only [isProperKeyword, Bool.and_eq_true, decide_eq_true_eq] at h
    have hkeys : ((membersOfEach schemas).map (·.1)).Nodup := by
      rw [membersOfEach_keys]
      exact h.1
    cases value with
    | object members =>
      simp [membersOf, Json.satisfiesAll, accepts, Json.ofMembers, Json.satisfiesProperties,
        Json.conformsMembers_perm (Members.ofList_perm hkeys),
        conformsMembers_membersOfEach schemas h.2 members]
    | _ => rfl
  | .items schema =>
    rw [satisfiesConditional_of_lookup (lookup_membersOf _ h (by simp)), Bool.and_true]
    simp only [isProperKeyword, Bool.and_eq_true] at h
    cases value with
    | array items =>
      simp [membersOf, Json.satisfiesAll, accepts, conforms_toJson schema h.1 h.2]
    | _ => rfl
  | .oneOf schemas =>
    rw [satisfiesConditional_of_lookup (lookup_membersOf _ h (by simp)), Bool.and_true]
    simp only [isProperKeyword] at h
    cases value <;>
      simp [membersOf, Json.satisfiesAll, accepts, Json.countAlternatives,
        countConforming_valuesOf schemas h]
  | .const text =>
    rw [satisfiesConditional_of_lookup (lookup_membersOf _ h (by simp)), Bool.and_true]
    cases value <;> simp [membersOf, Json.satisfiesAll, accepts, Json.isConstant]
  | .minItems count =>
    rw [satisfiesConditional_of_lookup (lookup_membersOf _ h (by simp)), Bool.and_true]
    cases value <;> simp [membersOf, Json.satisfiesAll, accepts, Json.hasMinItems]
  | .conditional test consequence alternative =>
    simp only [isProperKeyword, Bool.and_eq_true] at h
    obtain ⟨⟨⟨htd, ht⟩, hcd, hc⟩, had, ha⟩ := h
    have htest := conforms_toJson test htd ht value
    have hconsequence := conforms_toJson consequence hcd hc value
    have halternative := conforms_toJson alternative had ha value
    cases hverdict : acceptsAll test value <;>
      simp [membersOf, Json.satisfiesAll, Json.satisfiesConditional, accepts, List.lookup_cons,
        htest, hconsequence, halternative, hverdict]
  | .note name _ =>
    rw [satisfiesConditional_of_lookup (lookup_membersOf _ h (by simp)), Bool.and_true]
    have hnot : name ∉ assertions := by simpa [isProperKeyword] using h
    simp only [assertions, List.mem_cons, List.not_mem_nil, or_false, not_or] at hnot
    simp [membersOf, Json.satisfiesAll, accepts, hnot]

theorem conforms_toJson (schema : List Keyword) (hd : hasDistinctKeywords schema = true)
    (h : areProperKeywords schema = true) (value : Json) :
    Json.conforms (.ofMembers (membersOfAll schema)) value = acceptsAll schema value := by
  simp only [hasDistinctKeywords, decide_eq_true_eq] at hd
  rw [Json.conforms_ofMembers hd]
  exact asks_membersOfAll schema hd h value

theorem asks_membersOfAll (schema : List Keyword) (hd : ((membersOfAll schema).map (·.1)).Nodup)
    (h : areProperKeywords schema = true) (value : Json) :
    (Json.satisfiesAll (membersOfAll schema) value &&
      Json.satisfiesConditional (membersOfAll schema) value) = acceptsAll schema value := by
  match schema with
  | [] => rfl
  | keyword :: schema =>
    simp only [areProperKeywords, Bool.and_eq_true] at h
    rw [membersOfAll, List.map_append, List.nodup_append] at hd
    have hone := asks_membersOf keyword h.1 value
    have hrest := asks_membersOfAll schema hd.2.1 h.2 value
    rw [membersOfAll, Json.satisfiesAll_append, satisfiesConditional_append value, acceptsAll,
      ← hone, ← hrest]
    · ac_rfl
    by_cases hc : ∃ test consequence alternative, keyword = .conditional test consequence alternative
    · obtain ⟨test, consequence, alternative, rfl⟩ := hc
      right
      intro name hname
      rw [List.lookup_eq_none_iff]
      intro member hmember
      have hne : name ≠ member.1 := hd.2.2 name (by simpa [membersOf] using hname) member.1
        (List.mem_map.mpr ⟨member, hmember, rfl⟩)
      simpa using hne
    · exact .inl (lookup_membersOf keyword h.1 fun _ _ _ heq => hc ⟨_, _, _, heq⟩)

theorem conformsMembers_membersOfEach (schemas : List (String × List Keyword))
    (h : isProperEach schemas = true) (members : Members) :
    Json.conformsMembers (membersOfEach schemas) members = acceptsMembers schemas members := by
  match schemas with
  | [] => rfl
  | (name, schema) :: schemas =>
    simp only [isProperEach, Bool.and_eq_true] at h
    rw [membersOfEach, Json.conformsMembers, acceptsMembers,
      conformsMembers_membersOfEach schemas h.2 members]
    cases members.lookup name with
    | none => rfl
    | some value => simp only [conforms_toJson schema h.1.1 h.1.2 value]

theorem countConforming_valuesOf (schemas : List (List Keyword)) (h : areProper schemas = true)
    (value : Json) : Json.countConforming (valuesOf schemas) value = countAccepting schemas value := by
  match schemas with
  | [] => rfl
  | schema :: schemas =>
    simp only [areProper, Bool.and_eq_true] at h
    rw [valuesOf, Json.countConforming, countAccepting, conforms_toJson schema h.1.1 h.1.2,
      countConforming_valuesOf schemas h.2 value]

end

end Schema

end ContactForm
