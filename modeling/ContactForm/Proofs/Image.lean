import ContactForm.Proofs.Lawful

namespace ContactForm

/-- An object with no keys but those of the fields has none that the table does not declare. -/
theorem undeclared_of_hold {members : Members} {fields : List (String × Option Json)} {table : List Row}
    (h : members.Hold fields) (hnames : fields.map (·.1) = table.map (·.name)) :
    undeclared table members = [] := by
  rw [List.eq_nil_iff_forall_not_mem]
  intro key hkey
  rw [mem_undeclared_iff, h, ← hnames] at hkey
  rw [Members.lookup_eq_none_of_not_mem hkey.2] at hkey
  exact absurd hkey.1 (by simp)

theorem listTrace_eq_nil {path : Locator} {violations : Locator → Json → List Violation}
    {trace : Locator → Json → List Warning} {values : List Json}
    (h : listViolations path violations values = [])
    (htrace : ∀ value ∈ values, ∀ here, trace here value = []) :
    listTrace path violations trace values = [] := by
  rw [List.eq_nil_iff_forall_not_mem]
  intro w hw
  obtain ⟨i, value, hi, hw⟩ := (mem_listTrace_iff h w).mp hw
  rw [htrace value (List.mem_of_getElem? hi)] at hw
  exact absurd hw List.not_mem_nil

theorem Choice.trace_toJson (c : Choice) (path : Locator) : trace path c.toJson = [] := by
  obtain ⟨members, hjson, hold⟩ := c.toJson_eq
  have hvalid := violations_of_hold hold path
  change tableViolations members path table = [] at hvalid
  rw [hjson, trace, hvalid, undeclaredWarnings, undeclared_of_hold hold rfl]
  rfl

namespace Question

theorem choicesTrace_of_hold {q : Question} {members : Members}
    (h : members.Hold (q.fields Json.ofMembers)) {path : Locator}
    (hvalid : violations path (.object members) = []) : choicesTrace path members = [] := by
  obtain ⟨values, ht, ho, -, hvalues⟩ | ⟨type, ht, hs, ho⟩ := choices_of_valid hvalid
  · have hoptions : members.lookup "options" =
        q.choices.map fun choices => .array (choices.map Choice.toJson) := h "options"
    rw [ho, eq_comm, Option.map_eq_some_iff] at hoptions
    obtain ⟨choices, -, heq⟩ := hoptions
    obtain rfl := Json.array.inj heq
    rw [choicesTrace, ht, ho]
    refine listTrace_eq_nil hvalues ?_
    intro value hvalue here
    obtain ⟨c, -, rfl⟩ := List.mem_map.mp hvalue
    exact c.trace_toJson here
  · obtain ho | ho := ho <;> simp [choicesTrace, ht, ho]

theorem trace_toJson {q : Question} (hq : q.Lawful) (path : Locator) : trace path q.toJson = [] := by
  obtain ⟨members, hjson, hold⟩ := q.toJson_eq
  have hvalid := violations_of_hold hold hq path
  have hrows := hvalid
  simp only [violations, Json.objectViolations, List.append_eq_nil_iff] at hrows
  rw [hjson, trace, hrows.1.1, undeclaredWarnings, undeclared_of_hold hold rfl,
    choicesTrace_of_hold hold hvalid]
  rfl

end Question

namespace Config

/-- Checking what a configuration is written as gives it back, with no warning but those about names that questions
    share. -/
theorem check_toJson_eq {c : Config} (hc : c.Lawful) :
    check c.toJson =
      ⟨nameWarnings (Locator.root.key "questions") (c.questions.map (·.name)), .ok c⟩ := by
  have hold : Members.Hold (Members.ofList (Members.present (c.fields Json.ofMembers)))
      (c.fields Json.ofMembers) := Members.ofList_present_hold (c.nodup_fields Json.ofMembers)
  have hjson : c.toJson = .object _ := c.encode_eq Json.ofMembers
  have hvalid := violations_of_hold hold hc
  have hrows := hvalid
  simp only [violations, Json.objectViolations, List.append_eq_nil_iff] at hrows
  have hquestions : questionsTrace (Members.ofList (Members.present (c.fields Json.ofMembers))) = [] := by
    obtain ⟨values, hl, hvalues⟩ := questions_of_valid hvalid
    have hlookup := (hold "questions").symm.trans hl
    obtain rfl := Json.array.inj (Option.some.inj hlookup)
    rw [questionsTrace, hl]
    refine listTrace_eq_nil hvalues ?_
    intro value hvalue here
    obtain ⟨q, hq, rfl⟩ := List.mem_map.mp hvalue
    exact Question.trace_toJson (hc q hq) here
  have hwarnings : (check c.toJson).warnings =
      nameWarnings (Locator.root.key "questions") (c.questions.map (·.name)) := by
    rw [hjson, check_warnings, trace, hrows.1, hvalid, undeclaredWarnings, undeclared_of_hold hold rfl,
      hquestions, ofRecord_of_hold hold hc, repeatedNames_eq]
    rfl
  calc check c.toJson = ⟨(check c.toJson).warnings, (check c.toJson).outcome⟩ := rfl
    _ = _ := by rw [hwarnings, check_toJson hc]

/-- The configurations that documents are accepted as are those that keep the rule about choices, and each of them is
    what is read of its own JSON value, which has no unknown field; preparing a configuration keeps the rule. Where
    documents are sorted by key, so are the hints of questions, and the other way round. -/
theorem accepted_iff_lawful (c : Config) :
    ((∃ document, (check document).outcome = .ok c) ↔ c.Lawful) ∧
    ((∃ document, document.Canonical ∧ (check document).outcome = .ok c) ↔ c.Lawful ∧ c.Canonical) ∧
    (c.Lawful →
      check c.toJson =
        ⟨nameWarnings (Locator.root.key "questions") (c.questions.map (·.name)), .ok c⟩ ∧
      (∀ place, .unknownField place ∉ (check c.toJson).warnings) ∧
      ∀ url, (c.prepare url).Lawful) := by
  refine ⟨⟨?_, ?_⟩, ⟨?_, ?_⟩, ?_⟩
  · intro haccepted
    obtain ⟨document, h⟩ := haccepted
    exact lawful_of_accepted h
  · intro hc
    exact ⟨c.toJson, check_toJson hc⟩
  · intro haccepted
    obtain ⟨document, hcanonical, h⟩ := haccepted
    exact ⟨lawful_of_accepted h, canonical_of_accepted hcanonical h⟩
  · intro hc
    exact ⟨c.toJson, hc.2.toJson, check_toJson hc.1⟩
  · intro hc
    refine ⟨check_toJson_eq hc, fun place => ?_, hc.prepare⟩
    rw [check_toJson_eq hc]
    exact unknownField_not_mem_nameWarnings _ place _

/-- Two questions of one name: choices with and without flags, a blank text, no hints and none at all. -/
def sharedNameConfig : Config where
  email := "a@b.example"
  title := "Contact"
  subject := "Hello"
  questions := [
    { label := "Topic", name := "topic", type := "selectbox", required := true
      choices := some [⟨"Sales", "sales", some false, none⟩, ⟨"", "", none, some true⟩]
      custom := some [("label", .null), ("options", .object [])] },
    { label := "", name := "topic", type := "file", required := false, choices := none
      custom := some [] }]
  backendUrl := none
  ignoreFileUpload := some false
  instructions := some ""

theorem accepted_iff_lawful_of_sharedName :
    sharedNameConfig.Lawful ∧ sharedNameConfig.Canonical ∧
    check sharedNameConfig.toJson =
      ⟨[.duplicateName [.key "questions", .index 1, .key "name"] "topic"
        [.key "questions", .index 0, .key "name"]], .ok sharedNameConfig⟩ ∧
    ∃ document, document.Canonical ∧ (check document).outcome = .ok sharedNameConfig := by
  have hlawful : sharedNameConfig.Lawful := by
    simp [Lawful, sharedNameConfig, Question.Lawful, Question.selectboxType]
  have hcanonical : sharedNameConfig.Canonical := by
    have hkeys : "label" < "options" := by decide
    simpa [Canonical, sharedNameConfig, Question.Canonical, Members.Ascending, Json.Canonical,
      Json.CanonicalMembers] using hkeys
  obtain ⟨-, hsorted, hread⟩ := accepted_iff_lawful sharedNameConfig
  have hnames : nameWarnings (Locator.root.key "questions") (sharedNameConfig.questions.map (·.name)) =
      [.duplicateName [.key "questions", .index 1, .key "name"] "topic"
        [.key "questions", .index 0, .key "name"]] := by
    decide
  exact ⟨hlawful, hcanonical, hnames ▸ (hread hlawful).1, hsorted.mpr ⟨hlawful, hcanonical⟩⟩

end Config

end ContactForm
