import ContactForm.Backend
import ContactForm.Proofs.Normalization
import ContactForm.Proofs.Reencoding

namespace ContactForm

/-- What holds of the values of an optional member holds of the member, where there is one. -/
theorem forall_mem_optional {α : Type} {P : Json → Prop} {name : String} {o : Option α} {write : α → Json}
    (h : ∀ a, o = some a → P (write a)) :
    ∀ member ∈ optionalMember name (o.map write), P member.2 := by
  cases o with
  | none =>
    intro _ hmem
    exact absurd hmem List.not_mem_nil
  | some a =>
    intro member hmem
    obtain rfl := List.mem_singleton.mp hmem
    exact h a rfl

theorem Json.Canonical.of_at? {document value : Json} (h : document.Canonical) {place : Locator}
    (hat : document.at? place = some value) : value.Canonical := by
  induction place generalizing document with
  | nil =>
    obtain rfl := Option.some.inj hat
    exact h
  | cons step rest ih =>
    cases step with
    | key name =>
      cases document with
      | object members =>
        obtain ⟨inner, hinner, hat⟩ := Option.bind_eq_some_iff.mp hat
        exact ih (h.of_lookup hinner) hat
      | _ => cases hat
    | index i =>
      cases document with
      | array items =>
        obtain ⟨inner, hinner, hat⟩ := Option.bind_eq_some_iff.mp hat
        exact ih (Json.canonical_array items |>.mp h inner (List.mem_of_getElem? hinner)) hat
      | _ => cases hat

namespace Question

/-- The hints of a question are sorted by key, at every depth. -/
def Canonical (q : Question) : Prop :=
  ∀ hints, q.custom = some hints → (Json.object hints).Canonical

variable {path : Locator} {members : Members}

theorem lawful_of_valid (h : violations path (.object members) = []) :
    (ofRecord (.ofJson (.object members))).Lawful := by
  obtain ⟨values, ht, ho, hne, -⟩ | ⟨type, ht, hs, -⟩ := choices_of_valid h
  · have htype := (Record.string?_eq_some_iff (r := .ofJson (.object members))).mpr ht
    have hoptions := (Record.array?_eq_some_iff (r := .ofJson (.object members))).mpr ho
    cases values with
    | nil => exact absurd rfl hne
    | cons first rest => simp [Lawful, ofRecord, htype, selectboxType, hoptions]
  · have htype := (Record.string?_eq_some_iff (r := .ofJson (.object members))).mpr ht
    simp [Lawful, ofRecord, htype, selectboxType, hs]

theorem lookup_custom {hints : Members}
    (h : (ofRecord (.ofJson (.object members))).custom = some hints) :
    members.lookup "custom" = some (.object hints) :=
  Record.object?_eq_some_iff.mp h

theorem canonical_ofRecord (h : (Json.object members).Canonical) :
    (ofRecord (.ofJson (.object members))).Canonical :=
  fun _ hhints => h.of_lookup (lookup_custom hhints)

theorem custom_acceptAny {q : Question} {hints : Members} (h : q.acceptAny.custom = some hints) :
    q.custom = some hints ∨ hints = (q.custom.getD []).set "accept" (.string "*") := by
  unfold Question.acceptAny at h
  split at h
  · exact Or.inr (Option.some.inj h).symm
  · exact Or.inl h

theorem Canonical.acceptAny {q : Question} (h : q.Canonical) : q.acceptAny.Canonical := by
  intro hints hcustom
  obtain hsame | rfl := custom_acceptAny hcustom
  · exact h hints hsame
  · have hbefore : (Json.object (q.custom.getD [])).Canonical := by
      cases hnone : q.custom with
      | none => exact ⟨List.Pairwise.nil, trivial⟩
      | some hints => exact h hints hnone
    obtain ⟨hascending, hvalues⟩ := (Json.canonical_object _).mp hbefore
    rw [Json.canonical_object]
    exact ⟨hascending.set "accept" _, Members.forall_mem_set trivial hvalues⟩

theorem Lawful.acceptAny {q : Question} (h : q.Lawful) : q.acceptAny.Lawful := by
  unfold Question.acceptAny
  split
  · exact h
  · exact h

end Question

theorem Choice.canonical_toJson (c : Choice) : c.toJson.Canonical := by
  rw [toJson, encode]
  apply Json.canonical_ofMembers
  rw [List.forall_mem_append, List.forall_mem_append]
  exact ⟨⟨by simp [Json.Canonical], forall_mem_optional fun _ _ => trivial⟩,
    forall_mem_optional fun _ _ => trivial⟩

theorem Question.Canonical.toJson {q : Question} (h : q.Canonical) : q.toJson.Canonical := by
  have hchoices (choices : List Choice) :
      (Json.array (choices.map (Choice.encode Json.ofMembers))).Canonical := by
    rw [Json.canonical_array, List.forall_mem_map]
    exact fun c _ => c.canonical_toJson
  rw [Question.toJson, encode]
  apply Json.canonical_ofMembers
  rw [List.forall_mem_append, List.forall_mem_append]
  exact ⟨⟨by simp [Json.Canonical], forall_mem_optional fun choices _ => hchoices choices⟩,
    forall_mem_optional h⟩

namespace Config

/-- The hints of all questions are sorted by key, as they are where they were read. -/
def Canonical (c : Config) : Prop :=
  ∀ q ∈ c.questions, q.Canonical

theorem Canonical.toJson {c : Config} (h : c.Canonical) : c.toJson.Canonical := by
  have hquestions : (Json.array (c.questions.map (Question.encode Json.ofMembers))).Canonical := by
    rw [Json.canonical_array, List.forall_mem_map]
    exact fun q hq => (h q hq).toJson
  rw [Config.toJson, encode]
  apply Json.canonical_ofMembers
  rw [List.forall_mem_append, List.forall_mem_append, List.forall_mem_append]
  refine ⟨⟨⟨?_, forall_mem_optional fun _ _ => trivial⟩, forall_mem_optional fun _ _ => trivial⟩,
    forall_mem_optional fun _ _ => trivial⟩
  simpa [Json.Canonical] using hquestions

/-- Each question of an accepted document is read of an object without violations that stands in the document. -/
theorem question_of_accepted {document : Json} {c : Config} (h : (check document).outcome = .ok c)
    {q : Question} (hq : q ∈ c.questions) :
    ∃ i members, document.at? [.key "questions", .index i] = some (.object members) ∧
      Question.violations ((Locator.root.key "questions").index i) (.object members) = [] ∧
      q = Question.ofRecord (.ofJson (.object members)) := by
  obtain ⟨hvalid, rfl⟩ := check_eq_ok h
  obtain ⟨members, rfl⟩ := Json.members_of_objectViolations hvalid
  obtain ⟨values, hl, hvalues⟩ := questions_of_valid hvalid
  have hquestions := (Record.array?_eq_some_iff (r := .ofJson (.object members))).mpr hl
  rw [listViolations_eq_nil_iff] at hvalues
  rw [ofRecord, hquestions, Option.getD_some] at hq
  obtain ⟨value, hmem, rfl⟩ := List.mem_map.mp hq
  obtain ⟨i, hi⟩ := List.getElem?_of_mem hmem
  obtain ⟨inner, rfl⟩ := Json.members_of_objectViolations (hvalues i value hi)
  exact ⟨i, inner, by simp [Json.at?, hl, hi], hvalues i _ hi, rfl⟩

theorem canonical_of_accepted {document : Json} {c : Config} (hcanonical : document.Canonical)
    (h : (check document).outcome = .ok c) : c.Canonical := by
  intro q hq
  obtain ⟨i, members, hat, -, rfl⟩ := question_of_accepted h hq
  exact Question.canonical_ofRecord (hcanonical.of_at? hat)

theorem lawful_of_accepted {document : Json} {c : Config} (h : (check document).outcome = .ok c) :
    c.Lawful := by
  intro q hq
  obtain ⟨i, members, -, hvalid, rfl⟩ := question_of_accepted h hq
  exact Question.lawful_of_valid hvalid

theorem Canonical.prepare {c : Config} (h : c.Canonical) (url : String) : (c.prepare url).Canonical := by
  intro q hq
  obtain ⟨source, hsource, rfl⟩ := List.mem_map.mp hq
  exact (h source hsource).acceptAny

theorem Lawful.prepare {c : Config} (h : c.Lawful) (url : String) : (c.prepare url).Lawful := by
  intro q hq
  obtain ⟨source, hsource, rfl⟩ := List.mem_map.mp hq
  exact (h source hsource).acceptAny

end Config

end ContactForm
