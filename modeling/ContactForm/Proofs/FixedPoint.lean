import ContactForm.Loading
import ContactForm.Proofs.Json.Reading
import ContactForm.Proofs.Json.RoundTrip
import ContactForm.Proofs.Json.Stability
import ContactForm.Proofs.Lawful
import ContactForm.Proofs.Rereading

namespace ContactForm

namespace Json

theorem mem_of_lookup {members : Members} {name : String} {value : Json}
    (h : members.lookup name = some value) : (name, value) ∈ members := by
  obtain ⟨before, after, rfl, -⟩ := List.lookup_eq_some_iff.mp h
  exact List.mem_append_right before List.mem_cons_self

theorem depth_of_lookup {members : Members} {name : String} {value : Json} {n : Nat}
    (h : depth (.object members) ≤ n + 1) (hl : members.lookup name = some value) :
    value.depth ≤ n :=
  depth_object_le_iff.mp h (name, value) (mem_of_lookup hl)

/-- An optional member is no deeper than its value. -/
theorem depth_of_mem_optional {α : Type} {name : String} {o : Option α} {write : α → Json} {n : Nat}
    (h : ∀ a, o = some a → (write a).depth ≤ n) :
    ∀ member ∈ optionalMember name (o.map write), member.2.depth ≤ n :=
  forall_mem_optional (P := fun value => value.depth ≤ n) h

/-- Each step to a place leads into a container. -/
theorem depth_of_at? {document value : Json} {place : Locator} {n : Nat}
    (h : document.depth ≤ n + place.length) (hat : document.at? place = some value) :
    value.depth ≤ n := by
  induction place generalizing document with
  | nil =>
    obtain rfl := Option.some.inj hat
    exact h
  | cons step rest ih =>
    rw [List.length_cons, ← Nat.add_assoc] at h
    cases step with
    | key name =>
      cases document with
      | object members =>
        obtain ⟨inner, hinner, hat⟩ := Option.bind_eq_some_iff.mp hat
        exact ih (depth_of_lookup h hinner) hat
      | _ => cases hat
    | index i =>
      cases document with
      | array items =>
        obtain ⟨inner, hinner, hat⟩ := Option.bind_eq_some_iff.mp hat
        exact ih (depth_array_le_iff.mp h inner (List.mem_of_getElem? hinner)) hat
      | _ => cases hat

end Json

namespace Question

/-- What every accepted question keeps: the rule about choices, and sorted hints of at most `n` levels. -/
structure Sound (n : Nat) (q : Question) : Prop where
  lawful : q.Lawful
  canonical : ∀ members, q.custom = some members → (Json.object members).Canonical
  depth_le : ∀ members, q.custom = some members → (Json.object members).depth ≤ n

variable {n : Nat}

theorem sound_of_valid {path : Locator} {members : Members}
    (hcanonical : (Json.object members).Canonical) (hdepth : (Json.object members).depth ≤ n + 1)
    (h : violations path (.object members) = []) :
    (ofRecord (.ofJson (.object members))).Sound n where
  lawful := lawful_of_valid h
  canonical := canonical_ofRecord hcanonical
  depth_le _ hhints := Json.depth_of_lookup hdepth (lookup_custom hhints)

theorem depth_encode {q : Question} (h : q.Sound (n + 2)) : (q.encode Json.object).depth ≤ n + 3 := by
  have hchoice (c : Choice) : (c.encode Json.object).depth ≤ 1 := by
    rw [Choice.encode, Json.depth_object_le_iff, List.forall_mem_append, List.forall_mem_append]
    exact ⟨⟨by simp [Json.depth], Json.depth_of_mem_optional fun _ _ => Nat.le_refl 0⟩,
      Json.depth_of_mem_optional fun _ _ => Nat.le_refl 0⟩
  have hchoices (choices : List Choice) :
      (Json.array (choices.map (Choice.encode Json.object))).depth ≤ n + 2 := by
    rw [Json.depth_array_le_iff, List.forall_mem_map]
    intro c _
    exact (hchoice c).trans (Nat.le_add_left 1 n)
  rw [encode, Json.depth_object_le_iff, List.forall_mem_append, List.forall_mem_append]
  exact ⟨⟨by simp [Json.depth], Json.depth_of_mem_optional fun choices _ => hchoices choices⟩,
    Json.depth_of_mem_optional h.depth_le⟩

theorem lawful_reread? {q r : Question} (hq : q.Lawful) (h : q.reread? = some r) : r.Lawful := by
  obtain ⟨label, name, type, required, choices, custom⟩ := q
  cases custom with
  | none =>
    obtain rfl := Option.some.inj h
    exact hq
  | some members =>
    obtain ⟨found, -, rfl⟩ := Option.map_eq_some_iff.mp h
    exact hq

/-- The numbers in the hints of a question. -/
def numbers (q : Question) : List Number :=
  (q.custom.map fun members => (Json.object members).numbers).getD []

theorem reread?_eq_self_iff {q : Question} (h : q.Canonical) :
    q.reread? = some q ↔ ∀ n ∈ q.numbers, n.reread? = some n := by
  obtain ⟨label, name, type, required, choices, custom⟩ := q
  cases custom with
  | none => simp [reread?, numbers]
  | some members =>
    have hstable := Json.reread?_eq_self_iff (h members rfl)
    simp only [Json.reread?, Json.ofMembers, Option.map_eq_some_iff, Json.object.injEq] at hstable
    simpa [reread?, numbers, Json.Stable] using hstable

end Question

namespace Config

/-- Three containers stand around the hints of a question. -/
def Sound (c : Config) : Prop :=
  ∀ q ∈ c.questions, q.Sound (Reader.maxDepth - 3)

/-- The questions of an accepted configuration are sound. -/
theorem sound_of_accepted {document : Json} {c : Config} (hcanonical : document.Canonical)
    (hdepth : document.depth ≤ Reader.maxDepth) (h : (check document).outcome = .ok c) : c.Sound := by
  intro q hq
  obtain ⟨i, members, hat, hvalid, rfl⟩ := question_of_accepted h hq
  exact Question.sound_of_valid (hcanonical.of_at? hat) (Json.depth_of_at? hdepth hat) hvalid

theorem depth_encode {c : Config} (h : c.Sound) :
    (c.encode Json.object).depth ≤ Reader.maxDepth := by
  have hquestions : (Json.array (c.questions.map (Question.encode Json.object))).depth ≤
      Reader.maxDepth - 1 := by
    change _ ≤ Reader.maxDepth - 2 + 1
    rw [Json.depth_array_le_iff, List.forall_mem_map]
    intro q hq
    exact Question.depth_encode (h q hq)
  change _ ≤ Reader.maxDepth - 1 + 1
  rw [encode, Json.depth_object_le_iff, List.forall_mem_append, List.forall_mem_append,
    List.forall_mem_append]
  refine ⟨⟨⟨?_, Json.depth_of_mem_optional fun _ _ => Nat.zero_le _⟩,
    Json.depth_of_mem_optional fun _ _ => Nat.zero_le _⟩,
    Json.depth_of_mem_optional fun _ _ => Nat.zero_le _⟩
  simpa [Json.depth] using hquestions

/-- The rule about choices is kept where the hints of questions are read again. -/
theorem lawful_reread? {c d : Config} (hc : c.Lawful) (h : c.reread? = some d) : d.Lawful := by
  obtain ⟨questions, hread, rfl⟩ := Option.map_eq_some_iff.mp h
  intro q hq
  obtain ⟨source, hsource, heq⟩ := exists_of_mem_mapM hread hq
  exact Question.lawful_reread? (hc source hsource) heq

/-- Each number in the hints of the questions is read as it was where it was written. -/
def Stable (c : Config) : Prop :=
  ∀ q ∈ c.questions, ∀ n ∈ q.numbers, n.reread? = some n

instance : DecidablePred Stable :=
  fun c => inferInstanceAs (Decidable (∀ q ∈ c.questions, ∀ n ∈ q.numbers, n.reread? = some n))

theorem Sound.canonical {c : Config} (h : c.Sound) : c.Canonical :=
  fun q hq => (h q hq).canonical

theorem reread?_eq_self_iff {c : Config} (h : c.Canonical) : c.reread? = some c ↔ c.Stable := by
  have hquestions : c.reread? = some c ↔ c.questions.mapM Question.reread? = some c.questions := by
    rw [reread?, Option.map_eq_some_iff]
    constructor
    · intro hfound
      obtain ⟨questions, hread, heq⟩ := hfound
      rw [hread, ← heq]
    · intro hread
      exact ⟨c.questions, hread, rfl⟩
  rw [hquestions, mapM_eq_self_iff]
  exact forall₂_congr fun q hq => Question.reread?_eq_self_iff (h q hq)

theorem toOption_ofText (text : String) :
    (ofText text).outcome.toOption =
      (Json.parse text).toOption.bind fun document => (check document).outcome.toOption := by
  rw [ofText, Loading.parseText, Loading.reviewDocument]
  cases Json.parse text with
  | error fault => rfl
  | ok document =>
    simp only [Except.mapError, Review.lift_ok_bind, Review.mapError, Except.toOption,
      Option.bind_some]
    cases (check document).outcome <;> rfl

theorem sound_of_ofText {text : String} {c : Config} (h : (ofText text).outcome = .ok c) : c.Sound := by
  rw [← Except.toOption_eq_some_iff, toOption_ofText, Option.bind_eq_some_iff] at h
  obtain ⟨document, hparse, hcheck⟩ := h
  rw [Except.toOption_eq_some_iff] at hparse hcheck
  obtain ⟨hcanonical, hdepth⟩ := Json.parse_wellFormed hparse
  exact sound_of_accepted hcanonical hdepth hcheck

/-- A configuration that was read from a text is read again where it is written, with the numbers in the hints of
    its questions as they are read then. It is the same one, and is written the same way, exactly where each of
    these numbers is. -/
theorem ofText_pretty {text : String} {c : Config} (h : (ofText text).outcome = .ok c) :
    (ofText c.pretty).outcome.toOption = c.reread? ∧
    ((∃ d, (ofText c.pretty).outcome = .ok d ∧ d = c ∧ d.pretty = c.pretty) ↔ c.Stable) := by
  have hsound := sound_of_ofText h
  have hread : (ofText c.pretty).outcome.toOption = c.reread? := by
    rw [toOption_ofText, pretty, Json.parse_pretty (depth_encode hsound), reread?_encode]
    cases hd : c.reread? with
    | none => rfl
    | some d =>
      have hlawful : d.Lawful := lawful_reread? (fun q hq => (hsound q hq).lawful) hd
      rw [Option.map_some, Option.bind_some, check_toJson hlawful]
      rfl
  refine ⟨hread, ?_⟩
  rw [← reread?_eq_self_iff hsound.canonical, ← hread, Except.toOption_eq_some_iff]
  constructor
  · intro hfound
    obtain ⟨d, hd, rfl, -⟩ := hfound
    exact hd
  · intro hd
    exact ⟨c, hd, rfl, rfl⟩

/-- A text with the number `2 ^ 53 - 1`, which is written with a point: there its digits with the zero after the
    point are rounded to 53 bits first and divided by ten then, so that its even neighbour is read. -/
def roundedText : String :=
  "\x7b\"email\":\"e\",\"title\":\"t\",\"subject\":\"s\",\"questions\":[\x7b\"label\":\"l\"," ++
  "\"name\":\"n\",\"type\":\"text\",\"required\":true,\"custom\":\x7b\"max\":9007199254740991e0\x7d\x7d]\x7d"

theorem ofText_pretty_of_roundedText :
    ∃ c, (ofText roundedText).outcome = .ok c ∧ (ofText c.pretty).outcome.toOption = c.reread? ∧
      ¬∃ d, (ofText c.pretty).outcome = .ok d ∧ d = c ∧ d.pretty = c.pretty := by
  have hunstable : (ofText roundedText).outcome.toOption.map (decide ·.Stable) = some false := by
    decide +kernel
  obtain ⟨c, hc, hunstable⟩ := Option.map_eq_some_iff.mp hunstable
  rw [Except.toOption_eq_some_iff] at hc
  obtain ⟨hread, hstable⟩ := ofText_pretty hc
  exact ⟨c, hc, hread, fun h => of_decide_eq_false hunstable (hstable.mp h)⟩

end Config

end ContactForm
