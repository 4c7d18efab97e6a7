import ContactForm.Proofs.Lawful

namespace ContactForm

namespace Question

/-- Two questions that ask for the same; their hints may differ. -/
structure Alike (q r : Question) : Prop where
  label : q.label = r.label
  name : q.name = r.name
  type : q.type = r.type
  required : q.required = r.required
  choices : q.choices = r.choices

theorem Alike.refl (q : Question) : q.Alike q := ⟨rfl, rfl, rfl, rfl, rfl⟩

theorem Alike.trans {q r s : Question} (h : q.Alike r) (h' : r.Alike s) : q.Alike s where
  label := h.label.trans h'.label
  name := h.name.trans h'.name
  type := h.type.trans h'.type
  required := h.required.trans h'.required
  choices := h.choices.trans h'.choices

/-- The hints of a question after it was prepared: one for files takes any, which is all that changes. -/
structure Prepared (q r : Question) : Prop where
  file : q.type = "file" → ∃ hints, r.custom = some hints ∧
    hints.lookup "accept" = some (.string "*") ∧
    ∀ key, key ≠ "accept" → hints.lookup key = (q.custom.getD []).lookup key
  other : q.type ≠ "file" → r.custom = q.custom

variable (q : Question)

theorem acceptAny_of_file (h : q.type = "file") :
    q.acceptAny = { q with custom := some ((q.custom.getD []).set "accept" (.string "*")) } :=
  if_pos (beq_iff_eq.mpr h)

theorem acceptAny_of_other (h : q.type ≠ "file") : q.acceptAny = q :=
  if_neg fun hfile => h (beq_iff_eq.mp hfile)

theorem acceptAny_alike : q.acceptAny.Alike q := by
  by_cases h : q.type = "file"
  · rw [acceptAny_of_file q h]
    exact ⟨rfl, rfl, rfl, rfl, rfl⟩
  · rw [acceptAny_of_other q h]
    exact Alike.refl q

theorem acceptAny_prepared : q.Prepared q.acceptAny where
  file h := by
    rw [acceptAny_of_file q h]
    exact ⟨_, rfl, Members.lookup_set_self _ _ _, fun key hkey => Members.lookup_set_of_ne hkey _ _⟩
  other h := by rw [acceptAny_of_other q h]

/-- A question that takes any file already is prepared. -/
theorem acceptAny_acceptAny : q.acceptAny.acceptAny = q.acceptAny := by
  by_cases h : q.type = "file"
  · rw [acceptAny_of_file q.acceptAny (q.acceptAny_alike.type.trans h), acceptAny_of_file q h, Option.getD_some,
      Members.set_set]
  · rw [acceptAny_of_other q h, acceptAny_of_other q h]

/-- A question has choices where its type calls for them, and only there. -/
theorem Lawful.choices_iff {q : Question} (h : q.Lawful) :
    ((∃ choices, q.choices = some choices ∧ choices ≠ []) ↔ q.type = "selectbox") ∧
      (q.type ≠ "selectbox" → q.choices = none) := by
  unfold Lawful selectboxType at h
  by_cases hs : q.type = "selectbox"
  · rw [if_pos hs] at h
    obtain ⟨first, rest, hchoices⟩ := h
    exact ⟨⟨fun _ => hs, fun _ => ⟨_, hchoices, List.cons_ne_nil first rest⟩⟩, fun hne => absurd hs hne⟩
  · rw [if_neg hs] at h
    simp [h, hs]

end Question

namespace Config

/-- Points a form at one backend after the other. -/
def prepareAll (urls : List String) (c : Config) : Config :=
  urls.foldl (fun c url => c.prepare url) c

/-- Two configurations of the same form; their backends and the hints of their questions may differ. -/
structure Alike (c d : Config) : Prop where
  email : c.email = d.email
  title : c.title = d.title
  subject : c.subject = d.subject
  questions : List.Forall₂ Question.Alike c.questions d.questions
  ignoreFileUpload : c.ignoreFileUpload = d.ignoreFileUpload
  instructions : c.instructions = d.instructions

theorem Alike.refl (c : Config) : c.Alike c where
  email := rfl
  title := rfl
  subject := rfl
  questions := List.forall₂_same.mpr fun q _ => Question.Alike.refl q
  ignoreFileUpload := rfl
  instructions := rfl

theorem Alike.prepare {c d : Config} (h : d.Alike c) (url : String) : (d.prepare url).Alike c where
  email := h.email
  title := h.title
  subject := h.subject
  questions := by
    refine List.forall₂_map_left_iff.mpr (h.questions.imp fun q r hqr => ?_)
    exact q.acceptAny_alike.trans hqr
  ignoreFileUpload := h.ignoreFileUpload
  instructions := h.instructions

theorem prepare_questions (c : Config) (url : String) :
    List.Forall₂ Question.Prepared c.questions (c.prepare url).questions :=
  List.forall₂_map_right_iff.mpr (List.forall₂_same.mpr fun q _ => q.acceptAny_prepared)

/-- Of two backends that a form was pointed at, the first leaves no trace. -/
theorem prepare_prepare (c : Config) (first second : String) :
    (c.prepare first).prepare second = c.prepare second := by
  simp only [prepare, List.map_map]
  congr 1
  exact List.map_congr_left fun q _ => q.acceptAny_acceptAny

/-- What holds at first and is kept by each preparation holds after all of them. -/
theorem prepareAll_induction {P : Config → Prop} (hstep : ∀ c url, P c → P (c.prepare url)) (urls : List String)
    {c : Config} (h : P c) : P (c.prepareAll urls) := by
  induction urls generalizing c with
  | nil => exact h
  | cons url urls ih => exact ih (hstep c url h)

/-- Only the last of the backends counts. -/
theorem prepareAll_append (c : Config) (earlier : List String) (last : String) :
    c.prepareAll (earlier ++ [last]) = c.prepare last := by
  induction earlier generalizing c with
  | nil => rfl
  | cons url earlier ih => exact (ih (c.prepare url)).trans (c.prepare_prepare url last)

/-- However often a form is prepared, its questions have choices as their types call for them, and it stays the same
    form; its backend and its hints are those of the last preparation alone. -/
theorem prepareAll_of_accepted {document : Json} {c : Config} (h : (check document).outcome = .ok c)
    (urls : List String) :
    (∀ q ∈ (c.prepareAll urls).questions,
      ((∃ choices, q.choices = some choices ∧ choices ≠ []) ↔ q.type = "selectbox") ∧
      (q.type ≠ "selectbox" → q.choices = none)) ∧
    (c.prepareAll urls).Alike c ∧
    (document.Canonical → (c.prepareAll urls).Canonical) ∧
    ∀ earlier last, urls = earlier ++ [last] →
      (c.prepareAll urls).backendUrl = some last ∧
      List.Forall₂ Question.Prepared c.questions (c.prepareAll urls).questions ∧
      c.prepareAll urls = c.prepare last ∧
      (c.prepareAll urls).prepare last = c.prepareAll urls := by
  have hlawful : (c.prepareAll urls).Lawful :=
    prepareAll_induction (P := Lawful) (fun _ url hc => hc.prepare url) urls (lawful_of_accepted h)
  have halike : (c.prepareAll urls).Alike c :=
    prepareAll_induction (P := (Alike · c)) (fun _ url hd => hd.prepare url) urls (Alike.refl c)
  refine ⟨fun q hq => (hlawful q hq).choices_iff, halike, fun hcanonical => ?_, fun earlier last hurls => ?_⟩
  · exact prepareAll_induction (P := Canonical) (fun _ url hc => hc.prepare url) urls
      (canonical_of_accepted hcanonical h)
  · have hlast : c.prepareAll urls = c.prepare last := by rw [hurls, prepareAll_append]
    rw [hlast]
    exact ⟨rfl, c.prepare_questions last, rfl, c.prepare_prepare last last⟩

/-- A form with a question of each kind that preparing tells apart, two of them for files. -/
def mixedDocument : Json := .object [
  ("email", .string "a@b.example"),
  ("questions", .array [
    .object [("custom", .object [("accept", .string ".pdf"), ("multiple", .bool true)]),
      ("label", .string "Resume"), ("name", .string "resume"), ("required", .bool true), ("type", .string "file")],
    .object [("label", .string "Photo"), ("name", .string "photo"), ("required", .bool false),
      ("type", .string "file")],
    .object [("custom", .object [("accept", .string "image")]), ("label", .string "Topic"),
      ("name", .string "topic"),
      ("options", .array [.object [("label", .string "Sales"), ("value", .string "sales")]]),
      ("required", .bool true), ("type", .string "selectbox")]]),
  ("subject", .string "Hello"),
  ("title", .string "Contact")]

theorem prepareAll_of_mixedDocument : ∃ c, (check mixedDocument).outcome = .ok c ∧
    (c.prepareAll ["http://localhost:1/submit", "http://localhost:2/submit"]).backendUrl =
      some "http://localhost:2/submit" ∧
    c.prepareAll ["http://localhost:1/submit", "http://localhost:2/submit"] =
      c.prepare "http://localhost:2/submit" ∧
    (c.prepareAll ["http://localhost:1/submit", "http://localhost:2/submit"]).Alike c ∧
    (c.prepare "http://localhost:2/submit").questions.map (·.custom) = [
      some [("accept", .string "*"), ("multiple", .bool true)],
      some [("accept", .string "*")],
      some [("accept", .string "image")]] := by
  have haccepted : (check mixedDocument).outcome = .ok (ofRecord (.ofJson mixedDocument)) := by
    rw [check_outcome, show violations mixedDocument = [] by decide +kernel]
    rfl
  obtain ⟨-, halike, -, hlast⟩ := prepareAll_of_accepted haccepted
    ["http://localhost:1/submit", "http://localhost:2/submit"]
  obtain ⟨hurl, -, hprepare, -⟩ := hlast ["http://localhost:1/submit"] _ rfl
  exact ⟨_, haccepted, hurl, hprepare, halike, rfl⟩

end Config

end ContactForm
