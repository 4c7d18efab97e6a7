import ContactForm.Proofs.Validation.UnknownPlaces

namespace ContactForm

/-- Of two places that are keys of one object, the key of the second is the greater one. -/
def Locator.KeysAscend (p q : Locator) : Prop :=
  ∀ (here : Locator) (a b : String), p = here.key a → q = here.key b → a < b

/-- A place is that of a key of a value at `outer`, or of one within it. -/
def Locator.Beneath (outer place : Locator) : Prop :=
  ∃ (rest : Locator) (name : String), place = Locator.key (outer ++ rest) name

theorem Locator.index_append_inj {path rest rest' : Locator} {i j : Nat}
    (h : path.index i ++ rest = path.index j ++ rest') : i = j := by
  rw [index, index, List.append_assoc, List.append_assoc] at h
  have hsteps := List.append_cancel_left h
  simpa using (List.cons.inj hsteps).1

/-- Keys within different elements of an array are keys of different objects. -/
theorem Locator.keysAscend_of_index_ne {path p q : Locator} {i j : Nat} (hne : i ≠ j)
    (hp : Beneath (path.index i) p) (hq : Beneath (path.index j) q) : KeysAscend p q := by
  intro here a b hpa hqb
  obtain ⟨rest, _, rfl⟩ := hp
  obtain ⟨rest', _, rfl⟩ := hq
  have hfirst := (key_inj hpa).1
  have hsecond := (key_inj hqb).1
  exact absurd (index_append_inj (hfirst.trans hsecond.symm)) hne

/-- A key of an object and a key within an element of an array in it are keys of different objects. -/
theorem Locator.keysAscend_of_within {path p q : Locator} {name : String} {i : Nat}
    (hp : ∃ key, p = path.key key) (hq : Beneath ((path.key name).index i) q) : KeysAscend p q := by
  intro here a b hpa hqb
  obtain ⟨_, rfl⟩ := hp
  obtain ⟨rest, _, rfl⟩ := hq
  have hfirst := (key_inj hpa).1
  have hsecond := (key_inj hqb).1
  have hlength := congrArg List.length (hfirst.trans hsecond.symm)
  simp only [key, index, List.length_append, List.length_cons, List.length_nil] at hlength
  omega

theorem undeclaredPlaces_pairwise (table : List Row) (path : Locator) {members : Members}
    (h : Members.Ascending members) : (undeclaredPlaces table path members).Pairwise Locator.KeysAscend := by
  rw [undeclaredPlaces, List.pairwise_map, undeclared]
  have hkeys : (members.map (·.1)).Pairwise (· < ·) := List.pairwise_map.mpr h
  refine (hkeys.filter _).imp ?_
  intro a b hab here x y hx hy
  obtain ⟨-, rfl⟩ := Locator.key_inj hx
  obtain ⟨-, rfl⟩ := Locator.key_inj hy
  exact hab

theorem pairwise_index_zipIdx (values : List Json) :
    values.zipIdx.Pairwise fun first second => first.2 ≠ second.2 := by
  have hindices : (values.zipIdx.map (·.2)).Pairwise (· < ·) := by
    rw [List.zipIdx_map_snd]
    exact List.pairwise_lt_range'
  exact (List.pairwise_map.mp hindices).imp fun hlt => Nat.ne_of_lt hlt

theorem Record.ofJson_ascending {value : Json} (h : value.Canonical) :
    Members.Ascending (ofJson value).members := by
  cases value with
  | object members => exact ((Json.canonical_object members).mp h).1
  | _ => exact List.Pairwise.nil

theorem mem_undeclaredPlaces {table : List Row} {path place : Locator} {members : Members}
    (h : place ∈ undeclaredPlaces table path members) :
    ∃ key, place = path.key key ∧ key ∉ table.map (·.name) := by
  obtain ⟨key, hkey, rfl⟩ := List.mem_map.mp h
  exact ⟨key, rfl, ((mem_undeclared_iff table members key).mp hkey).2⟩

/-- Places in the elements of an array, one element after the other. -/
theorem elementPlaces_pairwise (path : Locator) {entries : List (Json × Nat)}
    {places : Json × Nat → List Locator}
    (hindex : entries.Pairwise fun first second => first.2 ≠ second.2)
    (heach : ∀ entry ∈ entries, (places entry).Pairwise Locator.KeysAscend)
    (hbeneath : ∀ entry, ∀ place ∈ places entry, Locator.Beneath (path.index entry.2) place) :
    (entries.flatMap places).Pairwise Locator.KeysAscend := by
  rw [List.pairwise_flatMap]
  refine ⟨heach, hindex.imp ?_⟩
  intro first second hne p hp q hq
  exact Locator.keysAscend_of_index_ne hne (hbeneath first p hp) (hbeneath second q hq)

namespace Question

variable {path place : Locator}

theorem mem_choicePlaces {members : Members} (h : place ∈ choicePlaces path members) :
    members.lookup "type" = some (.string "selectbox") ∧
      ∃ j key, place = ((path.key "options").index j).key key := by
  unfold choicePlaces at h
  split at h
  · next type values htype hoptions =>
    split at h
    · next hs =>
      obtain ⟨entry, -, hplace⟩ := List.mem_flatMap.mp h
      obtain ⟨key, rfl, -⟩ := mem_undeclaredPlaces hplace
      exact ⟨hs ▸ htype, entry.2, key, rfl⟩
    · cases h
  · cases h

theorem mem_unknownPlaces {value : Json} (h : place ∈ unknownPlaces path value) :
    (∃ key, place = path.key key ∧ key ∉ declared.map (·.name)) ∨
      value.at? [.key "type"] = some (.string "selectbox") ∧
        ∃ j key, place = ((path.key "options").index j).key key := by
  unfold unknownPlaces at h
  split at h
  · next members =>
    split at h
    · obtain hown | hchoice := List.mem_append.mp h
      · exact .inl (mem_undeclaredPlaces hown)
      · rw [Json.at?_key]
        exact .inr (mem_choicePlaces hchoice)
    · cases h
  · cases h

theorem beneath_of_mem_unknownPlaces {value : Json} (h : place ∈ unknownPlaces path value) :
    Locator.Beneath path place := by
  obtain ⟨key, rfl, -⟩ | ⟨-, j, key, rfl⟩ := mem_unknownPlaces h
  · exact ⟨[], key, by rw [List.append_nil]⟩
  · exact ⟨[.key "options", .index j], key, by simp [Locator.key, Locator.index]⟩

theorem choicePlaces_pairwise {members : Members} (h : (Json.object members).Canonical) :
    (choicePlaces path members).Pairwise Locator.KeysAscend := by
  unfold choicePlaces
  split
  · next values _ hoptions =>
    split
    · refine elementPlaces_pairwise (path.key "options")
        ((pairwise_index_zipIdx values).sublist (List.takeWhile_sublist _)) ?_ ?_
      · intro entry hmem
        obtain ⟨value, j⟩ := entry
        have hvalue := List.fst_mem_of_mem_zipIdx ((List.takeWhile_sublist _).subset hmem)
        exact undeclaredPlaces_pairwise _ _ (Record.ofJson_ascending (h.of_mem_array hoptions hvalue))
      · intro entry place hplace
        obtain ⟨key, rfl, -⟩ := mem_undeclaredPlaces hplace
        exact ⟨[], key, by rw [List.append_nil]⟩
    · exact List.Pairwise.nil
  · exact List.Pairwise.nil

theorem unknownPlaces_pairwise {value : Json} (h : value.Canonical) :
    (unknownPlaces path value).Pairwise Locator.KeysAscend := by
  unfold unknownPlaces
  split
  · next members =>
    split
    · rw [List.pairwise_append]
      refine ⟨undeclaredPlaces_pairwise _ _ ((Json.canonical_object members).mp h).1,
        choicePlaces_pairwise h, ?_⟩
      intro p hp q hq
      obtain ⟨key, rfl, -⟩ := mem_undeclaredPlaces hp
      obtain ⟨-, j, name, rfl⟩ := mem_choicePlaces hq
      exact Locator.keysAscend_of_within ⟨key, rfl⟩ ⟨[], name, by rw [List.append_nil]⟩
    · exact List.Pairwise.nil
  · exact List.Pairwise.nil

end Question

namespace Config

variable {document : Json} {place : Locator}

theorem mem_questionPlaces {members : Members} (h : place ∈ questionPlaces members) :
    ∃ i question, (Json.object members).at? [.key "questions", .index i] = some question ∧
      place ∈ Question.unknownPlaces [.key "questions", .index i] question := by
  unfold questionPlaces at h
  split at h
  · next values hvalues =>
    obtain ⟨⟨question, i⟩, hmem, hplace⟩ := List.mem_flatMap.mp h
    have hi := List.mk_mem_zipIdx_iff_getElem?.mp ((throughFirst_sublist _ _).subset hmem)
    exact ⟨i, question, by simp [Json.at?, hvalues, hi], hplace⟩
  · cases h

theorem mem_unknownPlaces (h : place ∈ unknownPlaces document) :
    (∃ key, place = [.key key] ∧ key ∉ table.map (·.name)) ∨
      ∃ i question, document.at? [.key "questions", .index i] = some question ∧
        place ∈ Question.unknownPlaces [.key "questions", .index i] question := by
  unfold unknownPlaces at h
  split at h
  · split at h
    · obtain hown | hquestion := List.mem_append.mp h
      · exact .inl (mem_undeclaredPlaces hown)
      · exact .inr (mem_questionPlaces hquestion)
    · cases h
  · cases h

theorem questionPlaces_pairwise {members : Members} (h : (Json.object members).Canonical) :
    (questionPlaces members).Pairwise Locator.KeysAscend := by
  unfold questionPlaces
  split
  · next values hvalues =>
    refine elementPlaces_pairwise (Locator.root.key "questions")
      ((pairwise_index_zipIdx values).sublist (throughFirst_sublist _ _)) ?_ ?_
    · intro entry hmem
      obtain ⟨question, i⟩ := entry
      have hquestion := List.fst_mem_of_mem_zipIdx ((throughFirst_sublist _ _).subset hmem)
      exact Question.unknownPlaces_pairwise (h.of_mem_array hvalues hquestion)
    · intro entry place hplace
      exact Question.beneath_of_mem_unknownPlaces hplace
  · exact List.Pairwise.nil

theorem unknownPlaces_pairwise (h : document.Canonical) :
    (unknownPlaces document).Pairwise Locator.KeysAscend := by
  unfold unknownPlaces
  split
  · next members =>
    split
    · rw [List.pairwise_append]
      refine ⟨undeclaredPlaces_pairwise _ _ ((Json.canonical_object members).mp h).1,
        questionPlaces_pairwise h, ?_⟩
      intro p hp q hq
      obtain ⟨key, rfl, -⟩ := mem_undeclaredPlaces hp
      obtain ⟨i, question, -, hplace⟩ := mem_questionPlaces hq
      exact Locator.keysAscend_of_within ⟨key, rfl⟩ (Question.beneath_of_mem_unknownPlaces hplace)
    · exact List.Pairwise.nil
  · exact List.Pairwise.nil

/-- Every place that is found is that of a key, so no place is found twice. -/
theorem unknownPlaces_nodup (h : document.Canonical) : (unknownPlaces document).Nodup := by
  refine (unknownPlaces_pairwise h).imp_of_mem ?_
  intro p q hp _ hascend heq
  have hkey : ∃ here name, p = Locator.key here name := by
    obtain ⟨key, rfl, -⟩ | ⟨i, question, -, hplace⟩ := mem_unknownPlaces hp
    · exact ⟨[], key, rfl⟩
    · obtain ⟨rest, name, hplace⟩ := Question.beneath_of_mem_unknownPlaces hplace
      exact ⟨_, name, hplace⟩
  obtain ⟨here, name, rfl⟩ := hkey
  exact absurd (hascend here name name rfl heq.symm) (lt_irrefl name)

/-- Nothing is found in the hints of a question, nor in choices that its type does not call for. -/
theorem asked_of_mem_unknownPlaces (h : place ∈ unknownPlaces document) :
    (∀ i rest, place ≠ [.key "questions", .index i, .key "custom"] ++ rest) ∧
    ∀ i rest, place = [.key "questions", .index i, .key "options"] ++ rest →
      document.at? [.key "questions", .index i, .key "type"] = some (.string "selectbox") := by
  obtain ⟨key, rfl, -⟩ | ⟨i, question, hquestion, hplace⟩ := mem_unknownPlaces h
  · simp
  obtain ⟨key, rfl, hkey⟩ | ⟨htype, j, key, rfl⟩ := Question.mem_unknownPlaces hplace
  · have hcustom : key ≠ "custom" := fun heq => hkey (heq ▸ by decide)
    have hoptions : key ≠ "options" := fun heq => hkey (heq ▸ by decide)
    simp [Locator.key, hcustom, hoptions]
  · constructor
    · simp [Locator.key, Locator.index]
    · intro i' rest heq
      obtain rfl : i = i' := by simpa [Locator.key, Locator.index] using (List.cons.inj (List.cons.inj heq).2).1
      change document.at? ([.key "questions", .index i] ++ [.key "type"]) = some (.string "selectbox")
      rw [Json.at?_append, hquestion, Option.bind_some, htype]

/-- The warnings that the check of a document records, whether it is accepted or not: one for each undeclared key that
    is found, no place twice and the keys of one object in ascending order, then one for each question of an accepted
    document whose name is taken. Hints are not looked into, nor choices that no one asks for. -/
theorem check_records (document : Json) :
    (check document).warnings = (unknownPlaces document).map .unknownField ++
      (match (check document).outcome with
      | .ok c => nameWarnings [.key "questions"] (c.questions.map (·.name))
      | .error _ => []) ∧
    (document.Canonical →
      (unknownPlaces document).Nodup ∧ (unknownPlaces document).Pairwise Locator.KeysAscend) ∧
    ∀ place, .unknownField place ∈ (check document).warnings →
      (∀ i rest, place ≠ [.key "questions", .index i, .key "custom"] ++ rest) ∧
      ∀ i rest, place = [.key "questions", .index i, .key "options"] ++ rest →
        document.at? [.key "questions", .index i, .key "type"] = some (.string "selectbox") := by
  refine ⟨check_warnings_eq document, fun h => ⟨unknownPlaces_nodup h, unknownPlaces_pairwise h⟩, ?_⟩
  intro place hplace
  rw [check_warnings_eq, List.mem_append] at hplace
  obtain hfound | hname := hplace
  · obtain ⟨_, hmem, heq⟩ := List.mem_map.mp hfound
    obtain rfl := Warning.unknownField.inj heq
    exact asked_of_mem_unknownPlaces hmem
  · cases h : (check document).outcome with
    | error v =>
      rw [h] at hname
      exact absurd hname List.not_mem_nil
    | ok c =>
      rw [h] at hname
      exact absurd hname (unknownField_not_mem_nameWarnings _ place _)

/-- A document that is refused for its third choice, with undeclared keys before and after it and among the hints. -/
def refusedDocument : Json := .object [
  ("email", .string "a@b.example"),
  ("lang", .string "en"),
  ("questions", .array [
    .object [("custom", .object [("size", .null)]), ("hint", .null), ("label", .string "Topic"),
      ("name", .string "topic"),
      ("options", .array [
        .object [("icon", .null), ("label", .string "Sales"), ("value", .string "sales")],
        .object [("label", .string "Support"), ("value", .string "support")],
        .object [("icon", .null), ("label", .string "Other")]]),
      ("required", .bool true), ("type", .string "selectbox")],
    .object [("hint", .null)]]),
  ("subject", .string "Hello"),
  ("theme", .string "dark"),
  ("title", .string "Contact")]

theorem check_records_of_refusedDocument :
    refusedDocument.Canonical ∧
    (check refusedDocument).warnings = [.unknownField [.key "lang"], .unknownField [.key "theme"],
      .unknownField [.key "questions", .index 0, .key "hint"],
      .unknownField [.key "questions", .index 0, .key "options", .index 0, .key "icon"]] ∧
    (unknownPlaces refusedDocument).Nodup ∧
    refusedDocument.at? [.key "questions", .index 0, .key "type"] = some (.string "selectbox") := by
  have hcanonical : refusedDocument.Canonical := by
    simp only [refusedDocument, Json.Canonical, Json.CanonicalMembers, Json.CanonicalItems,
      Members.Ascending, and_true, true_and]
    decide +kernel
  have hplaces : unknownPlaces refusedDocument = [[.key "lang"], [.key "theme"],
      [.key "questions", .index 0, .key "hint"],
      [.key "questions", .index 0, .key "options", .index 0, .key "icon"]] := by
    decide +kernel
  obtain ⟨v, hrefused⟩ : ∃ v, (check refusedDocument).outcome = .error v := by
    rw [check_outcome]
    cases h : violations refusedDocument with
    | nil => exact absurd h (by decide +kernel)
    | cons v vs => exact ⟨v, rfl⟩
  obtain ⟨hwarnings, hsorted, hasked⟩ := check_records refusedDocument
  rw [hplaces, hrefused] at hwarnings
  have hicon : .unknownField [.key "questions", .index 0, .key "options", .index 0, .key "icon"] ∈
      (check refusedDocument).warnings := by
    rw [hwarnings]
    exact List.mem_append_left _ (by decide)
  exact ⟨hcanonical, hwarnings, (hsorted hcanonical).1, (hasked _ hicon).2 0 [.index 0, .key "icon"] rfl⟩

end Config

end ContactForm
