import Mathlib.Data.Finset.Card
import ContactForm.Proofs.Validation.UnknownPlaces

namespace ContactForm

namespace Config

section Names

variable {names : List String} {name : String} {i j : Nat}

/-- A name stands first before an index where it stands before the index at all. -/
theorem idxOf_lt_iff (h : name ∈ names) : names.idxOf name < j ↔ ∃ i, i < j ∧ names[i]? = some name := by
  rw [← List.mem_take_iff_idxOf_lt h, List.mem_iff_getElem?]
  constructor
  · rintro ⟨i, hi⟩
    rw [List.getElem?_take] at hi
    split at hi
    · next hlt => exact ⟨i, hlt, hi⟩
    · cases hi
  · rintro ⟨i, hlt, hi⟩
    exact ⟨i, by rw [List.getElem?_take, if_pos hlt, hi]⟩

theorem idxOf_le_of_getElem? (h : names[i]? = some name) : names.idxOf name ≤ i := by
  have hmem := List.mem_of_getElem? h
  have hlt := (idxOf_lt_iff hmem).mpr ⟨i, Nat.lt_succ_self i, h⟩
  omega

/-- The names of a list that stand in it before, each with its index. -/
def repeats (names : List String) : List (String × Nat) :=
  names.zipIdx.filter fun entry => names.idxOf entry.1 < entry.2

theorem mem_repeats_iff : (name, j) ∈ repeats names ↔
    names[j]? = some name ∧ ∃ i, i < j ∧ names[i]? = some name := by
  rw [repeats, List.mem_filter, List.mk_mem_zipIdx_iff_getElem?, decide_eq_true_iff]
  apply and_congr_right
  intro h
  exact idxOf_lt_iff (List.mem_of_getElem? h)

theorem repeats_pairwise (names : List String) : ((repeats names).map (·.2)).Pairwise (· < ·) := by
  have hindices : (names.zipIdx.map (·.2)).Pairwise (· < ·) := by
    rw [List.zipIdx_map_snd]
    exact List.pairwise_lt_range'
  exact hindices.sublist (List.filter_sublist.map _)

/-- The names that do not repeat are the distinct names of the list, each once. -/
theorem length_repeats_add (names : List String) :
    (repeats names).length + names.toFinset.card = names.length := by
  let firsts := names.zipIdx.filter fun entry => !decide (names.idxOf entry.1 < entry.2)
  have hfirst {entry : String × Nat} (h : entry ∈ firsts) :
      names[entry.2]? = some entry.1 ∧ names.idxOf entry.1 = entry.2 := by
    obtain ⟨hmem, hle⟩ := List.mem_filter.mp h
    have hentry := List.mk_mem_zipIdx_iff_getElem?.mp hmem
    have hlt : ¬names.idxOf entry.1 < entry.2 := by simpa using hle
    have hidx := idxOf_le_of_getElem? hentry
    exact ⟨hentry, by omega⟩
  have hnodup : (firsts.map (·.1)).Nodup := by
    have hzip : names.zipIdx.Nodup := by
      apply List.Nodup.of_map Prod.snd
      rw [List.zipIdx_map_snd]
      exact List.nodup_range'
    apply List.Nodup.map_on ?_ (hzip.filter _)
    intro entry hentry other hother hname
    have hplace := (hfirst hentry).2
    rw [hname, (hfirst hother).2] at hplace
    exact Prod.ext hname hplace.symm
  have hnames : (firsts.map (·.1)).toFinset = names.toFinset := by
    ext name
    rw [List.mem_toFinset, List.mem_toFinset]
    constructor
    · intro h
      obtain ⟨entry, hentry, rfl⟩ := List.mem_map.mp h
      exact List.mem_of_getElem? (hfirst hentry).1
    · intro h
      refine List.mem_map.mpr ⟨(name, names.idxOf name), List.mem_filter.mpr ⟨?_, ?_⟩, rfl⟩
      · exact List.mk_mem_zipIdx_iff_getElem?.mpr (List.getElem?_idxOf h)
      · simp
  have hcard : names.toFinset.card = firsts.length := by
    rw [← hnames, List.toFinset_card_of_nodup hnodup, List.length_map]
  have hsplit := List.length_eq_length_filter_add (l := names.zipIdx)
    fun entry => decide (names.idxOf entry.1 < entry.2)
  rw [List.length_zipIdx] at hsplit
  rw [hcard]
  exact hsplit.symm

/-- The warnings about names, one for each that repeats. -/
theorem nameWarnings_eq (path : Locator) (names : List String) :
    nameWarnings path names = (repeats names).map fun entry =>
      .duplicateName ((path.index entry.2).key "name") entry.1 ((path.index (names.idxOf entry.1)).key "name") := by
  rw [nameWarnings, repeats, ← List.filterMap_eq_filter, List.map_filterMap]
  apply List.filterMap_congr
  intro entry _
  rw [nameWarning?, Option.guard]
  by_cases h : names.idxOf entry.1 < entry.2 <;> simp [h]

end Names

/-- The place of the name of a question in a document. -/
def namePlace (j : Nat) : Locator := ((Locator.root.key "questions").index j).key "name"

theorem namePlace_injective : Function.Injective namePlace := by
  intro i j h
  simpa [namePlace, Locator.root, Locator.key, Locator.index] using h

theorem render_namePlace (j : Nat) : (namePlace j).render = "questions[" ++ j.repr ++ "].name" := by
  have hopen : "questions" ++ "[" = "questions[" := rfl
  simp only [namePlace, Locator.root, Locator.key, Locator.index, Locator.render, Segment.text, String.join,
    List.nil_append, List.cons_append, List.map_cons, List.map_nil, List.foldl_cons, List.foldl_nil,
    String.empty_append, String.append_assoc]
  rw [← String.append_assoc, hopen]
  rfl

section Reports

variable {names : List String} {name : String} {j : Nat}

theorem map_path_nameWarnings (names : List String) :
    (nameWarnings (Locator.root.key "questions") names).map (·.path) =
      ((repeats names).map (·.2)).map namePlace := by
  rw [nameWarnings_eq, List.map_map, List.map_map]
  rfl

theorem mem_map_snd_repeats_iff (h : names[j]? = some name) :
    j ∈ (repeats names).map (·.2) ↔ names.idxOf name ≠ j := by
  have hle := idxOf_le_of_getElem? h
  have hlt := idxOf_lt_iff (j := j) (List.mem_of_getElem? h)
  constructor
  · intro hmem
    obtain ⟨⟨other, k⟩, hentry, rfl⟩ := List.mem_map.mp hmem
    obtain ⟨hother, hbefore⟩ := mem_repeats_iff.mp hentry
    obtain rfl := Option.some.inj (h.symm.trans hother)
    have := hlt.mpr hbefore
    omega
  · intro hne
    have hbefore := hlt.mp (by omega)
    exact List.mem_map.mpr ⟨(name, j), mem_repeats_iff.mpr ⟨h, hbefore⟩, rfl⟩

/-- A warning about a name tells where the name stands first. -/
theorem message_of_mem_nameWarnings {w : Warning} (hw : w ∈ nameWarnings (Locator.root.key "questions") names)
    (hpath : w.path = namePlace j) (h : names[j]? = some name) :
    w.message = s!"question name \"{name}\" already used at questions[{names.idxOf name}].name" := by
  rw [nameWarnings_eq] at hw
  obtain ⟨⟨other, k⟩, hentry, rfl⟩ := List.mem_map.mp hw
  obtain rfl : k = j := namePlace_injective hpath
  obtain ⟨hother, -⟩ := mem_repeats_iff.mp hentry
  obtain rfl := Option.some.inj (h.symm.trans hother)
  have hused : "\" already used at " ++ "questions[" = "\" already used at questions[" := rfl
  change "question name \"" ++ name ++ "\" already used at " ++ (namePlace (names.idxOf name)).render =
    "question name \"" ++ name ++ "\" already used at questions[" ++ (names.idxOf name).repr ++ "].name"
  rw [render_namePlace, ← hused]
  simp only [String.append_assoc]

end Reports

/-- What is recorded about the names of an accepted document. -/
theorem filter_kind_of_ok {document : Json} {c : Config} (h : (check document).outcome = .ok c) :
    (check document).warnings.filter (·.kind == "duplicate_question_name") =
      nameWarnings (Locator.root.key "questions") (c.questions.map (·.name)) := by
  rw [check_warnings_eq, List.filter_append, filter_kind_unknownField, h, List.nil_append]
  exact filter_kind_nameWarnings _ _

/-- The question of a name stands where the name stands first. -/
theorem question?_eq (c : Config) (name : String) :
    c.question? name = c.questions[(c.questions.map (·.name)).idxOf name]? := by
  rw [question?, List.find?_eq_getElem?_findIdx, List.idxOf, List.findIdx_map]
  rfl

section Questions

variable {questions : List Question} {name : String} {j : Nat}

theorem getElem?_names_iff :
    (questions.map (·.name))[j]? = some name ↔ ∃ q, questions[j]? = some q ∧ q.name = name := by
  rw [List.getElem?_map]
  exact Option.map_eq_some_iff

/-- The indices that repeat a name are those of the questions with an earlier question of their name. -/
theorem mem_map_snd_repeats_names_iff : j ∈ (repeats (questions.map (·.name))).map (·.2) ↔
    ∃ q, questions[j]? = some q ∧ ∃ i p, i < j ∧ questions[i]? = some p ∧ p.name = q.name := by
  constructor
  · intro hj
    obtain ⟨⟨name, k⟩, hentry, rfl⟩ := List.mem_map.mp hj
    obtain ⟨hk, i, hlt, hi⟩ := mem_repeats_iff.mp hentry
    obtain ⟨q, hq, rfl⟩ := getElem?_names_iff.mp hk
    obtain ⟨p, hp, hsame⟩ := getElem?_names_iff.mp hi
    exact ⟨q, hq, i, p, hlt, hp, hsame⟩
  · rintro ⟨q, hq, i, p, hlt, hp, hsame⟩
    have hbefore := getElem?_names_iff.mpr ⟨p, hp, hsame⟩
    have hentry := mem_repeats_iff.mpr ⟨getElem?_names_iff.mpr ⟨q, hq, rfl⟩, i, hlt, hbefore⟩
    exact List.mem_map.mpr ⟨_, hentry, rfl⟩

end Questions

/-- The questions of an accepted document that repeat the name of an earlier one are reported, each once and in their
    order, and each report tells where the name stands first. There the name is looked up, so that those questions are
    the ones that are not found under their own name; what is left are the distinct names. -/
theorem reported_names_match_lookup {document : Json} {c : Config} (h : (check document).outcome = .ok c) :
    let reported := (check document).warnings.filter (·.kind == "duplicate_question_name")
    (∃ repeated : List Nat, repeated.Pairwise (· < ·) ∧ reported.map (·.path) = repeated.map namePlace ∧
      ∀ j, j ∈ repeated ↔ ∃ q, c.questions[j]? = some q ∧
        ∃ i p, i < j ∧ c.questions[i]? = some p ∧ p.name = q.name) ∧
    (∀ j q, c.questions[j]? = some q → ∃ first p, c.questions[first]? = some p ∧ p.name = q.name ∧
      (∀ i r, c.questions[i]? = some r → r.name = q.name → first ≤ i) ∧ c.question? q.name = some p ∧
      (namePlace j ∈ reported.map (·.path) ↔ first ≠ j) ∧
      ∀ w ∈ reported, w.path = namePlace j →
        w.message = s!"question name \"{q.name}\" already used at questions[{first}].name") ∧
    reported.length + (c.questions.map (·.name)).toFinset.card = c.questions.length := by
  intro reported
  let names := c.questions.map (·.name)
  have hreported : reported = nameWarnings (Locator.root.key "questions") names := filter_kind_of_ok h
  have hpaths : reported.map (·.path) = ((repeats names).map (·.2)).map namePlace := by
    rw [hreported, map_path_nameWarnings]
  refine ⟨⟨(repeats names).map (·.2), repeats_pairwise names, hpaths, fun j => mem_map_snd_repeats_names_iff⟩, ?_, ?_⟩
  · intro j q hq
    have hname : names[j]? = some q.name := getElem?_names_iff.mpr ⟨q, hq, rfl⟩
    obtain ⟨p, hp, hsame⟩ := getElem?_names_iff.mp (List.getElem?_idxOf (List.mem_of_getElem? hname))
    refine ⟨names.idxOf q.name, p, hp, hsame, ?_, ?_, ?_, ?_⟩
    · intro i r hr hrepeats
      exact idxOf_le_of_getElem? (getElem?_names_iff.mpr ⟨r, hr, hrepeats⟩)
    · rw [question?_eq]
      exact hp
    · rw [hpaths, List.mem_map_of_injective namePlace_injective]
      exact mem_map_snd_repeats_iff hname
    · intro w hw hpath
      rw [hreported] at hw
      exact message_of_mem_nameWarnings hw hpath hname
  · have hcount := length_repeats_add names
    have hlength : names.length = c.questions.length := List.length_map _
    rw [hlength] at hcount
    rw [← hcount, hreported, nameWarnings_eq, List.length_map]

/-- A form in which two names alternate, with keys that are not declared. -/
def alternatingDocument : Json := .object [
  ("email", .string "a@b.example"),
  ("lang", .string "en"),
  ("questions", .array [
    .object [("hint", .null), ("label", .string "First"), ("name", .string "a"), ("required", .bool true),
      ("type", .string "text")],
    .object [("label", .string "Topic"), ("name", .string "b"),
      ("options", .array [.object [("icon", .null), ("label", .string "Sales"), ("value", .string "sales")]]),
      ("required", .bool true), ("type", .string "selectbox")],
    .object [("label", .string "Second"), ("name", .string "a"), ("required", .bool true), ("type", .string "text")],
    .object [("label", .string "Photo"), ("name", .string "b"), ("required", .bool false), ("type", .string "file")],
    .object [("label", .string "Third"), ("name", .string "a"), ("required", .bool true), ("type", .string "text")]]),
  ("subject", .string "Hello"),
  ("title", .string "Contact")]

/-- The last of three questions of a name is reported with the first of them. -/
theorem reported_names_match_lookup_of_alternatingDocument :
    ∃ c, (check alternatingDocument).outcome = .ok c ∧ (c.question? "a").map (·.label) = some "First" ∧
      ((check alternatingDocument).warnings.filter (·.kind == "duplicate_question_name")).length = 3 ∧
      ∃ w ∈ (check alternatingDocument).warnings.filter (·.kind == "duplicate_question_name"),
        w.path = namePlace 4 ∧ w.message = "question name \"a\" already used at questions[0].name" := by
  have hvalid : violations alternatingDocument = [] := by decide +kernel
  have haccepted : (check alternatingDocument).outcome = .ok (ofRecord (.ofJson alternatingDocument)) := by
    rw [check_outcome, hvalid]
    rfl
  obtain ⟨-, hlookup, hcount⟩ := reported_names_match_lookup haccepted
  obtain ⟨first, p, hp, -, hleast, hfound, hreported, hmessage⟩ := hlookup 4 _ rfl
  -- the name stands at the start of the questions
  have hzero : first ≤ 0 := hleast 0 _ rfl rfl
  obtain rfl : first = 0 := by omega
  obtain rfl : _ = p := Option.some.inj hp
  obtain ⟨w, hw, hpath⟩ := List.mem_map.mp (hreported.mpr (by decide))
  refine ⟨_, haccepted, congrArg (Option.map (·.label)) hfound, ?_, w, hw, hpath, hmessage w hw hpath⟩
  have hnames : ((ofRecord (.ofJson alternatingDocument)).questions.map (·.name)).toFinset.card = 2 := by
    decide +kernel
  have hlength : (ofRecord (.ofJson alternatingDocument)).questions.length = 5 := rfl
  rw [hnames, hlength] at hcount
  exact Nat.add_right_cancel hcount

end Config

end ContactForm
