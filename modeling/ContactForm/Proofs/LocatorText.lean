import Mathlib.Data.List.Basic
import Mathlib.Data.String.Basic
import ContactForm.Proofs.Validation.DeclaredPaths
import ContactForm.Proofs.Validation.Placement

namespace ContactForm

/-- A key that can be told from what stands around it in a text. -/
def PlainKey (name : String) : Prop :=
  '.' ∉ name.toList ∧ '[' ∉ name.toList

namespace Locator

/-- A place whose keys are plain and not empty, other than the one key that reads like the root. -/
structure Plain (path : Locator) : Prop where
  key : ∀ name, .key name ∈ path → name ≠ "" ∧ PlainKey name
  ne_dollar : path ≠ [.key "$"]

/-- What the text of a place shows of the segments that come after the first. -/
def shown (path : Locator) : List Char :=
  path.flatMap fun segment => segment.text.toList

@[simp] theorem shown_nil : shown [] = [] := rfl

@[simp] theorem shown_key (name : String) (rest : Locator) :
    shown (.key name :: rest) = '.' :: (name.toList ++ shown rest) := by
  simp [shown, Segment.text]

@[simp] theorem shown_index (i : Nat) (rest : Locator) :
    shown (.index i :: rest) = '[' :: (Nat.toDigits 10 i ++ ']' :: shown rest) := by
  simp [shown, Segment.text]

theorem toList_render_root : (render .root).toList = "$".toList ++ shown [] := rfl

theorem toList_render_key (name : String) (rest : Locator) :
    (render (.key name :: rest)).toList = name.toList ++ shown rest := by
  simp [render, shown, String.toList_join, List.flatMap_map]

theorem toList_render_index (i : Nat) (rest : Locator) :
    (render (.index i :: rest)).toList = shown (.index i :: rest) := by
  simp [render, shown, String.toList_join, List.flatMap_map]

/-- A run of characters of one class ends where a character of no such class follows. -/
theorem cut {p : Char → Bool} {run run' rest rest' : List Char} (hrun : ∀ c ∈ run, p c = true)
    (hrun' : ∀ c ∈ run', p c = true) (hrest : rest.takeWhile p = []) (hrest' : rest'.takeWhile p = [])
    (h : run ++ rest = run' ++ rest') : run = run' ∧ rest = rest' := by
  have hruns : run = run' := by
    calc run = (run ++ rest).takeWhile p := by
          rw [List.takeWhile_append_of_pos hrun, hrest, List.append_nil]
      _ = (run' ++ rest').takeWhile p := by rw [h]
      _ = run' := by rw [List.takeWhile_append_of_pos hrun', hrest', List.append_nil]
  rw [hruns] at h
  exact ⟨hruns, List.append_cancel_left h⟩

/-- A plain key ends where the next segment starts. -/
theorem cut_key {name name' : String} (h : PlainKey name) (h' : PlainKey name') {rest rest' : Locator}
    (heq : name.toList ++ shown rest = name'.toList ++ shown rest') :
    name = name' ∧ shown rest = shown rest' := by
  have hplain {name : String} (h : PlainKey name) : ∀ c ∈ name.toList, (c != '.' && c != '[') = true := by
    intro c hc
    have hpoint : c ≠ '.' := fun hc' => h.1 (hc' ▸ hc)
    have hbracket : c ≠ '[' := fun hc' => h.2 (hc' ▸ hc)
    simp [hpoint, hbracket]
  have hnext (rest : Locator) : (shown rest).takeWhile (fun c => c != '.' && c != '[') = [] := by
    cases rest with
    | nil => rfl
    | cons segment rest => cases segment <;> simp
  obtain ⟨hname, hrest⟩ := cut (hplain h) (hplain h') (hnext rest) (hnext rest') heq
  exact ⟨String.toList_inj.mp hname, hrest⟩

/-- An index ends at its bracket. -/
theorem cut_index {i j : Nat} {rest rest' : Locator}
    (heq : Nat.toDigits 10 i ++ ']' :: shown rest = Nat.toDigits 10 j ++ ']' :: shown rest') :
    i = j ∧ shown rest = shown rest' := by
  have hdigit (n : Nat) : ∀ c ∈ Nat.toDigits 10 n, c.isDigit = true := fun c hc =>
    Nat.isDigit_of_mem_toDigits (by decide) (by decide) hc
  obtain ⟨hdigits, hrest⟩ := cut (hdigit i) (hdigit j) rfl rfl heq
  have hindex : i = j := by
    rw [← Nat.ofDigitChars_ten_toDigits (n := i), hdigits, Nat.ofDigitChars_ten_toDigits]
  exact ⟨hindex, List.tail_eq_of_cons_eq hrest⟩

/-- The segments after the first can be read back from what is shown of them. -/
theorem shown_inj {path path' : Locator} (h : ∀ name, .key name ∈ path → PlainKey name)
    (h' : ∀ name, .key name ∈ path' → PlainKey name) (heq : shown path = shown path') : path = path' := by
  induction path generalizing path' with
  | nil =>
    cases path' with
    | nil => rfl
    | cons segment rest => cases segment <;> simp at heq
  | cons segment rest ih =>
    have hrest : ∀ name, .key name ∈ rest → PlainKey name := fun name hmem => h name (.tail _ hmem)
    cases path' with
    | nil => cases segment <;> simp at heq
    | cons segment' rest' =>
      have hrest' : ∀ name, .key name ∈ rest' → PlainKey name := fun name hmem => h' name (.tail _ hmem)
      cases segment with
      | key name =>
        cases segment' with
        | key name' =>
          rw [shown_key, shown_key, List.cons_inj_right] at heq
          obtain ⟨rfl, htail⟩ := cut_key (h name (.head _)) (h' name' (.head _)) heq
          rw [ih hrest hrest' htail]
        | index j => simp at heq
      | index i =>
        cases segment' with
        | key name' => simp at heq
        | index j =>
          rw [shown_index, shown_index, List.cons_inj_right] at heq
          obtain ⟨rfl, htail⟩ := cut_index heq
          rw [ih hrest hrest' htail]

theorem Plain.rest {segment : Segment} {rest : Locator} (h : Plain (segment :: rest)) :
    ∀ name, .key name ∈ rest → PlainKey name :=
  fun name hmem => (h.key name (.tail _ hmem)).2

/-- The root has a text that no other plain place has. -/
theorem Plain.render_ne_root {segment : Segment} {rest : Locator} (h : Plain (segment :: rest)) :
    render (segment :: rest) ≠ render .root := by
  intro heq
  have hchars := congrArg String.toList heq
  cases segment with
  | key name =>
    have hdollar : PlainKey "$" := ⟨by decide, by decide⟩
    rw [toList_render_key, toList_render_root] at hchars
    obtain ⟨rfl, hshown⟩ := cut_key (h.key name (.head _)).2 hdollar hchars
    obtain rfl := shown_inj h.rest (by simp) hshown
    exact h.ne_dollar rfl
  | index i =>
    rw [toList_render_index, shown_index] at hchars
    exact absurd (List.head_eq_of_cons_eq hchars) (by decide)

theorem Plain.render_key_ne_index {name : String} {i : Nat} {rest rest' : Locator}
    (h : Plain (.key name :: rest)) : render (.key name :: rest) ≠ render (.index i :: rest') := by
  intro heq
  have hchars := congrArg String.toList heq
  obtain ⟨hne, -, hbracket⟩ := h.key name (.head _)
  rw [toList_render_key, toList_render_index, shown_index] at hchars
  cases hname : name.toList with
  | nil => exact hne (String.toList_eq_nil_iff.mp hname)
  | cons c cs =>
    rw [hname, List.cons_append] at hchars
    obtain rfl := List.head_eq_of_cons_eq hchars
    exact hbracket (hname ▸ .head _)

/-- Plain places with the same text are the same place. -/
theorem Plain.render_inj {path path' : Locator} (h : path.Plain) (h' : path'.Plain)
    (heq : path.render = path'.render) : path = path' := by
  cases path with
  | nil =>
    cases path' with
    | nil => rfl
    | cons segment' rest' => exact absurd heq.symm h'.render_ne_root
  | cons segment rest =>
    cases path' with
    | nil => exact absurd heq h.render_ne_root
    | cons segment' rest' =>
      have hchars := congrArg String.toList heq
      cases segment with
      | key name =>
        cases segment' with
        | key name' =>
          rw [toList_render_key, toList_render_key] at hchars
          obtain ⟨rfl, hshown⟩ := cut_key (h.key name (.head _)).2 (h'.key name' (.head _)).2 hchars
          rw [shown_inj h.rest h'.rest hshown]
        | index j => exact absurd heq h.render_key_ne_index
      | index i =>
        cases segment' with
        | key name' => exact absurd heq.symm h'.render_key_ne_index
        | index j =>
          rw [toList_render_index, toList_render_index, shown_index, shown_index, List.cons_inj_right] at hchars
          obtain ⟨rfl, hshown⟩ := cut_index hchars
          rw [shown_inj h.rest h'.rest hshown]

/-- A point within a key, and the key that reads like the root, would be misread. -/
example : render [.key "a.b"] = render [.key "a", .key "b"] ∧ render [.key "$"] = render .root := by
  decide +kernel

theorem Declared.of_append {outer path : Locator} (h : Declared (outer ++ path)) : path.Declared :=
  fun key hmem => h key (List.mem_append_right outer hmem)

/-- Declared keys are plain. -/
theorem Declared.plain {path : Locator} (h : path.Declared) : path.Plain := by
  have hkeys (level : Level) : ∀ key ∈ level.declared, key ≠ "" ∧ PlainKey key ∧ key ≠ "$" := by
    unfold PlainKey
    cases level <;> decide
  refine ⟨fun name hmem => ?_, ?_⟩
  · obtain ⟨level, hname⟩ := h name hmem
    obtain ⟨hne, hplain, -⟩ := hkeys level name hname
    exact ⟨hne, hplain⟩
  · rintro rfl
    obtain ⟨level, hname⟩ := h "$" (.head _)
    exact (hkeys level "$" hname).2.2 rfl

end Locator

variable {value : Json} {v : Violation}

/-- What is wrong with a value of its own is wrong with it at a place in a document too. -/
theorem declared_of_under {violations : Locator → Json → List Violation} {document : Json} (outer : Locator)
    (hunder : violations (outer ++ .root) value = (violations .root value).map (.under outer))
    (hhold : ∀ w, w ∈ violations outer value → w.Holds document) (h : v ∈ violations .root value) :
    v.path.Declared := by
  have hroot : outer ++ Locator.root = outer := List.append_nil outer
  have hmem : v.under outer ∈ violations outer value := by
    rw [hroot] at hunder
    rw [hunder]
    exact List.mem_map_of_mem h
  exact (hhold _ hmem).declared.of_append

theorem Question.declared_of_check (h : (check .root value).outcome = .error v) : v.path.Declared := by
  rw [check_outcome] at h
  have hat : (Json.object [("questions", .array [value])]).at? [.key "questions", .index 0] = some value := rfl
  exact declared_of_under [.key "questions", .index 0] (violations_under _ _ value)
    (fun _ => violations_hold hat) (mem_of_verdict_map h)

theorem Choice.declared_of_check (h : (check .root value).outcome = .error v) : v.path.Declared := by
  rw [check_outcome] at h
  have hat : (Json.object [("questions", .array [.object [("options", .array [value])]])]).at?
      [.key "questions", .index 0, .key "options", .index 0] = some value := rfl
  exact declared_of_under [.key "questions", .index 0, .key "options", .index 0] (violations_under _ _ value)
    (fun _ => violations_hold hat) (mem_of_verdict_map h)

namespace Violation

/-- What the check of some document, of some question or of some choice reports. -/
def Reported (v : Violation) : Prop :=
  ∃ value, (Config.check value).outcome = .error v ∨ (Question.check .root value).outcome = .error v ∨
    (Choice.check .root value).outcome = .error v

theorem Reported.plain (h : v.Reported) : v.path.Plain := by
  obtain ⟨value, hconfig | hquestion | hchoice⟩ := h
  · exact (Config.violations_hold (Config.mem_violations_of_check hconfig)).declared.plain
  · exact (Question.declared_of_check hquestion).plain
  · exact (Choice.declared_of_check hchoice).plain

/-- The text of a place tells which place it is, where no key is empty, has a point or a bracket, or is a single one
    that reads like the root; and the places of reported violations are such. -/
theorem reported_path_of_render :
    (∀ path path' : Locator, path.Plain → path'.Plain → path.render = path'.render → path = path') ∧
    (∀ v, Reported v → v.path.Plain) ∧
    ∀ v w, Reported v → Reported w → v.path.render = w.path.render → v.path = w.path := by
  refine ⟨fun _ _ h h' heq => h.render_inj h' heq, fun _ h => h.plain, fun _ _ hv hw heq => ?_⟩
  exact hv.plain.render_inj hw.plain heq

/-- A selectbox question with one choice, which has the given members. -/
def questionWith (choice : Members) : Json := .object [
  ("label", .string "Topic"), ("name", .string "topic"), ("options", .array [.object choice]),
  ("required", .bool true), ("type", .string "selectbox")]

theorem reported_path_of_render_of_brokenChoices :
    (∀ path : Locator, path.Plain → path.render = "[3].a[12]" → path = [.index 3, .key "a", .index 12]) ∧
    ∃ v w, (Question.check .root (questionWith [("label", .string "Sales")])).outcome = .error v ∧
      (Question.check .root (questionWith [("label", .string "Sales"), ("value", .bool true)])).outcome = .error w ∧
      v ≠ w ∧ v.path.Plain ∧ v.path = w.path ∧ v.path.render = "options[0].value" := by
  have hmissing : (Question.check .root (questionWith [("label", .string "Sales")])).outcome =
      .error ⟨[.key "options", .index 0, .key "value"], .missingField "string"⟩ := by
    rw [Question.check_outcome]
    rfl
  have hmismatch : (Question.check .root
      (questionWith [("label", .string "Sales"), ("value", .bool true)])).outcome =
      .error ⟨[.key "options", .index 0, .key "value"], .typeMismatch "string" "boolean"⟩ := by
    rw [Question.check_outcome]
    rfl
  have hv : Reported _ := ⟨_, .inr (.inl hmissing)⟩
  have hw : Reported _ := ⟨_, .inr (.inl hmismatch)⟩
  have hplain : Locator.Plain [.index 3, .key "a", .index 12] := by
    refine ⟨fun name hmem => ?_, by decide⟩
    obtain rfl : name = "a" := by simpa using hmem
    exact ⟨by decide, by decide, by decide⟩
  have hrender : Locator.render [.index 3, .key "a", .index 12] = "[3].a[12]" := by decide +kernel
  refine ⟨fun path h heq => reported_path_of_render.1 _ _ h hplain (heq.trans hrender.symm), ?_⟩
  refine ⟨_, _, hmissing, hmismatch, by decide, reported_path_of_render.2.1 _ hv, ?_, by decide +kernel⟩
  exact reported_path_of_render.2.2 _ _ hv hw rfl

end Violation

end ContactForm
