import Mathlib.Data.List.Basic
import Std.Data.TreeMap.Lemmas
import ContactForm.Validation

namespace ContactForm.Config

/-- The warning about the name at index `i` of a list, where the name stands there before; it tells where it
    stands first. -/
def nameWarning? (path : Locator) (names : List String) (name : String) (i : Nat) : Option Warning :=
  let first := names.idxOf name
  if first < i then
    some (.duplicateName ((path.index i).key "name") name ((path.index first).key "name"))
  else none

/-- A warning for each name of a list that stands in it before. -/
def nameWarnings (path : Locator) (names : List String) : List Warning :=
  names.zipIdx.filterMap fun entry => nameWarning? path names entry.1 entry.2

theorem nameWarning?_of_repeated {path : Locator} {names : List String} {name : String} {i : Nat}
    (h : names.idxOf name < i) : nameWarning? path names name i =
      some (.duplicateName ((path.index i).key "name") name ((path.index (names.idxOf name)).key "name")) :=
  if_pos h

theorem nameWarning?_of_first {path : Locator} {names : List String} {name : String} {i : Nat}
    (h : names.idxOf name = i) : nameWarning? path names name i = none :=
  if_neg (h ▸ Nat.lt_irrefl i)

theorem unknownField_not_mem_nameWarnings (path place : Locator) (names : List String) :
    .unknownField place ∉ nameWarnings path names := by
  intro hmem
  obtain ⟨entry, -, hwarning⟩ := List.mem_filterMap.mp hmem
  unfold nameWarning? at hwarning
  simp only at hwarning
  split at hwarning <;> simp at hwarning

/-- The names that were seen, each with the place where it was seen first. -/
def FirstPlaces (firsts : Std.TreeMap String Nat) (seen : List String) : Prop :=
  ∀ name, firsts[name]? = if name ∈ seen then some (seen.idxOf name) else none

theorem firstPlaces_nil : FirstPlaces {} [] := by
  intro name
  simp

theorem FirstPlaces.keep {firsts : Std.TreeMap String Nat} {seen : List String} {name : String}
    (h : FirstPlaces firsts seen) (hmem : name ∈ seen) : FirstPlaces firsts (seen ++ [name]) := by
  intro other
  rw [h]
  by_cases hother : other ∈ seen
  · simp [hother, List.idxOf_append_of_mem]
  · have hne : other ≠ name := fun heq => hother (heq ▸ hmem)
    simp [hother, hne]

theorem FirstPlaces.insert {firsts : Std.TreeMap String Nat} {seen : List String} {name : String}
    (h : FirstPlaces firsts seen) (hmem : name ∉ seen) :
    FirstPlaces (firsts.insert name seen.length) (seen ++ [name]) := by
  intro other
  rw [Std.TreeMap.getElem?_insert, h]
  by_cases hother : other = name
  · subst hother
    simp [Std.ReflOrd.compare_self, List.idxOf_append_of_notMem hmem]
  · have hcompare : ¬compare name other = .eq :=
      fun heq => hother (Std.LawfulEqOrd.eq_of_compare heq).symm
    rw [if_neg hcompare]
    by_cases hseen : other ∈ seen
    · simp [hseen, List.idxOf_append_of_mem]
    · simp [hseen, hother]

/-- One step of looking for repeated names, with the warnings so far, the last one first. -/
def noteName (path : Locator) (state : Std.TreeMap String Nat × List Warning) (entry : Question × Nat) :
    Std.TreeMap String Nat × List Warning :=
  match state.1[entry.1.name]? with
  | some first =>
    (state.1, .duplicateName ((path.index entry.2).key "name") entry.1.name ((path.index first).key "name") ::
      state.2)
  | none => (state.1.insert entry.1.name entry.2, state.2)

section NoteName

variable {path : Locator} {firsts : Std.TreeMap String Nat} {warnings : List Warning} {seen : List String}
  {question : Question}

theorem noteName_of_mem (h : FirstPlaces firsts seen) (hmem : question.name ∈ seen) (i : Nat) :
    noteName path (firsts, warnings) (question, i) =
      (firsts, .duplicateName ((path.index i).key "name") question.name
        ((path.index (seen.idxOf question.name)).key "name") :: warnings) := by
  have hfirst : firsts[question.name]? = some (seen.idxOf question.name) := by
    rw [h, if_pos hmem]
  simp only [noteName, hfirst]

theorem noteName_of_not_mem (h : FirstPlaces firsts seen) (hmem : question.name ∉ seen) (i : Nat) :
    noteName path (firsts, warnings) (question, i) = (firsts.insert question.name i, warnings) := by
  have hfirst : firsts[question.name]? = none := by
    rw [h, if_neg hmem]
  simp only [noteName, hfirst]

/-- The questions are split into those seen, of which the map tells, and the rest. -/
theorem foldl_noteName (path : Locator) (rest : List Question) {seen : List String}
    {firsts : Std.TreeMap String Nat} (warnings : List Warning) (h : FirstPlaces firsts seen) :
    ((rest.zipIdx seen.length).foldl (noteName path) (firsts, warnings)).2.reverse =
      warnings.reverse ++ ((rest.map (·.name)).zipIdx seen.length).filterMap fun entry =>
        nameWarning? path (seen ++ rest.map (·.name)) entry.1 entry.2 := by
  induction rest generalizing seen firsts warnings with
  | nil => simp
  | cons question rest ih =>
    have hsplit : seen ++ question.name :: rest.map (·.name) =
        (seen ++ [question.name]) ++ rest.map (·.name) := by simp
    have hlength : seen.length + 1 = (seen ++ [question.name]).length := by simp
    rw [List.zipIdx_cons, List.foldl_cons, List.map_cons, List.zipIdx_cons, List.filterMap_cons, hsplit,
      hlength]
    by_cases hmem : question.name ∈ seen
    · have hidx : ((seen ++ [question.name]) ++ rest.map (·.name)).idxOf question.name =
          seen.idxOf question.name := by
        rw [List.append_assoc, List.idxOf_append_of_mem hmem]
      have hlt := List.idxOf_lt_length_of_mem hmem
      rw [noteName_of_mem h hmem, ih _ (h.keep hmem), nameWarning?_of_repeated (hidx ▸ hlt), hidx,
        List.reverse_cons, List.append_assoc, List.singleton_append]
    · have hidx : ((seen ++ [question.name]) ++ rest.map (·.name)).idxOf question.name =
          seen.length := by
        rw [List.append_assoc, List.idxOf_append_of_notMem hmem, List.singleton_append,
          List.idxOf_cons_self, Nat.add_zero]
      rw [noteName_of_not_mem h hmem, ih _ (h.insert hmem), nameWarning?_of_first hidx]

end NoteName

/-- The warnings about repeated names are determined by the names. -/
theorem repeatedNames_eq (path : Locator) (questions : List Question) :
    repeatedNames path questions = nameWarnings path (questions.map (·.name)) :=
  foldl_noteName path questions [] firstPlaces_nil

end ContactForm.Config
