import Mathlib.Data.List.Basic

namespace ContactForm

/-- The lines of a text: what stands between its line feeds, and what stands after the last of them. -/
def lines (text : String) : List String :=
  (text.toList.splitOn '\n').map String.ofList

/-- A text without a line feed. -/
def OneLine (text : String) : Prop :=
  '\n' ∉ text.toList

instance : DecidablePred OneLine :=
  fun text => inferInstanceAs (Decidable ('\n' ∉ text.toList))

theorem oneLine_append_iff {s t : String} : OneLine (s ++ t) ↔ OneLine s ∧ OneLine t := by
  rw [OneLine, String.toList_append, List.mem_append, not_or]
  rfl

theorem OneLine.append {s t : String} (hs : OneLine s) (ht : OneLine t) : OneLine (s ++ t) :=
  oneLine_append_iff.mpr ⟨hs, ht⟩

theorem lines_of_oneLine {text : String} (h : OneLine text) : lines text = [text] := by
  rw [lines, List.splitOn_eq_singleton h, List.map_singleton, String.ofList_toList]

theorem lines_append_lineFeed (text rest : String) : lines (text ++ "\n" ++ rest) = lines text ++ lines rest := by
  have hfeed : "\n".toList = ['\n'] := by decide
  have hsplit := List.splitOn_append_cons_self (a := '\n') text.toList rest.toList
  simp only [lines, String.toList_append, hfeed, List.append_assoc, List.singleton_append, hsplit, List.map_append]

/-- Texts without line feeds, each ended by one, are the lines of the text that they make up. -/
theorem lines_join {texts : List String} (h : ∀ text ∈ texts, OneLine text) (rest : String) :
    lines (String.join (texts.map (· ++ "\n")) ++ rest) = texts ++ lines rest := by
  induction texts with
  | nil => simp
  | cons text texts ih =>
    have htext := lines_of_oneLine (h text List.mem_cons_self)
    have hrest := ih fun other hmem => h other (List.mem_cons_of_mem text hmem)
    rw [List.map_cons, String.join_cons, String.append_assoc, lines_append_lineFeed, htext, hrest,
      List.singleton_append, List.cons_append]

section SplitOn

variable {α : Type} [BEq α] [LawfulBEq α] {a : α} {ys : List α}

/-- What is put after a list without a separator goes to the last part. -/
theorem splitOn_append_right (h : a ∉ ys) (xs : List α) :
    ∃ inner last, xs.splitOn a = inner ++ [last] ∧ (xs ++ ys).splitOn a = inner ++ [last ++ ys] := by
  induction xs with
  | nil => exact ⟨[], [], by simp, by simp [List.splitOn_eq_singleton h]⟩
  | cons x xs ih =>
    obtain ⟨inner, last, hxs, hall⟩ := ih
    rw [List.cons_append, List.splitOn_cons_eq_if_modifyHead, List.splitOn_cons_eq_if_modifyHead, hxs, hall]
    split
    · exact ⟨[] :: inner, last, rfl, rfl⟩
    · cases inner with
      | nil => exact ⟨[], x :: last, rfl, rfl⟩
      | cons part inner => exact ⟨(x :: part) :: inner, last, rfl, rfl⟩

end SplitOn

theorem append_between (start before text after : String) :
    start ++ (before ++ text ++ after) = start ++ before ++ text ++ after := by
  simp only [String.append_assoc]

/-- A text is put between two others that are on one line. Where it is on one line as well, so is the whole; where it
    is not, its first line ends the line before it, its last line starts the line after it, and its other lines stay. -/
theorem lines_between {before after : String} (hbefore : OneLine before) (hafter : OneLine after)
    (text : String) :
    (lines text = [text] ∧ lines (before ++ text ++ after) = [before ++ text ++ after]) ∨
    ∃ first inner last, lines text = first :: (inner ++ [last]) ∧
      lines (before ++ text ++ after) = (before ++ first) :: (inner ++ [last ++ after]) := by
  by_cases h : OneLine text
  · left
    exact ⟨lines_of_oneLine h, lines_of_oneLine ((hbefore.append h).append hafter)⟩
  · right
    obtain ⟨first, rest, htext, hfirst⟩ := List.eq_append_cons_of_mem (not_not.mp h)
    obtain ⟨inner, last, hrest, hall⟩ := splitOn_append_right hafter rest
    have hstart : '\n' ∉ before.toList ++ first := by
      rw [List.mem_append]
      exact not_or.mpr ⟨hbefore, hfirst⟩
    have hwhole : (before ++ text ++ after).toList = (before.toList ++ first) ++ '\n' :: (rest ++ after.toList) := by
      simp [htext]
    refine ⟨String.ofList first, inner.map String.ofList, String.ofList last, ?_, ?_⟩
    · rw [lines, htext, List.splitOn_append_cons_self_of_not_mem hfirst, hrest]
      simp
    · rw [lines, hwhole, List.splitOn_append_cons_self_of_not_mem hstart, hall]
      simp

/-- Where no line that starts or ends with the text around it is looked for, the lines that are found are those that
    the text in between has to itself. -/
theorem filter_lines_between {p : String → Bool} {before after : String} (hbefore : OneLine before)
    (hafter : OneLine after) (hfirst : ∀ rest, p (before ++ rest) = false) (hlast : ∀ rest, p (rest ++ after) = false)
    (text : String) :
    (lines (before ++ text ++ after)).filter p = ((lines text).tail.dropLast).filter p := by
  obtain ⟨hone, hall⟩ | ⟨first, inner, last, htext, hall⟩ := lines_between hbefore hafter text
  · rw [hall, hone, List.filter_singleton, hlast]
    rfl
  · rw [hall, htext, List.filter_cons, hfirst, List.filter_append, List.filter_singleton, hlast, List.tail_cons,
      List.dropLast_concat]
    simp

end ContactForm
