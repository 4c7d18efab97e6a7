import Mathlib.Tactic.IntervalCases
import ContactForm.Json.Reader
import ContactForm.Proofs.Json.Quoting

namespace ContactForm.Reader

/-- Characters that are passed over. -/
def Blanks (text : List Char) : Prop :=
  ∀ c ∈ text, isBlank c = true

theorem blanks_nil : Blanks [] :=
  fun _ h => absurd h List.not_mem_nil

/-- A character that a value can start with. -/
structure Starts (c : Char) : Prop where
  not_blank : isBlank c = false
  ne_bracket : c ≠ ']'
  ne_brace : c ≠ '\x7d'

/-- A text that starts as a value does. -/
def StartsValue (text : List Char) : Prop :=
  ∃ c tail, text = c :: tail ∧ Starts c

theorem skipBlank_append {blanks : List Char} (h : Blanks blanks) (text : List Char) :
    skipBlank (blanks ++ text) = skipBlank text := by
  induction blanks with
  | nil => rfl
  | cons c blanks ih =>
    have hc : isBlank c = true := h c List.mem_cons_self
    rw [skipBlank, List.cons_append, List.dropWhile_cons_of_pos hc]
    exact ih fun d hd => h d (List.mem_cons_of_mem c hd)

theorem skipBlank_cons {c : Char} (h : isBlank c = false) (text : List Char) :
    skipBlank (c :: text) = c :: text := by
  rw [skipBlank, List.dropWhile_cons_of_neg (by simp [h])]

theorem readValue_skipBlank (fuel depth : Nat) {blanks : List Char} (h : Blanks blanks)
    (text : List Char) : readValue fuel depth (blanks ++ text) = readValue fuel depth text := by
  cases depth <;> rw [readValue, readValue, skipBlank_append h]

theorem digit_range {c : Char} (h : c.isDigit = true) : 48 ≤ c.toNat ∧ c.toNat ≤ 57 := by
  simpa [Char.isDigit, Char.le_def, UInt32.le_iff_toNat_le] using h

theorem digit_cases {c : Char} (h : c.isDigit = true) :
    c = '0' ∨ c = '1' ∨ c = '2' ∨ c = '3' ∨ c = '4' ∨ c = '5' ∨ c = '6' ∨ c = '7' ∨ c = '8' ∨
      c = '9' := by
  obtain ⟨hlow, hhigh⟩ := digit_range h
  have hchar : Char.ofNat c.toNat = c := Char.ofNat_toNat c
  generalize c.toNat = n at hlow hhigh hchar
  subst hchar
  interval_cases n <;> decide

theorem starts_of_isDigit {c : Char} (h : c.isDigit = true) : Starts c := by
  obtain rfl | rfl | rfl | rfl | rfl | rfl | rfl | rfl | rfl | rfl := digit_cases h <;>
    exact ⟨by decide, by decide, by decide⟩

variable (fuel depth : Nat) (text : List Char)

/-- No value starts with another letter or sign than these. -/
theorem readValue_stray {c : Char} (hblank : isBlank c = false) (hdigit : c.isDigit = false)
    (h : c ∉ ['n', 't', 'f', '"', '[', '\x7b', '-']) :
    readValue fuel depth (c :: text) = .error (.upon .value (c :: text)) := by
  rw [readValue, skipBlank_cons hblank]
  split
  case h_9 heq =>
    obtain ⟨rfl, rfl⟩ := List.cons.inj heq
    simp [hdigit]
  all_goals simp_all

theorem readValue_minus : readValue fuel depth ('-' :: text) =
    (Numeral.read true text).map fun r => (.number r.1, r.2) := by
  have hskip := skipBlank_cons (show isBlank '-' = false by decide) text
  cases depth <;> simp only [readValue, hskip] <;> cases Numeral.read true text <;> rfl

theorem readValue_digit {c : Char} (h : c.isDigit = true) : readValue fuel depth (c :: text) =
    (Numeral.read false (c :: text)).map fun r => (.number r.1, r.2) := by
  have hskip := skipBlank_cons (starts_of_isDigit h).not_blank text
  obtain rfl | rfl | rfl | rfl | rfl | rfl | rfl | rfl | rfl | rfl := digit_cases h <;>
    cases depth <;> simp [readValue, hskip, h] <;> cases Numeral.read false (_ :: text) <;> rfl

theorem readValue_quote : readValue fuel depth ('"' :: text) =
    (Quoted.read [] text).map fun r => (.string r.1, r.2) := by
  have hskip := skipBlank_cons (show isBlank '"' = false by decide) text
  cases depth <;> simp only [readValue, hskip] <;> cases Quoted.read [] text <;> rfl

theorem readValue_bracket : readValue fuel (depth + 1) ('[' :: text) =
    (readItems (readValue fuel depth) fuel [] text).map fun r => (.array r.1, r.2) := by
  have hskip := skipBlank_cons (show isBlank '[' = false by decide) text
  simp only [readValue, hskip]
  cases readItems (readValue fuel depth) fuel [] text <;> rfl

theorem readValue_brace : readValue fuel (depth + 1) ('\x7b' :: text) =
    (readMembers (readValue fuel depth) fuel [] text).map fun r => (.ofMembers r.1, r.2) := by
  have hskip := skipBlank_cons (show isBlank '\x7b' = false by decide) text
  simp only [readValue, hskip]
  cases readMembers (readValue fuel depth) fuel [] text <;> rfl

section Containers

variable (readValue : List Char → Except Fault (Read Json)) {blanks : List Char}

theorem readItems_close (items : List Json) (hb : Blanks blanks) (rest : List Char) :
    readItems readValue (fuel + 1) items (blanks ++ ']' :: rest) = .ok (items.reverse, rest) := by
  simp only [readItems, skipBlank_append hb, skipBlank_cons (show isBlank ']' = false by decide)]

theorem readItems_first (hb : Blanks blanks) (ht : StartsValue text) :
    readItems readValue (fuel + 1) [] (blanks ++ text) =
      (readValue text).bind fun r => readItems readValue fuel [r.1] r.2 := by
  obtain ⟨c, tail, rfl, hc⟩ := ht
  have hne := hc.ne_bracket
  simp [readItems, skipBlank_append hb, skipBlank_cons hc.not_blank, hne, nextElement, bind,
    Except.bind]

theorem readItems_next {items : List Json} (hi : items ≠ []) (hb : Blanks blanks)
    (ht : StartsValue text) :
    readItems readValue (fuel + 1) items (',' :: (blanks ++ text)) =
      (readValue text).bind fun r => readItems readValue fuel (r.1 :: items) r.2 := by
  obtain ⟨c, tail, rfl, hc⟩ := ht
  have hcomma := skipBlank_cons (show isBlank ',' = false by decide) (blanks ++ c :: tail)
  have hempty : items.isEmpty = false := by simpa using hi
  simp [readItems, hcomma, hempty, nextElement, skipBlank_append hb, skipBlank_cons hc.not_blank,
    hc.ne_bracket, bind, Except.bind]

theorem readKey_chars (key : String) (rest : List Char) :
    readKey (Quoted.chars key ++ ':' :: rest) = .ok (key, rest) := by
  have hcolon := skipBlank_cons (show isBlank ':' = false by decide) rest
  rw [Quoted.chars_append]
  simp [readKey, Quoted.read_chars, hcolon, bind, Except.bind]

theorem readMembers_close (members : List (String × Json)) (hb : Blanks blanks) (rest : List Char) :
    readMembers readValue (fuel + 1) members (blanks ++ '\x7d' :: rest) =
      .ok (members.reverse, rest) := by
  simp only [readMembers, skipBlank_append hb,
    skipBlank_cons (show isBlank '\x7d' = false by decide)]

theorem readMembers_first (hb : Blanks blanks) (key : String) :
    readMembers readValue (fuel + 1) [] (blanks ++ (Quoted.chars key ++ ':' :: text)) =
      (readValue text).bind fun r => readMembers readValue fuel [(key, r.1)] r.2 := by
  have hkey := readKey_chars key text
  have hquote := skipBlank_cons (show isBlank '"' = false by decide)
  rw [Quoted.chars_append] at hkey ⊢
  simp [readMembers, skipBlank_append hb, hquote, nextElement, hkey, bind, Except.bind]

theorem readMembers_next {members : List (String × Json)} (hm : members ≠ []) (hb : Blanks blanks)
    (key : String) :
    readMembers readValue (fuel + 1) members (',' :: (blanks ++ (Quoted.chars key ++ ':' :: text))) =
      (readValue text).bind fun r => readMembers readValue fuel ((key, r.1) :: members) r.2 := by
  have hkey := readKey_chars key text
  have hquote := skipBlank_cons (show isBlank '"' = false by decide)
  have hempty : members.isEmpty = false := by simpa using hm
  rw [Quoted.chars_append] at hkey ⊢
  have hcomma := skipBlank_cons (show isBlank ',' = false by decide)
  simp [readMembers, hcomma, hempty, nextElement, skipBlank_append hb, hquote, hkey, bind, Except.bind]

end Containers

end ContactForm.Reader
