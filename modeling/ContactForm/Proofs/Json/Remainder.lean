import Mathlib.Data.List.TakeDrop
import ContactForm.Json.Reader

namespace ContactForm

theorem Reader.bind_eq_ok {ε α β : Type} {x : Except ε α} {next : α → Except ε β} {b : β}
    (h : x >>= next = .ok b) : ∃ a, x = .ok a ∧ next a = .ok b := by
  cases x with
  | error e => cases h
  | ok a => exact ⟨a, rfl, h⟩

namespace Numeral

variable {text rest : List Char}

theorem suffix_of_span {digits : List Char} (h : text.span Char.isDigit = (digits, rest)) : rest <:+ text := by
  rw [List.span_eq_takeWhile_dropWhile] at h
  obtain ⟨-, rfl⟩ := Prod.mk.inj h
  exact List.dropWhile_suffix _

theorem suffix_of_readWhole {digits : List Char} (h : readWhole text = .ok (digits, rest)) : rest <:+ text := by
  unfold readWhole at h
  split at h
  · cases h
  · split at h
    · cases h
    · split at h
      · split at h
        · split at h
          · cases h
          · cases h
            exact List.suffix_cons _ _
        · cases h
          exact List.nil_suffix
      · exact suffix_of_span (Except.ok.inj h)

theorem suffix_of_readDigits {digits : List Char} (h : readDigits text = .ok (digits, rest)) : rest <:+ text := by
  unfold readDigits at h
  split at h
  · cases h
  · split at h
    · exact suffix_of_span (Except.ok.inj h)
    · cases h

theorem readSign_suffix (text : List Char) : (readSign text).2 <:+ text := by
  unfold readSign
  split
  · exact List.suffix_cons _ _
  · exact List.suffix_cons _ _
  · exact List.suffix_refl _

theorem eq_of_scaled {negative : Bool} {n : Nat} {exponent : Int} {number : Number} {after : List Char}
    (h : scaled negative n exponent after = .ok (number, rest)) : after = rest := by
  rw [scaled] at h
  generalize Binary64.ofDecimal? n exponent = magnitude at h
  cases magnitude with
  | none => cases h
  | some x =>
    rw [finite] at h
    exact (Prod.mk.inj (Except.ok.inj h)).2

theorem suffix_of_readExponent {negative : Bool} {n : Nat} {exponent : Int} {number : Number}
    (h : readExponent negative n exponent text = .ok (number, rest)) : rest <:+ text := by
  have hsign := readSign_suffix text
  unfold readExponent at h
  generalize readSign text = signed at h hsign
  obtain ⟨lowers, start⟩ := signed
  obtain ⟨⟨digits, after⟩, hdigits, h⟩ := Reader.bind_eq_ok h
  have hafter : after <:+ text := (suffix_of_readDigits hdigits).trans hsign
  simp only at h
  generalize absorb exponentLimit 0 digits = absorbed at h
  obtain ⟨written, surplus⟩ := absorbed
  cases surplus with
  | nil =>
    obtain rfl := eq_of_scaled h
    exact hafter
  | cons d surplus =>
    simp only at h
    by_cases hrange : n ≠ 0 ∧ !lowers
    · rw [if_pos hrange] at h
      cases h
    · rw [if_neg hrange] at h
      obtain rfl := (Prod.mk.inj (Except.ok.inj h)).2
      exact hafter

/-- What is left after a number is the end of its text. -/
theorem suffix_of_read {negative : Bool} {number : Number} (h : read negative text = .ok (number, rest)) :
    rest <:+ text := by
  unfold read at h
  obtain ⟨⟨whole, after⟩, hwhole, h⟩ := Reader.bind_eq_ok h
  have hafter := suffix_of_readWhole hwhole
  simp only at h
  generalize absorb wordLimit 0 whole = absorbed at h
  obtain ⟨n, surplus⟩ := absorbed
  simp only at h
  split at h
  case h_1 =>
    obtain ⟨⟨fraction, later⟩, hfraction, h⟩ := Reader.bind_eq_ok h
    have hlater := ((suffix_of_readDigits hfraction).trans (List.suffix_cons _ _)).trans hafter
    simp only at h
    generalize absorb wordLimit n fraction = absorbed at h
    obtain ⟨n, passed⟩ := absorbed
    simp only at h
    split at h
    case h_3 =>
      obtain rfl := eq_of_scaled h
      exact hlater
    all_goals exact (suffix_of_readExponent h).trans ((List.suffix_cons _ _).trans hlater)
  case h_4 =>
    generalize integer? negative n = integer at h
    split at h
    · cases h
      exact hafter
    · obtain rfl := eq_of_scaled h
      exact hafter
  all_goals exact (suffix_of_readExponent h).trans ((List.suffix_cons _ _).trans hafter)

end Numeral

/-- What is left after a string is the end of its text. -/
theorem Quoted.suffix_of_read {done text : List Char} {s : String} {rest : List Char}
    (h : read done text = .ok (s, rest)) : rest <:+ text := by
  fun_induction read done text
  case case2 =>
    cases h
    exact List.suffix_cons _ _
  case case7 ih => exact (ih h).trans ⟨['\\', 'u', _, _, _, _, '\\', 'u', _, _, _, _], rfl⟩
  case case11 ih => exact (ih h).trans ⟨['\\', 'u', _, _, _, _], rfl⟩
  case case13 ih => exact (ih h).trans ⟨['\\', _], rfl⟩
  case case16 ih => exact (ih h).trans (List.suffix_cons _ _)
  all_goals cases h

namespace Reader

variable {text rest : List Char}

theorem suffix_of_readWord {letters : List Char} (h : readWord letters text = .ok rest) : rest <:+ text := by
  induction letters generalizing text with
  | nil =>
    cases text <;> cases h <;> exact List.suffix_refl _
  | cons letter letters ih =>
    cases text with
    | nil => cases h
    | cons c text =>
      rw [readWord] at h
      split at h
      · exact (ih h).trans (List.suffix_cons c text)
      · cases h

theorem skipBlank_suffix (text : List Char) : skipBlank text <:+ text :=
  List.dropWhile_suffix _

theorem suffix_of_skipBlank_eq {c : Char} (h : skipBlank text = c :: rest) : c :: rest <:+ text :=
  h ▸ skipBlank_suffix text

theorem suffix_of_nextElement {first : Bool} {close : Char} {separator : Reason}
    (h : nextElement first close separator text = .ok rest) : rest <:+ text := by
  unfold nextElement at h
  split at h
  · cases h
    exact List.suffix_refl _
  · split at h
    · cases h
    · next hskip =>
      split at h
      · cases h
      · cases h
        exact (suffix_of_skipBlank_eq hskip).trans (List.suffix_cons _ _)
  · cases h

theorem suffix_of_readKey {key : String} (h : readKey text = .ok (key, rest)) : rest <:+ text := by
  unfold readKey at h
  split at h
  · obtain ⟨⟨found, after⟩, hread, h⟩ := bind_eq_ok h
    have hafter := (Quoted.suffix_of_read hread).trans (List.suffix_cons '"' _)
    simp only at h
    split at h
    · cases h
    · next hskip =>
      cases h
      have hcolon := (suffix_of_skipBlank_eq hskip).trans hafter
      exact (List.suffix_cons ':' _).trans hcolon
    · cases h
  · cases h

section Containers

variable {readValue : List Char → Except Fault (Read Json)}
  (hvalue : ∀ text value rest, readValue text = .ok (value, rest) → rest <:+ text)

include hvalue

/-- A list ends with its bracket, after which stands what is left. -/
theorem suffix_of_readItems {fuel : Nat} {done items : List Json}
    (h : readItems readValue fuel done text = .ok (items, rest)) : ']' :: rest <:+ text := by
  induction fuel generalizing done text with
  | zero => cases h
  | succ fuel ih =>
    rw [readItems] at h
    split at h
    · cases h
    · next hskip =>
      cases h
      exact suffix_of_skipBlank_eq hskip
    · obtain ⟨start, hnext, h⟩ := bind_eq_ok h
      obtain ⟨⟨item, after⟩, hitem, h⟩ := bind_eq_ok h
      have hstart := (suffix_of_nextElement hnext).trans (skipBlank_suffix text)
      exact (ih h).trans ((hvalue _ _ _ hitem).trans hstart)

/-- An object ends with its brace, after which stands what is left. -/
theorem suffix_of_readMembers {fuel : Nat} {done members : List (String × Json)}
    (h : readMembers readValue fuel done text = .ok (members, rest)) : '\x7d' :: rest <:+ text := by
  induction fuel generalizing done text with
  | zero => cases h
  | succ fuel ih =>
    rw [readMembers] at h
    split at h
    · cases h
    · next hskip =>
      cases h
      exact suffix_of_skipBlank_eq hskip
    · obtain ⟨start, hnext, h⟩ := bind_eq_ok h
      obtain ⟨⟨key, after⟩, hkey, h⟩ := bind_eq_ok h
      obtain ⟨⟨value, later⟩, hmember, h⟩ := bind_eq_ok h
      have hstart := (suffix_of_nextElement hnext).trans (skipBlank_suffix text)
      have hafter := (suffix_of_readKey hkey).trans hstart
      exact (ih h).trans ((hvalue _ _ _ hmember).trans hafter)

end Containers

end Reader

end ContactForm
