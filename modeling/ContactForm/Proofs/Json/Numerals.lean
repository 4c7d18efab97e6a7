import Mathlib.Data.List.TakeDrop
import ContactForm.Json.Numeral

namespace ContactForm.Numeral

/-- What stands first does not go on with a run of digits. -/
def EndsDigits (text : List Char) : Prop :=
  ∀ c rest, text = c :: rest → c.isDigit = false

/-- What stands first does not go on with a numeral. -/
def Ends (text : List Char) : Prop :=
  ∀ c rest, text = c :: rest → c.isDigit = false ∧ c ≠ '.' ∧ c ≠ 'e' ∧ c ≠ 'E'

theorem Ends.endsDigits {text : List Char} (h : Ends text) : EndsDigits text :=
  fun c rest hc => (h c rest hc).1

theorem endsDigits_cons {c : Char} {rest : List Char} (h : c.isDigit = false) :
    EndsDigits (c :: rest) := by
  intro d tail heq
  obtain ⟨rfl, -⟩ := List.cons.inj heq
  exact h

theorem endsDigits_point (rest : List Char) : EndsDigits ('.' :: rest) :=
  endsDigits_cons (by decide)

theorem endsDigits_mark (rest : List Char) : EndsDigits ('e' :: rest) :=
  endsDigits_cons (by decide)

theorem span_digits {digits rest : List Char} (hd : ∀ c ∈ digits, c.isDigit = true)
    (hr : EndsDigits rest) : (digits ++ rest).span Char.isDigit = (digits, rest) := by
  rw [List.span_eq_takeWhile_dropWhile]
  induction digits with
  | nil =>
    cases rest with
    | nil => rfl
    | cons c rest => simp [hr c rest rfl]
  | cons c digits ih =>
    rw [List.forall_mem_cons] at hd
    have hrest := Prod.mk.inj (ih hd.2)
    simp [hd.1, hrest.1, hrest.2]

theorem readDigits_digits {digits rest : List Char} (hd : ∀ c ∈ digits, c.isDigit = true)
    (hne : digits ≠ []) (hr : EndsDigits rest) : readDigits (digits ++ rest) = .ok (digits, rest) := by
  have hspan := span_digits hd hr
  cases digits with
  | nil => exact absurd rfl hne
  | cons c digits =>
    rw [List.forall_mem_cons] at hd
    rw [List.cons_append] at hspan ⊢
    rw [readDigits, if_pos hd.1, hspan]

/-- The digits before a point: they do not start with a zero, or are one. -/
structure Whole (digits : List Char) : Prop where
  isDigit : ∀ c ∈ digits, c.isDigit = true
  nonempty : digits ≠ []
  leading : digits = ['0'] ∨ digits.head? ≠ some '0'

theorem readWhole_digits {digits rest : List Char} (h : Whole digits) (hr : EndsDigits rest) :
    readWhole (digits ++ rest) = .ok (digits, rest) := by
  have hspan := span_digits h.isDigit hr
  obtain ⟨hd, hne, hlead⟩ := h
  cases digits with
  | nil => exact absurd rfl hne
  | cons c digits =>
    rw [List.forall_mem_cons] at hd
    by_cases hc : c = '0'
    · subst hc
      obtain heq | hzero := hlead
      · obtain ⟨-, rfl⟩ := List.cons.inj heq
        cases rest with
        | nil => rfl
        | cons d rest => simp [readWhole, hr d rest rfl]
      · simp at hzero
    · rw [List.cons_append] at hspan ⊢
      simp only [readWhole, hd.1, hc, hspan, Bool.not_true, Bool.false_eq_true, if_false]

theorem le_ofDigitChars (digits : List Char) (n : Nat) : n ≤ Nat.ofDigitChars 10 digits n := by
  rw [Nat.ofDigitChars_eq_ofDigitChars_zero]
  have hpos : 0 < 10 ^ digits.length := Nat.pow_pos (by decide)
  have hle : n ≤ 10 ^ digits.length * n := Nat.le_mul_of_pos_left n hpos
  omega

/-- Digits whose number stays below the bound are all taken. -/
theorem absorb_eq {bound n : Nat} {digits : List Char} (h : Nat.ofDigitChars 10 digits n < bound) :
    absorb bound n digits = (Nat.ofDigitChars 10 digits n, []) := by
  induction digits generalizing n with
  | nil => rfl
  | cons c digits ih =>
    have hc : Nat.ofDigitChars 10 (c :: digits) n =
        Nat.ofDigitChars 10 digits (10 * n + digitValue c) := Nat.ofDigitChars_cons
    rw [hc] at h ⊢
    rw [absorb, if_pos (Nat.lt_of_le_of_lt (le_ofDigitChars digits _) h), ih h]

/-- The signed exponent after its mark, as it is written. -/
def signed (lowers : Bool) (digits : List Char) : List Char :=
  (if lowers then '-' else '+') :: digits

theorem readExponent_signed {digits rest : List Char} (negative lowers : Bool) (n : Nat) (exponent : Int)
    (hd : ∀ c ∈ digits, c.isDigit = true) (hne : digits ≠ []) (hr : EndsDigits rest)
    (hb : Nat.ofDigitChars 10 digits 0 < exponentLimit) :
    readExponent negative n exponent (signed lowers digits ++ rest) =
      scaled negative n
        (if lowers then exponent - Nat.ofDigitChars 10 digits 0
        else exponent + Nat.ofDigitChars 10 digits 0) rest := by
  have hsign : readSign (signed lowers digits ++ rest) = (lowers, digits ++ rest) := by
    cases lowers <;> rfl
  simp only [readExponent, hsign, readDigits_digits hd hne hr, absorb_eq hb, bind, Except.bind]

/-- What follows a numeral is not its point nor the mark of its exponent. -/
theorem Ends.cases {rest : List Char} (h : Ends rest) :
    (∀ tail, rest ≠ '.' :: tail) ∧ (∀ tail, rest ≠ 'e' :: tail) ∧ ∀ tail, rest ≠ 'E' :: tail := by
  refine ⟨fun tail heq => ?_, fun tail heq => ?_, fun tail heq => ?_⟩
  · exact (h _ _ heq).2.1 rfl
  · exact (h _ _ heq).2.2.1 rfl
  · exact (h _ _ heq).2.2.2 rfl

variable {whole fraction digits rest : List Char}

/-- A numeral without point and exponent. -/
theorem read_whole (negative : Bool) (hw : Whole whole) (hr : Ends rest)
    (hb : Nat.ofDigitChars 10 whole 0 < wordLimit) :
    read negative (whole ++ rest) =
      match integer? negative (Nat.ofDigitChars 10 whole 0) with
      | some number => .ok (number, rest)
      | none => scaled negative (Nat.ofDigitChars 10 whole 0) 0 rest := by
  obtain ⟨hp, he, hE⟩ := hr.cases
  simp only [read, readWhole_digits hw hr.endsDigits, absorb_eq hb, bind, Except.bind]
  cases integer? negative (Nat.ofDigitChars 10 whole 0) <;> rfl

/-- A numeral with a point. -/
theorem read_point (negative : Bool) (hw : Whole whole) (hf : ∀ c ∈ fraction, c.isDigit = true)
    (hne : fraction ≠ []) (hr : Ends rest)
    (hb : Nat.ofDigitChars 10 (whole ++ fraction) 0 < wordLimit) :
    read negative (whole ++ '.' :: (fraction ++ rest)) =
      scaled negative (Nat.ofDigitChars 10 (whole ++ fraction) 0) (-fraction.length) rest := by
  obtain ⟨-, he, hE⟩ := hr.cases
  rw [Nat.ofDigitChars_append] at hb ⊢
  have hbw := Nat.lt_of_le_of_lt (le_ofDigitChars fraction _) hb
  simp only [read, readWhole_digits hw (endsDigits_point _), absorb_eq hbw, absorb_eq hb,
    readDigits_digits hf hne hr.endsDigits, bind, Except.bind]
  simp

/-- A numeral with an exponent. -/
theorem read_signed (negative lowers : Bool) (hw : Whole whole)
    (hd : ∀ c ∈ digits, c.isDigit = true) (hne : digits ≠ []) (hr : Ends rest)
    (hb : Nat.ofDigitChars 10 whole 0 < wordLimit)
    (hl : Nat.ofDigitChars 10 digits 0 < exponentLimit) :
    read negative (whole ++ 'e' :: (signed lowers digits ++ rest)) =
      scaled negative (Nat.ofDigitChars 10 whole 0)
        (if lowers then -Nat.ofDigitChars 10 digits 0 else Nat.ofDigitChars 10 digits 0) rest := by
  simp only [read, readWhole_digits hw (endsDigits_mark _), absorb_eq hb, bind, Except.bind]
  rw [readExponent_signed negative lowers _ _ hd hne hr.endsDigits hl]
  simp

/-- A numeral with a point and an exponent. -/
theorem read_point_signed (negative lowers : Bool) (hw : Whole whole)
    (hf : ∀ c ∈ fraction, c.isDigit = true) (hfne : fraction ≠ [])
    (hd : ∀ c ∈ digits, c.isDigit = true) (hne : digits ≠ []) (hr : Ends rest)
    (hb : Nat.ofDigitChars 10 (whole ++ fraction) 0 < wordLimit)
    (hl : Nat.ofDigitChars 10 digits 0 < exponentLimit) :
    read negative (whole ++ '.' :: (fraction ++ 'e' :: (signed lowers digits ++ rest))) =
      scaled negative (Nat.ofDigitChars 10 (whole ++ fraction) 0)
        (if lowers then -fraction.length - Nat.ofDigitChars 10 digits 0
        else -fraction.length + Nat.ofDigitChars 10 digits 0) rest := by
  rw [Nat.ofDigitChars_append] at hb ⊢
  have hbw := Nat.lt_of_le_of_lt (le_ofDigitChars fraction _) hb
  simp only [read, readWhole_digits hw (endsDigits_point _), absorb_eq hbw, absorb_eq hb,
    readDigits_digits hf hfne (endsDigits_mark _), bind, Except.bind]
  rw [readExponent_signed negative lowers _ _ hd hne hr.endsDigits hl]
  simp

theorem isDigit_toDigits (n : Nat) : ∀ c ∈ Nat.toDigits 10 n, c.isDigit = true :=
  fun _ hc => Nat.isDigit_of_mem_toDigits (by decide) (by decide) hc

theorem head?_toDigits {n : Nat} (h : 0 < n) : (Nat.toDigits 10 n).head? ≠ some '0' := by
  induction n using Nat.strongRecOn with
  | ind n ih =>
    rw [Nat.toDigits_eq_if (by decide)]
    split
    · simp
      omega
    · have hne : Nat.toDigits 10 (n / 10) ≠ [] := Nat.toDigits_ne_nil
      have hhead := ih (n / 10) (by omega) (by omega)
      cases hd : Nat.toDigits 10 (n / 10) with
      | nil => exact absurd hd hne
      | cons c digits =>
        rw [hd] at hhead
        simpa using hhead

theorem whole_toDigits (n : Nat) : Whole (Nat.toDigits 10 n) where
  isDigit := isDigit_toDigits n
  nonempty := Nat.toDigits_ne_nil
  leading := by
    obtain rfl | h := Nat.eq_zero_or_pos n
    · exact .inl (Nat.toDigits_zero 10)
    · exact .inr (head?_toDigits h)

/-- The digits of a natural number are read as that number. -/
theorem read_natural (n : Word) (hr : Ends rest) :
    read false (text (.natural n) ++ rest) = .ok (.natural n, rest) := by
  have hb : Nat.ofDigitChars 10 (Nat.toDigits 10 n) 0 < wordLimit := by
    rw [Nat.ofDigitChars_ten_toDigits]
    exact n.isLt
  rw [text, read_whole false (whole_toDigits n) hr hb, Nat.ofDigitChars_ten_toDigits]
  simp [integer?, n.isLt]

/-- The digits of a negative integer after its sign are read as that integer. -/
theorem read_negative (n : Fin 0x8000000000000000) (hr : Ends rest) :
    read true (Nat.toDigits 10 (n + 1) ++ rest) = .ok (.negative n, rest) := by
  have hn := n.isLt
  have hb : Nat.ofDigitChars 10 (Nat.toDigits 10 (n + 1)) 0 < wordLimit := by
    rw [Nat.ofDigitChars_ten_toDigits, wordLimit]
    omega
  have hle : n.val + 1 ≤ 0x8000000000000000 := by omega
  rw [read_whole true (whole_toDigits _) hr hb, Nat.ofDigitChars_ten_toDigits]
  simp [integer?, hle]

end ContactForm.Numeral
