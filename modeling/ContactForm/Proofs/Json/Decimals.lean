import Mathlib.Tactic.Ring
import ContactForm.Proofs.Json.Numerals

namespace ContactForm

/-- The exponent of the first digit. -/
def Decimal.leading (d : Decimal) : Int :=
  d.exponent + (Nat.toDigits 10 d.digits).length - 1

/-- The decimal number that the text of a decimal number spells: a point at its end is followed by a zero, which
    counts as a digit. -/
def Decimal.spelled (d : Decimal) : Decimal :=
  if 0 ≤ d.exponent ∧ Numeral.writesPoint d.leading then ⟨d.digits * 10 ^ (d.exponent.toNat + 1), -1⟩
  else d

/-- A decimal number whose digits and exponent are read without being cut. -/
structure Decimal.Readable (d : Decimal) : Prop where
  digits_lt : d.digits < wordLimit
  zero : d.digits = 0 → d.exponent = 0
  leading_lt : d.leading.natAbs < Numeral.exponentLimit

namespace Numeral

variable {rest : List Char} (negative : Bool) {d : Decimal}

theorem layout_eq (d : Decimal) :
    layout (Nat.toDigits 10 d.digits) d.exponent =
      if writesPoint d.leading then
        if 0 ≤ d.exponent then
          Nat.toDigits 10 d.digits ++ List.replicate d.exponent.toNat '0' ++ ['.', '0']
        else if 0 ≤ d.leading then
          (Nat.toDigits 10 d.digits).take (d.leading.toNat + 1) ++
            '.' :: (Nat.toDigits 10 d.digits).drop (d.leading.toNat + 1)
        else '0' :: '.' :: List.replicate (-d.leading - 1).toNat '0' ++ Nat.toDigits 10 d.digits
      else
        (Nat.toDigits 10 d.digits).take 1 ++
          (if ((Nat.toDigits 10 d.digits).drop 1).isEmpty then []
          else '.' :: (Nat.toDigits 10 d.digits).drop 1) ++
          'e' :: signed (d.leading < 0) (Nat.toDigits 10 d.leading.natAbs) := by
  rw [layout]
  simp only [← show d.leading = d.exponent + (Nat.toDigits 10 d.digits).length - 1 from rfl, signed,
    decide_eq_true_eq]

theorem isDigit_zero : ∀ c ∈ ['0'], c.isDigit = true :=
  List.forall_mem_singleton.mpr rfl

theorem whole_zero : Whole ['0'] :=
  ⟨isDigit_zero, List.cons_ne_nil _ _, .inl rfl⟩

theorem whole_append_zeros {n : Nat} (h : 0 < n) (k : Nat) :
    Whole (Nat.toDigits 10 n ++ List.replicate k '0') where
  isDigit := by
    intro c hc
    obtain hc | hc := List.mem_append.mp hc
    · exact isDigit_toDigits n c hc
    · obtain rfl := List.eq_of_mem_replicate hc
      decide
  nonempty := by simp
  leading := by
    right
    have hhead := head?_toDigits h
    cases hd : Nat.toDigits 10 n with
    | nil => exact absurd hd Nat.toDigits_ne_nil
    | cons c digits =>
      rw [hd] at hhead
      simpa using hhead

theorem toDigits_lt (n : Nat) : n < 10 ^ (Nat.toDigits 10 n).length :=
  (Nat.length_toDigits_le_iff (by decide) Nat.length_toDigits_pos).mp (Nat.le_refl _)

/-- Digits with zeros and a point after them. -/
theorem read_layout_zeros (h : d.Readable) (he : 0 ≤ d.exponent) (hp : writesPoint d.leading)
    (hr : Ends rest) :
    read negative (layout (Nat.toDigits 10 d.digits) d.exponent ++ rest) =
      scaled negative (d.digits * 10 ^ (d.exponent.toNat + 1)) (-1) rest := by
  have hlayout : layout (Nat.toDigits 10 d.digits) d.exponent =
      Nat.toDigits 10 d.digits ++ List.replicate d.exponent.toNat '0' ++ ['.', '0'] := by
    rw [layout_eq, if_pos hp, if_pos he]
  have hwhole : Whole (Nat.toDigits 10 d.digits ++ List.replicate d.exponent.toNat '0') := by
    obtain hz | hpos := Nat.eq_zero_or_pos d.digits
    · rw [h.zero hz, hz]
      exact whole_zero
    · exact whole_append_zeros hpos _
  have hvalue : Nat.ofDigitChars 10
      (Nat.toDigits 10 d.digits ++ List.replicate d.exponent.toNat '0' ++ ['0']) 0 =
      d.digits * 10 ^ (d.exponent.toNat + 1) := by
    rw [Nat.ofDigitChars_append, Nat.ofDigitChars_append, Nat.ofDigitChars_ten_toDigits,
      Nat.ofDigitChars_replicate_zero, Nat.ofDigitChars_cons, Nat.ofDigitChars_nil, Nat.pow_succ]
    simp
    ring
  have hb : d.digits * 10 ^ (d.exponent.toNat + 1) < wordLimit := by
    have hlt := toDigits_lt d.digits
    have hlead : d.exponent + (Nat.toDigits 10 d.digits).length - 1 ≤ 15 := by
      simp only [writesPoint, Decimal.leading, Bool.and_eq_true] at hp
      exact of_decide_eq_true hp.2
    have hsum : (Nat.toDigits 10 d.digits).length + (d.exponent.toNat + 1) ≤ 17 := by omega
    calc d.digits * 10 ^ (d.exponent.toNat + 1)
        < 10 ^ (Nat.toDigits 10 d.digits).length * 10 ^ (d.exponent.toNat + 1) :=
          Nat.mul_lt_mul_of_pos_right hlt (Nat.pow_pos (by decide))
      _ = 10 ^ ((Nat.toDigits 10 d.digits).length + (d.exponent.toNat + 1)) := (Nat.pow_add ..).symm
      _ ≤ 10 ^ 17 := Nat.pow_le_pow_right (by decide) hsum
      _ < wordLimit := by decide
  rw [← hvalue] at hb
  have hread := read_point negative hwhole isDigit_zero (List.cons_ne_nil _ _) hr hb
  rw [hvalue] at hread
  rw [hlayout, List.append_assoc]
  exact hread

/-- Digits with a point among them. -/
theorem read_layout_among (h : d.Readable) (he : d.exponent < 0) (hl : 0 ≤ d.leading)
    (hp : writesPoint d.leading) (hr : Ends rest) :
    read negative (layout (Nat.toDigits 10 d.digits) d.exponent ++ rest) =
      scaled negative d.digits d.exponent rest := by
  have hlayout : layout (Nat.toDigits 10 d.digits) d.exponent =
      (Nat.toDigits 10 d.digits).take (d.leading.toNat + 1) ++
        '.' :: (Nat.toDigits 10 d.digits).drop (d.leading.toNat + 1) := by
    rw [layout_eq, if_pos hp, if_neg (Int.not_le.mpr he), if_pos hl]
  have hpos : 0 < d.digits := by
    obtain hz | hpos := Nat.eq_zero_or_pos d.digits
    · have := h.zero hz
      omega
    · exact hpos
  have hhead := head?_toDigits hpos
  have hlength : d.leading = d.exponent + (Nat.toDigits 10 d.digits).length - 1 := rfl
  have hvalue := Nat.ofDigitChars_ten_toDigits (n := d.digits)
  have hdigits := isDigit_toDigits d.digits
  generalize Nat.toDigits 10 d.digits = digits at hlayout hhead hlength hvalue hdigits ⊢
  have hwhole : Whole (digits.take (d.leading.toNat + 1)) := by
    refine ⟨fun c hc => hdigits c (List.mem_of_mem_take hc), ?_, .inr ?_⟩
    · cases digits with
      | nil => simp at hlength; omega
      | cons c digits => simp
    · rw [List.head?_take, if_neg (Nat.succ_ne_zero _)]
      exact hhead
  have hfraction : ∀ c ∈ digits.drop (d.leading.toNat + 1), c.isDigit = true :=
    fun c hc => hdigits c (List.mem_of_mem_drop hc)
  have hne : digits.drop (d.leading.toNat + 1) ≠ [] := by
    rw [ne_eq, List.drop_eq_nil_iff]
    omega
  have hsplit := List.take_append_drop (d.leading.toNat + 1) digits
  have hread := read_point negative hwhole hfraction hne hr (by rw [hsplit, hvalue]; exact h.digits_lt)
  rw [hsplit, hvalue] at hread
  rw [hlayout, List.append_assoc]
  refine hread.trans ?_
  congr 1
  rw [List.length_drop]
  omega

/-- Digits with a point and zeros before them. -/
theorem read_layout_before (h : d.Readable) (hl : d.leading < 0) (hp : writesPoint d.leading)
    (hr : Ends rest) :
    read negative (layout (Nat.toDigits 10 d.digits) d.exponent ++ rest) =
      scaled negative d.digits d.exponent rest := by
  have hlength : d.leading = d.exponent + (Nat.toDigits 10 d.digits).length - 1 := rfl
  have hlpos := Nat.length_toDigits_pos (b := 10) (n := d.digits)
  have hlayout : layout (Nat.toDigits 10 d.digits) d.exponent =
      ['0'] ++ '.' :: (List.replicate (-d.leading - 1).toNat '0' ++ Nat.toDigits 10 d.digits) := by
    rw [layout_eq, if_pos hp, if_neg (by omega), if_neg (Int.not_le.mpr hl)]
    rfl
  have hvalue : Nat.ofDigitChars 10
      (['0'] ++ (List.replicate (-d.leading - 1).toNat '0' ++ Nat.toDigits 10 d.digits)) 0 =
      d.digits := by
    rw [Nat.ofDigitChars_append, Nat.ofDigitChars_append]
    simp [Nat.ofDigitChars_cons]
  have hfraction : ∀ c ∈ List.replicate (-d.leading - 1).toNat '0' ++ Nat.toDigits 10 d.digits,
      c.isDigit = true := by
    intro c hc
    obtain hc | hc := List.mem_append.mp hc
    · obtain rfl := List.eq_of_mem_replicate hc
      decide
    · exact isDigit_toDigits d.digits c hc
  have hread := read_point negative whole_zero hfraction (by simp) hr (by rw [hvalue]; exact h.digits_lt)
  rw [hvalue] at hread
  rw [hlayout, List.append_assoc]
  refine hread.trans ?_
  congr 1
  rw [List.length_append, List.length_replicate]
  omega

/-- One digit before the point and a signed exponent. -/
theorem read_layout_signed (h : d.Readable) (hp : ¬writesPoint d.leading) (hr : Ends rest) :
    read negative (layout (Nat.toDigits 10 d.digits) d.exponent ++ rest) =
      scaled negative d.digits d.exponent rest := by
  have hlength : d.leading = d.exponent + (Nat.toDigits 10 d.digits).length - 1 := rfl
  have hpos : 0 < d.digits := by
    obtain hz | hpos := Nat.eq_zero_or_pos d.digits
    · -- zero has its exponent among those that are written with a point
      have hlead : d.leading = 0 := by
        rw [hlength, h.zero hz, hz, Nat.toDigits_zero]
        rfl
      rw [hlead] at hp
      exact absurd (by decide) hp
    · exact hpos
  have hlayout := layout_eq d
  rw [if_neg hp] at hlayout
  have hhead := head?_toDigits hpos
  have hvalue := Nat.ofDigitChars_ten_toDigits (n := d.digits)
  have hdigits := isDigit_toDigits d.digits
  have hexponent : Nat.ofDigitChars 10 (Nat.toDigits 10 d.leading.natAbs) 0 < exponentLimit := by
    rw [Nat.ofDigitChars_ten_toDigits]
    exact h.leading_lt
  generalize Nat.toDigits 10 d.digits = digits at hlayout hhead hlength hvalue hdigits ⊢
  rw [hlayout]
  cases digits with
  | nil => simp at hvalue; omega
  | cons c fraction =>
    rw [List.forall_mem_cons] at hdigits
    have hwhole : Whole [c] := ⟨by simpa using hdigits.1, by simp, .inr (by simpa using hhead)⟩
    cases fraction with
    | nil =>
      have hread := read_signed negative (d.leading < 0) hwhole (isDigit_toDigits d.leading.natAbs)
        Nat.toDigits_ne_nil hr (by rw [hvalue]; exact h.digits_lt) hexponent
      rw [hvalue, Nat.ofDigitChars_ten_toDigits] at hread
      simp only [List.take_succ_cons, List.take_zero, List.drop_succ_cons, List.drop_zero,
        List.isEmpty_nil, if_true, List.append_nil, List.append_assoc, List.cons_append]
      refine hread.trans ?_
      congr 1
      rw [List.length_singleton] at hlength
      simp only [decide_eq_true_eq]
      split <;> omega
    | cons e fraction =>
      have hjoined : Nat.ofDigitChars 10 ([c] ++ e :: fraction) 0 = d.digits := hvalue
      have hread := read_point_signed negative (d.leading < 0) hwhole hdigits.2 (by simp)
        (isDigit_toDigits d.leading.natAbs) Nat.toDigits_ne_nil hr
        (by rw [hjoined]; exact h.digits_lt) hexponent
      rw [hjoined, Nat.ofDigitChars_ten_toDigits] at hread
      simp only [List.take_succ_cons, List.take_zero, List.drop_succ_cons, List.drop_zero,
        List.isEmpty_cons, Bool.false_eq_true, if_false, List.append_assoc, List.cons_append]
      refine hread.trans ?_
      congr 1
      rw [List.length_cons] at hlength
      simp only [decide_eq_true_eq]
      split <;> omega

/-- What the text of a decimal number spells is what is read of it. -/
theorem read_layout (h : d.Readable) (hr : Ends rest) :
    read negative (layout (Nat.toDigits 10 d.digits) d.exponent ++ rest) =
      scaled negative d.spelled.digits d.spelled.exponent rest := by
  unfold Decimal.spelled
  by_cases hp : writesPoint d.leading
  · by_cases he : 0 ≤ d.exponent
    · rw [if_pos ⟨he, hp⟩]
      exact read_layout_zeros negative h he hp hr
    · rw [if_neg fun hboth => he hboth.1]
      by_cases hl : 0 ≤ d.leading
      · exact read_layout_among negative h (Int.not_le.mp he) hl hp hr
      · exact read_layout_before negative h (Int.not_le.mp hl) hp hr
  · rw [if_neg fun hboth => hp hboth.2]
    exact read_layout_signed negative h hp hr

end Numeral

end ContactForm
