import Mathlib.Tactic.Ring
import ContactForm.Proofs.Json.Decimals

namespace ContactForm.Binary64

/-- The exponent of the finest grid that is looked at for a number with its leading bit at the given place. -/
def gridExponent (bit : Nat) : Int :=
  ((bit : Int) - 1074) * 30103 / 100000 + 1 - 17

/-- On that grid points are closer than the half steps of binary64 numbers, and still have fewer than 64 bits. -/
def isFineGrid (bit : Nat) : Bool :=
  let raise := tenTo (gridExponent bit).toNat * Span.denominator
  let lower := tenTo (-gridExponent bit).toNat
  decide (raise < 2 * 2 ^ (bit - 52) * lower) &&
    decide (4 * 2 ^ (bit + 1) * lower ≤ (wordLimit - 2) * raise)

theorem isFineGrid_of_lt : ∀ bit < 2098, isFineGrid bit = true := by
  decide +kernel

variable (x : Binary64)

theorem denominator_pos : 0 < Span.denominator := by
  decide +kernel

theorem tenTo_pos (exponent : Nat) : 0 < tenTo exponent := Nat.pow_pos (by decide)

theorem units_eq : x.units = x.significand * 2 ^ x.scale := Nat.shiftLeft_eq ..

theorem significand_lt : x.significand < 2 ^ 53 := by
  unfold significand
  have hmod := Nat.mod_lt x.rank.val (show 0 < leadingBit by decide)
  rw [show (2 : Nat) ^ 53 = leadingBit + leadingBit by decide]
  split <;> omega

theorem scale_le : x.scale ≤ 2045 := by
  have hrank := x.rank.isLt
  have hdiv : x.rank.val / leadingBit ≤ 2046 := by
    rw [leadingBit]
    omega
  rw [scale]
  omega

theorem significand_pos (h : x.isZero = false) : 0 < x.significand := by
  have hne : x.rank.val ≠ 0 := by
    intro hzero
    have hrank : x.rank = 0 := Fin.ext hzero
    rw [isZero, hrank] at h
    cases h
  unfold significand
  split
  · omega
  · exact Nat.add_pos_left (by decide) _

theorem units_lt : x.units < 2 ^ (53 + x.scale) := by
  rw [units_eq, Nat.pow_add]
  exact Nat.mul_lt_mul_of_pos_right x.significand_lt (Nat.pow_pos (by decide))

theorem units_pos (h : x.isZero = false) : 0 < x.units := by
  rw [units_eq]
  exact Nat.mul_pos (x.significand_pos h) (Nat.pow_pos (by decide))

theorem log2_units_le (h : x.isZero = false) : x.units.log2 ≤ 52 + x.scale := by
  have hlt := (Nat.log2_lt (Nat.pos_iff_ne_zero.mp (x.units_pos h))).mpr x.units_lt
  omega

theorem log2_units_lt (h : x.isZero = false) : x.units.log2 < 2098 := by
  have hlog := x.log2_units_le h
  have hscale := x.scale_le
  omega

theorem topExponent_eq : x.topExponent - (17 : Nat) = gridExponent x.units.log2 := rfl

section Grid

variable {x}

theorem raise_pos (exponent : Int) : 0 < tenTo exponent.toNat * Span.denominator :=
  Nat.mul_pos (tenTo_pos _) denominator_pos

theorem span_low_pos (h : x.isZero = false) : 0 < x.span.low := by
  have hunits := x.units_eq
  have hpos := x.significand_pos h
  have hstep : 1 <<< x.scale = 2 ^ x.scale := Nat.one_shiftLeft _
  have hle : 2 ^ x.scale ≤ x.significand * 2 ^ x.scale := Nat.le_mul_of_pos_left _ hpos
  have hpow : 0 < 2 ^ x.scale := Nat.pow_pos (by decide)
  simp only [span, hstep, hunits]
  split <;> omega

/-- A point of a grid that is fine enough is met by the span. -/
theorem onGrid?_isSome {exponent : Int}
    (h : tenTo exponent.toNat * Span.denominator < 2 * 2 ^ x.scale * tenTo (-exponent).toNat) :
    (x.span.onGrid? exponent).isSome := by
  have hhigh : x.span.high = x.span.middle + 2 * 2 ^ x.scale := by
    simp only [span, Nat.one_shiftLeft]
  have hlow : x.span.low ≤ x.span.middle := by
    simp only [span]
    omega
  have hraise := raise_pos exponent
  unfold Span.onGrid?
  generalize tenTo exponent.toNat * Span.denominator = raise at h hraise ⊢
  generalize tenTo (-exponent).toNat = lower at h ⊢
  have habove : x.span.middle * lower < (x.span.middle * lower / raise + 1) * raise := by
    rw [Nat.add_mul, Nat.one_mul]
    exact Nat.lt_div_mul_add hraise
  have hbelow : (x.span.middle * lower / raise + 1) * raise < x.span.high * lower := by
    rw [hhigh, Nat.add_mul, Nat.one_mul, Nat.add_mul]
    exact Nat.add_lt_add_of_le_of_lt (Nat.div_mul_le_self _ _) h
  have hleft : x.span.low * lower ≤ x.span.middle * lower := Nat.mul_le_mul_right _ hlow
  have hupward : x.span.contains ((x.span.middle * lower / raise + 1) * raise) lower = true := by
    unfold Span.contains
    split <;> simp <;> omega
  simp only [hupward]
  split <;> simp

/-- A point that is found is not zero and next to the middle of the span. -/
theorem digits_of_onGrid? (hzero : x.isZero = false) {exponent : Int} {d : Decimal}
    (h : x.span.onGrid? exponent = some d) :
    d.exponent = exponent ∧ 0 < d.digits ∧
      d.digits ≤ x.span.middle * tenTo (-exponent).toNat /
        (tenTo exponent.toNat * Span.denominator) + 1 := by
  have hlow : 0 < x.span.low * tenTo (-exponent).toNat :=
    Nat.mul_pos (span_low_pos hzero) (tenTo_pos _)
  unfold Span.onGrid? at h
  simp only at h
  split at h
  · next hdownward =>
    obtain rfl := Option.some.inj h
    refine ⟨rfl, Nat.pos_iff_ne_zero.mpr fun hfloor => ?_, Nat.le_succ _⟩
    -- zero is below the span
    simp only at hfloor
    rw [hfloor, Nat.zero_mul, Bool.and_eq_true] at hdownward
    have hcontains := hdownward.1
    unfold Span.contains at hcontains
    split at hcontains <;> simp only [Bool.and_eq_true, decide_eq_true_eq] at hcontains <;> omega
  · split at h
    · obtain rfl := Option.some.inj h
      exact ⟨rfl, Nat.succ_pos _, Nat.le_refl _⟩
    · cases h

/-- Coarser grids give fewer digits. -/
theorem raise_mul_lower_le {e f : Int} (h : e ≤ f) :
    tenTo (-f).toNat * (tenTo e.toNat * Span.denominator) ≤
      tenTo (-e).toNat * (tenTo f.toNat * Span.denominator) := by
  have hexponents : (-f).toNat + e.toNat ≤ (-e).toNat + f.toNat := by omega
  have hpow : tenTo (-f).toNat * tenTo e.toNat ≤ tenTo (-e).toNat * tenTo f.toNat := by
    change 10 ^ _ * 10 ^ _ ≤ 10 ^ _ * 10 ^ _
    rw [← Nat.pow_add, ← Nat.pow_add]
    exact Nat.pow_le_pow_right (by decide) hexponents
  rw [← Nat.mul_assoc, ← Nat.mul_assoc]
  exact Nat.mul_le_mul_right _ hpow

/-- A grid down to the finest one that is looked at gives fewer digits than 64 bits hold. -/
theorem digits_lt_of_onGrid? (hzero : x.isZero = false) {exponent : Int} {d : Decimal}
    (h : x.span.onGrid? exponent = some d) (he : gridExponent x.units.log2 ≤ exponent) :
    d.digits < wordLimit := by
  obtain ⟨-, -, hdigits⟩ := digits_of_onGrid? hzero h
  have hfine := isFineGrid_of_lt x.units.log2 (x.log2_units_lt hzero)
  simp only [isFineGrid, Bool.and_eq_true, decide_eq_true_eq] at hfine
  have hbound := hfine.2
  have hcoarse := raise_mul_lower_le he
  have hunits : x.span.middle ≤ 4 * 2 ^ (x.units.log2 + 1) := by
    have hlt := Nat.lt_log2_self (n := x.units)
    change 4 * x.units ≤ _
    omega
  have hpos := raise_pos (gridExponent x.units.log2)
  have hraise := raise_pos exponent
  generalize tenTo (gridExponent x.units.log2).toNat * Span.denominator = fine at hbound hcoarse hpos
  generalize tenTo (-gridExponent x.units.log2).toNat = fineLower at hbound hcoarse
  generalize tenTo exponent.toNat * Span.denominator = raise at hdigits hcoarse hraise
  generalize tenTo (-exponent).toNat = lower at hdigits hcoarse
  have hscaled : x.span.middle * lower * fine ≤ (wordLimit - 2) * raise * fine := by
    calc x.span.middle * lower * fine
        = x.span.middle * (lower * fine) := by ring
      _ ≤ x.span.middle * (fineLower * raise) := Nat.mul_le_mul_left _ hcoarse
      _ ≤ 4 * 2 ^ (x.units.log2 + 1) * (fineLower * raise) := Nat.mul_le_mul_right _ hunits
      _ = 4 * 2 ^ (x.units.log2 + 1) * fineLower * raise := by ring
      _ ≤ (wordLimit - 2) * fine * raise := Nat.mul_le_mul_right _ hbound
      _ = (wordLimit - 2) * raise * fine := by ring
  have hle : x.span.middle * lower ≤ (wordLimit - 2) * raise := Nat.le_of_mul_le_mul_right hscaled hpos
  have hfloor : x.span.middle * lower / raise ≤ wordLimit - 2 :=
    Nat.div_le_of_le_mul (hle.trans_eq (Nat.mul_comm _ _))
  have hlimit : 2 ≤ wordLimit := by decide
  omega

end Grid

/-- The finest grid that is looked at has a point. -/
theorem onGrid?_finest (h : x.isZero = false) :
    (x.span.onGrid? (gridExponent x.units.log2)).isSome := by
  refine onGrid?_isSome ?_
  have hfine := isFineGrid_of_lt x.units.log2 (x.log2_units_lt h)
  simp only [isFineGrid, Bool.and_eq_true, decide_eq_true_eq] at hfine
  have hstep : 2 ^ (x.units.log2 - 52) ≤ 2 ^ x.scale := by
    have hlog := x.log2_units_le h
    exact Nat.pow_le_pow_right (by decide) (by omega)
  exact Nat.lt_of_lt_of_le hfine.1
    (Nat.mul_le_mul_right _ (Nat.mul_le_mul_left _ hstep))

/-- The shortest decimal number of a magnitude is on the first grid that has a point. -/
theorem shortest_onGrid? (h : x.isZero = false) :
    ∃ below ≤ 17, x.span.onGrid? (x.topExponent - (below : Nat)) = some x.shortest := by
  have hfinest : (x.span.onGrid? (x.topExponent - (17 : Nat))).isSome := x.onGrid?_finest h
  cases hfound : (List.range 20).findSome? fun below : Nat => x.span.onGrid? (x.topExponent - below) with
  | none =>
    rw [List.findSome?_eq_none_iff] at hfound
    rw [hfound 17 (by decide)] at hfinest
    cases hfinest
  | some d =>
    have hshortest : x.shortest = d := by rw [shortest, hfound]; rfl
    obtain ⟨before, below, after, hsplit, hd, hnone⟩ := List.findSome?_eq_some_iff.mp hfound
    refine ⟨below, ?_, hshortest ▸ hd⟩
    have hordered : (before ++ below :: after).Pairwise (· < ·) := hsplit ▸ List.pairwise_lt_range
    have hmem : 17 ∈ before ++ below :: after := hsplit ▸ (by decide)
    rw [List.pairwise_append, List.pairwise_cons] at hordered
    obtain hmem | hmem := List.mem_append.mp hmem
    · rw [hnone 17 hmem] at hfinest
      cases hfinest
    · obtain rfl | hmem := List.mem_cons.mp hmem
      · exact Nat.le_refl _
      · exact Nat.le_of_lt (hordered.2.1.1 17 hmem)

theorem shortest_digits_pos (h : x.isZero = false) : 0 < x.shortest.digits := by
  obtain ⟨below, -, hd⟩ := x.shortest_onGrid? h
  exact (digits_of_onGrid? h hd).2.1

theorem shortest_digits_lt (h : x.isZero = false) : x.shortest.digits < wordLimit := by
  obtain ⟨below, hle, hd⟩ := x.shortest_onGrid? h
  refine digits_lt_of_onGrid? h hd ?_
  rw [← topExponent_eq]
  omega

theorem shortest_readable (h : x.isZero = false) : x.shortest.Readable where
  digits_lt := x.shortest_digits_lt h
  zero hzero := absurd hzero (Nat.pos_iff_ne_zero.mp (x.shortest_digits_pos h))
  leading_lt := by
    obtain ⟨below, hle, hd⟩ := x.shortest_onGrid? h
    have hexponent := (digits_of_onGrid? h hd).1
    have hlog := x.log2_units_lt h
    have hlength : (Nat.toDigits 10 x.shortest.digits).length ≤ 20 :=
      (Nat.length_toDigits_le_iff (by decide) (by decide)).mpr
        (Nat.lt_trans (x.shortest_digits_lt h) (by decide))
    rw [Decimal.leading, hexponent, topExponent, Numeral.exponentLimit]
    omega

end ContactForm.Binary64
