import Mathlib.Tactic.Ring
import ContactForm.Proofs.Json.ShortestDigits

namespace ContactForm

namespace Binary64

/-- The greatest scale of a finite number. It is kept folded so that no power of it is computed with. -/
@[irreducible] def topScale : Nat := 2045

theorem topScale_eq : topScale = 2045 := by
  rw [topScale]

/-- Twice the number of smallest units from which on a magnitude is rounded beyond the greatest one. -/
def doubledLimit : Nat := (2 * leadingBit * 2 - 1) * 2 ^ topScale

theorem doubledLimit_add : doubledLimit + 2 ^ topScale = 2 * 2 ^ topScale * (2 * leadingBit) := by
  have hone : (2 * leadingBit * 2 - 1) + 1 = 2 * leadingBit * 2 := by decide
  calc doubledLimit + 2 ^ topScale
      = 2 ^ topScale * ((2 * leadingBit * 2 - 1) + 1) := by
        rw [doubledLimit]
        ring
    _ = 2 * 2 ^ topScale * (2 * leadingBit) := by
        rw [hone]
        ring

section Rounding

variable {numerator denominator : Nat}

theorem le_roundHalfEven (numerator denominator : Nat) :
    numerator / denominator ≤ roundHalfEven numerator denominator := by
  unfold roundHalfEven
  simp only
  split
  · exact Nat.le_refl _
  · split
    · exact Nat.le_succ _
    · exact Nat.le_add_right _ _

/-- Rounding goes up by a half at most. -/
theorem roundHalfEven_le (numerator denominator : Nat) :
    2 * denominator * roundHalfEven numerator denominator ≤ 2 * numerator + denominator := by
  have hsplit := Nat.div_add_mod numerator denominator
  have hparity := Nat.mod_lt (numerator / denominator) (show 0 < 2 by decide)
  have hfloor : 2 * denominator * (numerator / denominator) =
      2 * (denominator * (numerator / denominator)) := Nat.mul_assoc ..
  unfold roundHalfEven
  simp only
  split
  · omega
  · split
    · rw [Nat.mul_add]
      omega
    · have hup : 2 * denominator * (numerator / denominator % 2) ≤ 2 * denominator * 1 :=
        Nat.mul_le_mul_left _ (by omega)
      rw [Nat.mul_add]
      omega

/-- The scale that a ratio is rounded at. -/
def ratioScale (numerator denominator : Nat) : Nat :=
  (numerator * unitsPerOne / denominator).log2 - 52

/-- The significand of a ratio at its scale; rounding may reach twice the leading bit. -/
def ratioSignificand (numerator denominator : Nat) : Nat :=
  roundHalfEven (numerator * unitsPerOne) (denominator * 2 ^ ratioScale numerator denominator)

theorem ofRatio?_eq (numerator denominator : Nat) :
    ofRatio? numerator denominator =
      if h : ratioScale numerator denominator * leadingBit + ratioSignificand numerator denominator <
          0x7ff0000000000000 then some ⟨false, ⟨_, h⟩⟩ else none := by
  simp only [ofRatio?, ratioScale, ratioSignificand, Nat.shiftLeft_eq]
  rfl

theorem two_pow_log2_unitsPerOne : 2 ^ unitsPerOne.log2 = unitsPerOne := by
  decide +kernel

theorem leadingBit_le_unitsPerOne : leadingBit ≤ unitsPerOne := by
  decide +kernel

theorem unitsPerOne_pos : 0 < unitsPerOne :=
  Nat.lt_of_lt_of_le (by decide) leadingBit_le_unitsPerOne

theorem ratioSignificand_le (h : 0 < denominator) :
    ratioSignificand numerator denominator ≤ 2 * leadingBit := by
  have hround := roundHalfEven_le (numerator * unitsPerOne)
    (denominator * 2 ^ ratioScale numerator denominator)
  have hlog := Nat.lt_log2_self (n := numerator * unitsPerOne / denominator)
  have hpow : 2 ^ ((numerator * unitsPerOne / denominator).log2 + 1) ≤
      2 ^ ratioScale numerator denominator * (2 * leadingBit) := by
    rw [show 2 * leadingBit = 2 ^ 53 by decide, ← Nat.pow_add]
    exact Nat.pow_le_pow_right (by decide) (by rw [ratioScale]; omega)
  have hlt : numerator * unitsPerOne <
      denominator * 2 ^ ratioScale numerator denominator * (2 * leadingBit) := by
    rw [Nat.mul_assoc]
    exact (Nat.lt_mul_of_div_lt (Nat.lt_of_lt_of_le hlog hpow) h).trans_eq (Nat.mul_comm _ _)
  rw [← ratioSignificand] at hround
  generalize denominator * 2 ^ ratioScale numerator denominator = spacing at hround hlt
  by_contra hgt
  have hle : 2 * spacing * (2 * leadingBit + 1) ≤
      2 * spacing * ratioSignificand numerator denominator := Nat.mul_le_mul_left _ (by omega)
  rw [Nat.mul_add, Nat.mul_assoc] at hle
  omega

/-- A ratio that is not below the least normal magnitude has its leading bit at the scale. -/
theorem spacing_le (hle : leadingBit * denominator ≤ numerator * unitsPerOne) (h : 0 < denominator) :
    denominator * 2 ^ ratioScale numerator denominator * leadingBit ≤ numerator * unitsPerOne := by
  have hquotient : leadingBit ≤ numerator * unitsPerOne / denominator :=
    (Nat.le_div_iff_mul_le h).mpr hle
  have hne : numerator * unitsPerOne / denominator ≠ 0 := by
    rw [leadingBit] at hquotient
    omega
  have hbit : 52 ≤ (numerator * unitsPerOne / denominator).log2 :=
    (Nat.le_log2 hne).mpr (hquotient.trans' (by decide))
  have hpow : 2 ^ ratioScale numerator denominator * leadingBit ≤
      numerator * unitsPerOne / denominator := by
    rw [show leadingBit = 2 ^ 52 by decide, ← Nat.pow_add, ratioScale, Nat.sub_add_cancel hbit]
    exact Nat.log2_self_le hne
  rw [Nat.mul_assoc, Nat.mul_comm denominator]
  exact (Nat.le_div_iff_mul_le h).mp hpow

theorem le_ratioSignificand (hle : leadingBit * denominator ≤ numerator * unitsPerOne)
    (h : 0 < denominator) : leadingBit ≤ ratioSignificand numerator denominator := by
  have hspacing : 0 < denominator * 2 ^ ratioScale numerator denominator :=
    Nat.mul_pos h (Nat.pow_pos (by decide))
  refine Nat.le_trans ?_ (le_roundHalfEven _ _)
  rw [Nat.le_div_iff_mul_le hspacing, Nat.mul_comm]
  exact spacing_le hle h

/-- The limit is half a step above the greatest magnitude, so it is that much below a magnitude beyond it. -/
theorem denominator_mul_doubledLimit (denominator : Nat) :
    denominator * doubledLimit + denominator * 2 ^ topScale =
      2 * (denominator * 2 ^ topScale) * (2 * leadingBit) := by
  rw [← Nat.mul_add, doubledLimit_add]
  ring

theorem ratioScale_le (h : 0 < denominator)
    (hlt : 2 * (numerator * unitsPerOne) < denominator * doubledLimit) :
    ratioScale numerator denominator ≤ topScale := by
  have hadd := denominator_mul_doubledLimit denominator
  have hquotient : numerator * unitsPerOne / denominator < 2 ^ (topScale + 53) := by
    have hpow : 2 ^ (topScale + 53) * denominator = denominator * 2 ^ topScale * (2 * leadingBit) := by
      rw [Nat.pow_add, show 2 ^ 53 = 2 * leadingBit by decide]
      ring
    rw [Nat.div_lt_iff_lt_mul h, hpow]
    rw [Nat.mul_assoc 2] at hadd
    omega
  have hlog : (numerator * unitsPerOne / denominator).log2 < topScale + 53 := by
    obtain hzero | hpos := Nat.eq_zero_or_pos (numerator * unitsPerOne / denominator)
    · rw [hzero, topScale_eq]
      decide
    · exact (Nat.log2_lt (Nat.pos_iff_ne_zero.mp hpos)).mpr hquotient
  rw [ratioScale]
  omega

/-- At the greatest scale the significand does not reach twice the leading bit. -/
theorem ratioSignificand_lt_of_topScale
    (hlt : 2 * (numerator * unitsPerOne) < denominator * doubledLimit)
    (hscale : ratioScale numerator denominator = topScale) :
    ratioSignificand numerator denominator < 2 * leadingBit := by
  have hadd := denominator_mul_doubledLimit denominator
  have hround := roundHalfEven_le (numerator * unitsPerOne)
    (denominator * 2 ^ ratioScale numerator denominator)
  rw [← ratioSignificand, hscale] at hround
  by_contra hge
  have hle : 2 * (denominator * 2 ^ topScale) * (2 * leadingBit) ≤
      2 * (denominator * 2 ^ topScale) * ratioSignificand numerator denominator :=
    Nat.mul_le_mul_left _ (Nat.le_of_not_lt hge)
  omega

/-- A ratio below the limit is rounded to a finite number. -/
theorem ofRatio?_isSome (h : 0 < denominator)
    (hlt : 2 * (numerator * unitsPerOne) < denominator * doubledLimit) :
    (ofRatio? numerator denominator).isSome := by
  have hsignificand : ratioSignificand numerator denominator ≤ 2 * leadingBit := ratioSignificand_le h
  have hrank : ratioScale numerator denominator * leadingBit + ratioSignificand numerator denominator <
      0x7ff0000000000000 := by
    obtain hsmall | htop := Nat.lt_or_eq_of_le (ratioScale_le h hlt)
    · rw [topScale_eq] at hsmall
      have hmul : ratioScale numerator denominator * leadingBit ≤ 2044 * leadingBit :=
        Nat.mul_le_mul_right _ (Nat.le_of_lt_succ hsmall)
      rw [leadingBit] at hmul hsignificand ⊢
      omega
    · have hbelow := ratioSignificand_lt_of_topScale hlt htop
      rw [htop, topScale_eq]
      rw [leadingBit] at hbelow ⊢
      omega
  rw [ofRatio?_eq, dif_pos hrank]
  rfl

end Rounding

/-- Units of a number from its place in a run of ranks, the end of the run included. -/
theorem units_of_rank {x : Binary64} {scale significand : Nat}
    (hrank : x.rank.val = scale * leadingBit + significand) (hle : leadingBit ≤ significand)
    (hge : significand ≤ 2 * leadingBit) : x.units = significand * 2 ^ scale := by
  rw [units_eq, Binary64.significand, Binary64.scale, hrank, if_neg (by omega)]
  obtain hlt | rfl := Nat.lt_or_eq_of_le hge
  · have hdiv : (scale * leadingBit + significand) / leadingBit = scale + 1 := by
      rw [leadingBit] at hle hlt ⊢
      omega
    have hmod : leadingBit + (scale * leadingBit + significand) % leadingBit = significand := by
      rw [leadingBit] at hle hlt ⊢
      omega
    rw [hdiv, hmod, Nat.add_sub_cancel]
  · have hdiv : (scale * leadingBit + 2 * leadingBit) / leadingBit = scale + 2 := by
      rw [leadingBit]
      omega
    have hmod : (scale * leadingBit + 2 * leadingBit) % leadingBit = 0 := by
      rw [leadingBit]
      omega
    rw [hdiv, hmod, Nat.add_zero, show scale + 2 - 1 = scale + 1 from rfl, Nat.pow_succ]
    ring

section Natural

variable {n : Nat} (hn : 0 < n)

include hn

theorem leadingBit_le_mul_unitsPerOne : leadingBit * 1 ≤ n * unitsPerOne :=
  Nat.le_trans leadingBit_le_unitsPerOne (Nat.le_mul_of_pos_left unitsPerOne hn)

theorem units_of_ofNat? {x : Binary64} (hx : ofNat? n = some x) :
    x.units = ratioSignificand n 1 * 2 ^ ratioScale n 1 := by
  have hlow := le_ratioSignificand (leadingBit_le_mul_unitsPerOne hn) Nat.one_pos
  rw [ofNat?, ofRatio?_eq] at hx
  split at hx
  · obtain rfl := Option.some.inj hx
    exact units_of_rank rfl hlow (ratioSignificand_le Nat.one_pos)
  · cases hx

/-- A rounded natural number is not below one. -/
theorem unitsPerOne_le_of_ofNat? {x : Binary64} (hx : ofNat? n = some x) : unitsPerOne ≤ x.units := by
  have hle := leadingBit_le_mul_unitsPerOne hn
  have hne : n * unitsPerOne ≠ 0 := Nat.pos_iff_ne_zero.mp (Nat.mul_pos hn unitsPerOne_pos)
  have hbit : 52 ≤ (n * unitsPerOne).log2 := (Nat.le_log2 hne).mpr (hle.trans' (by decide))
  have hlog : unitsPerOne.log2 ≤ (n * unitsPerOne).log2 := by
    rw [Nat.le_log2 hne, two_pow_log2_unitsPerOne]
    exact Nat.le_mul_of_pos_left unitsPerOne hn
  calc unitsPerOne = 2 ^ unitsPerOne.log2 := two_pow_log2_unitsPerOne.symm
    _ ≤ 2 ^ (n * unitsPerOne).log2 := Nat.pow_le_pow_right (by decide) hlog
    _ = leadingBit * 2 ^ ratioScale n 1 := by
      rw [show leadingBit = 2 ^ 52 by decide, ← Nat.pow_add, ratioScale, Nat.div_one,
        Nat.add_sub_cancel' hbit]
    _ ≤ ratioSignificand n 1 * 2 ^ ratioScale n 1 :=
      Nat.mul_le_mul_right _ (le_ratioSignificand hle Nat.one_pos)
    _ = x.units := (units_of_ofNat? hn hx).symm

/-- A rounded natural number is above the number by one part in `2 ^ 53` at most. -/
theorem units_of_ofNat?_le {x : Binary64} (hx : ofNat? n = some x) :
    x.units * (2 * leadingBit) ≤ n * unitsPerOne * (2 * leadingBit + 1) := by
  have hspacing := spacing_le (leadingBit_le_mul_unitsPerOne hn) Nat.one_pos
  have hround := roundHalfEven_le (n * unitsPerOne) (1 * 2 ^ ratioScale n 1)
  rw [← ratioSignificand, Nat.one_mul] at hround
  rw [Nat.one_mul] at hspacing
  rw [units_of_ofNat? hn hx]
  generalize 2 ^ ratioScale n 1 = spacing at hround hspacing
  calc ratioSignificand n 1 * spacing * (2 * leadingBit)
      = 2 * spacing * ratioSignificand n 1 * leadingBit := by ring
    _ ≤ (2 * (n * unitsPerOne) + spacing) * leadingBit := Nat.mul_le_mul_right _ hround
    _ = n * unitsPerOne * (2 * leadingBit) + spacing * leadingBit := by ring
    _ ≤ n * unitsPerOne * (2 * leadingBit) + n * unitsPerOne := Nat.add_le_add_left hspacing _
    _ = n * unitsPerOne * (2 * leadingBit + 1) := by ring

end Natural

theorem tenTo_lt : ∀ n < 309, 2 * (tenTo n * unitsPerOne) < 1 * doubledLimit := by
  decide +kernel

theorem ofNat?_isSome {n k : Nat} (h : n ≤ tenTo k) (hk : k < 309) : (ofNat? n).isSome := by
  have hle : 2 * (n * unitsPerOne) ≤ 2 * (tenTo k * unitsPerOne) :=
    Nat.mul_le_mul_left _ (Nat.mul_le_mul_right _ h)
  exact ofRatio?_isSome Nat.one_pos (Nat.lt_of_le_of_lt hle (tenTo_lt k hk))

/-- Twice a finite magnitude is below the limit. -/
theorem doubled_units_lt (x : Binary64) : 2 * x.units < doubledLimit := by
  have hsignificand := x.significand_lt
  have hscale : 2 ^ x.scale ≤ 2 ^ topScale :=
    Nat.pow_le_pow_right (by decide) (topScale_eq ▸ x.scale_le)
  calc 2 * x.units = 2 * x.significand * 2 ^ x.scale := by rw [units_eq, Nat.mul_assoc]
    _ ≤ 2 * x.significand * 2 ^ topScale := Nat.mul_le_mul_left _ hscale
    _ < (2 * leadingBit * 2 - 1) * 2 ^ topScale := by
      refine Nat.mul_lt_mul_of_pos_right ?_ (Nat.pow_pos (by decide))
      rw [leadingBit]
      omega

/-- A number that is divided by one of at least one stays finite. -/
theorem div?_isSome (x : Binary64) {y : Binary64} (h : unitsPerOne ≤ y.units) : (x.div? y).isSome := by
  have hunits := unitsPerOne_pos
  refine ofRatio?_isSome (Nat.lt_of_lt_of_le hunits h) ?_
  calc 2 * (x.units * unitsPerOne) = unitsPerOne * (2 * x.units) := by ring
    _ < unitsPerOne * doubledLimit := Nat.mul_lt_mul_of_pos_left x.doubled_units_lt hunits
    _ ≤ y.units * doubledLimit := Nat.mul_le_mul_right _ h

theorem shrink?_isSome (steps : Nat) (x : Binary64) : (shrink? steps x).isSome := by
  induction steps generalizing x with
  | zero => rfl
  | succ steps ih =>
    rw [shrink?]
    split
    · rfl
    · obtain ⟨largest, hlargest⟩ := Option.isSome_iff_exists.mp
        (ofNat?_isSome (Nat.le_refl _) (show 308 < 309 by decide))
      have hone := unitsPerOne_le_of_ofNat? (tenTo_pos 308) hlargest
      obtain ⟨y, hy⟩ := Option.isSome_iff_exists.mp (x.div?_isSome hone)
      rw [hlargest, Option.bind_eq_bind, Option.bind_some, hy, Option.bind_some]
      exact ih y

/-- What stays below the limit by the two roundings of a product is read as a finite number. -/
theorem mul?_isSome {m n : Nat} (hm : 0 < m) (hn : 0 < n) {x y : Binary64} (hx : ofNat? m = some x)
    (hy : ofNat? n = some y)
    (h : 2 * (m * n * unitsPerOne) * (2 * leadingBit + 1) ^ 2 < doubledLimit * (2 * leadingBit) ^ 2) :
    (x.mul? y).isSome := by
  have hunits := unitsPerOne_pos
  have hproduct : x.units * y.units * (2 * leadingBit) ^ 2 ≤
      m * n * unitsPerOne * unitsPerOne * (2 * leadingBit + 1) ^ 2 := by
    calc x.units * y.units * (2 * leadingBit) ^ 2
        = x.units * (2 * leadingBit) * (y.units * (2 * leadingBit)) := by ring
      _ ≤ m * unitsPerOne * (2 * leadingBit + 1) * (n * unitsPerOne * (2 * leadingBit + 1)) :=
        Nat.mul_le_mul (units_of_ofNat?_le hm hx) (units_of_ofNat?_le hn hy)
      _ = _ := by ring
  refine ofRatio?_isSome (Nat.mul_pos hunits hunits) ?_
  have hscale : 0 < (2 * leadingBit) ^ 2 := by decide
  refine Nat.lt_of_mul_lt_mul_right (a := (2 * leadingBit) ^ 2) ?_
  calc 2 * (x.units * y.units * unitsPerOne) * (2 * leadingBit) ^ 2
      = 2 * unitsPerOne * (x.units * y.units * (2 * leadingBit) ^ 2) := by ring
    _ ≤ 2 * unitsPerOne * (m * n * unitsPerOne * unitsPerOne * (2 * leadingBit + 1) ^ 2) :=
      Nat.mul_le_mul_left _ hproduct
    _ = unitsPerOne * unitsPerOne * (2 * (m * n * unitsPerOne) * (2 * leadingBit + 1) ^ 2) := by ring
    _ < unitsPerOne * unitsPerOne * (doubledLimit * (2 * leadingBit) ^ 2) :=
      Nat.mul_lt_mul_of_pos_left h (Nat.mul_pos hunits hunits)
    _ = unitsPerOne * unitsPerOne * doubledLimit * (2 * leadingBit) ^ 2 := by ring

end Binary64

end ContactForm
