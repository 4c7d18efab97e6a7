import ContactForm.Proofs.Json.Rereading
import ContactForm.Proofs.Json.Rounding

namespace ContactForm

namespace Binary64

theorem wordLimit_le : wordLimit ≤ tenTo 20 := by
  decide +kernel

theorem doubledLimit_le_least : ∀ n < 310, 308 < n → doubledLimit ≤ tenTo n * unitsPerOne := by
  decide +kernel

/-- The powers of ten above the largest one are beyond the limit. -/
theorem doubledLimit_le {n : Nat} (h : 308 < n) : doubledLimit ≤ tenTo n * unitsPerOne := by
  have hstep (k : Nat) (hk : k < 310) (hlarge : 308 < k) (hle : k ≤ n) :
      doubledLimit ≤ tenTo n * unitsPerOne :=
    Nat.le_trans (doubledLimit_le_least k hk hlarge)
      (Nat.mul_le_mul_right _ (Nat.pow_le_pow_right (by decide) hle))
  exact hstep 309 (by decide) (by decide) h

end Binary64

open Binary64

/-- A decimal number with digits of 64 bits that is read as a finite number, also where the roundings of its digits,
    of its power of ten and of their product all go up. -/
structure Decimal.Bounded (d : Decimal) : Prop where
  digits_lt : d.digits < wordLimit
  digits_pos : 0 ≤ d.exponent → 0 < d.digits
  below : 0 ≤ d.exponent → 2 * (d.digits * tenTo d.exponent.toNat * unitsPerOne) * (2 * leadingBit + 1) ^ 2 <
    doubledLimit * (2 * leadingBit) ^ 2

theorem Decimal.Bounded.exponent_le {d : Decimal} (h : d.Bounded) : d.exponent ≤ 308 := by
  by_contra hgt
  have hnonneg : 0 ≤ d.exponent := by omega
  have hvalue : tenTo d.exponent.toNat ≤ d.digits * tenTo d.exponent.toNat :=
    Nat.le_mul_of_pos_left _ (h.digits_pos hnonneg)
  have hlimit : doubledLimit ≤ d.digits * tenTo d.exponent.toNat * unitsPerOne :=
    Nat.le_trans (doubledLimit_le (by omega)) (Nat.mul_le_mul_right _ hvalue)
  refine Nat.lt_irrefl _ (Nat.lt_of_lt_of_le (h.below hnonneg) ?_)
  refine Nat.mul_le_mul ?_ (by decide)
  omega

namespace Binary64

theorem ofDecimal?_raise (digits raise : Nat) :
    ofDecimal? digits (.ofNat raise) = (ofNat? digits).bind fun x =>
      if raise ≤ 308 then (ofNat? (tenTo raise)).bind x.mul? else if x.isZero then some x else none := rfl

theorem ofDecimal?_lower (digits lower : Nat) :
    ofDecimal? digits (.negSucc lower) = (ofNat? digits).bind fun x =>
      (shrink? (lower / 308) x).bind fun x =>
        (ofNat? (tenTo (lower + 1 - 308 * (lower / 308)))).bind x.div? := rfl

theorem ofDecimal?_isSome {d : Decimal} (h : d.Bounded) : (ofDecimal? d.digits d.exponent).isSome := by
  obtain ⟨digits, exponent⟩ := d
  obtain ⟨x, hx⟩ := Option.isSome_iff_exists.mp
    (ofNat?_isSome (Nat.le_trans (Nat.le_of_lt h.digits_lt) wordLimit_le) (show 20 < 309 by decide))
  cases exponent with
  | ofNat raise =>
    have hnonneg : 0 ≤ Int.ofNat raise := Int.natCast_nonneg raise
    have hraise : raise ≤ 308 := Int.ofNat_le.mp h.exponent_le
    obtain ⟨y, hy⟩ := Option.isSome_iff_exists.mp
      (ofNat?_isSome (Nat.le_refl (tenTo raise)) (Nat.lt_succ_of_le hraise))
    rw [ofDecimal?_raise, hx, Option.bind_some, if_pos hraise, hy, Option.bind_some]
    exact mul?_isSome (h.digits_pos hnonneg) (tenTo_pos raise) hx hy (h.below hnonneg)
  | negSucc lower =>
    obtain ⟨z, hz⟩ := Option.isSome_iff_exists.mp (shrink?_isSome (lower / 308) x)
    obtain ⟨y, hy⟩ := Option.isSome_iff_exists.mp
      (ofNat?_isSome (Nat.le_refl (tenTo (lower + 1 - 308 * (lower / 308)))) (by omega))
    rw [ofDecimal?_lower, hx, Option.bind_some, hz, Option.bind_some, hy, Option.bind_some]
    exact z.div?_isSome (unitsPerOne_le_of_ofNat? (tenTo_pos _) hy)

theorem contains_of_onGrid? {s : Span} {exponent : Int} {d : Decimal} (h : s.onGrid? exponent = some d) :
    d.exponent = exponent ∧
      s.contains (d.digits * (tenTo exponent.toNat * Span.denominator)) (tenTo (-exponent).toNat) = true := by
  unfold Span.onGrid? at h
  simp only at h
  split at h
  · next hdownward =>
    obtain rfl := Option.some.inj h
    rw [Bool.and_eq_true] at hdownward
    exact ⟨rfl, hdownward.1⟩
  · split at h
    · next hupward =>
      obtain rfl := Option.some.inj h
      exact ⟨rfl, hupward⟩
    · cases h

/-- A shortest decimal number without a fraction is at most half a step above its magnitude. -/
theorem shortest_le {x : Binary64} (h : x.isZero = false) (he : 0 ≤ x.shortest.exponent) :
    2 * (x.shortest.digits * tenTo x.shortest.exponent.toNat * unitsPerOne) ≤
      (2 * x.significand + 1) * 2 ^ x.scale := by
  obtain ⟨below, -, hgrid⟩ := x.shortest_onGrid? h
  obtain ⟨hexponent, hcontains⟩ := contains_of_onGrid? hgrid
  rw [← hexponent, show (-x.shortest.exponent).toNat = 0 by omega] at hcontains
  have hhigh : x.shortest.digits * (tenTo x.shortest.exponent.toNat * Span.denominator) ≤ x.span.high * 1 := by
    unfold Span.contains at hcontains
    split at hcontains <;> simp only [Bool.and_eq_true, decide_eq_true_eq] at hcontains
    · exact hcontains.2
    · exact Nat.le_of_lt hcontains.2
  have hspan : x.span.high = 2 * ((2 * x.significand + 1) * 2 ^ x.scale) := by
    simp only [span, Nat.one_shiftLeft, units_eq]
    ring
  have hdigits : x.shortest.digits * (tenTo x.shortest.exponent.toNat * Span.denominator) =
      2 * (2 * (x.shortest.digits * tenTo x.shortest.exponent.toNat * unitsPerOne)) := by
    rw [Span.denominator]
    ring
  omega

/-- The two greatest magnitudes are read as finite numbers. -/
theorem reread?_greatest : ∀ negative : Bool, (reread? ⟨negative, 0x7feffffffffffffe⟩).isSome = true ∧
    (reread? ⟨negative, 0x7fefffffffffffff⟩).isSome = true := by
  decide +kernel

/-- Below the two greatest magnitudes there is room for three roundings. -/
theorem room_of_rank {x : Binary64} (h : x.rank.val < 0x7feffffffffffffe) :
    (2 * x.significand + 1) * 2 ^ x.scale * (2 * leadingBit + 1) ^ 2 < doubledLimit * (2 * leadingBit) ^ 2 := by
  have hsignificand := x.significand_lt
  obtain hlt | heq := Nat.lt_or_eq_of_le x.scale_le
  · have hdouble : 2 * 2 ^ x.scale ≤ 2 ^ topScale := by
      rw [← Nat.pow_succ']
      exact Nat.pow_le_pow_right (by decide) (topScale_eq ▸ hlt)
    have hodd : 2 * x.significand + 1 ≤ 2 * leadingBit * 2 - 1 := by
      rw [leadingBit]
      omega
    have hpos : 0 < doubledLimit := Nat.mul_pos (by decide) (Nat.pow_pos (by decide))
    refine Nat.lt_of_mul_lt_mul_left (a := 2) ?_
    calc 2 * ((2 * x.significand + 1) * 2 ^ x.scale * (2 * leadingBit + 1) ^ 2)
        = (2 * x.significand + 1) * (2 * 2 ^ x.scale) * (2 * leadingBit + 1) ^ 2 := by ring
      _ ≤ (2 * leadingBit * 2 - 1) * 2 ^ topScale * (2 * leadingBit + 1) ^ 2 :=
        Nat.mul_le_mul_right _ (Nat.mul_le_mul hodd hdouble)
      _ < doubledLimit * (2 * (2 * leadingBit) ^ 2) := Nat.mul_lt_mul_of_pos_left (by decide) hpos
      _ = 2 * (doubledLimit * (2 * leadingBit) ^ 2) := by ring
  · have hrank : 2 * x.significand + 1 ≤ 2 * leadingBit * 2 - 5 := by
      rw [scale, leadingBit] at heq
      rw [significand, leadingBit]
      split <;> omega
    have hpow : x.scale = topScale := heq.trans topScale_eq.symm
    rw [hpow]
    calc (2 * x.significand + 1) * 2 ^ topScale * (2 * leadingBit + 1) ^ 2
        ≤ (2 * leadingBit * 2 - 5) * 2 ^ topScale * (2 * leadingBit + 1) ^ 2 :=
          Nat.mul_le_mul_right _ (Nat.mul_le_mul_right _ hrank)
      _ = 2 ^ topScale * ((2 * leadingBit * 2 - 5) * (2 * leadingBit + 1) ^ 2) := by ring
      _ < 2 ^ topScale * ((2 * leadingBit * 2 - 1) * (2 * leadingBit) ^ 2) :=
        Nat.mul_lt_mul_of_pos_left (by decide) (Nat.pow_pos (by decide))
      _ = doubledLimit * (2 * leadingBit) ^ 2 := by
        rw [doubledLimit]
        ring

theorem bounded_zero : Decimal.Bounded ⟨0 * 10 ^ 1, -1⟩ where
  digits_lt := by decide
  digits_pos h := absurd h (by decide)
  below h := absurd h (by decide)

theorem spelled_bounded {x : Binary64} (h : x.rank.val < 0x7feffffffffffffe) : x.decimal.spelled.Bounded := by
  unfold decimal
  split
  · exact bounded_zero
  · next hzero =>
    have hzero : x.isZero = false := Bool.eq_false_iff.mpr hzero
    unfold Decimal.spelled
    split
    · next hpoint =>
      have hnegative : ¬ (0 : Int) ≤ -1 := by decide
      refine ⟨?_, fun hexponent => absurd hexponent hnegative, fun hexponent => absurd hexponent hnegative⟩
      have hleading : x.shortest.leading ≤ 15 := by
        have hwrites := hpoint.2
        unfold Numeral.writesPoint at hwrites
        rw [Bool.and_eq_true, decide_eq_true_eq, decide_eq_true_eq] at hwrites
        exact hwrites.2
      have hpositive := hpoint.1
      rw [Decimal.leading] at hleading
      calc x.shortest.digits * 10 ^ (x.shortest.exponent.toNat + 1)
          < 10 ^ (Nat.toDigits 10 x.shortest.digits).length * 10 ^ (x.shortest.exponent.toNat + 1) :=
            Nat.mul_lt_mul_of_pos_right (Numeral.toDigits_lt _) (Nat.pow_pos (by decide))
        _ = 10 ^ ((Nat.toDigits 10 x.shortest.digits).length + (x.shortest.exponent.toNat + 1)) :=
            (Nat.pow_add ..).symm
        _ ≤ 10 ^ 17 := Nat.pow_le_pow_right (by decide) (by omega)
        _ ≤ wordLimit := by decide
    · refine ⟨x.shortest_digits_lt hzero, fun _ => x.shortest_digits_pos hzero, fun hexponent => ?_⟩
      exact Nat.lt_of_le_of_lt (Nat.mul_le_mul_right _ (shortest_le hzero hexponent)) (room_of_rank h)

/-- Every finite number that is written is read as a finite number. -/
theorem reread?_isSome (x : Binary64) : x.reread?.isSome := by
  obtain hlt | hge := Nat.lt_or_ge x.rank.val 0x7feffffffffffffe
  · rw [reread?, Option.isSome_map]
    exact ofDecimal?_isSome (spelled_bounded hlt)
  · obtain ⟨negative, rank, hrank⟩ := x
    obtain ⟨hbelow, hgreatest⟩ := reread?_greatest negative
    obtain rfl | rfl : rank = 0x7feffffffffffffe ∨ rank = 0x7fefffffffffffff := by
      simp only at hge
      omega
    · exact hbelow
    · exact hgreatest

end Binary64

theorem Number.reread?_isSome (n : Number) : n.reread?.isSome := by
  cases n with
  | binary x => simpa [Number.reread?] using x.reread?_isSome
  | _ => rfl

namespace Json

mutual

/-- Every value that is written is read as some value. -/
theorem reread?_isSome : (value : Json) → value.reread?.isSome
  | .null => rfl
  | .bool _ => rfl
  | .string _ => rfl
  | .number n => by
    rw [reread?, Option.isSome_map]
    exact n.reread?_isSome
  | .array items => by
    rw [reread?, Option.isSome_map]
    exact rereadItems?_isSome items
  | .object members => by
    rw [reread?, Option.isSome_map]
    exact rereadMembers?_isSome members

theorem rereadItems?_isSome : (items : List Json) → (rereadItems? items).isSome
  | [] => rfl
  | item :: items => by
    obtain ⟨found, hfound⟩ := Option.isSome_iff_exists.mp (reread?_isSome item)
    rw [rereadItems?, hfound, Option.bind_some, Option.isSome_map]
    exact rereadItems?_isSome items

theorem rereadMembers?_isSome : (members : List (String × Json)) → (rereadMembers? members).isSome
  | [] => rfl
  | (key, value) :: members => by
    obtain ⟨found, hfound⟩ := Option.isSome_iff_exists.mp (reread?_isSome value)
    rw [rereadMembers?, hfound, Option.bind_some, Option.isSome_map]
    exact rereadMembers?_isSome members

end

end Json

end ContactForm
