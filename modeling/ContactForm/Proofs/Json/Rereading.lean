import ContactForm.Proofs.Json.ReadingSteps
import ContactForm.Proofs.Json.ShortestDigits
import ContactForm.Proofs.Json.Text

namespace ContactForm

/-- The decimal number that a magnitude is written as. -/
def Binary64.decimal (x : Binary64) : Decimal :=
  if x.isZero then ⟨0, 0⟩ else x.shortest

/-- The number that is read where `x` was written: its decimal number in binary64 steps. -/
def Binary64.reread? (x : Binary64) : Option Binary64 :=
  (ofDecimal? x.decimal.spelled.digits x.decimal.spelled.exponent).map (withSign x.negative)

/-- Integers are read as they were written. -/
def Number.reread? : Number → Option Number
  | .binary x => x.reread?.map .binary
  | n => some n

namespace Json

mutual

/-- The value that is read where a value was written, if all of its numbers are read: objects are sorted by key. -/
def reread? : Json → Option Json
  | .number n => n.reread?.map .number
  | .array items => (rereadItems? items).map .array
  | .object members => (rereadMembers? members).map .ofMembers
  | value => some value

def rereadItems? : List Json → Option (List Json)
  | [] => some []
  | item :: items => (reread? item).bind fun item => (rereadItems? items).map (item :: ·)

def rereadMembers? : List (String × Json) → Option (List (String × Json))
  | [] => some []
  | (key, value) :: members =>
    (reread? value).bind fun value => (rereadMembers? members).map ((key, value) :: ·)

end

mutual

/-- How many containers stand around each other in a value. -/
def depth : Json → Nat
  | .array items => depthItems items + 1
  | .object members => depthMembers members + 1
  | _ => 0

def depthItems : List Json → Nat
  | [] => 0
  | item :: items => max (depth item) (depthItems items)

def depthMembers : List (String × Json) → Nat
  | [] => 0
  | (_, value) :: members => max (depth value) (depthMembers members)

end

theorem depth_array_le_iff {items : List Json} {n : Nat} :
    depth (.array items) ≤ n + 1 ↔ ∀ item ∈ items, item.depth ≤ n := by
  rw [depth, Nat.add_le_add_iff_right]
  induction items with
  | nil => simp [depthItems]
  | cons item items ih => rw [depthItems, Nat.max_le, ih, List.forall_mem_cons]

theorem depth_object_le_iff {members : Members} {n : Nat} :
    depth (.object members) ≤ n + 1 ↔ ∀ member ∈ members, member.2.depth ≤ n := by
  rw [depth, Nat.add_le_add_iff_right]
  induction members with
  | nil => simp [depthMembers]
  | cons member members ih => rw [depthMembers, Nat.max_le, ih, List.forall_mem_cons]

end Json

section ToOption

variable {ε α β : Type}

theorem Except.toOption_bind (x : Except ε α) (next : α → Except ε β) :
    (x.bind next).toOption = x.toOption.bind fun a => (next a).toOption := by
  cases x <;> rfl

theorem Except.toOption_map (f : α → β) (x : Except ε α) :
    (x.map f).toOption = x.toOption.map f := by
  cases x <;> rfl

theorem Except.toOption_eq_some_iff (x : Except ε α) (a : α) :
    x.toOption = some a ↔ x = .ok a := by
  cases x <;> simp [Except.toOption]

end ToOption

namespace Numeral

theorem toOption_scaled (negative : Bool) (n : Nat) (exponent : Int) (rest : List Char) :
    (scaled negative n exponent rest).toOption =
      (Binary64.ofDecimal? n exponent).map fun x => (.binary (x.withSign negative), rest) := by
  rw [scaled]
  generalize Binary64.ofDecimal? n exponent = magnitude
  cases magnitude <;> rfl

theorem decimal_readable (x : Binary64) : x.decimal.Readable := by
  unfold Binary64.decimal
  cases h : x.isZero with
  | true =>
    rw [if_pos rfl]
    exact ⟨by decide, fun _ => rfl, by decide⟩
  | false =>
    rw [if_neg (by decide)]
    exact x.shortest_readable h

theorem binary_eq (x : Binary64) :
    binary x =
      if x.negative then '-' :: layout (Nat.toDigits 10 x.decimal.digits) x.decimal.exponent
      else layout (Nat.toDigits 10 x.decimal.digits) x.decimal.exponent := by
  unfold binary Binary64.decimal
  have hzero : layout ['0'] 0 = ['0', '.', '0'] := by decide
  cases h : x.isZero with
  | true => simp [hzero]
  | false => simp

/-- A number with a point or an exponent starts with a digit. -/
theorem layout_starts (d : Decimal) :
    ∃ c tail, layout (Nat.toDigits 10 d.digits) d.exponent = c :: tail ∧ c.isDigit = true := by
  have hdigits := isDigit_toDigits d.digits
  rw [layout_eq]
  cases hd : Nat.toDigits 10 d.digits with
  | nil => exact absurd hd Nat.toDigits_ne_nil
  | cons c digits =>
    have hc : c.isDigit = true := hdigits c (hd ▸ List.mem_cons_self)
    split
    · split
      · exact ⟨c, _, rfl, hc⟩
      · split
        · exact ⟨c, _, rfl, hc⟩
        · exact ⟨'0', _, rfl, by decide⟩
    · exact ⟨c, _, rfl, hc⟩

end Numeral

namespace Reader

open Numeral (Ends)

theorem starts_minus : Starts '-' := ⟨by decide, by decide, by decide⟩

/-- A written number is read as what its text says. -/
theorem readValue_number (fuel depth : Nat) (n : Number) {rest : List Char} (hr : Ends rest) :
    (readValue fuel depth (Numeral.text n ++ rest)).toOption =
      n.reread?.map fun m => (.number m, rest) := by
  cases n with
  | natural n =>
    have hread := Numeral.read_natural n hr
    have hdigits := Numeral.isDigit_toDigits n
    rw [← show Numeral.text (.natural n) = Nat.toDigits 10 n from rfl] at hdigits
    cases hd : Numeral.text (.natural n) with
    | nil => exact absurd hd Nat.toDigits_ne_nil
    | cons c digits =>
      have hc : c.isDigit = true := hdigits c (hd ▸ List.mem_cons_self)
      rw [hd, List.cons_append] at hread
      rw [List.cons_append, readValue_digit _ _ _ hc, hread]
      rfl
  | negative n =>
    rw [Numeral.text, List.cons_append, readValue_minus, Numeral.read_negative n hr]
    rfl
  | binary x =>
    have hread (negative : Bool) := Numeral.read_layout negative (Numeral.decimal_readable x) hr
    rw [Numeral.text, Numeral.binary_eq, Number.reread?, Binary64.reread?]
    cases hx : x.negative with
    | true =>
      rw [if_pos rfl, List.cons_append, readValue_minus, hread, Except.toOption_map,
        Numeral.toOption_scaled]
      simp only [Option.map_map, Function.comp_def]
    | false =>
      obtain ⟨c, tail, hlayout, hc⟩ := Numeral.layout_starts x.decimal
      have hread := hread false
      rw [hlayout, List.cons_append] at hread
      rw [if_neg (by decide), hlayout, List.cons_append, readValue_digit _ _ _ hc, hread,
        Except.toOption_map, Numeral.toOption_scaled]
      simp only [Option.map_map, Function.comp_def]

end Reader

end ContactForm
