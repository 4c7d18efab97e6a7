import ContactForm.Proofs.Json.Rereading
import ContactForm.Proofs.Lines

namespace ContactForm

/-- A text without control characters, so that it stays on one line. -/
def Printable (text : List Char) : Prop :=
  ∀ c ∈ text, 0x20 ≤ c.toNat

instance : DecidablePred Printable :=
  fun text => List.decidableBAll (fun c : Char => 0x20 ≤ c.toNat) text

section Printable

variable {xs ys : List Char}

@[simp] theorem printable_nil : Printable [] :=
  fun _ h => absurd h List.not_mem_nil

@[simp] theorem printable_cons {c : Char} : Printable (c :: xs) ↔ 0x20 ≤ c.toNat ∧ Printable xs :=
  List.forall_mem_cons

@[simp] theorem printable_append : Printable (xs ++ ys) ↔ Printable xs ∧ Printable ys :=
  List.forall_mem_append

theorem Printable.subset (h : Printable ys) (hxs : xs ⊆ ys) : Printable xs :=
  fun _ hc => h _ (hxs hc)

theorem Printable.flatMap {α : Type} {list : List α} {f : α → List Char} (h : ∀ a ∈ list, Printable (f a)) :
    Printable (list.flatMap f) := by
  intro c hc
  obtain ⟨a, ha, hmem⟩ := List.mem_flatMap.mp hc
  exact h a ha c hmem

theorem Printable.oneLine {text : String} (h : Printable text.toList) : OneLine text := by
  intro hmem
  exact absurd (h _ hmem) (by decide)

theorem Printable.append {s t : String} (hs : Printable s.toList) (ht : Printable t.toList) :
    Printable (s ++ t).toList := by
  rw [String.toList_append]
  exact printable_append.mpr ⟨hs, ht⟩

end Printable

namespace Numeral

theorem printable_of_isDigit {digits : List Char} (h : ∀ c ∈ digits, c.isDigit = true) : Printable digits := by
  intro c hc
  have hlow := (Reader.digit_range (h c hc)).1
  omega

theorem printable_toDigits (n : Nat) : Printable (Nat.toDigits 10 n) :=
  printable_of_isDigit (isDigit_toDigits n)

theorem printable_layout {digits : List Char} (h : Printable digits) (exponent : Int) :
    Printable (layout digits exponent) := by
  have htake (n : Nat) : Printable (digits.take n) := h.subset (List.take_subset n digits)
  have hdrop (n : Nat) : Printable (digits.drop n) := h.subset (List.drop_subset n digits)
  have hzeros (n : Nat) : Printable (List.replicate n '0') := by
    intro c hc
    obtain ⟨-, rfl⟩ := List.mem_replicate.mp hc
    decide
  unfold layout
  simp only
  split
  · split
    · simp [h, hzeros]
    · split
      · simp [htake, hdrop]
      · simp [h, hzeros]
  · simp only [printable_append, printable_cons]
    refine ⟨⟨htake 1, ?_⟩, by decide, ?_, printable_toDigits _⟩
    · split
      · exact printable_nil
      · exact printable_cons.mpr ⟨by decide, hdrop 1⟩
    · split <;> decide

theorem printable_text (n : Number) : Printable (text n) := by
  cases n with
  | natural n => exact printable_toDigits n
  | negative n => exact printable_cons.mpr ⟨by decide, printable_toDigits _⟩
  | binary x =>
    have hmagnitude := printable_layout (printable_toDigits x.decimal.digits) x.decimal.exponent
    rw [text, binary_eq]
    split
    · exact printable_cons.mpr ⟨by decide, hmagnitude⟩
    · exact hmagnitude

end Numeral

namespace Quoted

theorem printable_hexDigit {n : Nat} (h : n < 16) : 0x20 ≤ (hexDigit n).toNat := by
  decide +revert

/-- Characters below the space are escaped. -/
theorem printable_escape (c : Char) : Printable (escape c).toList := by
  unfold escape
  split
  case h_8 =>
    split
    · next hc =>
      have hhigh := printable_hexDigit (show c.toNat / 16 < 16 by omega)
      have hlow := printable_hexDigit (show c.toNat % 16 < 16 by omega)
      simp [hhigh, hlow]
    · next hc => simpa using hc
  all_goals decide

theorem printable_chars (s : String) : Printable (chars s) := by
  have hinner : Printable (s.toList.flatMap fun c => (escape c).toList) :=
    Printable.flatMap fun c _ => printable_escape c
  simp [chars, hinner]

end Quoted

namespace Json

mutual

theorem printable_chars : (value : Json) → Printable (chars .compact value)
  | .null => by simp [chars]
  | .bool true => by simp [chars]
  | .bool false => by simp [chars]
  | .number n => Numeral.printable_text n
  | .string s => Quoted.printable_chars s
  | .array [] => by simp [chars]
  | .array (item :: items) => by
    have hitem := printable_chars item
    have hitems := printable_charsItems items
    simp [chars, Layout.deeper, Layout.lineBreak, hitem, hitems]
  | .object [] => by simp [chars]
  | .object ((key, value) :: members) => by
    have hkey := Quoted.printable_chars key
    have hvalue := printable_chars value
    have hmembers := printable_charsMembers members
    simp [chars, Layout.deeper, Layout.lineBreak, Layout.colon, hkey, hvalue, hmembers]

theorem printable_charsItems : (items : List Json) → Printable (charsItems .compact items)
  | [] => printable_nil
  | item :: items => by
    have hitem := printable_chars item
    have hitems := printable_charsItems items
    simp [charsItems, Layout.lineBreak, hitem, hitems]

theorem printable_charsMembers : (members : List (String × Json)) → Printable (charsMembers .compact members)
  | [] => printable_nil
  | (key, value) :: members => by
    have hkey := Quoted.printable_chars key
    have hvalue := printable_chars value
    have hmembers := printable_charsMembers members
    simp [charsMembers, Layout.lineBreak, Layout.colon, hkey, hvalue, hmembers]

end

/-- A value on one line is written without control characters, whatever its keys and strings hold. -/
theorem printable_compact (value : Json) : Printable value.compact.toList := by
  rw [compact, toList_write]
  simpa using printable_chars value

end Json

end ContactForm
