import Mathlib.Data.List.Basic
import ContactForm.Json.Quoted

namespace ContactForm.Quoted

/-- The characters that a string is written as. -/
def chars (s : String) : List Char :=
  '"' :: s.toList.flatMap (fun c => (escape c).toList) ++ ['"']

theorem chars_append (s : String) (rest : List Char) :
    chars s ++ rest = '"' :: (s.toList.flatMap (fun c => (escape c).toList) ++ '"' :: rest) := by
  simp [chars]

theorem toList_write (s out : String) : (write s out).toList = out.toList ++ chars s := by
  have hfold : ∀ (list : List Char) (out : String),
      (list.foldl (fun out c => out ++ escape c) out).toList =
        out.toList ++ list.flatMap fun c => (escape c).toList := by
    intro list
    induction list with
    | nil => simp
    | cons c list ih => intro out; simp [ih]
  simp [write, chars, hfold]

theorem unit?_hexDigit : ∀ n < 0x20, unit? '0' '0' (hexDigit (n / 16)) (hexDigit (n % 16)) = some n := by
  decide

/-- A character that is written as itself is read as itself. -/
theorem read_plain {c : Char} (hq : c ≠ '"') (hb : c ≠ '\\') (hc : ¬c.toNat < 0x20)
    (done text : List Char) : read done (c :: text) = read (c :: done) text := by
  rw [read.eq_def]
  split
  case h_7 heq =>
    obtain ⟨rfl, rfl⟩ := List.cons.inj heq
    rw [if_neg hc]
  all_goals simp_all

theorem read_control {c : Char} (hc : c.toNat < 0x20) (done text : List Char) :
    read done ('\\' :: 'u' :: '0' :: '0' :: hexDigit (c.toNat / 16) :: hexDigit (c.toNat % 16) :: text) =
      read (c :: done) text := by
  have ht : isTrailing c.toNat = false := by
    simp [isTrailing]
    omega
  have hl : isLeading c.toNat = false := by
    simp [isLeading]
    omega
  rw [read, unit?_hexDigit c.toNat hc]
  simp [ht, hl, Char.ofNat_toNat]

/-- What a character is written as is read as that character. -/
theorem read_escape (c : Char) (done text : List Char) :
    read done ((escape c).toList ++ text) = read (c :: done) text := by
  unfold escape
  split
  · rfl
  · rfl
  · rfl
  · rfl
  · rfl
  · rfl
  · rfl
  · split
    · next hc => simpa using read_control hc done text
    · next hq hb _ _ _ _ _ hc => simpa using read_plain hq hb hc done text

/-- A written string is read back. -/
theorem read_chars (s : String) (rest : List Char) :
    read [] (s.toList.flatMap (fun c => (escape c).toList) ++ '"' :: rest) = .ok (s, rest) := by
  suffices hall : ∀ (list done : List Char),
      read done (list.flatMap (fun c => (escape c).toList) ++ '"' :: rest) =
        .ok (String.ofList (done.reverse ++ list), rest) by
    simpa using hall s.toList []
  intro list
  induction list with
  | nil => intro done; simp [read]
  | cons c list ih =>
    intro done
    rw [List.flatMap_cons, List.append_assoc, read_escape, ih]
    simp

end ContactForm.Quoted
