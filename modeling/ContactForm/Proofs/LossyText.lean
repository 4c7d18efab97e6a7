import Mathlib.Data.List.Basic
import Mathlib.Data.String.Basic
import Mathlib.Tactic.SplitIfs
import ContactForm.LossyText

namespace ContactForm.LossyText

/-- The bytes that a pending character goes on with up to its end, and its number. -/
inductive Completes : Pending → List UInt8 → Nat → Prop
  | last {low high : UInt8} {code n : Nat} (b : UInt8) : low.toNat ≤ b.toNat → b.toNat ≤ high.toNat →
      n = code * 64 + b.toNat % 64 → Completes ⟨1, low, high, code⟩ [b] n
  | next {low high : UInt8} {owed code n : Nat} {tail : List UInt8} (b : UInt8) : low.toNat ≤ b.toNat →
      b.toNat ≤ high.toNat → Completes ⟨owed + 1, 0x80, 0xbf, code * 64 + b.toNat % 64⟩ tail n →
      Completes ⟨owed + 2, low, high, code⟩ (b :: tail) n

/-- What a first byte announces. The second byte is within the range where, and only where, the number is one of a
    character that takes so many bytes. -/
inductive Lead (a : UInt8) : Pending → Prop
  | two {code : Nat} : a.toNat = code + 0xc0 → 2 ≤ code → code < 32 → Lead a ⟨1, 0x80, 0xbf, code⟩
  | three {low high : UInt8} {code : Nat} : a.toNat = code + 0xe0 → code < 16 → 0x80 ≤ low.toNat →
      high.toNat ≤ 0xbf → low.toNat ≤ high.toNat →
      (∀ x < 64, low.toNat ≤ x + 0x80 ∧ x + 0x80 ≤ high.toNat ↔
        0x20 ≤ code * 64 + x ∧ (code * 64 + x < 0x360 ∨ 0x380 ≤ code * 64 + x)) → Lead a ⟨2, low, high, code⟩
  | four {low high : UInt8} {code : Nat} : a.toNat = code + 0xf0 → code < 8 → 0x80 ≤ low.toNat →
      high.toNat ≤ 0xbf → low.toNat ≤ high.toNat →
      (∀ x < 64, low.toNat ≤ x + 0x80 ∧ x + 0x80 ≤ high.toNat ↔ 0x10 ≤ code * 64 + x ∧ code * 64 + x < 0x110) →
      Lead a ⟨3, low, high, code⟩

section Encoding

variable {a b c d : UInt8} {p : Pending} {tail : List UInt8} {n : Nat}

theorem lead_of_announce (h : announce? a = some p) : Lead a p := by
  simp only [announce?, UInt8.le_iff_toNat_le, ← UInt8.toNat_inj, UInt8.reduceToNat] at h
  split_ifs at h <;> cases h
  · exact .two (by omega) (by omega) (by omega)
  · refine .three ?_ ?_ ?_ ?_ ?_ ?_ <;> grind
  · refine .three ?_ ?_ ?_ ?_ ?_ ?_ <;> grind
  · refine .three ?_ ?_ ?_ ?_ ?_ ?_ <;> grind
  · refine .four ?_ ?_ ?_ ?_ ?_ ?_ <;> grind
  · refine .four ?_ ?_ ?_ ?_ ?_ ?_ <;> grind
  · refine .four ?_ ?_ ?_ ?_ ?_ ?_ <;> grind

theorem exists_announce (h : 0xc2 ≤ a.toNat) (h' : a.toNat ≤ 0xf4) : ∃ p, announce? a = some p := by
  simp only [announce?, UInt8.le_iff_toNat_le, ← UInt8.toNat_inj, UInt8.reduceToNat]
  split_ifs <;> try omega
  all_goals exact ⟨_, rfl⟩

theorem utf8EncodeChar_ofNat (h : n.isValidChar) :
    String.utf8EncodeChar (Char.ofNat n) =
      if n ≤ 0x7f then [.ofNat n]
      else if n ≤ 0x7ff then [.ofNat (n / 64 % 32 + 0xc0), .ofNat (n % 64 + 0x80)]
      else if n ≤ 0xffff then
        [.ofNat (n / 4096 % 16 + 0xe0), .ofNat (n / 64 % 64 + 0x80), .ofNat (n % 64 + 0x80)]
      else
        [.ofNat (n / 262144 % 8 + 0xf0), .ofNat (n / 4096 % 64 + 0x80), .ofNat (n / 64 % 64 + 0x80),
          .ofNat (n % 64 + 0x80)] := by
  have hn : (Char.ofNat n).val.toNat = n := by
    rw [Char.ofNat, dif_pos h]
    rfl
  simp only [String.utf8EncodeChar, hn]

theorem utf8EncodeChar_of_ascii (h : a.toNat < 0x80) : String.utf8EncodeChar (Char.ofNat a.toNat) = [a] := by
  rw [utf8EncodeChar_ofNat (.inl (by omega)), if_pos (by omega), UInt8.ofNat_toNat]

theorem ofNat_eq (h : a.toNat = n) : UInt8.ofNat n = a := by
  rw [← h, UInt8.ofNat_toNat]

/-- A first byte with the bytes that complete it is the encoding of a character. -/
theorem Lead.encode_of_completes (hlead : Lead a p) (h : Completes p tail n) :
    String.utf8EncodeChar (Char.ofNat n) = a :: tail := by
  cases hlead with
  | two ha hcode hcode' =>
    cases h with
    | last b hb hb' hn =>
      simp only [UInt8.reduceToNat] at hb hb'
      rw [utf8EncodeChar_ofNat (.inl (by omega)), if_neg (by omega), if_pos (by omega), ofNat_eq (a := a) (by omega),
        ofNat_eq (a := b) (by omega)]
  | three ha hcode hlow hhigh hle hrange =>
    cases h with
    | next b hb hb' h =>
      cases h with
      | last c hc hc' hn =>
        simp only [UInt8.reduceToNat] at hc hc'
        have hsecond := (hrange (b.toNat - 0x80) (by omega)).mp (by omega)
        have hbits : b.toNat % 64 = b.toNat - 0x80 := by omega
        have hvalid : n.isValidChar := by
          unfold Nat.isValidChar
          omega
        rw [utf8EncodeChar_ofNat hvalid, if_neg (by omega), if_neg (by omega), if_pos (by omega),
          ofNat_eq (a := a) (by omega), ofNat_eq (a := b) (by omega), ofNat_eq (a := c) (by omega)]
  | four ha hcode hlow hhigh hle hrange =>
    cases h with
    | next b hb hb' h =>
      cases h with
      | next c hc hc' h =>
        cases h with
        | last d hd hd' hn =>
          simp only [UInt8.reduceToNat] at hc hc' hd hd'
          have hsecond := (hrange (b.toNat - 0x80) (by omega)).mp (by omega)
          have hbits : b.toNat % 64 = b.toNat - 0x80 := by omega
          have hvalid : n.isValidChar := by
            unfold Nat.isValidChar
            omega
          rw [utf8EncodeChar_ofNat hvalid, if_neg (by omega), if_neg (by omega), if_neg (by omega),
            ofNat_eq (a := a) (by omega), ofNat_eq (a := b) (by omega), ofNat_eq (a := c) (by omega),
            ofNat_eq (a := d) (by omega)]

theorem within_tail (hb : b.toNat = n % 64 + 0x80) :
    (0x80 : UInt8).toNat ≤ b.toNat ∧ b.toNat ≤ (0xbf : UInt8).toNat := by
  rw [hb]
  change 0x80 ≤ n % 64 + 0x80 ∧ n % 64 + 0x80 ≤ 0xbf
  omega

theorem announced_two (h : 0x80 ≤ n) (h' : n ≤ 0x7ff) (ha : a.toNat = n / 64 + 0xc0)
    (hb : b.toNat = n % 64 + 0x80) : ∃ p, announce? a = some p ∧ Completes p [b] n := by
  obtain ⟨p, hp⟩ := exists_announce (a := a) (by omega) (by omega)
  obtain ⟨hlow, hhigh⟩ := within_tail hb
  refine ⟨p, hp, ?_⟩
  cases lead_of_announce hp with
  | two _ _ _ => exact .last b hlow hhigh (by omega)
  | three _ _ _ _ _ _ => omega
  | four _ _ _ _ _ _ => omega

theorem announced_three (h : 0x800 ≤ n) (h' : n ≤ 0xffff) (hn : n < 0xd800 ∨ 0xdfff < n)
    (ha : a.toNat = n / 4096 + 0xe0) (hb : b.toNat = n / 64 % 64 + 0x80) (hc : c.toNat = n % 64 + 0x80) :
    ∃ p, announce? a = some p ∧ Completes p [b, c] n := by
  obtain ⟨p, hp⟩ := exists_announce (a := a) (by omega) (by omega)
  obtain ⟨hlow, hhigh⟩ := within_tail hc
  refine ⟨p, hp, ?_⟩
  cases lead_of_announce hp with
  | two _ _ _ => omega
  | three _ _ _ _ _ hrange =>
    have hsecond := (hrange (n / 64 % 64) (by omega)).mpr (by omega)
    exact .next b (by omega) (by omega) (.last c hlow hhigh (by omega))
  | four _ _ _ _ _ _ => omega

theorem announced_four (h : 0x10000 ≤ n) (h' : n < 0x110000) (ha : a.toNat = n / 262144 + 0xf0)
    (hb : b.toNat = n / 4096 % 64 + 0x80) (hc : c.toNat = n / 64 % 64 + 0x80) (hd : d.toNat = n % 64 + 0x80) :
    ∃ p, announce? a = some p ∧ Completes p [b, c, d] n := by
  obtain ⟨p, hp⟩ := exists_announce (a := a) (by omega) (by omega)
  obtain ⟨hlow, hhigh⟩ := within_tail hc
  obtain ⟨hlow', hhigh'⟩ := within_tail hd
  refine ⟨p, hp, ?_⟩
  cases lead_of_announce hp with
  | two _ _ _ => omega
  | three _ _ _ _ _ _ => omega
  | four _ _ _ _ _ hrange =>
    have hsecond := (hrange (n / 4096 % 64) (by omega)).mpr (by omega)
    exact .next b (by omega) (by omega) (.next c hlow hhigh (.last d hlow' hhigh' (by omega)))

/-- A character of several bytes is announced by the first of them, and completed by the others; one of a single byte
    is that byte. -/
theorem announced_of_encode {c : Char} (h : String.utf8EncodeChar c = a :: tail) :
    (tail = [] ∧ a.toNat = c.toNat ∧ c.toNat < 0x80) ∨ ∃ p, announce? a = some p ∧ Completes p tail c.toNat := by
  have hvalid : c.toNat.isValidChar := c.valid
  have hencode := utf8EncodeChar_ofNat hvalid
  rw [Char.ofNat_toNat, h] at hencode
  generalize c.toNat = n at hencode hvalid
  have hrange : n < 0xd800 ∨ 0xdfff < n ∧ n < 0x110000 := hvalid
  have htoNat (k : Nat) : (UInt8.ofNat k).toNat = k % 256 := UInt8.toNat_ofNat'
  split_ifs at hencode with hone htwo hthree <;> cases hencode
  · exact .inl ⟨rfl, by rw [htoNat]; omega, by omega⟩
  · exact .inr (announced_two (by omega) htwo (by rw [htoNat]; omega) (by rw [htoNat]; omega))
  · exact .inr (announced_three (by omega) hthree (by omega) (by rw [htoNat]; omega) (by rw [htoNat]; omega)
      (by rw [htoNat]; omega))
  · exact .inr (announced_four (by omega) (by omega) (by rw [htoNat]; omega) (by rw [htoNat]; omega)
      (by rw [htoNat]; omega) (by rw [htoNat]; omega))

end Encoding

section Decoding

variable {p : Pending} {seen tail rest : List UInt8} {n : Nat} {a b : UInt8}

theorem decode_of_ascii (h : a.toNat < 0x80) : decode (a :: rest) = Char.ofNat a.toNat :: decode rest := by
  have ha : a < 0x80 := h
  rw [decode, decodeFrom, step, start, if_pos ha]
  rfl

theorem decode_of_announce (h : announce? a = some p) : decode (a :: rest) = decodeFrom (some p) rest := by
  have hbyte : 0x80 ≤ a.toNat := by
    cases lead_of_announce h <;> omega
  have ha : ¬a < 0x80 := Nat.not_lt.mpr hbyte
  rw [decode, decodeFrom, step, start, if_neg ha, h]
  rfl

theorem decode_of_unannounced (h : announce? a = none) (hbyte : 0x80 ≤ a.toNat) :
    decode (a :: rest) = replacement :: decode rest := by
  have ha : ¬a < 0x80 := Nat.not_lt.mpr hbyte
  rw [decode, decodeFrom, step, start, if_neg ha, h]
  rfl

theorem decodeFrom_within (hlow : p.low.toNat ≤ b.toNat) (hhigh : b.toNat ≤ p.high.toNat) :
    decodeFrom (some p) (b :: rest) =
      if p.owed ≤ 1 then Char.ofNat (p.code * 64 + b.toNat % 64) :: decode rest
      else decodeFrom (some ⟨p.owed - 1, 0x80, 0xbf, p.code * 64 + b.toNat % 64⟩) rest := by
  have hwithin : p.low ≤ b ∧ b ≤ p.high := ⟨hlow, hhigh⟩
  rw [decodeFrom, step]
  simp only [if_pos hwithin]
  split <;> rfl

/-- A byte that a pending character does not go on with stands for itself. -/
theorem decodeFrom_beyond (h : ¬(p.low.toNat ≤ b.toNat ∧ b.toNat ≤ p.high.toNat)) :
    decodeFrom (some p) (b :: rest) = replacement :: decode (b :: rest) := by
  have hbeyond : ¬(p.low ≤ b ∧ b ≤ p.high) := h
  rw [decode, decodeFrom, decodeFrom, step, step, if_neg hbeyond]
  rfl

theorem decodeFrom_of_completes (h : Completes p tail n) :
    decodeFrom (some p) (tail ++ rest) = Char.ofNat n :: decode rest := by
  induction h with
  | last b hlow hhigh hn => rw [List.singleton_append, decodeFrom_within hlow hhigh, if_pos (Nat.le_refl 1), hn]
  | next b hlow hhigh _ ih =>
    rw [List.cons_append, decodeFrom_within hlow hhigh, if_neg (by simp)]
    exact ih

/-- What is pending once some of the bytes that complete a character were read. -/
theorem Completes.pending (h : Completes p (seen ++ b :: tail) n) :
    ∃ q, Completes q (b :: tail) n ∧ (∀ rest, decodeFrom (some p) (seen ++ rest) = decodeFrom (some q) rest) ∧
      ∀ tail n, Completes q tail n → Completes p (seen ++ tail) n := by
  induction seen generalizing p with
  | nil => exact ⟨p, h, fun _ => rfl, fun _ _ hq => hq⟩
  | cons x seen ih =>
    rw [List.cons_append] at h
    generalize hbytes : seen ++ b :: tail = bytes at h
    cases h with
    | last _ _ _ _ => exact absurd hbytes (by simp)
    | next _ hlow hhigh h =>
      obtain ⟨q, hq, hdecode, hback⟩ := ih (hbytes ▸ h)
      refine ⟨q, hq, fun rest => ?_, fun tail n htail => .next x hlow hhigh (hback tail n htail)⟩
      rw [List.cons_append, decodeFrom_within hlow hhigh, if_neg (by simp)]
      exact hdecode rest

theorem Completes.owed_pos (h : Completes p tail n) : 0 < p.owed := by
  cases h with
  | last _ _ _ _ => exact Nat.one_pos
  | next _ _ _ _ => exact Nat.succ_pos _

theorem low_le_high : (0x80 : UInt8).toNat ≤ (0xbf : UInt8).toNat := by
  decide

/-- Every byte that a pending character may go on with leads to a character. -/
theorem completes_of_within (howed : 0 < p.owed) (hlow : p.low.toNat ≤ b.toNat) (hhigh : b.toNat ≤ p.high.toNat) :
    ∃ tail n, Completes p (b :: tail) n := by
  obtain ⟨owed, low, high, code⟩ := p
  cases owed with
  | zero => exact absurd howed (Nat.lt_irrefl 0)
  | succ owed =>
    clear howed
    induction owed generalizing low high code b with
    | zero => exact ⟨[], _, .last b hlow hhigh rfl⟩
    | succ owed ih =>
      obtain ⟨tail, n, h⟩ := ih 0x80 0xbf (code * 64 + b.toNat % 64) (Nat.le_refl _) low_le_high
      exact ⟨_, n, .next b hlow hhigh h⟩

theorem exists_completes (h : announce? a = some p) : ∃ tail n, Completes p tail n := by
  have hleast : 0 < p.owed ∧ p.low.toNat ≤ p.high.toNat := by
    cases lead_of_announce h with
    | two _ _ _ => exact ⟨Nat.one_pos, low_le_high⟩
    | three _ _ _ _ hle _ => exact ⟨Nat.succ_pos _, hle⟩
    | four _ _ _ _ hle _ => exact ⟨Nat.succ_pos _, hle⟩
  obtain ⟨tail, n, htail⟩ := completes_of_within hleast.1 (Nat.le_refl _) hleast.2
  exact ⟨_, n, htail⟩

end Decoding

/-- Bytes that the encoding of a character starts with. -/
def Begins (bytes : List UInt8) : Prop :=
  ∃ c, bytes <+: String.utf8EncodeChar c

/-- The longest run of bytes that begins a character and is none, or a byte that begins none; and what comes after. -/
inductive Malformed : List UInt8 → List UInt8 → Prop
  | stray {b : UInt8} {rest : List UInt8} : ¬Begins [b] → Malformed [b] rest
  | cut {run rest : List UInt8} : run ≠ [] → Begins run → (∀ c, run ≠ String.utf8EncodeChar c) →
      (∀ b, rest.head? = some b → ¬Begins (run ++ [b])) → Malformed run rest

/-- What bytes show: their characters, with one replacement for each malformed run. -/
inductive Shows : List UInt8 → List Char → Prop
  | nil : Shows [] []
  | char {rest : List UInt8} {text : List Char} (c : Char) : Shows rest text →
      Shows (String.utf8EncodeChar c ++ rest) (c :: text)
  | malformed {run rest : List UInt8} {text : List Char} : Malformed run rest → Shows rest text →
      Shows (run ++ rest) (replacement :: text)

section Shows

variable {a b : UInt8} {p : Pending} {run rest bytes : List UInt8} {text : List Char}

theorem begins_of_announce (h : announce? a = some p) : Begins [a] := by
  obtain ⟨tail, n, hcompletes⟩ := exists_completes h
  exact ⟨_, tail, ((lead_of_announce h).encode_of_completes hcompletes).symm⟩

theorem begins_of_ascii (h : a.toNat < 0x80) : Begins [a] :=
  ⟨_, [], (utf8EncodeChar_of_ascii h).symm⟩

/-- The encoding of a character stands for it, whatever comes after it. -/
theorem decode_utf8EncodeChar_append (c : Char) (rest : List UInt8) :
    decode (String.utf8EncodeChar c ++ rest) = c :: decode rest := by
  cases hencode : String.utf8EncodeChar c with
  | nil => exact absurd hencode String.utf8EncodeChar_ne_nil
  | cons a tail =>
    obtain ⟨rfl, ha, hascii⟩ | ⟨p, hp, hcompletes⟩ := announced_of_encode hencode
    · rw [List.singleton_append, decode_of_ascii (ha ▸ hascii), ha, Char.ofNat_toNat]
    · rw [List.cons_append, decode_of_announce hp, decodeFrom_of_completes hcompletes, Char.ofNat_toNat]

theorem decode_stray (h : ¬Begins [b]) : decode (b :: rest) = replacement :: decode rest := by
  have hbyte : 0x80 ≤ b.toNat := Nat.le_of_not_lt fun hascii => h (begins_of_ascii hascii)
  cases hannounce : announce? b with
  | none => exact decode_of_unannounced hannounce hbyte
  | some p => exact absurd (begins_of_announce hannounce) h

theorem decode_cut (hne : run ≠ []) (hbegins : Begins run) (hcut : ∀ c, run ≠ String.utf8EncodeChar c)
    (hmax : ∀ b, rest.head? = some b → ¬Begins (run ++ [b])) :
    decode (run ++ rest) = replacement :: decode rest := by
  obtain ⟨c, missing, hencode⟩ := hbegins
  obtain ⟨a, seen, rfl⟩ := List.exists_cons_of_ne_nil hne
  cases missing with
  | nil => exact absurd (by simpa using hencode) (hcut c)
  | cons b missing =>
    obtain ⟨hnone, -⟩ | ⟨p, hp, hcompletes⟩ := announced_of_encode hencode.symm
    · exact absurd hnone (by simp)
    · obtain ⟨q, hq, hdecode, hback⟩ := hcompletes.pending
      rw [List.cons_append, decode_of_announce hp, hdecode]
      cases rest with
      | nil => rfl
      | cons x rest =>
        -- a byte that could go on with the character would make a longer run that begins one
        refine decodeFrom_beyond fun hwithin => hmax x rfl ?_
        obtain ⟨tail, n, htail⟩ := completes_of_within hq.owed_pos hwithin.1 hwithin.2
        have hother := (lead_of_announce hp).encode_of_completes (hback _ _ htail)
        exact ⟨_, tail, by rw [hother]; simp⟩

theorem decode_of_shows (h : Shows bytes text) : decode bytes = text := by
  induction h with
  | nil => rfl
  | char c _ ih => rw [decode_utf8EncodeChar_append, ih]
  | malformed hrun _ ih =>
    rw [← ih]
    cases hrun with
    | stray hb => exact decode_stray hb
    | cut hne hbegins hcut hmax => exact decode_cut hne hbegins hcut hmax

/-- Bytes that begin a character go on up to the longest run that does. -/
theorem exists_longest (h : Begins run) (rest : List UInt8) :
    ∃ more after, rest = more ++ after ∧ Begins (run ++ more) ∧
      ∀ b, after.head? = some b → ¬Begins (run ++ more ++ [b]) := by
  induction rest generalizing run with
  | nil => exact ⟨[], [], rfl, by simpa using h, fun _ hb => absurd hb (by simp)⟩
  | cons x rest ih =>
    by_cases hx : Begins (run ++ [x])
    · obtain ⟨more, after, rfl, hmore, hmax⟩ := ih hx
      exact ⟨x :: more, after, rfl, by simpa using hmore, by simpa using hmax⟩
    · refine ⟨[], x :: rest, rfl, by simpa using h, ?_⟩
      rintro b hb
      obtain rfl := Option.some.inj hb
      simpa using hx

theorem exists_shows (bytes : List UInt8) : ∃ text, Shows bytes text := by
  induction hlength : bytes.length using Nat.strongRecOn generalizing bytes with
  | ind n ih =>
    subst hlength
    cases bytes with
    | nil => exact ⟨[], .nil⟩
    | cons a rest =>
      by_cases hchar : ∃ c, String.utf8EncodeChar c <+: a :: rest
      · obtain ⟨c, after, hafter⟩ := hchar
        have hpos := List.length_pos_of_ne_nil (String.utf8EncodeChar_ne_nil (c := c))
        have hshorter : after.length < (a :: rest).length := by
          rw [← hafter, List.length_append]
          omega
        obtain ⟨text, htext⟩ := ih _ hshorter after rfl
        exact ⟨c :: text, hafter ▸ .char c htext⟩
      · by_cases ha : Begins [a]
        · obtain ⟨more, after, rfl, hmore, hmax⟩ := exists_longest ha rest
          have hshorter : after.length < (a :: (more ++ after)).length := by
            rw [List.length_cons, List.length_append]
            omega
          obtain ⟨text, htext⟩ := ih _ hshorter after rfl
          have hcut (c : Char) (hc : [a] ++ more = String.utf8EncodeChar c) : False :=
            hchar ⟨c, after, by rw [← hc]; rfl⟩
          have hrun : Malformed ([a] ++ more) after := .cut (by simp) hmore hcut hmax
          exact ⟨replacement :: text, .malformed hrun htext⟩
        · obtain ⟨text, htext⟩ := ih _ (by simp) rest rfl
          exact ⟨replacement :: text, .malformed (.stray ha) htext⟩

/-- Decoding gives what the bytes show. -/
theorem shows_iff : Shows bytes text ↔ decode bytes = text := by
  refine ⟨decode_of_shows, ?_⟩
  rintro rfl
  obtain ⟨text, h⟩ := exists_shows bytes
  rwa [decode_of_shows h]

theorem Malformed.length_le (h : Malformed run rest) : run.length ≤ 3 := by
  cases h with
  | stray _ => exact Nat.le_add_left 1 2
  | cut _ hbegins hcut _ =>
    obtain ⟨c, hstart⟩ := hbegins
    have hsize := String.length_utf8EncodeChar c
    have hfour := c.utf8Size_le_four
    have hlength := hstart.length_le
    have hne : run.length ≠ (String.utf8EncodeChar c).length := fun heq => hcut c (hstart.eq_of_length heq)
    omega

/-- What bytes show is not shorter than they are. -/
theorem Shows.length_le (h : Shows bytes text) : bytes.length ≤ String.utf8Len text := by
  induction h with
  | nil => exact Nat.le_refl 0
  | char c _ ih =>
    rw [List.length_append, String.length_utf8EncodeChar, String.utf8Len_cons]
    omega
  | malformed hrun _ ih =>
    have hlength := hrun.length_le
    have hsize : replacement.utf8Size = 3 := by decide
    rw [List.length_append, String.utf8Len_cons, hsize]
    omega

/-- The encodings of characters show the characters, which are as long as the bytes are. -/
theorem shows_encode (text : List Char) : Shows (text.flatMap String.utf8EncodeChar) text := by
  induction text with
  | nil => exact .nil
  | cons c text ih => exact .char c ih

theorem length_encode (text : List Char) : (text.flatMap String.utf8EncodeChar).length = String.utf8Len text := by
  induction text with
  | nil => rfl
  | cons c text ih =>
    rw [List.flatMap_cons, List.length_append, String.length_utf8EncodeChar, ih, String.utf8Len_cons, Nat.add_comm]

end Shows

end ContactForm.LossyText
