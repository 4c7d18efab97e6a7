namespace ContactForm.LossyText

/-- A character whose first bytes were read: how many are owed, the least and the greatest the next one may be,
    and the bits so far. -/
structure Pending where
  owed : Nat
  low : UInt8
  high : UInt8
  code : Nat
deriving DecidableEq, Repr

/-- What stands for bytes that are no character. -/
def replacement : Char := '\ufffd'

/-- What a first byte beyond ASCII announces. The range of the second byte leaves out longer forms than needed,
    surrogates and numbers beyond the last character. -/
def announce? (b : UInt8) : Option Pending :=
  if 0xc2 ≤ b ∧ b ≤ 0xdf then some ⟨1, 0x80, 0xbf, b.toNat % 32⟩
  else if b = 0xe0 then some ⟨2, 0xa0, 0xbf, 0⟩
  else if b = 0xed then some ⟨2, 0x80, 0x9f, 13⟩
  else if 0xe1 ≤ b ∧ b ≤ 0xef then some ⟨2, 0x80, 0xbf, b.toNat % 16⟩
  else if b = 0xf0 then some ⟨3, 0x90, 0xbf, 0⟩
  else if 0xf1 ≤ b ∧ b ≤ 0xf3 then some ⟨3, 0x80, 0xbf, b.toNat % 8⟩
  else if b = 0xf4 then some ⟨3, 0x80, 0x8f, 4⟩
  else none

/-- Takes a byte between characters. -/
def start (b : UInt8) : List Char × Option Pending :=
  if b < 0x80 then ([Char.ofNat b.toNat], none)
  else
    match announce? b with
    | some pending => ([], some pending)
    | none => ([replacement], none)

/-- Takes a byte; one that a character cannot go on with ends it as a replacement and stands for itself. -/
def step (pending : Option Pending) (b : UInt8) : List Char × Option Pending :=
  match pending with
  | none => start b
  | some p =>
    if p.low ≤ b ∧ b ≤ p.high then
      let code := p.code * 64 + b.toNat % 64
      if p.owed ≤ 1 then ([Char.ofNat code], none)
      else ([], some ⟨p.owed - 1, 0x80, 0xbf, code⟩)
    else
      let (chars, next) := start b
      (replacement :: chars, next)

def decodeFrom : Option Pending → List UInt8 → List Char
  | none, [] => []
  | some _, [] => [replacement]
  | pending, b :: rest =>
    let (chars, next) := step pending b
    chars ++ decodeFrom next rest

/-- The characters that bytes stand for in UTF-8, with one replacement for each longest run of bytes that begins
    no character or only its start. -/
def decode (bytes : List UInt8) : List Char :=
  decodeFrom none bytes

end ContactForm.LossyText
