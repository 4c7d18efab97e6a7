import Mathlib.Data.String.Basic
import ContactForm.Json.Printer
import ContactForm.Proofs.Json.Quoting

namespace ContactForm.Json

mutual

/-- The characters that a value is written as. -/
def chars (layout : Layout) : Json → List Char
  | .null => ['n', 'u', 'l', 'l']
  | .bool true => ['t', 'r', 'u', 'e']
  | .bool false => ['f', 'a', 'l', 's', 'e']
  | .number n => Numeral.text n
  | .string s => Quoted.chars s
  | .array [] => ['[', ']']
  | .array (item :: items) =>
    '[' :: (layout.deeper.lineBreak.toList ++ (chars layout.deeper item ++
      (charsItems layout.deeper items ++ (layout.lineBreak.toList ++ [']']))))
  | .object [] => ['\x7b', '\x7d']
  | .object ((key, value) :: members) =>
    '\x7b' :: (layout.deeper.lineBreak.toList ++ (Quoted.chars key ++ (layout.deeper.colon.toList ++
      (chars layout.deeper value ++ (charsMembers layout.deeper members ++
        (layout.lineBreak.toList ++ ['\x7d']))))))

/-- The characters for the elements of a list after its first. -/
def charsItems (layout : Layout) : List Json → List Char
  | [] => []
  | item :: items =>
    ',' :: (layout.lineBreak.toList ++ (chars layout item ++ charsItems layout items))

/-- The characters for the members of an object after its first. -/
def charsMembers (layout : Layout) : List (String × Json) → List Char
  | [] => []
  | (key, value) :: members =>
    ',' :: (layout.lineBreak.toList ++ (Quoted.chars key ++ (layout.colon.toList ++
      (chars layout value ++ charsMembers layout members))))

end

mutual

theorem toList_write (layout : Layout) : (value : Json) → (out : String) →
    (write layout value out).toList = out.toList ++ chars layout value
  | .null, out => by simp [write, chars]
  | .bool true, out => by simp [write, chars]
  | .bool false, out => by simp [write, chars]
  | .number n, out => by simp [write, chars]
  | .string s, out => by simp [write, chars, Quoted.toList_write]
  | .array [], out => by simp [write, chars]
  | .array (item :: items), out => by
    simp [write, chars, toList_writeItems layout.deeper items, toList_write layout.deeper item]
  | .object [], out => by simp [write, chars]
  | .object ((key, value) :: members), out => by
    simp [write, chars, toList_writeMembers layout.deeper members,
      toList_write layout.deeper value, Quoted.toList_write]

theorem toList_writeItems (layout : Layout) : (items : List Json) → (out : String) →
    (writeItems layout items out).toList = out.toList ++ charsItems layout items
  | [], out => by simp [writeItems, charsItems]
  | item :: items, out => by
    simp [writeItems, charsItems, toList_writeItems layout items, toList_write layout item]

theorem toList_writeMembers (layout : Layout) : (members : List (String × Json)) → (out : String) →
    (writeMembers layout members out).toList = out.toList ++ charsMembers layout members
  | [], out => by simp [writeMembers, charsMembers]
  | (key, value) :: members, out => by
    simp [writeMembers, charsMembers, toList_writeMembers layout members,
      toList_write layout value, Quoted.toList_write]

end

theorem toList_pretty (value : Json) : value.pretty.toList = chars (.indented 0) value := by
  simp [pretty, toList_write]

theorem size_pretty (value : Json) : value.pretty.utf8ByteSize = String.utf8Len (chars (.indented 0) value) := by
  rw [← toList_pretty, ← String.utf8ByteSize_ofList, String.ofList_toList]

end ContactForm.Json
