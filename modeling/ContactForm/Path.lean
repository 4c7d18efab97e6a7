import ContactForm.Json.Fault
import ContactForm.LossyText

namespace ContactForm

/-- The path of a file or folder, as the bytes it is made of. -/
structure Path where
  bytes : List UInt8
deriving DecidableEq, Repr

namespace Path

def separator : UInt8 := 0x2f

def dot : List UInt8 := [0x2e]

def dotDot : List UInt8 := [0x2e, 0x2e]

def ofString (text : String) : Path :=
  ⟨text.toUTF8.data.toList⟩

/-- The path as it is shown. -/
def text (path : Path) : String :=
  String.ofList (LossyText.decode path.bytes)

/-- The bytes between separators. -/
def pieces (path : Path) : List (List UInt8) :=
  path.bytes.splitOn separator

/-- The pieces that lead from one place to another. -/
def components (path : Path) : List (List UInt8) :=
  path.pieces.filter fun piece => piece != [] && piece != dot

/-- The path, and the paths of the folders that it leads through, the nearest first. -/
def ancestors (path : Path) : List Path :=
  let lead := if path.bytes.head? = some separator then [separator] else []
  let components := path.components
  let leading (n : Nat) : Path := ⟨lead ++ [separator].intercalate (components.take n)⟩
  path :: ((List.range (components.length - 1)).reverse.map fun n => leading (n + 1))

/-- The path of `name` in a folder; it gets a separator where the folder's path does not end in one. -/
def join (folder : Path) (name : String) : Path :=
  let tail := (ofString name).bytes
  match folder.bytes.getLast? with
  | none => ⟨tail⟩
  | some last => ⟨folder.bytes ++ (if last = separator then tail else separator :: tail)⟩

/-- How many bytes the shown form of some bytes takes. -/
def shownLength (bytes : List UInt8) : Nat :=
  byteCount (LossyText.decode bytes)

end Path

end ContactForm
