import ContactForm.Files

namespace ContactForm

/-- A name in a folder, as the bytes it is made of. -/
abbrev Name := List UInt8

/-- A file with its content, or a folder with what it holds under names. -/
inductive Entry where
  | file (content : ByteArray)
  | folder (entries : List (Name × Entry))
deriving Inhabited

/-- A tree of folders, and the one that relative paths start from. -/
structure Disk where
  root : Entry
  working : List Name

/-- The entries passed on the way from the root, the last one first, each with its name. -/
abbrev Trail := List (Name × Entry)

namespace Entry

/-- Puts an entry into the folder at `place` under a name, instead of the one that had it. -/
def put (entry : Entry) (place : List Name) (name : Name) (new : Entry) : Entry :=
  match entry, place with
  | .file content, _ => .file content
  | .folder entries, [] => .folder (entries.filter (·.1 != name) ++ [(name, new)])
  | .folder entries, step :: place =>
    .folder (entries.map fun (key, inner) => (key, if key = step then inner.put place name new else inner))

/-- The entry at the end of a trail. -/
def last (root : Entry) : Trail → Entry
  | [] => root
  | (_, entry) :: _ => entry

def maxNameLength : Nat := 255

/-- Follows the pieces of a path. Each piece has to be found in a folder; no piece and a dot stay there, two dots
    go to the folder around it. -/
def walk (root : Entry) (trail : Trail) : List Name → Except IoFailure Trail
  | [] => .ok trail
  | piece :: pieces =>
    match root.last trail with
    | .file _ => .error .notFolder
    | .folder entries =>
      if piece = [] ∨ piece = Path.dot then walk root trail pieces
      else if piece = Path.dotDot then walk root trail.tail pieces
      else if maxNameLength < piece.length then .error .nameTooLong
      else
        match entries.lookup piece with
        | some entry => walk root ((piece, entry) :: trail) pieces
        | none => .error .notFound

end Entry

namespace Disk

def maxPathLength : Nat := 4095

/-- The pieces of a path that is fit to be followed. -/
def pieces (path : Path) : Except IoFailure (List Name) :=
  if path.bytes.contains 0 then .error .nulByte
  else if path.bytes.isEmpty then .error .notFound
  else if maxPathLength < path.bytes.length then .error .nameTooLong
  else .ok path.pieces

/-- Follows pieces of a path, from the root if the path starts with a separator. -/
def follow (disk : Disk) (path : Path) (pieces : List Name) : Except IoFailure Trail :=
  let start := if path.bytes.head? = some Path.separator then [] else disk.working
  disk.root.walk [] (start ++ pieces)

/-- Puts an entry under a name into the folder at the end of a trail. -/
def put (disk : Disk) (trail : Trail) (name : Name) (new : Entry) : Disk :=
  { disk with root := disk.root.put (trail.map (·.1)).reverse name new }

def read (disk : Disk) (path : Path) : Except IoFailure ByteArray := do
  let trail ← disk.follow path (← pieces path)
  match disk.root.last trail with
  | .file content => .ok content
  | .folder _ => .error .isFolder

def isFolder (disk : Disk) (path : Path) : Bool :=
  match (pieces path).bind (disk.follow path) with
  | .ok trail => (match disk.root.last trail with | .folder _ => true | .file _ => false)
  | .error _ => false

/-- Writes a file: into a folder that is there, in place of a file that was there. -/
def write (disk : Disk) (path : Path) (content : ByteArray) : Except IoFailure Disk := do
  let pieces ← pieces path
  let trail ← disk.follow path pieces.dropLast
  let name := pieces.getLast?.getD []
  match disk.root.last trail with
  | .file _ => .error .notFolder
  | .folder entries =>
    if name = [] ∨ name = Path.dot ∨ name = Path.dotDot then .error .isFolder
    else if Entry.maxNameLength < name.length then .error .nameTooLong
    else
      match entries.lookup name with
      | some (.folder _) => .error .isFolder
      | _ => .ok (disk.put trail name (.file content))

/-- Makes a folder in one that is there. Separators at the end of its path do not count, and a dot or two dots
    name a folder that exists. -/
def makeFolder (disk : Disk) (path : Path) : Except IoFailure Disk := do
  match ((← pieces path).reverse.dropWhile (· == [])) with
  | [] => .error .alreadyExists
  | name :: before =>
    let trail ← disk.follow path before.reverse
    match disk.root.last trail with
    | .file _ => .error .notFolder
    | .folder entries =>
      if name = Path.dot ∨ name = Path.dotDot then .error .alreadyExists
      else if Entry.maxNameLength < name.length then .error .nameTooLong
      else if (entries.lookup name).isSome then .error .alreadyExists
      else .ok (disk.put trail name (.folder []))

/-- Makes a folder where there is none yet, and tells why there is none afterwards. -/
def ensureFolder (disk : Disk) (path : Path) : Disk × Option IoFailure :=
  match disk.makeFolder path with
  | .ok disk => (disk, none)
  | .error failure =>
    if failure = .alreadyExists ∧ disk.isFolder path then (disk, none) else (disk, some failure)

/-- Makes the first folder of a list; where what it lies in is not there, the rest of the list before it. -/
def ensureFolders (disk : Disk) : List Path → Disk × Option IoFailure
  | [] => (disk, none)
  | path :: around =>
    match disk.ensureFolder path with
    | (disk, some .notFound) =>
      match disk.ensureFolders around with
      | (disk, none) => disk.ensureFolder path
      | failed => failed
    | settled => settled

/-- Makes a folder and those that its path leads through; a failure keeps the folders made before it. -/
def makeFolders (disk : Disk) (path : Path) : Disk × Option IoFailure :=
  if path.bytes.isEmpty then (disk, none) else disk.ensureFolders path.ancestors

instance : FileStore Disk where
  read := read
  write := write

end Disk

end ContactForm
