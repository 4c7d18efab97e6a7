import ContactForm.Path

namespace ContactForm

/-- Why a file cannot be read or written. -/
inductive IoFailure where
  | notFound | notFolder | isFolder | alreadyExists | nameTooLong | nulByte
  | other (text : String)
deriving DecidableEq, Repr

def IoFailure.message : IoFailure → String
  | .notFound => "No such file or directory (os error 2)"
  | .alreadyExists => "File exists (os error 17)"
  | .notFolder => "Not a directory (os error 20)"
  | .isFolder => "Is a directory (os error 21)"
  | .nameTooLong => "File name too long (os error 36)"
  | .nulByte => "file name contained an unexpected NUL byte"
  | .other text => text

/-- A way to read files and to write them as a whole. -/
class FileAccess (m : Type → Type) where
  read : Path → m (Except IoFailure ByteArray)
  write : Path → ByteArray → m (Except IoFailure Unit)

/-- A state that holds files. -/
class FileStore (σ : Type) where
  read : σ → Path → Except IoFailure ByteArray
  write : σ → Path → ByteArray → Except IoFailure σ

/-- Access to the files of a state; a write that fails leaves them as they are. -/
instance {σ : Type} [FileStore σ] : FileAccess (StateM σ) where
  read path := fun store => (FileStore.read store path, store)
  write path content := fun store =>
    match FileStore.write store path content with
    | .ok store => (.ok (), store)
    | .error failure => (.error failure, store)

end ContactForm
