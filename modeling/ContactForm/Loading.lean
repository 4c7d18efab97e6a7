import ContactForm.Files
import ContactForm.Json.Reader
import ContactForm.Validation

namespace ContactForm

/-- Why a configuration cannot be loaded or written. -/
inductive ConfigError where
  | io (detail : String)
  | parse (detail : String)
  | invalid (detail : String)
  | schema (violation : Violation)
deriving DecidableEq, Repr

def ConfigError.kind : ConfigError → String
  | .io _ => "io"
  | .parse _ => "parse"
  | .invalid _ => "invalid"
  | .schema _ => "schema"

def ConfigError.message : ConfigError → String
  | .io detail => "config io error: " ++ detail
  | .parse detail => "config parse error: " ++ detail
  | .invalid detail => "invalid config: " ++ detail
  | .schema violation => "invalid config: " ++ violation.message

/-- What a path or a file can be rejected for before its text is read. -/
inductive Limit where
  | pathLength | componentLength | fileSize | encoding
deriving DecidableEq, Repr

def Limit.message : Limit → String
  | .pathLength => "config path exceeds max length"
  | .componentLength => "config path component too long"
  | .fileSize => "config file exceeds size limit"
  | .encoding => "config file must be utf-8"

def Limit.error (limit : Limit) : ConfigError :=
  .invalid limit.message

namespace Loading

def maxPathLength : Nat := 4096

def maxComponentLength : Nat := 255

def maxFileSize : Nat := 1024 * 1024

def defaultName : String := "config.json"

/-- The environment variable that may name the file to load. -/
def variableName : String := "CONTACT_FORM_CONFIG"

/-- Limits the length of a path and of its components, both in the form they are shown in. -/
def checkPath (path : Path) : Except ConfigError Unit :=
  if maxPathLength < Path.shownLength path.bytes then .error Limit.pathLength.error
  else if path.components.any fun component => maxComponentLength < Path.shownLength component then
    .error Limit.componentLength.error
  else .ok ()

/-- The path to load: the given one, else the value of the environment variable if it is a text, else the default name. -/
def resolve (override : Option (List UInt8)) (path : Option Path) : Except ConfigError Path :=
  match path, override.bind fun bytes => String.fromUTF8? ⟨bytes.toArray⟩ with
  | some path, _ => .ok path
  | none, some value =>
    if maxPathLength < value.utf8ByteSize then .error Limit.pathLength.error else .ok (.ofString value)
  | none, none => .ok (.ofString defaultName)

def parseText (text : String) : Except ConfigError Json :=
  (Json.parse text).mapError fun fault => .parse (fault.message text)

/-- Reads the JSON text that a file holds: its size is looked at first, then its encoding. -/
def parseContent (content : ByteArray) : Except ConfigError Json :=
  if maxFileSize < content.size then .error Limit.fileSize.error
  else
    match String.fromUTF8? content with
    | none => .error Limit.encoding.error
    | some text => parseText text

/-- Checks a document that could be read; one that could not has no warnings. -/
def reviewDocument (document : Except ConfigError Json) : Review ConfigError Config := do
  let document ← document
  (Config.check document).mapError .schema

variable {m : Type → Type} [Monad m] [FileAccess m]

/-- Reads a document from a file without looking at what it says. -/
def readDocument (path : Path) : m (Except ConfigError Json) :=
  match checkPath path with
  | .error e => pure (.error e)
  | .ok () => do
    match ← FileAccess.read path with
    | .error failure => return .error (.io failure.message)
    | .ok content => return parseContent content

end Loading

namespace Config

/-- Reads a configuration from a JSON text. -/
def ofText (text : String) : Review ConfigError Config :=
  Loading.reviewDocument (Loading.parseText text)

variable {m : Type → Type} [Monad m] [FileAccess m]

/-- Loads a configuration from the file at the path that `Loading.resolve` chooses. -/
def load (override : Option (List UInt8)) (path : Option Path) : m (Review ConfigError Config) :=
  match Loading.resolve override path with
  | .error e => pure (.fail e)
  | .ok path => do return Loading.reviewDocument (← Loading.readDocument path)

/-- Loads the configuration that a folder holds under the default name. -/
def loadFrom (folder : Path) : m (Review ConfigError Config) :=
  load none (some (folder.join Loading.defaultName))

end Config

end ContactForm
