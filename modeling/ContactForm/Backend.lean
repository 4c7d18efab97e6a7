import ContactForm.Loading

namespace ContactForm

/-- Where submissions go on a backend of this machine. -/
def defaultRoute : String := "/submit"

def localUrl (port : UInt16) (route : String) : String :=
  "http://localhost:" ++ port.toNat.repr ++ route

/-- A file question takes files of any type; its other hints stay. -/
def Question.acceptAny (q : Question) : Question :=
  if q.isFile then { q with custom := some ((q.custom.getD []).set "accept" (.string "*")) } else q

namespace Config

/-- Points a form at a backend. -/
def prepare (url : String) (c : Config) : Config :=
  { c with backendUrl := some url, questions := c.questions.map Question.acceptAny }

variable {m : Type → Type} [Monad m] [FileAccess m]

/-- Writes a configuration into a folder under the default name and gives the path of the file. -/
def writeTo (folder : Path) (c : Config) : m (Except ConfigError Path) :=
  let path := folder.join Loading.defaultName
  match Loading.checkPath path with
  | .error e => pure (.error e)
  | .ok () => do
    match ← FileAccess.write path c.pretty.toUTF8 with
    | .error failure => return .error (.io failure.message)
    | .ok () => return .ok path

end Config

end ContactForm
