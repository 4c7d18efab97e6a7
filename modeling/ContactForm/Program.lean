import ContactForm.Backend
import ContactForm.Command
import ContactForm.ConfigSchema
import ContactForm.Example

namespace ContactForm

/-- What a run of the program leaves: its exit code and the texts on its two outputs. -/
structure Output where
  code : UInt8
  stdout : String
  stderr : String
deriving DecidableEq, Repr

namespace Output

def success (stdout : String) : Output := ⟨0, stdout, ""⟩

/-- A failure is told on one line. -/
def failure (message : String) : Output := ⟨1, "", message ++ "\n"⟩

def usage : Output := ⟨2, "", "usage: contact-form config validate|normalize|prepare|schema|example\n"⟩

/-- Writes the lines of warnings before whatever else the run told. -/
def after (warnings : List Warning) (output : Output) : Output :=
  { output with stderr := String.join (warnings.map Warning.line) ++ output.stderr }

end Output

namespace Program

def versionLine : String := "contact-form 0.1.0\n"

def summary (c : Config) : String :=
  let count := c.questions.length
  let noun := if count = 1 then "question" else "questions"
  s!"config valid ({count} {noun})\n"

variable {m : Type → Type} [Monad m] [FileAccess m]

/-- Loads a configuration and goes on with it; a failure to load it is the end of the run. -/
def withConfig (override : Option (List UInt8)) (path : Option Path) (next : Config → m Output) : m Output := do
  let review ← Config.load override path
  match review.outcome with
  | .error e => return (Output.failure ("config load failed: " ++ e.message)).after review.warnings
  | .ok config => return (← next config).after review.warnings

/-- Carries out a command; `override` is the value of the environment variable. -/
def run (override : Option (List UInt8)) : Command → m Output
  | .version => return .success versionLine
  | .schema => return .success (Config.schema.toJson.pretty ++ "\n")
  | .exampleDocument => return .success Config.exampleText
  | .validate path => withConfig override path fun config => return .success (summary config)
  | .normalize path => withConfig override path fun config => return .success (config.pretty ++ "\n")
  | .prepare path port route out =>
    withConfig override path fun config => do
      let config := config.prepare (localUrl port (route.getD defaultRoute))
      match ← config.writeTo out with
      | .error e => return .failure ("failed to write config: " ++ e.message)
      | .ok path => return .success ("prepared config written to " ++ path.text ++ "\n")

/-- Carries out what the arguments ask for. -/
def runArguments (override : Option (List UInt8)) (arguments : List Command.Argument) : m Output :=
  match Command.ofArguments? arguments with
  | none => return .usage
  | some command => run override command

end Program

end ContactForm
