import ContactForm.Program

namespace ContactForm

/-- The failure of an error number of the operating system, which some calls give with its sign turned. -/
def IoFailure.ofNumber? (number : UInt32) : Option IoFailure :=
  match min number (0 - number) with
  | 2 => some .notFound
  | 20 => some .notFolder
  | 21 => some .isFolder
  | 36 => some .nameTooLong
  | _ => none

/-- An error of another kind keeps its own text, on one line. -/
def IoFailure.ofError (error : IO.Error) : IoFailure :=
  let number : UInt32 :=
    match error with
    | .noFileOrDirectory _ number _ => number
    | .inappropriateType _ number _ => number
    | .invalidArgument _ number _ => number
    | .resourceExhausted _ number _ => number
    | .illegalOperation number _ => number
    | _ => 0
  (ofNumber? number).getD (.other (" ".intercalate ((toString error).splitOn "\n")))

instance : FileAccess IO where
  read path := do
    try return .ok (← IO.FS.readBinFile path.text)
    catch error => return .error (.ofError error)
  write path content := do
    try
      IO.FS.writeBinFile path.text content
      return .ok ()
    catch error => return .error (.ofError error)

end ContactForm

def main (arguments : List String) : IO UInt32 := do
  let override ← IO.getEnv ContactForm.Loading.variableName
  let output ← ContactForm.Program.runArguments (override.map ContactForm.Command.utf8)
    (arguments.map ContactForm.Command.utf8)
  IO.eprint output.stderr
  IO.print output.stdout
  return output.code.toUInt32
