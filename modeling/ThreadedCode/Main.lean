import ThreadedCode.CommandLine.Run

/-!
# The program

`main` runs the command on the files of the system and prints what it has to say.
-/

namespace ThreadedCode

/-- The reason why a file of the system cannot be read or written, if it is a usual one. -/
def FileError.ofSystem? : IO.Error → Option FileError
  | .noFileOrDirectory .. => some .notFound
  | .inappropriateType _ code _ => some (if code = 20 then .notDirectory else .isDirectory)
  | .invalidArgument .. => some .nameTooLong
  | _ => none

def attemptFile {α : Type} (action : IO α) : IO (Except FileError α) := do
  try
    return .ok (← action)
  catch error =>
    match FileError.ofSystem? error with
    | some reason => return .error reason
    | none => throw error

def systemDisk : Disk IO where
  read path := attemptFile do return (← IO.FS.readBinFile path).toList
  write path content := attemptFile (IO.FS.writeBinFile path content.toByteArray)

def Build.Error.text : Build.Error → String
  | .file reason => reason.text
  | .impossiblePath => Build.impossiblePathText
  | .invalidText => "the source is not UTF-8"
  | .compile (.fault diagnostic) => diagnostic.message
  | .compile (.tooManyDigits limit) => limit.message
  | .compile .unencodable => "a string literal cannot be encoded"
  | .compile .absentFlags => "a flag has no bits"
  | .compile .absentText => "a string mark has no text"
  | .compile .unknownLine => "a definition has no line to count from"
  | .render (.tooManyDigits limit) => limit.message
  | .render (.unpack reason) => reason.message
  | .render _ => "the table is inconsistent"
  | .encode .fieldOutOfRange => "a count, a length or an index does not fit 16 bits"
  | .encode .unitOutOfRange => "a code unit does not fit 16 bits"
  | .decode reason => reason.message?.getD "the data is damaged"

def CommandLine.Escape.text : Escape → String
  | .build error => error.text
  | .emptyPath => "there is no path to write to"
  | .emptyOrder => Order.refusal "[]"

end ThreadedCode

open ThreadedCode in
def main (arguments : List String) : IO UInt32 := do
  let response ← CommandLine.run systemDisk arguments
  (← IO.getStdout).putStr response.output
  (← IO.getStderr).putStr response.errors
  match response.outcome with
  | .finished status | .stopped status => return status.toUInt32
  | .escaped reason =>
    (← IO.getStderr).putStr ("dictc: " ++ reason.text ++ "\n")
    return 1
