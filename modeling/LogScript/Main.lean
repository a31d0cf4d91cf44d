import LogScript.CommandLine.Run

/-!
The program: reads the file its arguments name, writes what the run gives, and exits with its
code.
-/

namespace LogScript.CommandLine

/-- The contents of a file, if it can be read as text. -/
def readContents (file : List Char) : IO (Option (List Char)) := do
  try
    return some (← IO.FS.readFile (String.ofList file)).toList
  catch _ =>
    return none

end LogScript.CommandLine

open LogScript.CommandLine

def main (arguments : List String) : IO UInt32 := do
  let request := Request.ofArguments (arguments.map String.toList)
  let contents ← match request.file? with
    | some file => readContents file
    | none => pure none
  let result := request.perform contents
  IO.print (String.ofList result.output)
  match result.message with
  | some message => IO.eprintln ("Error: " ++ String.ofList message)
  | none => if result.exitCode = 2 then IO.eprintln "error: invalid arguments; try --help"
  return result.exitCode.toUInt32
