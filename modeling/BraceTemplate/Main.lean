import BraceTemplate.Dump

/-!
# Command line

Reads a template from standard input and dumps it to standard output.
Diagnostics go to standard error.
-/

namespace BraceTemplate

/-- The text of a stream up to its end. -/
partial def readAll (input : IO.FS.Stream) (soFar : String) : IO String := do
  let line ← input.getLine
  if line.isEmpty then return soFar else readAll input (soFar ++ line)

end BraceTemplate

def main : IO UInt32 := do
  let source ← BraceTemplate.readAll (← IO.getStdin) ""
  match BraceTemplate.parse source, BraceTemplate.dump source with
  | .ok p, .ok text =>
    IO.print text
    for d in p.diagnostics do
      IO.eprintln d.display
    return 0
  | .error fault, _ | _, .error fault =>
    IO.eprintln fault.message
    return 1
