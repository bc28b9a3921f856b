import BraceTemplate.Parser
import BraceTemplate.Tree.Outline

/-!
# Dumps

A dump shows the symbols of a source and the outline of its tree. It tells that
there are diagnostics, but not which.
-/

namespace BraceTemplate

namespace Dump

def locationText (l : Location) : String :=
  "Location \x7b start: " ++ toString l.start ++ ", end: " ++ toString l.stop ++ " \x7d"

def symbolLine (s : Symbol) : String :=
  "Symbol \x7b kind: " ++ s.kind.name ++ ", location: " ++ locationText s.location ++
    ", text: " ++ Text.quote s.text ++ " \x7d"

/-- The lines of a dump, each ended by a line break. -/
def lines (source : String) (p : Parse) : List String :=
  ["=== Symbols ==="] ++ (symbols source).map symbolLine ++
    ["", "=== Tree ===", p.root.outline] ++
    if p.isOk then [] else ["", "=== Diagnostics ==="]

end Dump

def dump (source : String) : Except Fault String := do
  let p ← parse source
  return String.join ((Dump.lines source p).map (· ++ "\n"))

end BraceTemplate
