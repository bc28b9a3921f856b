import BraceTemplate.Builder

/-!
# Reports

A report presents a diagnostic: a headline, labels that point into the source
and perhaps a help line. To draw a report on a source is the work of a renderer,
and nothing here depends on how one does it. What can be read off a drawing is an
excerpt.

One renderer is at hand to run reports with. It takes offsets as numbers of
characters, so that a label may point beyond the source; such labels are left
out, and with all labels the place and the help go too. The text of a label
stands under a line of the source, so a label that fits but ends on no line is
shown without its text.
-/

namespace BraceTemplate

inductive Severity where
  | error
  | warning
deriving DecidableEq, Repr

def Severity.name : Severity → String
  | error => "Error"
  | warning => "Warning"

inductive Colour where
  | red
  | yellow
  | blue
deriving DecidableEq, Repr

def Colour.name : Colour → String
  | red => "Red"
  | yellow => "Yellow"
  | blue => "Blue"

structure Label where
  location : Location
  text : String
  colour : Colour
deriving DecidableEq, Repr

structure Report where
  severity : Severity
  message : String
  /-- Where the report stands. -/
  location : Location
  labels : List Label
  help : Option String
deriving DecidableEq, Repr

namespace Report

/-- The labels of a diagnostic; the first stands at its own location. -/
def labelsOf (d : Diagnostic) : List Label :=
  match d.problem with
  | .unbalancedTag expected _ openedAt =>
    let opening := openedAt.toList.map fun l => ⟨l, "`" ++ expected ++ "` opened here", .blue⟩
    ⟨d.location, "expected `" ++ expected ++ "`", .red⟩ :: opening
  | .unexpectedCloseTag _ => [⟨d.location, "nothing to close", .red⟩]
  | .unclosedBlock _ => [⟨d.location, "block opened here", .red⟩]
  | .unclosedTag => [⟨d.location, "expected `\x7d\x7d` here", .red⟩]
  | .mismatchedDelimiter => [⟨d.location, "closing delimiter", .yellow⟩]
  | .unexpectedSymbol => [⟨d.location, "unexpected", .red⟩]

/-- What to do about a problem, where that is known. -/
def helpFor : Problem → Option String
  | .unbalancedTag expected actual _ => some ("rename `" ++ actual ++ "` to `" ++ expected ++ "`")
  | .unexpectedCloseTag _ => none
  | .unclosedBlock name => some ("add `\x7b\x7b/" ++ name ++ "\x7d\x7d`")
  | .unclosedTag => none
  | .mismatchedDelimiter =>
    some "`\x7b\x7b\x7b` pairs with `\x7d\x7d\x7d` and `\x7b\x7b` with `\x7d\x7d`"
  | .unexpectedSymbol => some "`~` may only appear next to a delimiter"

/-- Only a wrong pair of delimiters is no error. -/
def severityOf : Problem → Severity
  | .mismatchedDelimiter => .warning
  | _ => .error

def ofDiagnostic (d : Diagnostic) : Report :=
  { severity := severityOf d.problem
    message := d.problem.message
    location := d.location
    labels := labelsOf d
    help := helpFor d.problem }

end Report

/-- What can be read off a report that is drawn on a source. -/
structure Excerpt where
  severity : Severity
  /-- The message up to its first line break. -/
  headline : String
  place : Option String
  /-- The labels whose text stands under a line. -/
  labels : List Label
  help : Option String
deriving DecidableEq, Repr

/-- Draws a report under a file name on a source. -/
abbrev Renderer := Report → String → String → Excerpt

/-- The drawing of a diagnostic. -/
def Diagnostic.render (renderer : Renderer) (d : Diagnostic) (filename source : String) :
    Excerpt :=
  renderer (Report.ofDiagnostic d) filename source

/-- The drawings of all diagnostics, one after another. -/
def Parse.renderAll (renderer : Renderer) (p : Parse) (filename source : String) :
    List Excerpt :=
  p.diagnostics.map fun d => d.render renderer filename source

/-! ### A renderer -/

namespace Label

/-- Whether the label has a place on a source of `count` characters. -/
def fits (count : Nat) (label : Label) : Bool :=
  label.location.start ≤ count && (label.location.isEmpty || label.location.stop ≤ count + 1)

/-- Whether the label stops within the first `count` characters. -/
def stopsBy (count : Nat) (label : Label) : Bool := label.location.stop ≤ count

end Label

namespace Excerpt

/-- The position before character number `n`. Lines end behind a line break and
no line follows the last one, so the end of a source lies in its last line. -/
def positionAt? (cs : List Char) (n : Nat) : Option Position :=
  if cs.length < n then none
  else if n = cs.length ∧ cs.getLast? = some '\n' then
    let p := Position.after cs.dropLast
    some { p with column := p.column + 1 }
  else some (.after (cs.take n))

/-- File name, line and column. -/
def placeText (filename : String) (p : Position) : String :=
  filename ++ ":" ++ toString p.line ++ ":" ++ toString p.column

end Excerpt

/-- Shows a report by characters. A position that is not known is shown with
question marks, and labels that come later are shown first. -/
def Report.excerpt : Renderer := fun r filename source =>
  let cs := source.toList
  let shown := r.labels.any (·.fits cs.length)
  { severity := r.severity
    headline := String.ofList (r.message.toList.takeWhile (· != '\n'))
    place :=
      if shown then
        some (((Excerpt.positionAt? cs r.location.start).map (Excerpt.placeText filename)).getD
          (filename ++ ":?:?"))
      else none
    labels := (r.labels.filter (·.stopsBy cs.length)).reverse
    help := if shown then r.help else none }

def Diagnostic.excerpt (d : Diagnostic) (filename source : String) : Excerpt :=
  d.render Report.excerpt filename source

def Parse.excerpts (p : Parse) (filename source : String) : List Excerpt :=
  p.renderAll Report.excerpt filename source

end BraceTemplate
