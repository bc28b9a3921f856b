import BraceTemplate.Symbol.Stream

/-!
# Runs

Names and arguments of a tag are runs of symbols. A run ends at a delimiter,
and at a blank or `~` unless that is nested in parentheses, brackets or a pair
of pipes. Closing brackets without an opening one count for nothing.
-/

namespace BraceTemplate

/-- How deep a place in a run is nested. -/
structure Nesting where
  parens : Nat := 0
  brackets : Nat := 0
  inPipes : Bool := false
deriving DecidableEq, Repr

namespace Nesting

def isNested (n : Nesting) : Bool := n.parens != 0 || n.brackets != 0 || n.inPipes

/-- Whether a run ends in front of a symbol. -/
def stopsAt (n : Nesting) (kind : SymbolKind) : Bool :=
  kind.isOpenDelimiter || kind.isCloseDelimiter ||
    ((kind == .whitespace || kind == .tilde) && !n.isNested)

/-- The nesting behind a symbol. -/
def after (n : Nesting) : SymbolKind → Nesting
  | .leftParen => { n with parens := n.parens + 1 }
  | .rightParen => { n with parens := n.parens - 1 }
  | .leftBracket => { n with brackets := n.brackets + 1 }
  | .rightBracket => { n with brackets := n.brackets - 1 }
  | .pipe => { n with inPipes := !n.inPipes }
  | _ => n

def step (n : Nesting) (symbol : Symbol) : Option Nesting :=
  if n.stopsAt symbol.kind then none else some (n.after symbol.kind)

end Nesting

namespace SymbolStream

/-- Takes the run at the front, which may be empty. -/
def takeRun (s : SymbolStream) : List Symbol × SymbolStream := s.takeBy Nesting.step {}

end SymbolStream

end BraceTemplate
