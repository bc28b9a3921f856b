import BraceTemplate.Symbol.Basic

/-!
# Spans

A span is a leaf of the tree: the text of consecutive symbols, with what it is
and where it stands.
-/

namespace BraceTemplate

inductive SpanKind where
  | text
  /-- Delimiters and the marks `#`, `/`, `!` and `~`. -/
  | metaCode
  /-- The name of a tag, or the path of an expression. -/
  | expression
  | whiteSpace
  /-- A positional argument. -/
  | parameter
  /-- An argument with a key. -/
  | map
  | comment
deriving DecidableEq, Repr

namespace SpanKind

def all : List SpanKind :=
  [text, metaCode, expression, whiteSpace, parameter, map, comment]

def name : SpanKind → String
  | text => "Text"
  | metaCode => "MetaCode"
  | expression => "Expression"
  | whiteSpace => "WhiteSpace"
  | parameter => "Parameter"
  | map => "Map"
  | comment => "Comment"

theorem name_inj {k l : SpanKind} : k.name = l.name → k = l := by
  cases k <;> cases l <;> decide

end SpanKind

structure Span where
  kind : SpanKind
  content : String
  location : Location
deriving DecidableEq, Repr

namespace Span

def isEmpty (s : Span) : Bool := s.content.isEmpty

/-- The span that covers consecutive symbols, if they hold any text. -/
def cover? (kind : SpanKind) (symbols : List Symbol) : Option Span :=
  let content := Symbol.joinTexts symbols
  if content.isEmpty then none
  else (Location.hullAll (symbols.map Symbol.location)).map fun l => ⟨kind, content, l⟩

end Span

end BraceTemplate
