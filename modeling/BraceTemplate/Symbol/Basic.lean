import BraceTemplate.Location

/-!
# Symbols

A symbol is a stretch of the source with its kind and place. Literal text, the
delimiters of tags and everything between them become symbols, blanks included,
so that the texts of all symbols make up the source.
-/

namespace BraceTemplate

inductive SymbolKind where
  | openDelimiter
  | rawOpenDelimiter
  | closeDelimiter
  | rawCloseDelimiter
  | hash
  | slash
  | bang
  | tilde
  | assign
  | whitespace
  | identifier
  | keyword
  | leftBrace
  | rightBrace
  | leftBracket
  | rightBracket
  | leftParen
  | rightParen
  | pipe
  | string
  | number
  | comment
  | text
  /-- A quoted literal without its closing quote. -/
  | error
  /-- The end of the source. -/
  | eof
deriving DecidableEq, Repr

namespace SymbolKind

def all : List SymbolKind :=
  [openDelimiter, rawOpenDelimiter, closeDelimiter, rawCloseDelimiter, hash, slash, bang, tilde,
   assign, whitespace, identifier, keyword, leftBrace, rightBrace, leftBracket, rightBracket,
   leftParen, rightParen, pipe, string, number, comment, text, error, eof]

def name : SymbolKind → String
  | openDelimiter => "OpenDelimiter"
  | rawOpenDelimiter => "RawOpenDelimiter"
  | closeDelimiter => "CloseDelimiter"
  | rawCloseDelimiter => "RawCloseDelimiter"
  | hash => "Hash"
  | slash => "Slash"
  | bang => "Bang"
  | tilde => "Tilde"
  | assign => "Assign"
  | whitespace => "Whitespace"
  | identifier => "Identifier"
  | keyword => "Keyword"
  | leftBrace => "LeftBrace"
  | rightBrace => "RightBrace"
  | leftBracket => "LeftBracket"
  | rightBracket => "RightBracket"
  | leftParen => "LeftParen"
  | rightParen => "RightParen"
  | pipe => "Pipe"
  | string => "String"
  | number => "Number"
  | comment => "Comment"
  | text => "Text"
  | error => "Error"
  | eof => "Eof"

def isOpenDelimiter : SymbolKind → Bool
  | openDelimiter | rawOpenDelimiter => true
  | _ => false

def isCloseDelimiter : SymbolKind → Bool
  | closeDelimiter | rawCloseDelimiter => true
  | _ => false

/-- Whether the kind is one of the delimiters with three braces. -/
def isRaw : SymbolKind → Bool
  | rawOpenDelimiter | rawCloseDelimiter => true
  | _ => false

end SymbolKind

/-- Words that are keywords rather than identifiers. -/
def keywords : List String := ["true", "false", "null", "undefined", "else", "as"]

structure Symbol where
  kind : SymbolKind
  location : Location
  text : String
deriving DecidableEq, Repr

namespace Symbol

/-- The symbol that marks the end of the source. -/
def endOfSource (offset : Nat) : Symbol := ⟨.eof, .point offset, ""⟩

def isEnd (s : Symbol) : Bool := s.kind == .eof

/-- The source text covered by consecutive symbols. -/
def joinTexts (symbols : List Symbol) : String :=
  String.join (symbols.map text)

end Symbol

end BraceTemplate
