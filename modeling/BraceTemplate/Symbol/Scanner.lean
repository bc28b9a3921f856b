import BraceTemplate.Symbol.Lexeme

/-!
# The scanner

A scanner stands at a place in a source and hands out the symbols from there
on. Each step takes one lexeme off the rest, so there are at most as many
symbols as characters. At the end of the source it hands out the end symbol
however often it is asked.
-/

namespace BraceTemplate

structure Scanner where
  rest : List Char
  /-- Byte offset of the rest. -/
  position : Nat
  mode : Mode
deriving DecidableEq, Repr

namespace Scanner

def ofSource (source : String) : Scanner := ⟨source.toList, 0, .content⟩

def isAtEnd (s : Scanner) : Bool := s.rest.isEmpty

/-- Whether a tag was opened and not yet closed. -/
def inTag (s : Scanner) : Bool := s.mode != .content

/-- Characters that the next symbol takes off the rest. -/
def nextText (s : Scanner) : List Char := s.rest.take (Lexeme.next s.mode s.rest).length

/-- The next symbol. -/
def current (s : Scanner) : Symbol :=
  if s.rest.isEmpty then .endOfSource s.position
  else
    { kind := (Lexeme.next s.mode s.rest).kind
      location := ⟨s.position, s.position + Text.byteLength s.nextText⟩
      text := String.ofList s.nextText }

/-- The scanner behind the next symbol. -/
def advance (s : Scanner) : Scanner :=
  if s.rest.isEmpty then s
  else
    let lexeme := Lexeme.next s.mode s.rest
    { rest := s.rest.drop lexeme.length
      position := s.position + Text.byteLength (s.rest.take lexeme.length)
      mode := lexeme.mode }

theorem rest_advance_lt {s : Scanner} (h : s.rest ≠ []) :
    s.advance.rest.length < s.rest.length := by
  have := Lexeme.next_length s.mode h
  simp [advance, h, List.length_drop]
  omega

/-- The symbols before the end symbol. -/
def symbols (s : Scanner) : List Symbol :=
  if _h : s.rest = [] then [] else s.current :: s.advance.symbols
termination_by s.rest.length
decreasing_by exact rest_advance_lt _h

theorem symbols_of_rest_eq_nil {s : Scanner} (h : s.rest = []) : s.symbols = [] := by
  unfold symbols; simp [h]

theorem symbols_of_rest_ne_nil {s : Scanner} (h : s.rest ≠ []) :
    s.symbols = s.current :: s.advance.symbols := by
  rw [symbols]; simp [h]

/-- Only the end of the source gives the end symbol. -/
theorem isEnd_current (s : Scanner) : s.current.isEnd = s.rest.isEmpty := by
  unfold current
  split
  · rename_i h
    rw [h]
    rfl
  · rename_i h
    have hne : s.rest ≠ [] := by simpa using h
    rw [show s.rest.isEmpty = false by simpa using hne]
    exact beq_eq_false_iff_ne.2 (Lexeme.next_kind_ne_eof s.mode hne)

theorem advance_of_rest_eq_nil {s : Scanner} (h : s.rest = []) : s.advance = s := by
  simp [advance, h]

end Scanner

/-- The symbols of a source, without the end symbol. -/
def symbols (source : String) : List Symbol := (Scanner.ofSource source).symbols

end BraceTemplate
