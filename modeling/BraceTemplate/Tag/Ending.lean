import BraceTemplate.Diagnostic
import BraceTemplate.Tag.Arguments

/-!
# The end of a tag

A tag ends with its closing delimiter, perhaps with a `~` in front. Anything
else after a `~` is diagnosed once and read as further arguments. A tag that
meets another opening delimiter or the end of the source is not closed.
-/

namespace BraceTemplate

/-- Spans and problems found on the way to the end of a tag. -/
structure Tag.Ending where
  spans : List Span
  problems : List Diagnostic
  rest : SymbolStream

namespace SymbolStream

/-- Reads a symbol of a kind as markup, if it is the current one. -/
def readMark (kind : SymbolKind) (s : SymbolStream) : List Span × SymbolStream :=
  if s.current.kind = kind then ((Span.cover? .metaCode [s.current]).toList, s.advance)
  else ([], s)

/-- The closing delimiter of a tag that was opened raw or not. -/
def readDelimiter (raw : Bool) (s : SymbolStream) : Tag.Ending :=
  let problems :=
    if raw = s.current.kind.isRaw then [] else [⟨.mismatchedDelimiter, s.current.location⟩]
  ⟨(Span.cover? .metaCode [s.current]).toList, problems, s.advance⟩

/-- Whether a tag is left unclosed in front of a symbol. -/
def leavesUnclosed (kind : SymbolKind) : Bool := kind == .eof || kind.isOpenDelimiter

theorem readMark_of_ne {kind : SymbolKind} {s : SymbolStream} (h : s.current.kind ≠ kind) :
    s.readMark kind = ([], s) := by
  simp [readMark, h]

theorem length_readMark_lt {kind : SymbolKind} {s : SymbolStream} (hkind : kind ≠ .eof)
    (h : s.current.kind = kind) :
    (s.readMark kind).2.upcoming.length < s.upcoming.length := by
  simp only [readMark, h, if_true]
  exact length_upcoming_advance (by simpa [Symbol.isEnd, h] using hkind)

theorem readMark_suffix {kind : SymbolKind} (s : SymbolStream) (hkind : kind ≠ .eof) :
    (s.readMark kind).2.upcoming <:+ s.upcoming := by
  by_cases h : s.current.kind = kind
  · simp only [readMark, h, if_true]
    exact advance_suffix (by simpa [Symbol.isEnd, h] using hkind)
  · simp [readMark_of_ne h]

/-- A `~` or else the arguments behind it take at least one symbol. -/
theorem length_readArguments_readMark_lt {s : SymbolStream}
    (hclose : ¬ (s.readMark .tilde).2.current.kind.isCloseDelimiter)
    (hunclosed : ¬ leavesUnclosed (s.readMark .tilde).2.current.kind) :
    (s.readMark .tilde).2.readArguments.2.upcoming.length < s.upcoming.length := by
  by_cases h : s.current.kind = .tilde
  · exact Nat.lt_of_le_of_lt (readArguments_suffix _).length_le
      (length_readMark_lt (by simp) h)
  · rw [readMark_of_ne h] at hclose hunclosed ⊢
    refine length_readArguments_lt ?_
    simp_all [endsArguments, leavesUnclosed]

/-- Reads to the end of a tag. `reported` tells whether stray symbols were
diagnosed already. -/
def readEnding (raw reported : Bool) (s : SymbolStream) : Tag.Ending :=
  let tilde := s.readMark .tilde
  let symbol := tilde.2.current
  if _hclose : symbol.kind.isCloseDelimiter then
    let last := readDelimiter raw tilde.2
    ⟨tilde.1 ++ last.spans, last.problems, last.rest⟩
  else if _hunclosed : leavesUnclosed symbol.kind then
    ⟨tilde.1, [⟨.unclosedTag, symbol.location⟩], tilde.2⟩
  else
    let stray := if reported then [] else [⟨.unexpectedSymbol, symbol.location⟩]
    let arguments := tilde.2.readArguments
    let more := readEnding raw true arguments.2
    ⟨tilde.1 ++ arguments.1 ++ more.spans, stray ++ more.problems, more.rest⟩
termination_by s.upcoming.length
decreasing_by exact length_readArguments_readMark_lt _hclose _hunclosed

theorem readEnding_suffix (raw reported : Bool) (s : SymbolStream) :
    (readEnding raw reported s).rest.upcoming <:+ s.upcoming := by
  fun_induction readEnding raw reported s with
  | case1 reported s tilde symbol hclose last =>
    refine List.IsSuffix.trans (advance_suffix ?_) (readMark_suffix s (by simp))
    intro hend
    have hkind : symbol.kind = .eof := by simpa [Symbol.isEnd] using hend
    simp [hkind, SymbolKind.isCloseDelimiter] at hclose
  | case2 reported s tilde => exact readMark_suffix s (by simp)
  | case3 reported s tilde symbol _ _ stray arguments more ih =>
    exact ih.trans ((readArguments_suffix _).trans (readMark_suffix s (by simp)))

end SymbolStream

end BraceTemplate
