import BraceTemplate.Tag.Basic

/-!
# Pieces

A template is cut into pieces, text and tags, before any nesting is looked at.
The pieces depend on the symbols alone, and not on options or open blocks.
-/

namespace BraceTemplate

inductive Piece where
  | text (span : Span)
  | tag (tag : Tag)
deriving DecidableEq, Repr

namespace Piece

/-- Takes the symbols in front of the next opening delimiter. -/
def takeText (s : SymbolStream) : List Symbol × SymbolStream :=
  s.takeWhile fun kind => !kind.isOpenDelimiter

/-- The text at the front, if there is any. -/
def readText (s : SymbolStream) : List Piece × SymbolStream :=
  let symbols := takeText s
  ((Span.cover? .text symbols.1).toList.map text, symbols.2)

theorem readText_suffix (s : SymbolStream) : (readText s).2.upcoming <:+ s.upcoming :=
  s.takeWhile_suffix _

/-- Reads a tag, if its kind can be told. -/
def readTag (s : SymbolStream) : Except Fault (Tag × SymbolStream) :=
  match TagKind.classify s with
  | .error fault => .error fault
  | .ok (kind, t) => .ok (Tag.read kind t)

theorem readTag_of_classify {s t : SymbolStream} {kind : TagKind}
    (hkind : TagKind.classify s = .ok (kind, t)) : readTag s = .ok (Tag.read kind t) := by
  rw [readTag, hkind]

theorem length_readTag_lt {s t : SymbolStream} {tag : Tag} (h : ¬ s.current.isEnd)
    (htag : readTag s = .ok (tag, t)) : t.upcoming.length < s.upcoming.length := by
  unfold readTag at htag
  split at htag
  · simp at htag
  · rename_i kind u hu
    simp only [Except.ok.injEq] at htag
    have := Tag.length_read_lt kind (s := u) (by rwa [TagKind.current_of_classify hu])
    rw [htag, TagKind.upcoming_of_classify hu] at this
    exact this

/-- Reads all pieces up to the end. -/
def readAll (s : SymbolStream) : Except Fault (List Piece × SymbolStream) :=
  let front := readText s
  if _h : front.2.current.isEnd then .ok front
  else
    match _htag : readTag front.2 with
    | .error fault => .error fault
    | .ok (first, t) =>
      match readAll t with
      | .error fault => .error fault
      | .ok (pieces, rest) => .ok (front.1 ++ .tag first :: pieces, rest)
termination_by s.upcoming.length
decreasing_by
  exact Nat.lt_of_lt_of_le (length_readTag_lt _h _htag) (readText_suffix s).length_le

end Piece

end BraceTemplate
