import BraceTemplate.Proofs.Parse.Lossless
import BraceTemplate.Proofs.Pieces.Outside

/-!
# Trees aligned with symbols

The spans of a tree stand for the symbols of its source, group by group. Text is
taken up to an opening delimiter, whatever is in front of it; that this is always
a text symbol alone is due to the tags, which end where the scanner leaves them.
-/

namespace BraceTemplate

namespace Piece

open SymbolStream

/-- A text symbol has a span of its own. -/
theorem aligned_text {x : Symbol} {span : Span} (hkind : x.kind = .text)
    (hspan : Span.cover? .text [x] = some span) : Span.Aligned [span] [x] := by
  have hcover := hspan
  rw [Span.cover?] at hcover
  split at hcover
  · cases hcover
  · cases Option.some.inj hcover
    refine .one ⟨List.cons_ne_nil _ _, rfl, rfl, fun _ => ⟨x, rfl, hkind⟩, ?_, ?_, ?_, ?_, ?_⟩
    · intro y hy _
      rw [List.mem_singleton.1 hy]
      exact ⟨rfl, rfl⟩
    · intro y hy hdelimiter
      rw [List.mem_singleton.1 hy, hkind] at hdelimiter
      cases hdelimiter
    · rintro ⟨⟩
    · rintro ⟨⟩
    · rintro ⟨⟩

theorem aligned_readText {s : SymbolStream} (h : Outside s.upcoming) :
    Span.Aligned ((readText s).1.flatMap spans) (takeText s).1 := by
  rcases (outside_readText h).1 with ⟨htaken, hpieces⟩ | ⟨x, span, htaken, hpieces, hkind, hspan⟩
  · rw [htaken, hpieces]
    exact .nil
  · rw [htaken, hpieces]
    exact aligned_text hkind hspan

/-- What a stream is cut into stands for its symbols. -/
theorem Cut.aligned {s rest : SymbolStream} {pieces : List Piece} (h : Cut s pieces rest)
    (houtside : Outside s.upcoming) : Span.Aligned (pieces.flatMap spans) s.upcoming := by
  induction h with
  | @last s hend =>
    have htext := aligned_readText houtside
    rwa [(readText_takes s).upcoming, upcoming_of_isEnd hend, List.append_nil]
  | @tag s t rest pieces hopen hahead _ ih =>
    have htext := aligned_readText houtside
    have hbehind := (outside_readText houtside).2
    rw [← hahead] at hbehind
    obtain ⟨htag, -, hmore⟩ :=
      Tag.outside_read (Heading.kindOf t.advance.upcoming) hopen hbehind
    have htakes := (Tag.read_takes (Heading.kindOf t.advance.upcoming) hopen).1.upcoming
    rw [(readText_takes s).upcoming, ← hahead, htakes, List.flatMap_append]
    exact htext.append (htag.append (ih hmore))

end Piece

/-- The spans of a tree, in document order, stand for consecutive groups of
symbols of its source, none left out. -/
theorem parse_aligned (source : String) (options : Options) :
    ∃ p, parse source options = .ok p ∧
      Span.Aligned p.root.descendantSpans (symbols source) := by
  obtain ⟨pieces, rest, p, hcut, hparse, hspans, -⟩ := parse_held source options
  have hahead := SymbolStream.upcoming_ofSource source
  have houtside := outside_symbols source
  refine ⟨p, hparse, ?_⟩
  rw [← hahead] at houtside
  rw [hspans, ← hahead]
  exact hcut.aligned houtside

end BraceTemplate
