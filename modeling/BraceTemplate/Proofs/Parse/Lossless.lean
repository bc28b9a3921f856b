import Mathlib.Data.List.Chain
import BraceTemplate.Proofs.Builder.Held

/-!
# Lossless trees

Every source has a tree, whatever is wrong with it and whatever the options
are. The spans of the tree, in document order, are the source cut into
consecutive pieces: nothing is lost, repeated or moved. So the tree renders the
source, and every block inside it renders the part at its location.
-/

namespace BraceTemplate

/-- Spans cut a source into nonempty pieces that follow each other from its
first byte to its last. -/
structure Tiles (source : String) (spans : List Span) : Prop where
  nonempty : ∀ s ∈ spans, s.content ≠ ""
  slice : ∀ s ∈ spans, s.location.slice? source = some s.content
  first : ∀ s ∈ spans.head?, s.location.start = 0
  next : spans.IsChain fun s t => t.location.start = s.location.stop
  last : ∀ s ∈ spans.getLast?, s.location.stop = Text.byteLength source.toList
  none : spans = [] ↔ source = ""

namespace Stretch

variable {first last : Nat} {spans : List Span}

theorem Follow.start_head? (h : Follow first (spans.map Span.stretch) last) {s : Span}
    (hs : s ∈ spans.head?) : s.location.start = first := by
  cases spans with
  | nil => cases hs
  | cons t spans =>
    cases Option.some.inj hs
    have hlocation : s.location = _ := h.2.1
    rw [hlocation]

theorem Follow.isChain (h : Follow first (spans.map Span.stretch) last) :
    spans.IsChain fun s t => t.location.start = s.location.stop := by
  induction spans generalizing first with
  | nil => exact .nil
  | cons s spans ih =>
    refine List.isChain_cons.2 ⟨?_, ih h.2.2⟩
    intro t ht
    exact h.2.2.start_head? ht

theorem Follow.stop_getLast? (h : Follow first (spans.map Span.stretch) last) {s : Span}
    (hs : s ∈ spans.getLast?) : s.location.stop = last := by
  cases spans with
  | nil => cases hs
  | cons t spans =>
    have hstop := h.stop_getLastD.2
    rw [List.getLast?_cons] at hs
    cases Option.some.inj hs
    rw [← hstop, List.getLastD_map, List.getLastD_eq_getLast?]
    rfl

theorem Follow.content_ne_empty (h : Follow first (spans.map Span.stretch) last) {s : Span}
    (hs : s ∈ spans) : s.content ≠ "" := by
  obtain ⟨before, after, rfl⟩ := List.append_of_mem hs
  rw [List.map_append] at h
  obtain ⟨_, _, hafter⟩ := h.split
  exact hafter.1

/-- Reading the source where some of its spans stand gives what they hold. -/
theorem Follow.slice?_hull {source : String} {before after : List Span}
    (h : Follow 0 ((before ++ spans ++ after).map Span.stretch) last)
    (hsource : chars ((before ++ spans ++ after).map Span.stretch) = source.toList)
    (hne : spans ≠ []) :
    ∃ l, Location.hullAll (spans.map Span.location) = some l ∧
      l.slice? source = some (String.join (spans.map Span.content)) := by
  rw [List.map_append, List.map_append] at h hsource
  obtain ⟨stop, hfront, -⟩ := h.split
  obtain ⟨start, hbefore, hspans⟩ := hfront.split
  have hhull := hspans.hullAll (by simpa using hne)
  rw [List.map_map] at hhull
  refine ⟨⟨start, stop⟩, hhull, ?_⟩
  rw [hbefore.slice? hspans hsource, Option.some.injEq, ← String.toList_inj,
    String.toList_ofList, String.toList_join, chars, List.flatMap_map, List.flatMap_map]
  rfl

/-- Spans that follow each other over a whole source tile it. -/
theorem Follow.tiles {source : String}
    (h : Follow 0 (spans.map Span.stretch) (Text.byteLength source.toList))
    (hsource : chars (spans.map Span.stretch) = source.toList) : Tiles source spans where
  nonempty _ hs := h.content_ne_empty hs
  slice s hs := by
    obtain ⟨before, after, rfl⟩ := List.append_of_mem hs
    have hsplit : before ++ s :: after = before ++ [s] ++ after := by simp
    rw [hsplit] at h hsource
    obtain ⟨l, hl, hslice⟩ := h.slice?_hull hsource (List.cons_ne_nil s [])
    cases Option.some.inj hl
    exact hslice.trans (by simp)
  first _ hs := h.start_head? hs
  next := h.isChain
  last _ hs := h.stop_getLast? hs
  none := by
    rw [← String.toList_eq_nil_iff, ← hsource]
    constructor
    · intro hnil
      rw [hnil]
      rfl
    · intro hnil
      by_contra hne
      exact h.chars_ne_nil (by simpa using hne) hnil

end Stretch

theorem Piece.Cut.spans_ne_nil {source : String} {pieces : List Piece} {rest : SymbolStream}
    (h : Cut (.ofSource source) pieces rest) {piece : Piece} (hpiece : piece ∈ pieces) :
    piece.spans ≠ [] := by
  cases piece with
  | text span => exact List.cons_ne_nil _ _
  | tag tag => exact (h.formed_ofSource hpiece).1.spans_ne_nil

/-- The tree has the spans of all pieces of its source, and no block without any
of them. -/
theorem parse_held (source : String) (options : Options) :
    ∃ pieces rest p, Piece.Cut (.ofSource source) pieces rest ∧ parse source options = .ok p ∧
      p.root.descendantSpans = pieces.flatMap Piece.spans ∧
      Node.AllBlocks Block.Filled p.root.children := by
  obtain ⟨pieces, rest, block, outer, ds, hcut, hplaced, hparse⟩ :=
    parse_eq_closeAll source options
  have hfilled : Builder.Filled (block :: outer) :=
    hplaced.filled (fun _ => hcut.spans_ne_nil) (Node.allBlocks_spans [])
  exact ⟨pieces, rest, _, hcut, hparse, hplaced.descendantSpans _, hfilled.closeAll _ _⟩

/-- The spans of all pieces are the source, and the tree holds them and no block
without any of them. -/
theorem parse_holds (source : String) (options : Options) :
    ∃ p, parse source options = .ok p ∧
      Stretch.Follow 0 (p.root.descendantSpans.map Span.stretch)
        (Text.byteLength source.toList) ∧
      Stretch.chars (p.root.descendantSpans.map Span.stretch) = source.toList ∧
      Node.AllBlocks Block.Filled p.root.children := by
  obtain ⟨pieces, rest, p, hcut, hparse, hspans, hfilled⟩ := parse_held source options
  have hcovers := hcut.covers
  rw [SymbolStream.upcoming_ofSource] at hcovers
  obtain ⟨hfollow, hchars⟩ := hcovers.follow (symbols_follow source)
  rw [← hspans] at hfollow hchars
  exact ⟨p, hparse, hfollow, hchars.trans (chars_symbols source), hfilled⟩

theorem Block.toList_render (b : Block) :
    b.render.toList = Stretch.chars (b.descendantSpans.map Span.stretch) := by
  rw [render, String.toList_join, Stretch.chars, List.flatMap_map, List.flatMap_map]
  rfl

/-- Every source has a tree that holds all of it. -/
theorem parse_lossless (source : String) (options : Options) :
    ∃ p, parse source options = .ok p ∧ Tiles source p.root.descendantSpans ∧
      p.root.render = source ∧
      ∀ b ∈ p.root.descendantBlocks, ∃ l, b.location? = some l ∧
        l.slice? source = some b.render := by
  obtain ⟨p, hparse, hfollow, hchars, hfilled⟩ := parse_holds source options
  refine ⟨p, hparse, hfollow.tiles hchars, ?_, ?_⟩
  · rw [← String.toList_inj, Block.toList_render, hchars]
  · intro b hb
    rw [Block.descendantBlocks_eq] at hb
    obtain ⟨before, after, hsplit⟩ := Node.spansOf_infix hb
    rw [Block.descendantSpans_eq, ← hsplit] at hfollow hchars
    obtain ⟨l, hl, hslice⟩ := hfollow.slice?_hull hchars (hfilled b hb)
    rw [← Block.descendantSpans_eq] at hl hslice
    exact ⟨l, hl, hslice⟩

end BraceTemplate
