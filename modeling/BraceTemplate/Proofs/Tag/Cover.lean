import BraceTemplate.Proofs.Symbol.Tiling
import BraceTemplate.Tree.Span

/-!
# Spans over symbols

Spans cover symbols if each stands for the next few of them and none is left
out. The kind of a span tells which symbols it may stand for. Spans that cover
symbols which follow each other follow each other too, over the same range and
with the same text.
-/

namespace BraceTemplate

namespace SymbolKind

/-- Whether symbols of the kind are markup of their own. -/
def isMarkup (kind : SymbolKind) : Bool :=
  kind.isDelimiter || kind == hash || kind == slash || kind == bang || kind == tilde

end SymbolKind

namespace Span

def stretch (s : Span) : Stretch := ⟨s.content, s.location⟩

/-- The groups of symbols that a span of a kind may stand for. -/
def Fits : SpanKind → List Symbol → Prop
  | .text, group => ∀ s ∈ group, s.kind.isOpenDelimiter = false
  | .metaCode, group => ∃ s, group = [s] ∧ s.kind.isMarkup = true
  | .whiteSpace, group => ∀ s ∈ group, s.kind = .whitespace
  | .comment, group => ∀ s ∈ group, s.kind = .comment
  | .expression, group => ∀ s ∈ group, s.kind.isDelimiter = false
  | .parameter, group => ∀ s ∈ group, s.kind.isDelimiter = false
  | .map, group => ∀ s ∈ group, s.kind.isDelimiter = false

/-- Groups without any text have no span. -/
inductive Covers : List Span → List Symbol → Prop
  | nil : Covers [] []
  | group {kind : SpanKind} {group : List Symbol} {spans : List Span} {symbols : List Symbol}
      (hfits : Fits kind group) (h : Covers spans symbols) :
      Covers ((cover? kind group).toList ++ spans) (group ++ symbols)

variable {kind : SpanKind} {group symbols more : List Symbol} {spans others : List Span}

theorem Covers.one (hfits : Fits kind group) : Covers (cover? kind group).toList group := by
  have h := Covers.group hfits .nil
  rwa [List.append_nil, List.append_nil] at h

theorem Covers.append (h : Covers spans symbols) (hmore : Covers others more) :
    Covers (spans ++ others) (symbols ++ more) := by
  induction h with
  | nil => exact hmore
  | group hfits _ ih =>
    rw [List.append_assoc, List.append_assoc]
    exact .group hfits ih

theorem kind_of_mem_cover? {s : Span} (h : s ∈ (cover? kind group).toList) : s.kind = kind := by
  rw [Option.mem_toList, cover?] at h
  split at h
  · cases h
  · obtain ⟨l, -, rfl⟩ := Option.map_eq_some_iff.1 h
    rfl

/-- Symbols that follow each other have a span with their text and range. -/
theorem cover?_of_follow {first last : Nat} (hne : group ≠ [])
    (h : Stretch.Follow first (group.map Symbol.stretch) last) :
    cover? kind group = some ⟨kind, Symbol.joinTexts group, ⟨first, last⟩⟩ := by
  have hmap : group.map Symbol.stretch ≠ [] := by simpa using hne
  have hcontent : (Symbol.joinTexts group).isEmpty = false := by
    have hchars := h.chars_ne_nil hmap
    rw [← Symbol.toList_joinTexts, Ne, String.toList_eq_nil_iff] at hchars
    simpa using hchars
  have hhull := h.hullAll hmap
  rw [List.map_map] at hhull
  rw [cover?, if_neg (by simp [hcontent])]
  change (Location.hullAll (group.map (Stretch.location ∘ Symbol.stretch))).map _ = _
  rw [hhull]
  rfl

theorem follow_cover? (kind : SpanKind) {first last : Nat}
    (h : Stretch.Follow first (group.map Symbol.stretch) last) :
    Stretch.Follow first ((cover? kind group).toList.map stretch) last ∧
      Stretch.chars ((cover? kind group).toList.map stretch) =
        Stretch.chars (group.map Symbol.stretch) := by
  by_cases hne : group = []
  · rw [hne] at h ⊢
    exact ⟨h, rfl⟩
  · have hend := h.last_eq
    have hchars := h.chars_ne_nil (by simpa using hne)
    rw [cover?_of_follow hne h]
    rw [← Symbol.toList_joinTexts] at hend hchars ⊢
    refine ⟨⟨?_, ?_, rfl⟩, ?_⟩
    · exact Stretch.text_ne_iff.2 hchars
    · rw [stretch, hend]
    · rw [Option.toList_some, List.map_singleton, Stretch.chars_cons, Stretch.chars_nil,
        List.append_nil]
      rfl

theorem Covers.follow (h : Covers spans symbols) {first last : Nat}
    (hsymbols : Stretch.Follow first (symbols.map Symbol.stretch) last) :
    Stretch.Follow first (spans.map stretch) last ∧
      Stretch.chars (spans.map stretch) = Stretch.chars (symbols.map Symbol.stretch) := by
  induction h generalizing first with
  | nil => exact ⟨hsymbols, rfl⟩
  | @group kind _ _ _ hfits _ ih =>
    rw [List.map_append] at hsymbols
    obtain ⟨middle, hgroup, hrest⟩ := hsymbols.split
    have hspan := follow_cover? kind hgroup
    have hspans := ih hrest
    rw [List.map_append, List.map_append, Stretch.chars_append, Stretch.chars_append]
    exact ⟨hspan.1.append hspans.1, by rw [hspan.2, hspans.2]⟩

/-- Symbols with texts are covered by spans. -/
theorem Covers.ne_nil (h : Covers spans symbols) {first last : Nat}
    (hsymbols : Stretch.Follow first (symbols.map Symbol.stretch) last) (hne : symbols ≠ []) :
    spans ≠ [] := by
  intro hnil
  have hchars := hsymbols.chars_ne_nil (by simpa using hne)
  rw [← (h.follow hsymbols).2, hnil] at hchars
  exact hchars rfl

end Span

end BraceTemplate
