import Mathlib.Data.List.Forall2
import BraceTemplate.Proofs.Symbol.Modal
import BraceTemplate.Proofs.Tag.Markup

/-!
# Spans aligned with symbols

Each span stands for a group of symbols, and markup, blanks, comments and text
are groups of one symbol. For blanks and comments this is so because no two of
them follow each other.
-/

namespace BraceTemplate

namespace Span

/-- A span stands for a group of symbols, with its text and its place. -/
structure Stands (span : Span) (group : List Symbol) : Prop where
  nonempty : group ≠ []
  content : span.content = Symbol.joinTexts group
  location : Location.hullAll (group.map Symbol.location) = some span.location
  text : span.kind = .text → ∃ s, group = [s] ∧ s.kind = .text
  ofText : ∀ s ∈ group, s.kind = .text → span.kind = .text ∧ group = [s]
  ofDelimiter : ∀ s ∈ group, s.kind.isDelimiter = true → span.kind = .metaCode ∧ group = [s]
  metaCode : span.kind = .metaCode → ∃ s, group = [s] ∧ s.kind.isMarkup = true
  whiteSpace : span.kind = .whiteSpace → ∃ s, group = [s] ∧ s.kind = .whitespace
  comment : span.kind = .comment → ∃ s, group = [s] ∧ s.kind = .comment

/-- Spans stand for consecutive groups that make up all symbols. -/
def Aligned (spans : List Span) (symbols : List Symbol) : Prop :=
  ∃ groups, List.Forall₂ Stands spans groups ∧ groups.flatten = symbols

variable {spans more : List Span} {symbols others group : List Symbol} {kind : SpanKind}

theorem Aligned.nil : Aligned [] [] := ⟨[], .nil, rfl⟩

theorem Aligned.append (h : Aligned spans symbols) (hmore : Aligned more others) :
    Aligned (spans ++ more) (symbols ++ others) := by
  obtain ⟨groups, hstands, rfl⟩ := h
  obtain ⟨groups', hstands', rfl⟩ := hmore
  exact ⟨groups ++ groups', List.rel_append hstands hstands', List.flatten_append⟩

theorem Aligned.one {span : Span} (h : span.Stands group) : Aligned [span] group :=
  ⟨[group], .cons h .nil, by simp⟩

theorem Aligned.stands {span : Span} (h : Aligned [span] group) : span.Stands group := by
  obtain ⟨groups, hstands, rfl⟩ := h
  cases hstands with
  | cons hfirst hrest =>
    cases hrest
    rwa [List.flatten_singleton]

/-- A group of symbols that all are of a kind which never follows itself has at
most one symbol. -/
theorem eq_singleton_of_isChain {only : SymbolKind} (hne : group ≠ [])
    (hall : ∀ s ∈ group, s.kind = only) (hchain : group.IsChain Symbol.Before)
    (honly : ∀ s t : Symbol, s.Before t → s.kind = only → t.kind ≠ only) :
    ∃ s, group = [s] ∧ s.kind = only := by
  match group, hne with
  | [s], _ => exact ⟨s, rfl, hall s (by simp)⟩
  | s :: t :: rest, _ =>
    have hnext := (List.isChain_cons.1 hchain).1 t rfl
    exact absurd (hall t (by simp)) (honly s t hnext (hall s (by simp)))

/-- Delimiters are markup of their own. -/
theorem Fits.of_isDelimiter (hfits : Fits kind group) (hkind : kind ≠ .text) {s : Symbol}
    (hs : s ∈ group) (hdelimiter : s.kind.isDelimiter = true) : kind = .metaCode ∧ group = [s] := by
  have hnone : ∀ only : SymbolKind, only.isDelimiter = false → s.kind ≠ only := by
    rintro only honly rfl
    rw [honly] at hdelimiter
    cases hdelimiter
  have hinside : (∀ s ∈ group, s.kind.isDelimiter = false) → False := by
    intro hall
    rw [hall s hs] at hdelimiter
    cases hdelimiter
  cases kind with
  | text => exact absurd rfl hkind
  | metaCode =>
    obtain ⟨t, rfl, -⟩ := hfits
    rw [List.mem_singleton.1 hs]
    exact ⟨rfl, rfl⟩
  | whiteSpace => exact absurd (hfits s hs) (hnone _ rfl)
  | comment => exact absurd (hfits s hs) (hnone _ rfl)
  | expression => exact (hinside hfits).elim
  | parameter => exact (hinside hfits).elim
  | map => exact (hinside hfits).elim

/-- A group inside a tag has a span that stands for it. -/
theorem aligned_cover? {first last : Nat} (hfits : Fits kind group) (hkind : kind ≠ .text)
    (htext : ∀ s ∈ group, s.kind ≠ .text) (hchain : group.IsChain Symbol.Before)
    (hfollow : Stretch.Follow first (group.map Symbol.stretch) last) :
    Aligned (cover? kind group).toList group := by
  by_cases hne : group = []
  · subst hne
    exact .nil
  · have hhull := hfollow.hullAll (by simpa using hne)
    rw [List.map_map] at hhull
    rw [cover?_of_follow hne hfollow]
    refine .one ⟨hne, rfl, hhull, ?_, ?_, ?_, ?_, ?_, ?_⟩
    · exact fun h => absurd h hkind
    · exact fun s hs h => absurd h (htext s hs)
    · exact fun s hs h => hfits.of_isDelimiter hkind hs h
    · rintro rfl
      exact hfits
    · rintro rfl
      exact eq_singleton_of_isChain hne hfits hchain fun s t h => h.whitespace
    · rintro rfl
      refine eq_singleton_of_isChain hne hfits hchain fun s t h hs ht => ?_
      rw [h.comment ht] at hs
      cases hs

theorem aligned_of_covers (h : Covers spans symbols) (hspans : ∀ s ∈ spans, s.kind ≠ .text)
    (htext : ∀ s ∈ symbols, s.kind ≠ .text) (hchain : symbols.IsChain Symbol.Before)
    {first last : Nat} (hfollow : Stretch.Follow first (symbols.map Symbol.stretch) last) :
    Aligned spans symbols := by
  induction h generalizing first with
  | nil => exact .nil
  | @group kind group spans symbols hfits _ ih =>
    rw [List.map_append] at hfollow
    obtain ⟨middle, hgroup, hrest⟩ := hfollow.split
    obtain ⟨hfront, hback, -⟩ := List.isChain_append.1 hchain
    refine .append ?_ (ih (fun s hs => hspans s (List.mem_append_right _ hs))
      (fun s hs => htext s (List.mem_append_right _ hs)) hback hrest)
    by_cases hne : group = []
    · subst hne
      exact .nil
    · refine aligned_cover? hfits ?_ (fun s hs => htext s (List.mem_append_left _ hs)) hfront hgroup
      have hcover := @cover?_of_follow kind group first middle hne hgroup
      exact hspans _ (List.mem_append_left _ (by rw [hcover]; exact List.mem_singleton_self _))

end Span

namespace Tag

open SymbolStream

theorem kind_of_mem_readBody {kind : TagKind} {s : SymbolStream} {span : Span}
    (h : span ∈ (readBody kind s).spans) : span.kind ≠ .text := by
  have hnamed : span ∈ (readNamed s).spans → span.kind ≠ .text := by
    intro h
    rcases List.mem_append.1 h with h | h
    · simp [Span.kind_of_mem_cover? h]
    · rcases kind_of_mem_readArguments h with h | h | h <;> simp [h]
  cases kind with
  | comment => simp [Span.kind_of_mem_cover? h]
  | _ => exact hnamed h

/-- No span of a tag is one of text. -/
theorem kind_of_mem_spans_read {kind : TagKind} {s : SymbolStream} {span : Span}
    (h : span ∈ (read kind s).1.spans) : span.kind ≠ .text := by
  rcases List.mem_append.1 h with h | h
  · rcases List.mem_append.1 h with h | h
    · rcases List.mem_append.1 h with h | h
      · rcases List.mem_append.1 h with h | h
        · simp [Span.kind_of_mem_cover? h]
        · simp [kind_of_mem_readMark h]
      · simp [kind_of_mem_readMarker h]
    · exact kind_of_mem_readBody h
  · rcases kind_of_mem_readEnding h with h | h | h | h <;> simp [h]

/-- A tag holds no text, and behind it is what may be outside of tags. -/
theorem modal_extent {raw : Bool} {symbols rest : List Symbol} (h : Modal (some raw) symbols)
    (hrest : symbols = extent symbols ++ rest) :
    (∀ s ∈ extent symbols, s.kind ≠ .text) ∧ Modal none rest := by
  induction symbols with
  | nil =>
    obtain rfl : rest = [] := hrest.symm
    exact ⟨List.forall_mem_nil _, .nil none⟩
  | cons s symbols ih =>
    cases h with
    | cons hsuits hturns htail =>
      have htext : s.kind ≠ .text := fun htext => by cases hsuits.text htext
      cases hturns with
      | opens _ hopen =>
        rw [extent, if_pos hopen] at hrest ⊢
        obtain rfl : s :: symbols = rest := hrest
        exact ⟨List.forall_mem_nil _,
          .cons ⟨fun _ => .inr hopen, fun _ => rfl⟩ (.opens none hopen) htail⟩
      | closes hclose _ =>
        have hopen := SymbolKind.not_isOpenDelimiter_of_isCloseDelimiter hclose
        rw [extent, hopen, if_neg Bool.false_ne_true, if_pos hclose] at hrest ⊢
        obtain rfl : symbols = rest := (List.cons.inj hrest).2
        exact ⟨fun t ht => by rwa [List.mem_singleton.1 ht], htail⟩
      | stays _ hinside =>
        obtain ⟨hopen, hclose⟩ := SymbolKind.isDelimiter_eq_false.1 hinside
        rw [extent, hopen, hclose, if_neg Bool.false_ne_true, if_neg Bool.false_ne_true] at hrest ⊢
        obtain ⟨hinner, hback⟩ := ih htail (List.cons.inj hrest).2
        refine ⟨fun t ht => ?_, hback⟩
        rcases List.mem_cons.1 ht with rfl | ht
        · exact htext
        · exact hinner t ht

end Tag

end BraceTemplate
