import BraceTemplate.Proofs.Moving
import BraceTemplate.Proofs.Pieces.Outside
import BraceTemplate.Proofs.Tag.Editing

/-!
# Pieces by symbols

The pieces of a source can be read off the list of its symbols: a text symbol is
a piece, and so is the tag at an opening delimiter. Pieces are edited with their
symbols, and where all tags are closed, what is behind adds pieces and changes
none.
-/

namespace BraceTemplate

namespace Piece

open SymbolStream

/-- The pieces that start at the symbols of a list, in a source with an end. -/
inductive ReadOff (stop : Nat) : List Symbol → List Piece → Prop
  | nil : ReadOff stop [] []
  | text {s : Symbol} {rest : List Symbol} {pieces : List Piece} {span : Span}
      (hkind : s.kind = .text) (hspan : Span.cover? .text [s] = some span)
      (h : ReadOff stop rest pieces) : ReadOff stop (s :: rest) (.text span :: pieces)
  | tag {s : Symbol} {rest : List Symbol} {pieces : List Piece} {tag : Tag}
      (hopen : s.kind.isOpenDelimiter = true) (hread : Tag.ReadAt stop ⟨s, rest⟩ tag)
      (h : ReadOff stop rest pieces) : ReadOff stop (s :: rest) (.tag tag :: pieces)
  | inside {s : Symbol} {rest : List Symbol} {pieces : List Piece}
      (hkind : s.kind ≠ .text) (hopen : s.kind.isOpenDelimiter = false)
      (h : ReadOff stop rest pieces) : ReadOff stop (s :: rest) pieces

namespace ReadOff

variable {stop stop' d : Nat} {s : Symbol} {symbols rest back : List Symbol}
  {pieces more : List Piece}

theorem append_inside {inner : List Symbol} (h : ReadOff stop symbols pieces)
    (hinner : ∀ x ∈ inner, x.kind ≠ .text ∧ x.kind.isOpenDelimiter = false) :
    ReadOff stop (inner ++ symbols) pieces := by
  induction inner with
  | nil => exact h
  | cons x inner ih =>
    obtain ⟨htext, hopen⟩ := hinner x List.mem_cons_self
    exact .inside htext hopen (ih fun y hy => hinner y (List.mem_cons_of_mem x hy))

section Inversion
variable (h : ReadOff stop (s :: rest) pieces)
include h

theorem of_text (hkind : s.kind = .text) :
    ∃ span others, pieces = .text span :: others ∧ Span.cover? .text [s] = some span ∧
      ReadOff stop rest others := by
  cases h with
  | text _ hspan h => exact ⟨_, _, rfl, hspan, h⟩
  | tag hopen _ _ =>
    rw [hkind] at hopen
    cases hopen
  | inside hother _ _ => exact absurd hkind hother

theorem of_tag (hopen : s.kind.isOpenDelimiter = true) :
    ∃ t others, pieces = .tag t :: others ∧ Tag.ReadAt stop ⟨s, rest⟩ t ∧
      ReadOff stop rest others := by
  cases h with
  | text hkind _ _ =>
    rw [hkind] at hopen
    cases hopen
  | tag _ hread h => exact ⟨_, _, rfl, hread, h⟩
  | inside _ hother _ =>
    rw [hopen] at hother
    cases hother

theorem of_inside (hkind : s.kind ≠ .text) (hopen : s.kind.isOpenDelimiter = false) :
    ReadOff stop rest pieces := by
  cases h with
  | text hother _ _ => exact absurd hother hkind
  | tag hother _ _ =>
    rw [hopen] at hother
    cases hother
  | inside _ _ h => exact h

end Inversion

/-- No piece starts inside a tag. -/
theorem of_append_inside {inner : List Symbol} (h : ReadOff stop (inner ++ symbols) pieces)
    (hinner : ∀ x ∈ inner, x.kind ≠ .text ∧ x.kind.isOpenDelimiter = false) :
    ReadOff stop symbols pieces := by
  induction inner with
  | nil => exact h
  | cons x inner ih =>
    obtain ⟨htext, hopen⟩ := hinner x List.mem_cons_self
    exact ih (of_inside h htext hopen) fun y hy => hinner y (List.mem_cons_of_mem x hy)

/-- The spans of text are of that kind. -/
theorem kind_of_text {span : Span} (h : ReadOff stop symbols pieces)
    (hspan : .text span ∈ pieces) : span.kind = .text := by
  induction h with
  | nil => cases hspan
  | text _ hcover _ ih =>
    rcases List.mem_cons.1 hspan with heq | hspan
    · cases heq
      exact Span.kind_of_mem_cover? (Option.mem_toList.2 hcover)
    · exact ih hspan
  | tag _ _ _ ih => exact ih ((List.mem_cons.1 hspan).resolve_left nofun)
  | inside _ _ _ ih => exact ih hspan

/-- Pieces are edited with their symbols, as long as no tag loses anything but
markup, and more symbols behind make more pieces. -/
theorem edit {e : Edit} (h : ReadOff stop symbols pieces)
    (h' : ReadOff stop' (symbols.filterMap (Symbol.edit? e) ++ back) more)
    (hgone : ∀ s ∈ symbols, e.gone? = some s.location → s.kind = .tilde)
    (hechoes : ∀ o ∈ openings symbols,
      EchoesBehind e stop stop' o.behind (o.behind.filterMap (Symbol.edit? e) ++ back))
    (hspared : ∀ tag, .tag tag ∈ pieces → tag.Spared e) :
    ∃ others, more = pieces.map (Piece.edit e) ++ others ∧ ReadOff stop' back others := by
  induction h generalizing more with
  | nil => exact ⟨more, rfl, h'⟩
  | @text s rest pieces span hkind hspan _ ih =>
    rw [List.forall_mem_cons] at hgone
    have hkept : e.gone? ≠ some s.location := fun h => by
      cases hkind.symm.trans (hgone.1 h)
    have hlater : openings (s :: rest) = openings rest := by rw [openings, hkind]; rfl
    rw [hlater] at hechoes
    rw [List.filterMap_cons_some (Symbol.edit?_of_ne hkept), List.cons_append] at h'
    obtain ⟨span', others, rfl, hspan', hrest⟩ := of_text h' hkind
    obtain ⟨later, rfl, hback⟩ := ih hrest hgone.2 hechoes fun tag htag =>
      hspared tag (List.mem_cons_of_mem _ htag)
    have hedited := Span.cover?_edit (e := e) .text [s]
    rw [List.map_singleton, hspan', hspan] at hedited
    cases Option.some.inj hedited
    exact ⟨later, rfl, hback⟩
  | @tag s rest pieces tag hopen hread _ ih =>
    rw [List.forall_mem_cons] at hgone
    have hkept : e.gone? ≠ some s.location := fun h => by
      rw [hgone.1 h] at hopen
      cases hopen
    rw [openings_cons hopen, List.forall_mem_cons] at hechoes
    rw [List.filterMap_cons_some (Symbol.edit?_of_ne hkept), List.cons_append] at h'
    obtain ⟨tag', others, rfl, hread', hrest⟩ := of_tag h' hopen
    obtain ⟨later, rfl, hback⟩ := ih hrest hgone.2 hechoes.2 fun tag htag =>
      hspared tag (List.mem_cons_of_mem _ htag)
    have hedited := hread.edit hread' rfl hkept hechoes.1 (hspared tag List.mem_cons_self)
    exact ⟨later, by rw [hedited]; rfl, hback⟩
  | @inside s rest pieces hkind hopen _ ih =>
    rw [List.forall_mem_cons] at hgone
    have hlater : openings (s :: rest) = openings rest := by rw [openings, hopen]; rfl
    rw [hlater] at hechoes
    refine ih ?_ hgone.2 hechoes hspared
    cases hedit : s.edit? e with
    | none => rwa [List.filterMap_cons_none hedit] at h'
    | some t =>
      rw [List.filterMap_cons_some hedit, List.cons_append] at h'
      obtain ⟨l, -, rfl⟩ := Option.map_eq_some_iff.1 hedit
      exact of_inside h' hkind hopen

/-- Pieces move with their symbols, and more symbols behind make more pieces. -/
theorem move (h : ReadOff stop symbols pieces)
    (h' : ReadOff stop' (symbols.map (Symbol.move d) ++ back) more)
    (henough : (∀ o ∈ openings symbols, ∃ x ∈ o.behind, x.kind.isDelimiter = true) ∨
      back = [] ∧ stop' = stop + d) :
    ∃ others, more = pieces.map (Piece.move d) ++ others ∧ ReadOff stop' back others := by
  rw [← Symbol.filterMap_shift] at h'
  rw [← Piece.edit_shift]
  refine edit h h' (fun _ _ hgone => absurd hgone (Edit.gone?_shift d _)) ?_ fun tag _ =>
    ⟨Edit.spares_shift d _, fun span _ => .inr (Edit.spares_shift d _)⟩
  intro o ho
  have hkept : ∀ x ∈ o.behind, (Edit.shift d).gone? ≠ some x.location :=
    fun _ _ => Edit.gone?_shift d _
  rw [Symbol.filterMap_edit? hkept]
  exact .same (echoes_of_kept hkept (henough.imp_left fun h => h o ho))

end ReadOff

/-- Pieces that are cut off a stream can be read off its symbols. -/
theorem Cut.readOff {stop : Nat} {s rest : SymbolStream} {pieces : List Piece}
    (h : Cut s pieces rest) (houtside : Outside s.upcoming)
    (htags : List.Forall₂ (Tag.ReadAt stop) (openings s.upcoming) (pieces.filterMap tag?)) :
    ReadOff stop s.upcoming pieces := by
  have hfront : ∀ {t : SymbolStream} {others : List Piece}, Outside t.upcoming →
      ReadOff stop (readText t).2.upcoming others →
      ReadOff stop t.upcoming ((readText t).1 ++ others) := by
    intro t others houtside hothers
    rw [(readText_takes t).upcoming]
    rcases (outside_readText houtside).1 with ⟨htaken, hpieces⟩ |
      ⟨x, span, htaken, hpieces, hkind, hspan⟩
    · rw [htaken, hpieces]
      exact hothers
    · rw [htaken, hpieces]
      exact .text hkind hspan hothers
  induction h with
  | @last s hend =>
    have hlast := @hfront s [] houtside (by rw [upcoming_of_isEnd hend]; exact .nil)
    rwa [List.append_nil] at hlast
  | @tag s t rest pieces hopen hahead _ ih =>
    have hbehind := (outside_readText houtside).2
    have hnotEnd := Symbol.not_isEnd_of_isOpenDelimiter hopen
    rw [← hahead] at hbehind
    obtain ⟨-, hinner, hmore⟩ :=
      Tag.outside_read (Heading.kindOf t.advance.upcoming) hopen hbehind
    have hsplit := Tag.upcoming_advance hopen (Heading.kindOf t.advance.upcoming)
    have hlater := (congrArg openings hsplit).trans
      (openings_append (fun _ => Tag.isOpenDelimiter_of_mem_extent) _)
    have hopenings : openings s.upcoming = ⟨t.current, t.advance.upcoming⟩ ::
        openings (Tag.read (Heading.kindOf t.advance.upcoming) t).2.upcoming := by
      rw [(readText_takes s).upcoming, openings_append fun _ => isOpenDelimiter_of_mem_takeText,
        ← hahead, upcoming_of_not_isEnd hnotEnd, openings_cons hopen, hlater]
    rw [hopenings, List.filterMap_append, tags_readText, List.nil_append] at htags
    cases htags with
    | cons hread hrest =>
      refine hfront houtside ?_
      rw [← hahead, upcoming_of_not_isEnd hnotEnd]
      refine .tag hopen hread ?_
      rw [hsplit]
      refine (ih hmore hrest).append_inside fun x hx => ⟨hinner x hx, ?_⟩
      exact Tag.isOpenDelimiter_of_mem_extent hx

/-- A source is cut into the pieces that can be read off its symbols. -/
theorem readAll_readOff (source : String) :
    ∃ pieces rest, readAll (.ofSource source) = .ok (pieces, rest) ∧
      Cut (.ofSource source) pieces rest ∧
      ReadOff (Text.byteLength source.toList) (symbols source) pieces := by
  obtain ⟨pieces, rest, hread, hcut, htags⟩ := readAll_ofSource source
  have houtside := outside_symbols source
  rw [← upcoming_ofSource] at houtside htags
  have hoff := hcut.readOff houtside htags
  rw [upcoming_ofSource] at hoff
  exact ⟨pieces, rest, hread, hcut, hoff⟩

end Piece

end BraceTemplate
