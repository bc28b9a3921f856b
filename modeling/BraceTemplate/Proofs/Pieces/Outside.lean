import BraceTemplate.Proofs.Openings
import BraceTemplate.Proofs.Tag.Aligned

/-!
# Between tags

Pieces are cut where the scanner is outside of tags. Reading text and tags leads
from one such place to the next: in front of an opening delimiter is one text
symbol at most, and behind a tag is what the scanner left it for.
-/

namespace BraceTemplate

/-- Symbols that a scanner gives from a place outside of tags on. -/
structure Outside (symbols : List Symbol) : Prop where
  modal : Modal none symbols
  chain : symbols.IsChain Symbol.Before
  follow : ∃ first last, Stretch.Follow first (symbols.map Symbol.stretch) last

theorem outside_symbols (source : String) : Outside (symbols source) where
  modal := (Scanner.ofSource source).modal_symbols
  chain := (Scanner.ofSource source).isChain_symbols
  follow := ⟨0, _, symbols_follow source⟩

namespace Outside

variable {symbols front back : List Symbol}

theorem of_append (h : Outside (front ++ back)) (hmodal : Modal none back) : Outside back where
  modal := hmodal
  chain := (List.isChain_append.1 h.chain).2.1
  follow := by
    obtain ⟨first, last, hfollow⟩ := h.follow
    rw [List.map_append] at hfollow
    obtain ⟨middle, -, hback⟩ := hfollow.split
    exact ⟨middle, last, hback⟩

/-- A text symbol is alone, and text is all that is in front of a tag. -/
theorem text (h : Outside (front ++ back))
    (hfront : ∀ x ∈ front, x.kind.isOpenDelimiter = false) :
    (front = [] ∨ ∃ x, front = [x] ∧ x.kind = .text) ∧ Outside back := by
  have hmodal := h.modal
  match front with
  | [] => exact ⟨.inl rfl, h⟩
  | x :: more =>
    cases hmodal with
    | cons hsuits hturns hrest =>
      have htext : x.kind = .text := by
        refine (hsuits.outside rfl).resolve_right ?_
        rw [hfront x List.mem_cons_self]
        exact Bool.false_ne_true
      rw [htext] at hturns
      obtain rfl := hturns.eq_of_isDelimiter rfl
      cases more with
      | nil => exact ⟨.inr ⟨x, rfl, htext⟩, h.of_append hrest⟩
      | cons y more =>
        -- behind text is an opening delimiter, which is not in front
        have hnext := ((List.isChain_cons.1 h.chain).1 y rfl).text htext
        rw [hfront y (by simp)] at hnext
        cases hnext

/-- Every symbol has a text, and so a span. -/
theorem cover? {x : Symbol} (h : Outside symbols) (hx : x ∈ symbols) (kind : SpanKind) :
    ∃ span : Span, Span.cover? kind [x] = some span := by
  obtain ⟨first, last, hfollow⟩ := h.follow
  obtain ⟨before, after, rfl⟩ := List.append_of_mem hx
  rw [← List.singleton_append, List.map_append, List.map_append] at hfollow
  obtain ⟨start, -, hrest⟩ := hfollow.split
  obtain ⟨stop, hone, -⟩ := hrest.split
  exact ⟨_, Span.cover?_of_follow (List.cons_ne_nil x []) hone⟩

end Outside

open SymbolStream

/-- The spans of a tag stand for its symbols, none of which is text. -/
theorem Tag.outside_read (kind : TagKind) {s : SymbolStream}
    (hopen : s.current.kind.isOpenDelimiter = true) (h : Outside s.upcoming) :
    Span.Aligned (read kind s).1.spans (s.current :: extent s.advance.upcoming) ∧
      (∀ x ∈ extent s.advance.upcoming, x.kind ≠ .text) ∧ Outside (read kind s).2.upcoming := by
  obtain ⟨htakes, hcovers⟩ := read_takes kind hopen
  have hahead := htakes.upcoming
  have hbehind := upcoming_of_not_isEnd (Symbol.not_isEnd_of_isOpenDelimiter hopen)
  have hinside : Modal (some s.current.kind.isRaw) s.advance.upcoming := by
    have hmodal := h.modal
    rw [hbehind] at hmodal
    cases hmodal with
    | cons _ hturns hrest =>
      cases hturns with
      | opens => exact hrest
      | stays _ hother =>
        rw [(SymbolKind.isDelimiter_eq_false.1 hother).1] at hopen
        cases hopen
  obtain ⟨hinner, hrest⟩ := modal_extent hinside (List.cons.inj (hbehind.symm.trans hahead)).2
  obtain ⟨first, last, hfollow⟩ := h.follow
  rw [hahead] at h
  rw [hahead, List.map_append] at hfollow
  obtain ⟨middle, htag, -⟩ := hfollow.split
  refine ⟨?_, hinner, h.of_append hrest⟩
  refine Span.aligned_of_covers hcovers (fun _ => kind_of_mem_spans_read) ?_
    (List.isChain_append.1 h.chain).1 htag
  intro x hx htext
  rcases List.mem_cons.1 hx with rfl | hx
  · rw [htext] at hopen
    cases hopen
  · exact hinner x hx htext

/-- Nothing is read in front of a tag, or one text symbol. -/
theorem Piece.outside_readText {s : SymbolStream} (h : Outside s.upcoming) :
    ((takeText s).1 = [] ∧ (readText s).1 = [] ∨
      ∃ x span, (takeText s).1 = [x] ∧ (readText s).1 = [.text span] ∧ x.kind = .text ∧
        Span.cover? .text [x] = some span) ∧ Outside (readText s).2.upcoming := by
  have htakes := (readText_takes s).upcoming
  rw [htakes] at h
  obtain ⟨htaken, hrest⟩ := h.text fun _ => isOpenDelimiter_of_mem_takeText
  refine ⟨?_, hrest⟩
  rcases htaken with hnil | ⟨x, hx, hkind⟩
  · left
    refine ⟨hnil, ?_⟩
    change ((Span.cover? .text (takeText s).1).toList).map text = []
    rw [hnil]
    rfl
  · right
    obtain ⟨span, hspan⟩ := h.cover? (by rw [hx]; exact List.mem_cons_self) .text
    refine ⟨x, span, hx, ?_, hkind, hspan⟩
    change ((Span.cover? .text (takeText s).1).toList).map text = _
    rw [hx, hspan]
    rfl

end BraceTemplate
