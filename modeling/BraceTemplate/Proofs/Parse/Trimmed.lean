import BraceTemplate.Proofs.Builder.Editing
import BraceTemplate.Proofs.Pieces.Moving

/-!
# Parses without a `~`

A `~` next to a delimiter asks for blanks to be trimmed, and that is all: a source
without it, if its other symbols stay what they are, has the same tree and the
same diagnostics, but for the span of the `~` and the places behind it.
-/

namespace BraceTemplate

/-- The edit that takes a symbol of a single byte out. -/
abbrev Symbol.takeOut (s : Symbol) : Edit := .takeOut s.location.start

/-- A `~` among the symbols of a source. -/
structure TildeAt (source : String) (before : List Symbol) (tilde : Symbol)
    (after : List Symbol) : Prop where
  split : symbols source = before ++ tilde :: after
  kind : tilde.kind = .tilde

/-- Between the symbols is the place right behind an opening delimiter, and no
`~` comes next. -/
structure Leads (before after : List Symbol) : Prop where
  delimiter : ∃ s ∈ before.getLast?, s.kind.isOpenDelimiter = true
  next : ∀ s ∈ after.head?, s.kind ≠ .tilde

/-- Between the symbols is the place right in front of a closing delimiter, and
no `~` comes before. -/
structure Trails (before after : List Symbol) : Prop where
  delimiter : ∃ s ∈ after.head?, s.kind.isCloseDelimiter = true
  last : ∀ s ∈ before.getLast?, s.kind ≠ .tilde

namespace TildeAt

variable {source trimmed : String} {before after : List Symbol} {tilde : Symbol}
  (h : TildeAt source before tilde after)
include h

theorem text : tilde.text = "~" := by
  have hmem : tilde ∈ symbols source := by
    rw [h.split]
    exact List.mem_append_right _ List.mem_cons_self
  refine spelled_of_mem_symbols hmem "~" ?_
  rw [h.kind]
  rfl

theorem follow : Stretch.Follow 0 (before.map Symbol.stretch ++
    tilde.stretch :: after.map Symbol.stretch) (Text.byteLength source.toList) := by
  have hfollow := symbols_follow source
  rwa [h.split, List.map_append, List.map_cons] at hfollow

theorem location : tilde.location = ⟨tilde.location.start, tilde.location.start + 1⟩ := by
  obtain ⟨middle, -, -, hlocation, -⟩ := h.follow.split
  change tilde.location = ⟨middle, middle + Text.byteLength tilde.text.toList⟩ at hlocation
  rw [h.text] at hlocation
  rw [hlocation]
  rfl

theorem start_next : ∀ s ∈ after.head?, s.location.start = tilde.location.stop := by
  intro s hs
  cases after with
  | nil => cases hs
  | cons x after =>
    cases Option.some.inj hs
    obtain ⟨middle, -, hbehind⟩ := h.follow.split
    exact congrArg Location.start hbehind.2.2.2.1

theorem takenOut : tilde.TakenOut tilde.takeOut :=
  ⟨h.kind, h.text, congrArg some h.location.symm⟩

/-- All other symbols are spared. -/
theorem spares : ∀ s ∈ before ++ after, tilde.takeOut.Spares s.location := by
  intro s hs
  have hothers := h.follow.spares_takeOut h.location
  rw [← List.map_append] at hothers
  exact hothers s.stretch (List.mem_map_of_mem hs)

theorem kept : ∀ s ∈ before ++ after,
    tilde.takeOut.gone? ≠ some s.location :=
  fun s hs => (h.spares s hs).ne_gone

theorem kind_of_gone {s : Symbol} (hs : s ∈ symbols source)
    (hgone : tilde.takeOut.gone? = some s.location) : s.kind = .tilde := by
  rw [h.split, List.mem_append, List.mem_cons] at hs
  rcases hs with hs | rfl | hs
  · exact absurd hgone (h.kept s (List.mem_append_left _ hs))
  · exact h.kind
  · exact absurd hgone (h.kept s (List.mem_append_right _ hs))

theorem filterMap_symbols : (symbols source).filterMap
    (Symbol.edit? tilde.takeOut) =
      (before ++ after).map (Symbol.edit tilde.takeOut) := by
  rw [h.split, List.filterMap_append,
    List.filterMap_cons_none (Symbol.edit?_of_eq h.takenOut.gone), ← List.filterMap_append,
    Symbol.filterMap_edit? h.kept]

/-- Symbols that stay what they are have the places that they are edited to. -/
theorem symbols_trimmed (hsame : (symbols trimmed).map (fun s => (s.kind, s.text)) =
      (before ++ after).map fun s => (s.kind, s.text)) :
    symbols trimmed = (symbols source).filterMap
        (Symbol.edit? tilde.takeOut) ∧
      Text.byteLength trimmed.toList =
        tilde.takeOut.offset (Text.byteLength source.toList) := by
  have hfollow := (symbols_follow source).edit (e := tilde.takeOut) (by
    intro s hs
    obtain ⟨x, hx, rfl⟩ := List.mem_map.1 hs
    rw [h.split, List.mem_append, List.mem_cons] at hx
    rcases hx with hx | rfl | hx
    · exact .inl (h.spares x (List.mem_append_left _ hx))
    · exact .inr h.takenOut.gone
    · exact .inl (h.spares x (List.mem_append_right _ hx)))
  rw [Edit.offset_takeOut_of_le (Nat.zero_le _), ← Symbol.stretch_edit?] at hfollow
  have hsymbols := Symbol.eq_of_follow (symbols_follow trimmed) hfollow (by
    rw [hsame, h.filterMap_symbols, List.map_map]
    rfl)
  refine ⟨hsymbols, ?_⟩
  have hlast := (symbols_follow trimmed).last_eq
  rw [hsymbols] at hlast
  rw [hlast, ← hfollow.last_eq]

/-- An opening delimiter is behind the `~` or in front of it. -/
theorem openings_cases {o : Opening} (ho : o ∈ openings (symbols source)) :
    o.behind ⊆ after ∨ ∃ front inner, before = front ++ o.delimiter :: inner ∧
      o.behind = inner ++ tilde :: after := by
  have hopen := isOpenDelimiter_of_mem_openings ho
  have hne : tilde ≠ o.delimiter := by
    intro heq
    rw [← heq, h.kind] at hopen
    cases hopen
  obtain ⟨front, hsplit⟩ := exists_append_of_mem_openings ho
  rw [h.split, List.append_eq_append_iff] at hsplit
  obtain ⟨middle, -, hbehind⟩ | ⟨middle, hbefore, hbehind⟩ := hsplit
  · cases middle with
    | nil => exact absurd (List.cons.inj hbehind).1 hne
    | cons x middle =>
      left
      rw [(List.cons.inj hbehind).2]
      exact List.subset_append_of_subset_right _ (List.subset_cons_self _ _)
  · cases middle with
    | nil => exact absurd (List.cons.inj hbehind).1.symm hne
    | cons x middle =>
      obtain ⟨hx, hbehind⟩ := List.cons.inj hbehind
      rw [← hx] at hbefore
      exact .inr ⟨front, middle, hbefore, hbehind⟩

section Echoes
variable {stop stop' : Nat} (hstop : stop' = tilde.takeOut.offset stop)
include hstop

/-- Behind the `~` nothing changes. -/
theorem echoes_of_subset {behind : List Symbol} (hbehind : behind ⊆ after) :
    Echoes tilde.takeOut stop stop' behind (behind.filterMap (Symbol.edit? tilde.takeOut)) := by
  have hkept : ∀ s ∈ behind, tilde.takeOut.gone? ≠ some s.location :=
    fun s hs => h.kept s (List.mem_append_right _ (hbehind hs))
  rw [Symbol.filterMap_edit? hkept, ← List.append_nil (List.map _ _)]
  exact echoes_of_kept hkept (.inr ⟨rfl, hstop⟩)

/-- Behind each opening delimiter symbols are echoed. -/
theorem echoes (hplace : Leads before after ∨ Trails before after) {o : Opening}
    (ho : o ∈ openings (symbols source)) :
    EchoesBehind tilde.takeOut stop stop' o.behind
      (o.behind.filterMap (Symbol.edit? tilde.takeOut)) := by
  have hafter := h.echoes_of_subset hstop (List.Subset.refl after)
  have hgone := Symbol.edit?_of_eq h.takenOut.gone
  rcases h.openings_cases ho with hbehind | ⟨front, inner, rfl, hbehind⟩
  · exact .same (h.echoes_of_subset hstop hbehind)
  · have hinner : ∀ s ∈ inner, tilde.takeOut.gone? ≠ some s.location :=
      fun s hs => h.kept s (by simp [hs])
    rw [hbehind, List.filterMap_append, Symbol.filterMap_edit? hinner,
      List.filterMap_cons_none hgone]
    have hback (hne : inner ≠ []) : (front ++ o.delimiter :: inner).getLast? = inner.getLast? := by
      obtain ⟨x, rest, rfl⟩ := List.exists_cons_of_ne_nil hne
      rw [List.getLast?_append_of_ne_nil _ (List.cons_ne_nil _ _), List.getLast?_cons_cons]
    rcases hplace with ⟨⟨s, hs, hopen⟩, hnext⟩ | ⟨⟨s, hs, hclose⟩, hlast⟩
    · by_cases hne : inner = []
      · rw [hne]
        exact .leading h.takenOut hnext hafter
      · -- the delimiter in front of the `~` is a later one
        rw [hback hne] at hs
        refine .same (echoes_of_delimiter hinner ⟨s, List.mem_of_mem_getLast? hs, ?_⟩)
        rw [SymbolKind.isDelimiter, hopen, Bool.true_or]
    · obtain ⟨rest, rfl⟩ : ∃ rest, after = s :: rest := by
        cases after with
        | nil => cases hs
        | cons x rest => exact ⟨rest, by rw [Option.some.inj hs]⟩
      have hkept := h.kept s (by simp)
      rw [List.filterMap_cons_some (Symbol.edit?_of_ne hkept)]
      refine .same (Echoes.append hinner ?_ fun x hx htilde => ?_)
      · exact .trailing _ _ h.takenOut hclose hkept (h.start_next s hs)
      · rw [hback (by rintro rfl; cases hx)] at hlast
        exact absurd htilde (hlast x hx)

end Echoes

section Tags
variable {pieces : List Piece}
  (htags : List.Forall₂ (Tag.ReadAt (Text.byteLength source.toList)) (openings (symbols source))
    (pieces.filterMap Piece.tag?))
include htags

/-- Right behind an opening delimiter the `~` is markup. -/
theorem exists_span_of_leads (hplace : Leads before after) :
    ∃ span ∈ pieces.flatMap Piece.spans,
      span.kind = .metaCode ∧ span.location = tilde.location := by
  obtain ⟨⟨delimiter, hlast, hopen⟩, -⟩ := hplace
  obtain ⟨front, rfl⟩ := List.getLast?_eq_some_iff.1 hlast
  have ho := mem_openings front hopen (tilde :: after)
  rw [← List.singleton_append, ← List.append_assoc, ← h.split] at ho
  obtain ⟨tag, htag, hread⟩ := Tag.exists_tag_of_mem htags ho
  obtain ⟨piece, hpiece, htag⟩ := List.mem_filterMap.1 htag
  refine ⟨⟨.metaCode, tilde.text, tilde.location⟩, List.mem_flatMap.2 ⟨piece, hpiece, ?_⟩, rfl, rfl⟩
  cases piece with
  | text span => cases htag
  | tag t =>
    cases Option.some.inj htag
    exact hread.tilde_mem rfl h.kind (by rw [h.text]; simp)

/-- A tag of which nothing but the `~` is taken out is spared, and its markup is
edited. -/
theorem edited_of_mem {tag : Tag} (htag : .tag tag ∈ pieces)
    (hspans : ∀ span ∈ tag.spans, tilde.takeOut.Spares span.location ∨
      span.kind = .metaCode ∧ tilde.takeOut.gone? = some span.location) :
    tag.Spared tilde.takeOut ∧ ∃ l, tag.markup? = some l ∧
      (tag.edit tilde.takeOut).markup? = some (l.edit tilde.takeOut) := by
  obtain ⟨o, ho, hread⟩ := Tag.exists_readAt_of_mem htags (List.mem_filterMap.2 ⟨_, htag, rfl⟩)
  have hopen := isOpenDelimiter_of_mem_openings ho
  obtain ⟨front, hsplit⟩ := exists_append_of_mem_openings ho
  have hfollow := symbols_follow source
  rw [hsplit, List.map_append] at hfollow
  obtain ⟨first, -, hbehind⟩ := hfollow.split
  obtain ⟨last, htiles⟩ := hread.follow hbehind hopen
  have hkept : tilde.takeOut.gone? ≠ some o.delimiter.location := by
    intro hgone
    have hkind := h.kind_of_gone (by rw [hsplit]; simp) hgone
    rw [hkind] at hopen
    cases hopen
  refine ⟨hread.spared hbehind fun span hspan => ?_, Tag.markup?_edit htiles ?_ ?_⟩
  · exact (hspans span hspan).symm.imp_left And.left
  · exact fun span hspan => (hspans span hspan).imp_right And.right
  · exact ⟨_, hread.delimiter_mem hbehind.1, hkept⟩

end Tags

/-- Where the `~` is a span of its own, all other spans are spared. -/
theorem spares_span {spans : List Span} {last : Nat}
    (hfollow : Stretch.Follow 0 (spans.map Span.stretch) last)
    (hspan : ∃ span ∈ spans, span.kind = .metaCode ∧ span.location = tilde.location) :
    ∀ span ∈ spans, tilde.takeOut.Spares span.location ∨
      span.kind = .metaCode ∧ tilde.takeOut.gone? = some span.location := by
  obtain ⟨mark, hmark, hkind, hlocation⟩ := hspan
  obtain ⟨front, back, rfl⟩ := List.append_of_mem hmark
  rw [List.map_append, List.map_cons] at hfollow
  have hothers := hfollow.spares_takeOut (hlocation.trans h.location)
  rw [← List.map_append] at hothers
  intro span hmem
  rw [List.mem_append, List.mem_cons] at hmem
  rcases hmem with hmem | rfl | hmem
  · exact .inl (hothers span.stretch (List.mem_map_of_mem (List.mem_append_left _ hmem)))
  · exact .inr ⟨hkind, by rw [hlocation]; exact h.takenOut.gone⟩
  · exact .inl (hothers span.stretch (List.mem_map_of_mem (List.mem_append_right _ hmem)))

/-- The trimmed source is cut into the same pieces, edited. -/
theorem readAll_trimmed {pieces : List Piece} {rest : SymbolStream}
    (hread : Piece.readAll (.ofSource source) = .ok (pieces, rest))
    (hplace : Leads before after ∨ Trails before after ∧
      ∃ span ∈ pieces.flatMap Piece.spans, span.kind = .metaCode ∧ span.location = tilde.location)
    (hsame : (symbols trimmed).map (fun s => (s.kind, s.text)) =
      (before ++ after).map fun s => (s.kind, s.text)) :
    (∃ rest', Piece.readAll (.ofSource trimmed) =
        .ok (pieces.map (Piece.edit tilde.takeOut), rest')) ∧
      (∀ span, .text span ∈ pieces → tilde.takeOut.gone? ≠ some span.location) ∧
      ∀ tag, .tag tag ∈ pieces → ∃ l, tag.markup? = some l ∧
        (tag.edit tilde.takeOut).markup? = some (l.edit tilde.takeOut) := by
  obtain ⟨_, _, hread', hcut, htags⟩ := Piece.readAll_ofSource source
  cases hread.symm.trans hread'
  have hmark := hplace.elim (h.exists_span_of_leads htags) And.right
  have hcovers := hcut.covers
  rw [SymbolStream.upcoming_ofSource] at hcovers
  have hspans := h.spares_span (hcovers.follow (symbols_follow source)).1 hmark
  have hpieces {tag : Tag} (htag : .tag tag ∈ pieces) :=
    h.edited_of_mem htags htag fun span hspan =>
      hspans span (List.mem_flatMap.2 ⟨_, htag, hspan⟩)
  have houtside := outside_symbols source
  rw [← SymbolStream.upcoming_ofSource] at houtside htags
  have hoff := hcut.readOff houtside htags
  rw [SymbolStream.upcoming_ofSource] at hoff
  refine ⟨?_, fun span hspan => ?_, fun tag htag => (hpieces htag).2⟩
  · obtain ⟨pieces', rest', htrimmed, -, hoff'⟩ := Piece.readAll_readOff trimmed
    obtain ⟨hsymbols, hstop⟩ := h.symbols_trimmed hsame
    rw [hsymbols, hstop, ← List.append_nil (List.filterMap _ _)] at hoff'
    obtain ⟨others, rfl, hnone⟩ := hoff.edit hoff' (fun _ => h.kind_of_gone)
      (fun o ho => by
        rw [List.append_nil]
        exact h.echoes rfl (hplace.imp_right And.left) ho)
      fun _ htag => (hpieces htag).1
    cases hnone
    rw [List.append_nil] at htrimmed
    exact ⟨rest', htrimmed⟩
  · have hkind := hoff.kind_of_text hspan
    rcases hspans span (List.mem_flatMap.2 ⟨_, hspan, List.mem_singleton_self _⟩) with
      hspared | ⟨hmeta, -⟩
    · exact hspared.ne_gone
    · cases hkind.symm.trans hmeta

end TildeAt

/-- A source without a `~` next to a delimiter has the parse of the source with
it, but for its span and with the places behind it moved to the front by one
byte, if the other symbols stay what they are. -/
theorem parse_trimmed (front back : String) (options : Options) {before after : List Symbol}
    {tilde : Symbol} (htilde : TildeAt (front ++ "~" ++ back) before tilde after)
    (hstart : tilde.location.start = Text.byteLength front.toList) :
    ∃ p, parse (front ++ "~" ++ back) options = .ok p ∧
      (Leads before after ∨ Trails before after ∧ (∃ span ∈ p.root.descendantSpans,
          span.kind = .metaCode ∧ span.location = tilde.location) →
        (symbols (front ++ back)).map (fun s => (s.kind, s.text)) =
          (before ++ after).map (fun s => (s.kind, s.text)) →
        parse (front ++ back) options =
          .ok (p.edit (.takeOut (Text.byteLength front.toList)))) := by
  rw [← hstart]
  generalize front ++ "~" ++ back = source at htilde ⊢
  generalize front ++ back = trimmed
  obtain ⟨pieces, rest, hread, -, -⟩ := Piece.readAll_ofSource source
  obtain ⟨block, outer, ds, -, hplaced, hparse⟩ := parse_of_readAll hread options
  refine ⟨_, hparse, ?_⟩
  intro hplace hsame
  rw [hplaced.descendantSpans] at hplace
  obtain ⟨⟨rest', hread'⟩, htexts, htags⟩ := htilde.readAll_trimmed hread hplace hsame
  obtain ⟨block', outer', ds', hadd, -, hparse'⟩ := parse_of_readAll hread' options
  obtain ⟨hedited, hopened⟩ := hplaced.edit [] htexts htags trivial
  have hroot : Builder.edit tilde.takeOut [] ⟨[.empty .text], #[]⟩ = ⟨[.empty .text], #[]⟩ := by
    simp [Builder.edit, Builder.editAll, Builder.inFront, OpenBlock.edit, OpenBlock.empty]
  rw [hroot] at hedited
  cases hadd.symm.trans hedited.addPieces
  rw [hparse', Builder.closeAll_edit [] _ _ hopened]
  rfl

/-- A closing tag that does not fit, with a `~` at the end of the tag in front of
it and one at its own start: `{{#a~}}é{{~/b}}`. -/
def unfitting : String := "\x7b\x7b#a~\x7d\x7dé\x7b\x7b~/b\x7d\x7d"

/-- Without the first `~` the tag that the block was opened by is shorter, and
without the second one nothing but the name behind it stands elsewhere. -/
theorem parse_trimmed_unfitting :
    ∃ p, parse unfitting {} = .ok p ∧
      p.diagnostics = [⟨.unbalancedTag "a" "b" (some ⟨0, 7⟩), ⟨13, 14⟩⟩] ∧
      parse ("\x7b\x7b#a" ++ "\x7d\x7dé\x7b\x7b~/b\x7d\x7d") {} = .ok (p.edit (.takeOut 4)) ∧
      parse ("\x7b\x7b#a~\x7d\x7dé\x7b\x7b" ++ "/b\x7d\x7d") {} = .ok (p.edit (.takeOut 11)) ∧
      (p.edit (.takeOut 4)).diagnostics =
        [⟨.unbalancedTag "a" "b" (some ⟨0, 6⟩), ⟨12, 13⟩⟩] ∧
      (p.edit (.takeOut 11)).diagnostics =
        [⟨.unbalancedTag "a" "b" (some ⟨0, 7⟩), ⟨12, 13⟩⟩] := by
  have htrailing : TildeAt ("\x7b\x7b#a" ++ "~" ++ "\x7d\x7dé\x7b\x7b~/b\x7d\x7d")
      ((symbols unfitting).take 3) ⟨.tilde, ⟨4, 5⟩, "~"⟩ ((symbols unfitting).drop 4) :=
    ⟨by decide +kernel, rfl⟩
  have hleading : TildeAt ("\x7b\x7b#a~\x7d\x7dé\x7b\x7b" ++ "~" ++ "/b\x7d\x7d")
      ((symbols unfitting).take 7) ⟨.tilde, ⟨11, 12⟩, "~"⟩ ((symbols unfitting).drop 8) :=
    ⟨by decide +kernel, rfl⟩
  have hfound : (parse unfitting {}).toOption.map
      (fun p => (p.root.descendantSpans.filter (·.content == "~"), p.diagnostics)) =
      some ([⟨.metaCode, "~", ⟨4, 5⟩⟩, ⟨.metaCode, "~", ⟨11, 12⟩⟩],
        [⟨.unbalancedTag "a" "b" (some ⟨0, 7⟩), ⟨13, 14⟩⟩]) := by
    decide +kernel
  obtain ⟨p, hp, htrail⟩ := parse_trimmed _ _ {} htrailing (by decide)
  obtain ⟨q, hq, hlead⟩ := parse_trimmed _ _ {} hleading (by decide)
  cases hp.symm.trans hq
  rw [show parse unfitting {} = .ok p from hp] at hfound
  obtain ⟨hmarks, hdiagnostics⟩ := Prod.mk.inj (Option.some.inj hfound)
  have hmark : ⟨.metaCode, "~", ⟨4, 5⟩⟩ ∈ p.root.descendantSpans :=
    List.mem_of_mem_filter (hmarks ▸ List.mem_cons_self)
  refine ⟨p, hp, hdiagnostics, htrail (.inr ⟨⟨?_, ?_⟩, ⟨_, hmark, rfl, rfl⟩⟩) ?_,
    hlead (.inl ⟨?_, ?_⟩) ?_, ?_, ?_⟩
  · decide +kernel
  · decide +kernel
  · decide +kernel
  · decide +kernel
  · decide +kernel
  · decide +kernel
  · rw [Parse.edit, hdiagnostics]
    rfl
  · rw [Parse.edit, hdiagnostics]
    rfl

end BraceTemplate
