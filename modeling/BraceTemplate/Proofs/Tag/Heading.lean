import BraceTemplate.Proofs.Tag.Reading

/-!
# Headings

What nesting needs to know of a tag: its kind, its name and where its markup
stands. A heading is read off the list of symbols, without a stream: every
opening delimiter has one, found in the symbols behind it. Reading a tag gives
the same kind, name and place.
-/

namespace BraceTemplate

structure Heading where
  kind : TagKind
  name : String
  markup : Location
deriving DecidableEq, Repr

namespace Heading

/-- What is behind a symbol of a kind, where one is in front. -/
def behindMark (kind : SymbolKind) : List Symbol → List Symbol
  | [] => []
  | s :: rest => if s.kind = kind then rest else s :: rest

/-- The kind of a tag, by the first symbol behind its opening delimiter and one
`~`. -/
def kindOf (behind : List Symbol) : TagKind :=
  match behindMark .tilde behind with
  | [] => .expression
  | s :: _ => .ofMarker s.kind

/-- The run in front, as text. -/
def runText (symbols : List Symbol) : String :=
  Symbol.joinTexts (SymbolStream.cutBy Nesting.step {} symbols).1

/-- The name of a tag, which stands behind the mark of block tags. -/
def nameOf (behind : List Symbol) : String :=
  let front := behindMark .tilde behind
  match kindOf behind with
  | .blockOpen | .blockClose => runText front.tail
  | .comment => ""
  | .expression => runText front

/-- The heading of the tag that a delimiter opens, by the symbols behind it. -/
def ofSymbols (delimiter : Symbol) (behind : List Symbol) : Heading :=
  ⟨kindOf behind, nameOf behind,
    ⟨delimiter.location.start, ((Tag.extent behind).getLastD delimiter).location.stop⟩⟩

end Heading

/-- The headings of the tags in a list of symbols, one for each opening
delimiter. -/
def headings : List Symbol → List Heading
  | [] => []
  | s :: rest =>
    if s.kind.isOpenDelimiter then .ofSymbols s rest :: headings rest else headings rest

theorem headings_append {front : List Symbol}
    (h : ∀ s ∈ front, s.kind.isOpenDelimiter = false) (rest : List Symbol) :
    headings (front ++ rest) = headings rest := by
  induction front with
  | nil => rfl
  | cons s front ih =>
    have hs := h s List.mem_cons_self
    rw [List.cons_append, headings, hs, if_neg Bool.false_ne_true]
    exact ih fun x hx => h x (List.mem_cons_of_mem s hx)

namespace SymbolStream

theorem upcoming_readMark {kind : SymbolKind} (s : SymbolStream) (hkind : kind ≠ .eof) :
    (s.readMark kind).2.upcoming = Heading.behindMark kind s.upcoming := by
  by_cases hend : s.current.isEnd
  · have heof := Symbol.kind_of_isEnd hend
    rw [readMark_of_ne (by rw [heof]; exact hkind.symm), upcoming_of_isEnd hend]
    rfl
  · rw [upcoming_of_not_isEnd hend, Heading.behindMark]
    split
    · rename_i h
      simp only [readMark, h, if_true]
    · rename_i h
      rw [readMark_of_ne h, upcoming_of_not_isEnd hend]

theorem kind_current (s : SymbolStream) :
    s.current.kind = (s.upcoming.head?.map Symbol.kind).getD .eof := by
  by_cases hend : s.current.isEnd
  · rw [upcoming_of_isEnd hend]
    simpa [Symbol.isEnd] using hend
  · rw [upcoming_of_not_isEnd hend]
    rfl

end SymbolStream

namespace Heading

open SymbolStream

/-- The kind of a tag is told by the symbol that is current behind one `~`. -/
theorem kindOf_upcoming (s : SymbolStream) :
    kindOf s.upcoming = TagKind.ofMarker (s.readMark .tilde).2.current.kind := by
  have hbehind := @upcoming_readMark .tilde s (by simp)
  rw [kind_current, hbehind, kindOf]
  cases behindMark .tilde s.upcoming <;> rfl

end Heading

namespace TagKind

open SymbolStream

/-- With room for two symbols, looking for the kind of a tag works and finds
what the symbols ahead tell. -/
theorem classify_ok {s : SymbolStream} (hroom : s.pushedBack.length ≤ capacity) :
    ∃ t, classify s = .ok (Heading.kindOf s.advance.upcoming, t) ∧
      t.pushedBack.length = capacity := by
  have hempty : s.advance.advance.pushedBack = [] := by
    obtain ⟨pushedBack, scanner⟩ := s
    match pushedBack, hroom with
    | [], _ => rfl
    | [_], _ => rfl
    | [_, _], _ => rfl
  have hmarker : (s.advance.readMark .tilde).2.current.kind =
      if s.advance.current.kind = .tilde then s.advance.advance.current.kind
        else s.advance.current.kind := by
    rw [readMark]
    split <;> rfl
  refine ⟨⟨[s.current, s.advance.current], s.advance.advance.scanner⟩, ?_, rfl⟩
  rw [Heading.kindOf_upcoming, hmarker, classify]
  simp only [pushBack, hempty]
  rfl

/-- The symbol that a marker tells of is in front of the stream. -/
theorem current_kind_of_ofMarker {marker : SymbolKind} :
    (ofMarker marker = .blockOpen → marker = .hash) ∧
      (ofMarker marker = .blockClose → marker = .slash) ∧
      (ofMarker marker = .comment → marker = .bang) := by
  cases marker <;> simp [ofMarker]

end TagKind

namespace Tag

open SymbolStream

/-- Where the markup of a tag stands: around all its spans. -/
def markup? (tag : Tag) : Option Location := Location.hullAll (tag.spans.map Span.location)

theorem upcoming_readMarker {kind : TagKind} {s : SymbolStream}
    (hkind : kind = .ofMarker s.current.kind) :
    (kind ≠ .expression → (readMarker kind s).2.upcoming = s.upcoming.tail) ∧
      (kind = .expression → (readMarker kind s).2.upcoming = s.upcoming) := by
  have hmark : ∀ marker, s.current.kind = marker → marker ≠ .eof →
      (s.readMark marker).2.upcoming = s.upcoming.tail := by
    intro marker hmarker hne
    have hend : ¬ s.current.isEnd := by simpa [Symbol.isEnd, hmarker] using hne
    rw [upcoming_readMark s hne, upcoming_of_not_isEnd hend, Heading.behindMark, if_pos hmarker]
    rfl
  obtain ⟨hopen, hclose, hcomment⟩ := @TagKind.current_kind_of_ofMarker s.current.kind
  refine ⟨?_, ?_⟩
  · intro hmarked
    cases kind with
    | blockOpen => exact hmark _ (hopen hkind.symm) (by simp)
    | blockClose => exact hmark _ (hclose hkind.symm) (by simp)
    | comment => exact hmark _ (hcomment hkind.symm) (by simp)
    | expression => exact absurd rfl hmarked
  · rintro rfl
    rfl

theorem name_readNamed (s : SymbolStream) : (readNamed s).name = Heading.runText s.upcoming := by
  change Symbol.joinTexts s.takeRun.1 = _
  rw [takeRun, takeBy_fst]
  rfl

/-- A tag has the name that the symbols behind its delimiter tell. -/
theorem name_read {kind : TagKind} {s : SymbolStream}
    (hkind : kind = Heading.kindOf s.advance.upcoming) :
    (read kind s).1.name = Heading.nameOf s.advance.upcoming := by
  have hfront := @upcoming_readMark .tilde s.advance (by simp)
  rw [Heading.kindOf_upcoming] at hkind
  obtain ⟨hmarked, hplain⟩ := upcoming_readMarker hkind
  rw [Heading.nameOf, Heading.kindOf_upcoming, ← hkind, ← hfront]
  cases kind with
  | blockOpen =>
    change (readNamed _).name = _
    rw [name_readNamed, hmarked (by simp)]
  | blockClose =>
    change (readNamed _).name = _
    rw [name_readNamed, hmarked (by simp)]
  | comment => rfl
  | expression =>
    change (readNamed _).name = _
    rw [name_readNamed, hplain rfl]

/-- The markup of a tag stands where its symbols stand. -/
theorem markup?_read (kind : TagKind) {s : SymbolStream}
    (hopen : s.current.kind.isOpenDelimiter) {first last : Nat}
    (hfollow : Stretch.Follow first (s.upcoming.map Symbol.stretch) last) :
    (read kind s).1.markup? = some (Heading.ofSymbols s.current s.advance.upcoming).markup := by
  obtain ⟨htakes, hcovers⟩ := read_takes kind hopen
  rw [htakes.upcoming, List.map_append] at hfollow
  obtain ⟨middle, htag, -⟩ := hfollow.split
  have hspans := (hcovers.follow htag).1
  have hne : (read kind s).1.spans.map Span.stretch ≠ [] := by
    simpa using hcovers.ne_nil htag (by simp)
  have hhull := hspans.hullAll hne
  rw [List.map_map] at hhull
  obtain ⟨hstart, hstop⟩ := Stretch.Follow.stop_getLastD htag
  rw [markup?]
  change Location.hullAll ((read kind s).1.spans.map (Stretch.location ∘ Span.stretch)) = _
  rw [hhull, ← hstart, ← hstop]
  rw [List.getLastD_map]
  rfl

end Tag

end BraceTemplate
