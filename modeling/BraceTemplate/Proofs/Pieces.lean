import BraceTemplate.Piece
import BraceTemplate.Proofs.Tag.Markup

/-!
# Cutting a source into pieces

A source is always cut into pieces: looking for the kind of a tag never runs out
of room. The pieces have the spans that cover the symbols, and the tags among
them have the headings of the symbols, in order.
-/

namespace BraceTemplate

/-- The heading of a tag that was read. -/
def Tag.heading (tag : Tag) : Heading := ⟨tag.kind, tag.name, tag.markup?.getD (.point 0)⟩

section

variable {s : SymbolStream} (hopen : s.current.kind.isOpenDelimiter)
include hopen

theorem Tag.heading_read {first last : Nat}
    (hfollow : Stretch.Follow first (s.upcoming.map Symbol.stretch) last) :
    (Tag.read (Heading.kindOf s.advance.upcoming) s).1.heading =
      .ofSymbols s.current s.advance.upcoming := by
  have hmarkup := Tag.markup?_read (Heading.kindOf s.advance.upcoming) hopen hfollow
  have hname := Tag.name_read (s := s) rfl
  rw [Tag.heading, hname, hmarkup]
  rfl

/-- Behind the delimiter of a tag is the rest of the tag, and what is left. -/
theorem Tag.upcoming_advance (kind : TagKind) :
    s.advance.upcoming = Tag.extent s.advance.upcoming ++ (Tag.read kind s).2.upcoming := by
  have hend := Symbol.not_isEnd_of_isOpenDelimiter hopen
  have heq := (Tag.read_takes kind hopen).1.upcoming
  rw [SymbolStream.upcoming_of_not_isEnd hend, List.cons_append] at heq
  exact (List.cons.inj heq).2

/-- The first heading of what is ahead is that of the tag that is read, and the
others are behind it. -/
theorem Tag.headings_upcoming {first last : Nat}
    (hfollow : Stretch.Follow first (s.upcoming.map Symbol.stretch) last) :
    headings s.upcoming = (Tag.read (Heading.kindOf s.advance.upcoming) s).1.heading ::
      headings (Tag.read (Heading.kindOf s.advance.upcoming) s).2.upcoming := by
  have hend := Symbol.not_isEnd_of_isOpenDelimiter hopen
  have hbehind := Tag.upcoming_advance hopen (Heading.kindOf s.advance.upcoming)
  have hlater := (congrArg headings hbehind).trans
    (headings_append (fun _ => Tag.isOpenDelimiter_of_mem_extent) _)
  rw [SymbolStream.upcoming_of_not_isEnd hend, headings, if_pos hopen,
    Tag.heading_read hopen hfollow, hlater]

end

namespace Piece

open SymbolStream

def spans : Piece → List Span
  | text span => [span]
  | tag t => t.spans

def tag? : Piece → Option Tag
  | text _ => none
  | tag t => some t

/-- How a stream is cut into pieces: text up to the end or to an opening
delimiter, and a tag behind that. The stream that a tag is read from has the
same symbols ahead as the one behind the text. -/
inductive Cut : SymbolStream → List Piece → SymbolStream → Prop
  | last {s : SymbolStream} (hend : (readText s).2.current.isEnd) :
      Cut s (readText s).1 (readText s).2
  | tag {s t rest : SymbolStream} {pieces : List Piece}
      (hopen : t.current.kind.isOpenDelimiter)
      (hahead : t.upcoming = (readText s).2.upcoming)
      (h : Cut (Tag.read (Heading.kindOf t.advance.upcoming) t).2 pieces rest) :
      Cut s ((readText s).1 ++
        .tag (Tag.read (Heading.kindOf t.advance.upcoming) t).1 :: pieces) rest

theorem readText_takes (s : SymbolStream) : Takes s (takeText s).1 (readText s).2 :=
  takeWhile_takes _ s

theorem isOpenDelimiter_of_mem_takeText {s : SymbolStream} {x : Symbol}
    (h : x ∈ (takeText s).1) : x.kind.isOpenDelimiter = false := by
  have hopen := takeWhile_all (p := fun kind => !kind.isOpenDelimiter) h
  simpa using hopen

/-- Behind text is the end or a tag. -/
theorem current_readText {s : SymbolStream} (hend : ¬ (readText s).2.current.isEnd) :
    (readText s).2.current.kind.isOpenDelimiter = true := by
  have hstop := (current_takeWhile (fun kind => !kind.isOpenDelimiter) s).resolve_left hend
  rw [Bool.not_eq_false'] at hstop
  exact hstop

theorem readAll_of_isEnd {s : SymbolStream} (hend : (readText s).2.current.isEnd) :
    readAll s = .ok (readText s) := by
  rw [readAll]
  simp only [hend, dite_true]

theorem readAll_of_readTag {s t rest : SymbolStream} {first : Tag} {pieces : List Piece}
    (hend : ¬ (readText s).2.current.isEnd) (htag : readTag (readText s).2 = .ok (first, t))
    (hrest : readAll t = .ok (pieces, rest)) :
    readAll s = .ok ((readText s).1 ++ .tag first :: pieces, rest) := by
  rw [readAll]
  simp only [dif_neg hend]
  split
  · rename_i heq
    rw [htag] at heq
    cases heq
  · rename_i heq
    rw [htag] at heq
    cases heq
    rw [hrest]

/-- Pieces are read up to the end, or up to a tag and behind it. -/
theorem readAll_cases {s rest : SymbolStream} {pieces : List Piece}
    (hread : readAll s = .ok (pieces, rest)) :
    (readText s).2.current.isEnd ∧ readText s = (pieces, rest) ∨
      ¬ (readText s).2.current.isEnd ∧ ∃ first t more, readTag (readText s).2 = .ok (first, t) ∧
        readAll t = .ok (more, rest) ∧ pieces = (readText s).1 ++ .tag first :: more := by
  by_cases hend : (readText s).2.current.isEnd
  · rw [readAll_of_isEnd hend] at hread
    exact .inl ⟨hend, Except.ok.inj hread⟩
  · refine .inr ⟨hend, ?_⟩
    rw [readAll] at hread
    simp only [dif_neg hend] at hread
    split at hread
    · cases hread
    · rename_i first t htag
      split at hread
      · cases hread
      · rename_i more last hmore
        cases hread
        exact ⟨first, t, more, htag, hmore, rfl⟩

/-- A stream with room for two symbols is cut into pieces up to its end. -/
theorem readAll_cut {s : SymbolStream} (hroom : s.pushedBack.length ≤ capacity) :
    ∃ pieces rest, readAll s = .ok (pieces, rest) ∧ Cut s pieces rest ∧
      rest.pushedBack.length ≤ capacity := by
  induction hn : s.upcoming.length using Nat.strongRecOn generalizing s with
  | ind n ih =>
    have hfront : (readText s).2.pushedBack.length ≤ s.pushedBack.length := by
      rw [(readText_takes s).length_pushedBack]
      exact Nat.sub_le _ _
    by_cases hend : (readText s).2.current.isEnd
    · exact ⟨_, _, readAll_of_isEnd hend, .last hend, Nat.le_trans hfront hroom⟩
    · obtain ⟨t, hclassify, hfull⟩ := TagKind.classify_ok (Nat.le_trans hfront hroom)
      have hcurrent := TagKind.current_of_classify hclassify
      have hahead := TagKind.upcoming_of_classify hclassify
      have hopen : t.current.kind.isOpenDelimiter = true := by
        rw [hcurrent]
        exact current_readText hend
      have hbehind : t.advance.upcoming = (readText s).2.advance.upcoming := by
        have heq := hahead
        rw [upcoming_of_not_isEnd hend, upcoming_of_not_isEnd (by rwa [hcurrent])] at heq
        exact (List.cons.inj heq).2
      rw [← hbehind] at hclassify
      have hread : readTag (readText s).2 =
          .ok (Tag.read (Heading.kindOf t.advance.upcoming) t) := by
        rw [readTag, hclassify]
      have hless := Nat.lt_of_lt_of_le (length_readTag_lt hend hread) (readText_suffix s).length_le
      have htaken := (Tag.read_takes (Heading.kindOf t.advance.upcoming) hopen).1.length_pushedBack
      rw [hfull] at htaken
      obtain ⟨pieces, rest, hall, hcut, hrest⟩ := ih _ (hn ▸ hless) (htaken ▸ Nat.sub_le _ _) rfl
      exact ⟨_, rest, readAll_of_readTag hend hread hall, .tag hopen hahead hcut, hrest⟩

theorem Cut.isEnd {s rest : SymbolStream} {pieces : List Piece} (h : Cut s pieces rest) :
    rest.current.isEnd := by
  induction h with
  | last hend => exact hend
  | tag _ _ _ ih => exact ih

theorem readText_of_isEnd {s : SymbolStream} (hend : s.current.isEnd) : readText s = ([], s) := by
  have htake : takeText s = ([], s) := by
    rw [takeText, SymbolStream.takeWhile, SymbolStream.takeBy, dif_pos hend]
  rw [readText, htake]
  rfl

/-- Behind all pieces there are none. -/
theorem readAll_rest {s rest : SymbolStream} {pieces : List Piece}
    (hroom : s.pushedBack.length ≤ capacity) (hread : readAll s = .ok (pieces, rest)) :
    readAll rest = .ok ([], rest) := by
  obtain ⟨pieces', rest', hread', hcut, -⟩ := readAll_cut hroom
  cases hread.symm.trans hread'
  have hnone := readText_of_isEnd hcut.isEnd
  rw [readAll_of_isEnd (by rw [hnone]; exact hcut.isEnd), hnone]

theorem spans_readText (s : SymbolStream) :
    (readText s).1.flatMap spans = (Span.cover? .text (takeText s).1).toList := by
  change (((Span.cover? .text (takeText s).1).toList).map text).flatMap spans = _
  cases Span.cover? .text (takeText s).1 <;> rfl

theorem covers_readText (s : SymbolStream) :
    Span.Covers ((readText s).1.flatMap spans) (takeText s).1 := by
  rw [spans_readText]
  exact .one fun _ => isOpenDelimiter_of_mem_takeText

theorem tags_readText (s : SymbolStream) : (readText s).1.filterMap tag? = [] := by
  change (((Span.cover? .text (takeText s).1).toList).map text).filterMap tag? = _
  cases Span.cover? .text (takeText s).1 <;> rfl

theorem tag_notMem_readText {s : SymbolStream} {t : Tag} : .tag t ∉ (readText s).1 := by
  intro h
  have hmem : t ∈ (readText s).1.filterMap tag? := List.mem_filterMap.2 ⟨_, h, rfl⟩
  rw [tags_readText] at hmem
  cases hmem

/-- The spans of the pieces cover the symbols that are cut. -/
theorem Cut.covers {s rest : SymbolStream} {pieces : List Piece} (h : Cut s pieces rest) :
    Span.Covers (pieces.flatMap spans) s.upcoming := by
  induction h with
  | @last s hend =>
    rw [(readText_takes s).upcoming, upcoming_of_isEnd hend, List.append_nil]
    exact covers_readText s
  | @tag s t rest pieces hopen hahead _ ih =>
    obtain ⟨htakes, hcovers⟩ := Tag.read_takes (Heading.kindOf t.advance.upcoming) hopen
    rw [(readText_takes s).upcoming, ← hahead, htakes.upcoming, List.flatMap_append]
    exact (covers_readText s).append (hcovers.append ih)

/-- The tags among the pieces have the headings of the symbols. -/
theorem Cut.headings {s rest : SymbolStream} {pieces : List Piece} (h : Cut s pieces rest)
    {first last : Nat} (hfollow : Stretch.Follow first (s.upcoming.map Symbol.stretch) last) :
    (pieces.filterMap tag?).map Tag.heading = BraceTemplate.headings s.upcoming := by
  induction h generalizing first with
  | @last s hend =>
    rw [tags_readText, (readText_takes s).upcoming, upcoming_of_isEnd hend,
      headings_append (fun _ => isOpenDelimiter_of_mem_takeText)]
    rfl
  | @tag s t rest pieces hopen hahead _ ih =>
    obtain ⟨htakes, -⟩ := Tag.read_takes (Heading.kindOf t.advance.upcoming) hopen
    rw [(readText_takes s).upcoming, ← hahead, List.map_append] at hfollow
    obtain ⟨middle, -, htag⟩ := hfollow.split
    rw [(readText_takes s).upcoming, headings_append (fun _ => isOpenDelimiter_of_mem_takeText),
      ← hahead, Tag.headings_upcoming hopen htag, List.filterMap_append, tags_readText,
      List.nil_append]
    rw [htakes.upcoming, List.map_append] at htag
    obtain ⟨final, -, hrest⟩ := htag.split
    rw [← ih hrest]
    rfl

/-- Every tag among the pieces is formed as its kind and name say, and reports
what concerns it alone. -/
theorem Cut.formed {s rest : SymbolStream} {pieces : List Piece} (h : Cut s pieces rest)
    (hspelled : ∀ x ∈ s.upcoming, x.Spelled) {t : Tag} (ht : .tag t ∈ pieces) :
    t.Formed ∧ ∀ d ∈ t.problems, d.problem.isTagLevel = true := by
  induction h with
  | @last s hend => exact absurd ht tag_notMem_readText
  | @tag s u rest pieces hopen hahead _ ih =>
    have hbehind : ∀ x ∈ u.upcoming, x.Spelled := fun x hx =>
      hspelled x (by rw [(readText_takes s).upcoming, ← hahead]; exact List.mem_append_right _ hx)
    obtain ⟨htakes, -⟩ := Tag.read_takes (Heading.kindOf u.advance.upcoming) hopen
    rcases List.mem_append.1 ht with ht | ht
    · exact absurd ht tag_notMem_readText
    · rcases List.mem_cons.1 ht with ht | ht
      · cases ht
        exact ⟨Tag.formed_read hopen hbehind rfl, fun _ => Tag.isTagLevel_of_mem_problems⟩
      · refine ih (fun x hx => hbehind x ?_) ht
        rw [htakes.upcoming]
        exact List.mem_append_right _ hx

theorem Cut.formed_ofSource {source : String} {rest : SymbolStream} {pieces : List Piece}
    (h : Cut (.ofSource source) pieces rest) {t : Tag} (ht : .tag t ∈ pieces) :
    t.Formed ∧ ∀ d ∈ t.problems, d.problem.isTagLevel = true := by
  refine h.formed ?_ ht
  rw [upcoming_ofSource]
  exact fun _ => spelled_of_mem_symbols

end Piece

end BraceTemplate
