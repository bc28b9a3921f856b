import BraceTemplate.Proofs.Parse.Aligned
import BraceTemplate.Proofs.Tag.Layout

/-!
# Parses and names and arguments

Each opening delimiter has its tag among the spans of the tree. What stands in a
tag that is no comment is one grammar, however broken the source is: a name, then
blanks, arguments and `~`, then a closing delimiter, with all names and arguments
as long as their nesting makes them.
-/

namespace BraceTemplate

open SymbolStream

/-- What is in front of an opening delimiter goes past symbols without any. -/
theorem exists_front_of_append {front behind inner rest : List Symbol} {d : Symbol}
    (h : front ++ d :: behind = inner ++ rest) (hopen : d.kind.isOpenDelimiter = true)
    (hinner : ∀ x ∈ inner, x.kind.isOpenDelimiter = false) :
    ∃ more, front = inner ++ more ∧ rest = more ++ d :: behind := by
  rcases List.append_eq_append_iff.1 h with ⟨passed, hpassed, hbehind⟩ | ⟨more, hfront, hrest⟩
  · cases passed with
    | nil => exact ⟨[], by simpa using hpassed.symm, hbehind.symm⟩
    | cons x passed =>
      obtain rfl := (List.cons.inj hbehind).1
      rw [hinner d (by simp [hpassed])] at hopen
      cases hopen
  · exact ⟨more, hfront, hrest⟩

/-- A tag that is no comment is laid out where it is read. -/
theorem Tag.exists_laidOut_read {s : SymbolStream} (hopen : s.current.kind.isOpenDelimiter = true)
    (hproper : ∀ x ∈ s.upcoming, x.Proper) (houtside : Outside s.upcoming)
    (hkind : Heading.kindOf s.advance.upcoming ≠ .comment) :
    ∃ t : Layout,
      t.parts.map Part.span = (read (Heading.kindOf s.advance.upcoming) s).1.spans ∧
      LaidOut s.current s.advance.upcoming
        (read (Heading.kindOf s.advance.upcoming) s).2.upcoming t := by
  obtain ⟨t, hspans, hlays, hmarks, hsorted⟩ := exists_layout_read hopen hproper hkind
  obtain ⟨-, hinner, -⟩ := outside_read (Heading.kindOf s.advance.upcoming) hopen houtside
  have hahead := hlays.1.upcoming
  have hwhole : Part.symbols t.parts = s.current :: extent s.advance.upcoming := by
    have htakes := (read_takes (Heading.kindOf s.advance.upcoming) hopen).1.upcoming
    exact List.append_cancel_right (hahead.symm.trans htakes)
  have hstands : ∀ x ∈ t.parts, x.span.Stands x.group := by
    obtain ⟨first, last, hfollow⟩ := houtside.follow
    have hchain := houtside.chain
    rw [hahead] at hchain
    rw [hahead, List.map_append] at hfollow
    obtain ⟨middle, htag, -⟩ := hfollow.split
    refine hlays.2.stands ?_ ?_ (List.isChain_append.1 hchain).1 htag
    · intro x hx
      exact kind_of_mem_spans_read (hspans ▸ List.mem_map_of_mem hx)
    · intro x hx htext
      rw [hwhole] at hx
      rcases List.mem_cons.1 hx with rfl | hx
      · rw [htext] at hopen
        cases hopen
      · exact hinner x hx htext
  refine ⟨t, hspans, hsorted, hwhole, upcoming_advance hopen _, hmarks, ?_, hlays.2.isChain,
    hstands⟩
  intro front x back hparts hrun
  have hlaid := hlays.2
  rw [hparts] at hlaid
  exact hlaid.isRun hrun

/-- The spans of a source with those of one tag told apart. -/
def Tag.LaidIn (spans : List Span) (front behind : List Symbol) (d : Symbol) : Prop :=
  ∃ (before : List Span) (t : Layout) (after : List Span) (rest : List Symbol),
    spans = before ++ t.parts.map Part.span ++ after ∧ Span.Aligned before front ∧
      LaidOut d behind rest t ∧ Span.Aligned after rest

/-- Spans of symbols in front are in front of a tag. -/
theorem Tag.LaidIn.append {spans more : List Span} {front behind others : List Symbol} {d : Symbol}
    (hmore : Span.Aligned more others) (h : LaidIn spans front behind d) :
    LaidIn (more ++ spans) (others ++ front) behind d := by
  obtain ⟨before, t, after, rest, rfl, hbefore, hlaid, hafter⟩ := h
  refine ⟨more ++ before, t, after, rest, ?_, hmore.append hbefore, hlaid, hafter⟩
  simp only [List.append_assoc]

/-- Every tag that is no comment is laid out in what a stream is cut into. -/
theorem Piece.Cut.laidIn {s rest : SymbolStream} {pieces : List Piece} (h : Cut s pieces rest)
    (houtside : Outside s.upcoming) (hproper : ∀ x ∈ s.upcoming, x.Proper)
    {front behind : List Symbol} {d : Symbol} (hsplit : s.upcoming = front ++ d :: behind)
    (hopen : d.kind.isOpenDelimiter = true) (hkind : Heading.kindOf behind ≠ .comment) :
    Tag.LaidIn (pieces.flatMap spans) front behind d := by
  induction h generalizing front with
  | @last s hend =>
    have htext := (readText_takes s).upcoming
    rw [upcoming_of_isEnd hend, List.append_nil] at htext
    have hd : d ∈ (takeText s).1 := by
      rw [← htext, hsplit]
      exact List.mem_append_right _ List.mem_cons_self
    rw [isOpenDelimiter_of_mem_takeText hd] at hopen
    cases hopen
  | @tag s t rest pieces hstarts hahead hcut ih =>
    have htext := aligned_readText houtside
    have hbehind := (outside_readText houtside).2
    have htaken := (readText_takes s).upcoming
    rw [← hahead] at hbehind htaken
    have hproper' : ∀ x ∈ t.upcoming, x.Proper := fun x hx =>
      hproper x (by rw [htaken]; exact List.mem_append_right _ hx)
    obtain ⟨htag, -, hmore⟩ :=
      Tag.outside_read (Heading.kindOf t.advance.upcoming) hstarts hbehind
    have hdelimiter := upcoming_of_not_isEnd (Symbol.not_isEnd_of_isOpenDelimiter hstarts)
    have hextent := Tag.upcoming_advance hstarts (Heading.kindOf t.advance.upcoming)
    obtain ⟨front, rfl, hfront⟩ := exists_front_of_append (hsplit.symm.trans htaken) hopen
      fun x => isOpenDelimiter_of_mem_takeText
    rw [List.flatMap_append]
    refine Tag.LaidIn.append htext ?_
    rw [hdelimiter] at hfront
    cases front with
    | nil =>
      -- the delimiter is that of the tag which is read
      obtain ⟨rfl, rfl⟩ := List.cons.inj hfront
      obtain ⟨layout, hspans, hlaid⟩ := Tag.exists_laidOut_read hstarts hproper' hbehind hkind
      exact ⟨[], layout, _, _, by rw [hspans]; rfl, .nil, hlaid, hcut.aligned hmore⟩
    | cons x front =>
      -- the delimiter is behind the tag which is read, since none is in it
      obtain ⟨rfl, hinner⟩ := List.cons.inj hfront
      obtain ⟨front, rfl, hlater⟩ := exists_front_of_append (hinner.symm.trans hextent) hopen
        fun x => Tag.isOpenDelimiter_of_mem_extent
      refine Tag.LaidIn.append htag (ih hmore ?_ hlater)
      intro x hx
      refine hproper' x ?_
      rw [hdelimiter, hextent]
      exact List.mem_cons_of_mem _ (List.mem_append_right _ hx)

/-- The spans of every tag that is no comment are laid out, with the spans of
what is in front of the tag before them and those of what is behind it after
them. -/
theorem parse_argues (source : String) (options : Options) :
    ∃ p, parse source options = .ok p ∧
      ∀ front d behind, symbols source = front ++ d :: behind →
        d.kind.isOpenDelimiter = true → Heading.kindOf behind ≠ .comment →
        ∃ before t after rest,
          p.root.descendantSpans = before ++ t.parts.map Part.span ++ after ∧
            Span.Aligned before front ∧ Tag.LaidOut d behind rest t ∧
            Span.Aligned after rest := by
  obtain ⟨pieces, rest, p, hcut, hparse, hspans, -⟩ := parse_held source options
  refine ⟨p, hparse, ?_⟩
  intro front d behind hsplit hopen hkind
  have houtside := outside_symbols source
  have hproper : ∀ x ∈ symbols source, x.Proper := fun x => proper_of_mem_symbols
  rw [← SymbolStream.upcoming_ofSource] at hsplit houtside hproper
  rw [hspans]
  exact hcut.laidIn houtside hproper hsplit hopen hkind

/-- A blank nested in an argument with a key, and stray text behind a `~`:
`{{a b=(c d)~e}}`. -/
def argued : String := "\x7b\x7ba b=(c d)~e\x7d\x7d"

theorem parse_argues_argued :
    (symbols argued).map Symbol.kind =
        [.openDelimiter, .identifier, .whitespace, .identifier, .assign, .leftParen, .identifier,
          .whitespace, .identifier, .rightParen, .tilde, .identifier, .closeDelimiter] ∧
      ∃ p, parse argued {} = .ok p ∧ ∃ before t after rest,
        p.root.descendantSpans = before ++ t.parts.map Part.span ++ after ∧
          Span.Aligned before [] ∧
          Tag.LaidOut ⟨.openDelimiter, ⟨0, 2⟩, "\x7b\x7b"⟩ ((symbols argued).drop 1) rest t ∧
          Span.Aligned after rest := by
  have hsymbols : symbols argued =
      [] ++ ⟨.openDelimiter, ⟨0, 2⟩, "\x7b\x7b"⟩ :: (symbols argued).drop 1 := by
    decide +kernel
  obtain ⟨p, hparse, hlaid⟩ := parse_argues argued {}
  exact ⟨by decide +kernel, p, hparse, hlaid [] _ _ hsymbols rfl (by decide +kernel)⟩

end BraceTemplate
