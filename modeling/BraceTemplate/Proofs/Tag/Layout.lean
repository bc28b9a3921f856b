import BraceTemplate.Proofs.Tag.Aligned
import BraceTemplate.Proofs.Tag.Problems
import BraceTemplate.Proofs.Tag.Runs

/-!
# How tags are laid out

Behind its delimiter and marks a tag has a name, then blanks, arguments and `~`
in any order, and a closing delimiter, where any of these may be missing. Names
and arguments are runs, whoever reads them, so two of them are never side by
side.
-/

namespace BraceTemplate

def SpanKind.isRun : SpanKind → Bool
  | .expression | .parameter | .map => true
  | _ => false

/-- A span and the symbols that it covers. -/
structure Part where
  span : Span
  group : List Symbol

/-- The symbols that parts cover. -/
def Part.symbols (parts : List Part) : List Symbol := parts.flatMap group

/-- Symbols of an argument with a key. -/
def Keyed (group : List Symbol) : Prop :=
  ∃ key sign more, group = key :: sign :: more ∧
    (key.kind = .identifier ∨ key.kind = .keyword) ∧ sign.kind = .assign

/-- The parts of a tag, by what they are for. -/
structure Tag.Layout where
  opening : Part
  tilde : Option Part
  marker : Option Part
  name : Option Part
  row : List Part
  closing : Option Part

namespace Tag.Layout

/-- The parts behind the marks of a tag. -/
def body (t : Layout) : List Part := t.name.toList ++ (t.row ++ t.closing.toList)

def parts (t : Layout) : List Part :=
  t.opening :: (t.tilde.toList ++ (t.marker.toList ++ t.body))

end Tag.Layout

/-- Blanks, arguments and `~` in any order. -/
structure Part.InRow (x : Part) : Prop where
  kind : x.span.kind = .whiteSpace ∨ x.span.kind = .parameter ∨ x.span.kind = .map ∨
    x.span.IsMarkup "~"
  map : x.span.kind = .map ↔ Keyed x.group

/-- The span is a closing delimiter. -/
def Span.IsClosing (s : Span) : Prop := s.IsMarkup "\x7d\x7d" ∨ s.IsMarkup "\x7d\x7d\x7d"

/-- Each part is what it is for. -/
structure Tag.Layout.Sorted (delimiter : Symbol) (t : Layout) : Prop where
  opening : t.opening.span.IsOpening ∧ t.opening.group = [delimiter]
  tilde : ∀ x ∈ t.tilde, x.span.IsMarkup "~"
  marker : ∀ x ∈ t.marker, x.span.IsMarkup "#" ∨ x.span.IsMarkup "/"
  name : ∀ x ∈ t.name, x.span.kind = .expression
  row : ∀ x ∈ t.row, x.InRow
  closing : ∀ x ∈ t.closing, x.span.IsClosing

/-- A tag by its parts, with its delimiter, the symbols behind that, and those
behind the tag. -/
structure Tag.LaidOut (delimiter : Symbol) (behind rest : List Symbol) (t : Layout) : Prop where
  sorted : t.Sorted delimiter
  whole : Part.symbols t.parts = delimiter :: extent behind
  leaves : behind = extent behind ++ rest
  marks : Tag.behindMarks behind = Part.symbols t.body ++ rest
  runs : ∀ front x back, t.parts = front ++ x :: back → x.span.kind.isRun = true →
    IsRun x.group (Part.symbols back ++ rest)
  apart : t.parts.IsChain fun x y => x.span.kind.isRun = false ∨ y.span.kind.isRun = false
  stands : ∀ x ∈ t.parts, x.span.Stands x.group

/-! ### Laying parts -/

/-- What is known of every symbol of a source. -/
structure Symbol.Proper (s : Symbol) : Prop where
  spelled : s.Spelled
  nonempty : s.text ≠ ""

theorem proper_of_mem_symbols {source : String} {s : Symbol} (h : s ∈ symbols source) :
    s.Proper := by
  refine ⟨spelled_of_mem_symbols h, ?_⟩
  obtain ⟨before, after, hsplit⟩ := List.append_of_mem h
  have hfollow := symbols_follow source
  rw [hsplit, List.map_append] at hfollow
  obtain ⟨middle, -, hafter⟩ := hfollow.split
  exact hafter.1

namespace Part

theorem symbols_append (parts more : List Part) :
    symbols (parts ++ more) = symbols parts ++ symbols more := List.flatMap_append

theorem symbols_cons (x : Part) (parts : List Part) :
    symbols (x :: parts) = x.group ++ symbols parts := List.flatMap_cons

/-- The part of some symbols, if they hold any text. -/
def of? (kind : SpanKind) (group : List Symbol) : Option Part :=
  (Span.cover? kind group).map fun span => ⟨span, group⟩

/-- The span is one that covers the symbols. -/
structure Made (x : Part) : Prop where
  fits : Span.Fits x.span.kind x.group
  cover : Span.cover? x.span.kind x.group = some x.span

variable {kind : SpanKind} {group rest : List Symbol} {parts more : List Part} {x : Part}

theorem map_span_of? (kind : SpanKind) (group : List Symbol) :
    (of? kind group).toList.map span = (Span.cover? kind group).toList := by
  rw [of?]
  cases Span.cover? kind group <;> rfl

theorem eq_of_mem_of? (h : x ∈ of? kind group) :
    x.group = group ∧ x.span.kind = kind ∧ x.span.content = Symbol.joinTexts group ∧
      Span.cover? kind group = some x.span := by
  obtain ⟨span, hspan, rfl⟩ := Option.map_eq_some_iff.1 h
  have hcover := hspan
  rw [Span.cover?] at hspan
  split at hspan
  · cases hspan
  · obtain ⟨l, -, rfl⟩ := Option.map_eq_some_iff.1 hspan
    exact ⟨rfl, rfl, rfl, hcover⟩

/-- Symbols with texts are covered. -/
theorem symbols_of? (htext : ∀ s ∈ group, s.Proper) : symbols (of? kind group).toList = group := by
  cases group with
  | nil => rfl
  | cons s group =>
    have hcontent : (Symbol.joinTexts (s :: group)).isEmpty = false := by
      have hne := (htext s List.mem_cons_self).nonempty
      have hjoin : Symbol.joinTexts (s :: group) ≠ "" := by
        intro hempty
        have hchars := congrArg String.toList hempty
        rw [Symbol.toList_joinTexts, List.map_cons, Stretch.chars_cons] at hchars
        exact hne (String.toList_eq_nil_iff.1 (List.append_eq_nil_iff.1 hchars).1)
      simpa using hjoin
    rw [of?, Span.cover?, hcontent, if_neg Bool.false_ne_true]
    exact List.append_nil (s :: group)

/-- Parts in front of further symbols, in which every run goes on for as long as
it can. -/
def Laid (rest : List Symbol) : List Part → Prop
  | [] => True
  | x :: parts =>
    x.Made ∧ (x.span.kind.isRun = true → IsRun x.group (symbols parts ++ rest)) ∧ Laid rest parts

theorem Laid.append (h : Laid (symbols more ++ rest) parts) (hmore : Laid rest more) :
    Laid rest (parts ++ more) := by
  induction parts with
  | nil => exact hmore
  | cons x parts ih =>
    obtain ⟨hmade, hrun, hrest⟩ := h
    refine ⟨hmade, ?_, ih hrest⟩
    rwa [List.append_eq, symbols_append, List.append_assoc]

theorem Laid.isRun {front back : List Part} (h : Laid rest (front ++ x :: back))
    (hkind : x.span.kind.isRun = true) : IsRun x.group (symbols back ++ rest) := by
  induction front with
  | nil => exact h.2.1 hkind
  | cons y front ih => exact ih h.2.2

/-- Runs are not side by side. -/
theorem Laid.isChain (h : Laid rest parts) :
    parts.IsChain fun x y => x.span.kind.isRun = false ∨ y.span.kind.isRun = false := by
  induction parts with
  | nil => exact .nil
  | cons x parts ih =>
    refine List.isChain_cons.2 ⟨?_, ih h.2.2⟩
    intro y hy
    by_contra hboth
    rw [not_or, Bool.not_eq_false, Bool.not_eq_false] at hboth
    obtain ⟨parts', rfl⟩ : ∃ more, parts = y :: more := by
      cases parts with
      | nil => cases hy
      | cons z more => exact ⟨more, by rw [Option.some.inj hy]⟩
    have hfirst := h.2.1 hboth.1
    rw [symbols_cons, List.append_assoc] at hfirst
    exact hfirst.not_isRun (h.2.2.2.1 hboth.2)

/-- Parts inside of a tag stand for their symbols. -/
theorem Laid.stands (h : Laid rest parts) (hkind : ∀ x ∈ parts, x.span.kind ≠ .text)
    (htext : ∀ s ∈ symbols parts, s.kind ≠ .text) (hchain : (symbols parts).IsChain Symbol.Before)
    {first last : Nat} (hfollow : Stretch.Follow first ((symbols parts).map Symbol.stretch) last) :
    ∀ x ∈ parts, x.span.Stands x.group := by
  induction parts generalizing first with
  | nil => exact nofun
  | cons x parts ih =>
    obtain ⟨hmade, -, hrest⟩ := h
    rw [symbols_cons] at htext hchain hfollow
    rw [List.map_append] at hfollow
    obtain ⟨middle, hgroup, hback⟩ := hfollow.split
    have haligned := Span.aligned_cover? hmade.fits (hkind x List.mem_cons_self)
      (fun s hs => htext s (List.mem_append_left _ hs)) (List.isChain_append.1 hchain).1 hgroup
    intro y hy
    rcases List.mem_cons.1 hy with rfl | hy
    · rw [hmade.cover] at haligned
      exact haligned.stands
    · exact ih hrest (fun z hz => hkind z (List.mem_cons_of_mem x hz))
        (fun s hs => htext s (List.mem_append_right _ hs)) (List.isChain_append.1 hchain).2.1
        hback y hy

end Part

/-! ### Reading parts -/

theorem SymbolKind.eq_of_isCloseDelimiter {kind : SymbolKind} (h : kind.isCloseDelimiter = true) :
    kind = .closeDelimiter ∨ kind = .rawCloseDelimiter := by
  cases kind <;> simp_all [isCloseDelimiter]

theorem not_keyed_singleton (s : Symbol) : ¬ Keyed [s] := by
  rintro ⟨key, sign, more, h, -⟩
  cases h

theorem keyed_iff {group : List Symbol} : Keyed group ↔ SymbolStream.isKeyed group = true := by
  constructor
  · rintro ⟨key, sign, more, rfl, hkey, hsign⟩
    simpa [SymbolStream.isKeyed, hsign] using hkey
  · intro h
    rcases group with - | ⟨key, - | ⟨sign, more⟩⟩
    · cases h
    · cases h
    · simp only [SymbolStream.isKeyed, Bool.and_eq_true, Bool.or_eq_true, beq_iff_eq] at h
      exact ⟨key, sign, more, rfl, h⟩

namespace SymbolStream

/-- A stream hands out the symbols of parts and becomes another. -/
def Lays (s : SymbolStream) (parts : List Part) (t : SymbolStream) : Prop :=
  Takes s (Part.symbols parts) t ∧ Part.Laid t.upcoming parts

variable {s t u : SymbolStream} {parts more : List Part}

theorem Lays.none (s : SymbolStream) : Lays s [] s := ⟨.none s, trivial⟩

theorem Lays.trans (h : Lays s parts t) (hmore : Lays t more u) : Lays s (parts ++ more) u := by
  obtain ⟨htakes, hlaid⟩ := h
  rw [hmore.1.upcoming] at hlaid
  refine ⟨?_, hlaid.append hmore.2⟩
  rw [Part.symbols_append]
  exact htakes.trans hmore.1

theorem Lays.proper (h : Lays s parts t) (hproper : ∀ x ∈ s.upcoming, x.Proper) :
    ∀ x ∈ t.upcoming, x.Proper := fun x hx =>
  hproper x (by rw [h.1.upcoming]; exact List.mem_append_right _ hx)

/-- Symbols of one group are laid as one part, or as none if there are none. -/
theorem lays_of? {kind : SpanKind} {group : List Symbol} (h : Takes s group t)
    (hfits : Span.Fits kind group) (hproper : ∀ x ∈ s.upcoming, x.Proper)
    (hrun : kind.isRun = true → group ≠ [] → IsRun group t.upcoming) :
    Lays s (Part.of? kind group).toList t := by
  have hsymbols : Part.symbols (Part.of? kind group).toList = group :=
    Part.symbols_of? fun x hx => hproper x (by rw [h.upcoming]; exact List.mem_append_left _ hx)
  refine ⟨by rwa [hsymbols], ?_⟩
  cases hpart : Part.of? kind group with
  | none => trivial
  | some x =>
    obtain ⟨hgroup, hkind, -, hcover⟩ := Part.eq_of_mem_of? hpart
    refine ⟨⟨by rwa [hkind, hgroup], by rwa [hkind, hgroup]⟩, fun hx => ?_, trivial⟩
    rw [hgroup]
    refine hrun (by rwa [← hkind]) ?_
    rintro rfl
    cases hpart

/-- A mark that is read is a part of its own. -/
theorem exists_part_readMark {kind : SymbolKind} {text : String}
    (hproper : ∀ x ∈ s.upcoming, x.Proper) (hmarkup : kind.isMarkup = true)
    (hspelling : kind.spelling? = some text) :
    ∃ mark : Option Part, Lays s mark.toList (s.readMark kind).2 ∧
      mark.toList.map Part.span = (s.readMark kind).1 ∧
      ∀ x ∈ mark, x.span.IsMarkup text ∧ ¬ Keyed x.group := by
  by_cases h : s.current.kind = kind
  · have hend := Symbol.not_isEnd_of_isMarkup (h ▸ hmarkup)
    have hspelled := (hproper _ (current_mem_upcoming hend)).spelled
    rw [readMark, if_pos h]
    refine ⟨Part.of? .metaCode [s.current], ?_, Part.map_span_of? _ _, ?_⟩
    · refine lays_of? (.one hend) ⟨s.current, rfl, by rw [h]; exact hmarkup⟩ hproper ?_
      rintro ⟨⟩
    · intro x hx
      obtain ⟨hgroup, hkind, hcontent, -⟩ := Part.eq_of_mem_of? hx
      refine ⟨⟨hkind, ?_⟩, by rw [hgroup]; exact not_keyed_singleton _⟩
      rw [hcontent, ← hspelled text (by rw [h]; exact hspelling)]
      simp [Symbol.joinTexts]
  · rw [readMark_of_ne h]
    exact ⟨.none, .none s, rfl, fun x hx => by cases hx⟩

/-- Blanks are a part of a row. -/
theorem lays_takeBlanks (hproper : ∀ x ∈ s.upcoming, x.Proper) :
    Lays s (Part.of? .whiteSpace s.takeBlanks.1).toList s.takeBlanks.2 ∧
      ∀ x ∈ Part.of? .whiteSpace s.takeBlanks.1, x.InRow := by
  have hall : ∀ x ∈ s.takeBlanks.1, x.kind = .whitespace := fun x hx =>
    beq_iff_eq.1 (takeWhile_all (p := (· == .whitespace)) hx)
  refine ⟨lays_of? (takeWhile_takes _ s) hall hproper (by rintro ⟨⟩), fun x hx => ?_⟩
  obtain ⟨hgroup, hkind, -, -⟩ := Part.eq_of_mem_of? hx
  refine ⟨.inl hkind, iff_of_false (by rw [hkind]; nofun) ?_⟩
  rintro ⟨key, sign, more, hkeyed, hword, -⟩
  have hblank := hall key (by rw [← hgroup, hkeyed]; exact List.mem_cons_self)
  rw [hblank] at hword
  rcases hword with hword | hword <;> cases hword

/-- An argument is a part of a row. -/
theorem lays_argument (hproper : ∀ x ∈ s.upcoming, x.Proper) :
    Lays s (Part.of? (if isKeyed s.takeRun.1 then .map else .parameter) s.takeRun.1).toList
        s.takeRun.2 ∧
      ∀ x ∈ Part.of? (if isKeyed s.takeRun.1 then .map else .parameter) s.takeRun.1,
        x.InRow := by
  have hinside : ∀ x ∈ s.takeRun.1, x.kind.isDelimiter = false :=
    fun _ => isDelimiter_of_mem_takeRun
  constructor
  · refine lays_of? (takeBy_takes _ _ _) ?_ hproper fun _ hne => isRun_takeRun hne
    split <;> exact hinside
  · intro x hx
    obtain ⟨hgroup, hkind, -, -⟩ := Part.eq_of_mem_of? hx
    by_cases hkeyed : isKeyed s.takeRun.1 = true
    · rw [if_pos hkeyed] at hkind
      exact ⟨.inr (.inr (.inl hkind)), iff_of_true hkind (by rwa [hgroup, keyed_iff])⟩
    · rw [if_neg hkeyed] at hkind
      exact ⟨.inr (.inl hkind), iff_of_false (by rw [hkind]; nofun) (by rwa [hgroup, keyed_iff])⟩

theorem exists_row_readArguments (s : SymbolStream) (hproper : ∀ x ∈ s.upcoming, x.Proper) :
    ∃ row : List Part, Lays s row s.readArguments.2 ∧
      row.map Part.span = s.readArguments.1 ∧ ∀ x ∈ row, x.InRow := by
  induction s using readArguments_induct with
  | ends s hends =>
    obtain ⟨hlays, hrow⟩ := lays_takeBlanks hproper
    rw [readArguments_of_ends hends]
    exact ⟨_, hlays, Part.map_span_of? _ _, fun x hx => hrow x (Option.mem_toList.1 hx)⟩
  | run s hends ih =>
    rw [readArguments_of_not_ends hends]
    obtain ⟨hblanks, hblank⟩ := lays_takeBlanks hproper
    obtain ⟨hargument, hrun⟩ := lays_argument (hblanks.proper hproper)
    obtain ⟨row, hrow, hspans, hall⟩ := ih (hargument.proper (hblanks.proper hproper))
    refine ⟨_, (hblanks.trans hargument).trans hrow, ?_, ?_⟩
    · rw [List.map_append, List.map_append, Part.map_span_of?, Part.map_span_of?, hspans]
      rfl
    · simp only [List.forall_mem_append, Option.mem_toList]
      exact ⟨⟨hblank, hrun⟩, hall⟩

/-- The end of a tag is a row and a closing delimiter, which may be missing. -/
theorem exists_row_readEnding (raw reported : Bool) (s : SymbolStream)
    (hproper : ∀ x ∈ s.upcoming, x.Proper) :
    ∃ (row : List Part) (closing : Option Part),
      Lays s (row ++ closing.toList) (readEnding raw reported s).rest ∧
      (row ++ closing.toList).map Part.span = (readEnding raw reported s).spans ∧
      (∀ x ∈ row, x.InRow) ∧ ∀ x ∈ closing, x.span.IsClosing := by
  have htilde : ∀ s : SymbolStream, (∀ x ∈ s.upcoming, x.Proper) →
      ∃ mark : Option Part, Lays s mark.toList (s.readMark .tilde).2 ∧
        mark.toList.map Part.span = (s.readMark .tilde).1 ∧ ∀ x ∈ mark.toList, x.InRow := by
    intro s hproper
    obtain ⟨mark, hlays, hspans, hmark⟩ := @exists_part_readMark s .tilde "~" hproper rfl rfl
    refine ⟨mark, hlays, hspans, fun x hx => ?_⟩
    obtain ⟨hmarkup, hkeyed⟩ := hmark x (Option.mem_toList.1 hx)
    exact ⟨.inr (.inr (.inr hmarkup)), iff_of_false (by rw [hmarkup.1]; nofun) hkeyed⟩
  fun_induction readEnding raw reported s with
  | case1 reported s tilde symbol hclose last =>
    obtain ⟨mark, hlays, hspans, hmark⟩ := htilde s hproper
    have hend : ¬ tilde.2.current.isEnd := Symbol.not_isEnd_of_isCloseDelimiter hclose
    have hfits : Span.Fits .metaCode [symbol] :=
      ⟨symbol, rfl, by simp [SymbolKind.isMarkup, SymbolKind.isDelimiter, hclose]⟩
    have hlast := lays_of? (.one hend) hfits (hlays.proper hproper) (by rintro ⟨⟩)
    refine ⟨mark.toList, Part.of? .metaCode [symbol], hlays.trans hlast, ?_, hmark, ?_⟩
    · rw [List.map_append, Part.map_span_of?, hspans]
      rfl
    · intro x hx
      obtain ⟨-, hkind, hcontent, -⟩ := Part.eq_of_mem_of? hx
      have hspelled := (hlays.proper hproper _ (current_mem_upcoming hend)).spelled
      have htext : Symbol.joinTexts [symbol] = symbol.text := by simp [Symbol.joinTexts]
      rw [htext] at hcontent
      rcases SymbolKind.eq_of_isCloseDelimiter hclose with hsymbol | hsymbol
      · exact .inl ⟨hkind, hcontent.trans (hspelled _ (by rw [hsymbol]; rfl))⟩
      · exact .inr ⟨hkind, hcontent.trans (hspelled _ (by rw [hsymbol]; rfl))⟩
  | case2 reported s tilde symbol hclose hunclosed =>
    obtain ⟨mark, hlays, hspans, hmark⟩ := htilde s hproper
    refine ⟨mark.toList, none, ?_, ?_, hmark, fun x hx => by cases hx⟩
    · rwa [Option.toList_none, List.append_nil]
    · rwa [Option.toList_none, List.append_nil]
  | case3 reported s tilde symbol hclose hunclosed stray arguments more ih =>
    obtain ⟨mark, hmark, hmarkSpans, hmarkRow⟩ := htilde s hproper
    obtain ⟨row, hrow, hrowSpans, hinRow⟩ :=
      exists_row_readArguments tilde.2 (hmark.proper hproper)
    obtain ⟨row', closing, hlays, hspans, hinRow', hclosing⟩ :=
      ih (hrow.proper (hmark.proper hproper))
    refine ⟨mark.toList ++ row ++ row', closing, ?_, ?_, ?_, hclosing⟩
    · have hall := (hmark.trans hrow).trans hlays
      rwa [← List.append_assoc] at hall
    · rw [List.append_assoc, List.map_append, List.map_append, hmarkSpans, hrowSpans, hspans]
    · simp only [List.forall_mem_append]
      exact ⟨⟨hmarkRow, hinRow⟩, hinRow'⟩

end SymbolStream

namespace Tag

open SymbolStream

/-- A name and arguments are laid as a body. -/
theorem exists_layout_readNamed (s : SymbolStream) (hproper : ∀ x ∈ s.upcoming, x.Proper) :
    ∃ (name : Option Part) (row : List Part), Lays s (name.toList ++ row) (readNamed s).rest ∧
      (name.toList ++ row).map Part.span = (readNamed s).spans ∧
      (∀ x ∈ name, x.span.kind = .expression) ∧ ∀ x ∈ row, x.InRow := by
  have hinside : Span.Fits .expression s.takeRun.1 := fun _ => isDelimiter_of_mem_takeRun
  have hname := lays_of? (takeBy_takes _ _ s) hinside hproper fun _ hne => isRun_takeRun hne
  obtain ⟨row, hrow, hspans, hinRow⟩ := exists_row_readArguments s.takeRun.2 (hname.proper hproper)
  refine ⟨Part.of? .expression s.takeRun.1, row, hname.trans hrow, ?_, ?_, hinRow⟩
  · rw [List.map_append, Part.map_span_of?, hspans]
    rfl
  · intro x hx
    exact (Part.eq_of_mem_of? hx).2.1

/-- The mark of a tag that is no comment is `#` or `/`, or there is none. -/
theorem exists_part_readMarker {kind : TagKind} {s : SymbolStream} (hkind : kind ≠ .comment)
    (hproper : ∀ x ∈ s.upcoming, x.Proper) :
    ∃ mark : Option Part, Lays s mark.toList (readMarker kind s).2 ∧
      mark.toList.map Part.span = (readMarker kind s).1 ∧
      ∀ x ∈ mark, x.span.IsMarkup "#" ∨ x.span.IsMarkup "/" := by
  cases kind with
  | blockOpen =>
    obtain ⟨mark, hlays, hspans, hmark⟩ := @exists_part_readMark s .hash "#" hproper rfl rfl
    exact ⟨mark, hlays, hspans, fun x hx => .inl (hmark x hx).1⟩
  | blockClose =>
    obtain ⟨mark, hlays, hspans, hmark⟩ := @exists_part_readMark s .slash "/" hproper rfl rfl
    exact ⟨mark, hlays, hspans, fun x hx => .inr (hmark x hx).1⟩
  | comment => exact absurd rfl hkind
  | expression => exact ⟨none, .none s, rfl, nofun⟩

section Read
variable {s : SymbolStream} (hopen : s.current.kind.isOpenDelimiter = true)
  (hproper : ∀ x ∈ s.upcoming, x.Proper)
  (hkind : Heading.kindOf s.advance.upcoming ≠ .comment)
include hopen hproper hkind

/-- A tag that is no comment is laid out as its parts are for. -/
theorem exists_layout_read :
    ∃ t : Layout,
      t.parts.map Part.span = (read (Heading.kindOf s.advance.upcoming) s).1.spans ∧
      Lays s t.parts (read (Heading.kindOf s.advance.upcoming) s).2 ∧
      behindMarks s.advance.upcoming =
        Part.symbols t.body ++ (read (Heading.kindOf s.advance.upcoming) s).2.upcoming ∧
      t.Sorted s.current := by
  have hend := Symbol.not_isEnd_of_isOpenDelimiter hopen
  obtain ⟨delimiter, hcover, hopening⟩ :=
    cover?_opening hopen (hproper _ (current_mem_upcoming hend)).spelled
  have hdelimiter := @lays_of? s s.advance .metaCode [s.current] (.one hend)
    ⟨s.current, rfl, by simp [SymbolKind.isMarkup, SymbolKind.isDelimiter, hopen]⟩ hproper
    (by rintro ⟨⟩)
  rw [Part.of?, hcover] at hdelimiter
  have hbehind := hdelimiter.proper hproper
  obtain ⟨tilde, htilde, htildeSpans, hisTilde⟩ :=
    @exists_part_readMark s.advance .tilde "~" hbehind rfl rfl
  have hbehindTilde := htilde.proper hbehind
  obtain ⟨marker, hmarker, hmarkerSpans, hisMarker⟩ :=
    exists_part_readMarker hkind hbehindTilde
  have hbehindMarker := hmarker.proper hbehindTilde
  obtain ⟨name, arguments, hnamed, hnamedSpans, hisName, hinRow⟩ :=
    exists_layout_readNamed _ hbehindMarker
  obtain ⟨row, closing, hending, hendingSpans, hinRow', hisClosing⟩ :=
    exists_row_readEnding s.current.kind.isRaw false _ (hnamed.proper hbehindMarker)
  have hbody := hnamed.trans hending
  have hread := readBody_of_ne_comment hkind
    (readMarker (Heading.kindOf s.advance.upcoming) (s.advance.readMark .tilde).2).2
  refine ⟨⟨⟨delimiter, [s.current]⟩, tilde, marker, name, arguments ++ row, closing⟩, ?_, ?_, ?_,
    ⟨⟨hopening, rfl⟩, fun x hx => (hisTilde x hx).1, hisMarker, hisName, ?_, hisClosing⟩⟩
  · simp only [Layout.parts, Layout.body, List.map_cons, List.map_append, read, hcover, hread,
      ← htildeSpans, ← hmarkerSpans, ← hnamedSpans, ← hendingSpans, Option.toList_some,
      List.append_assoc, List.cons_append, List.nil_append]
  · have hall := hdelimiter.trans (htilde.trans (hmarker.trans hbody))
    simpa only [Layout.parts, Layout.body, read, hread, Option.map_some, Option.toList_some,
      List.append_assoc, List.singleton_append] using hall
  · have hmarks := hbody.1.upcoming
    rw [upcoming_readMarker_readMark] at hmarks
    simpa only [Layout.body, read, hread, List.append_assoc] using hmarks
  · simp only [List.forall_mem_append]
    exact ⟨hinRow, hinRow'⟩

end Read

end Tag

end BraceTemplate
