import BraceTemplate.Proofs.Pieces.Moving
import BraceTemplate.Proofs.Template.Reading

/-!
# Written closing tags

Tags that close blocks and nothing else, written one after the other. The name
of a block may be empty, so it is no word here, and its tag has no span for it
then. Whatever stands in front of such tags, they are read as they are written.
-/

namespace BraceTemplate

namespace Template

/-- What is written for a name, which may be empty. -/
def nameParts (name : String) : List Part :=
  if name = "" then [] else [⟨.expression, [⟨Lexeme.wordKind name.toList, name.toList⟩]⟩]

/-- What is written to close a block with a name. -/
def closingParts (name : String) : List Part :=
  Markup.opening false :: Mark.slash.parts ++ nameParts name ++ [Markup.closing false]

/-- The markup of a closing tag as a block of its own. -/
def closingAt (offset : Nat) (name : String) : Node :=
  .block .tagElement "" ((spansAt offset (closingParts name)).map .span)

/-- The markup of closing tags that are written one after the other. -/
def closingsAt : Nat → List String → List Node
  | _, [] => []
  | offset, name :: names =>
    closingAt offset name :: closingsAt (offset + width (closingParts name)) names

/-- The source of tags that close blocks with the given names, in order. -/
def closings (names : List String) : String :=
  String.join (names.map fun name => "\x7b\x7b/" ++ name ++ "\x7d\x7d")

/-- A name that is read as one word, or as none. -/
def IsName (name : String) : Prop := ∀ c ∈ name.toList, Lexeme.isWordChar c = true

/-- A tag that is read as the closing tag that was written from an offset on. -/
structure ClosesAt (offset : Nat) (name : String) (tag : Tag) : Prop where
  kind : tag.kind = .blockClose
  spans : tag.spans = spansAt offset (closingParts name)
  problems : tag.problems = []
  name : tag.name = name

/-- Pieces that are read as the closing tags that were written. -/
inductive ReadClosings : Nat → List String → List Piece → Prop
  | nil (offset : Nat) : ReadClosings offset [] []
  | cons {offset : Nat} {name : String} {names : List String} {tag : Tag} {pieces : List Piece}
      (htag : ClosesAt offset name tag)
      (h : ReadClosings (offset + width (closingParts name)) names pieces) :
      ReadClosings offset (name :: names) (.tag tag :: pieces)

variable {name : String} {names : List String} {offset : Nat}

theorem chars_nameParts (name : String) : (nameParts name).flatMap Part.chars = name.toList := by
  rw [nameParts]
  split
  · rename_i hname
    rw [hname]
    rfl
  · simp [Part.chars]

theorem toList_closings (names : List String) :
    (closings names).toList = (names.flatMap closingParts).flatMap Part.chars := by
  rw [closings, String.toList_join, List.flatMap_map, List.flatMap_assoc]
  apply List.flatMap_congr
  intro name _
  have hparts : (closingParts name).flatMap Part.chars =
      ['{', '{', '/'] ++ ((nameParts name).flatMap Part.chars ++ ['}', '}']) := by
    rw [closingParts, List.flatMap_append, List.flatMap_append, List.append_assoc]
    rfl
  rw [hparts, chars_nameParts, String.toList_append, String.toList_append, List.append_assoc]
  rfl

/-- A name is the name of a tag, or there is none. -/
theorem IsName.empty_or_word (h : IsName name) :
    name = "" ∨ ∃ word : Word, word.text = name ∧
      nameParts name = [⟨.expression, [word.token]⟩] := by
  by_cases hname : name = ""
  · exact .inl hname
  · have hne : name.toList ≠ [] := by rwa [Ne, String.toList_eq_nil_iff]
    refine .inr ⟨⟨name.toList, hne, h⟩, String.ofList_toList, ?_⟩
    rw [nameParts, if_neg hname]
    rfl

theorem IsName.lexes (h : IsName name) {after : List Char} (hafter : EndsWord after) :
    Lexes (.tag false) ((nameParts name).flatMap Part.tokens) after (.tag false) := by
  rcases h.empty_or_word with rfl | ⟨word, -, hparts⟩
  · exact .nil _ after
  · rw [hparts]
    exact word.lexes false hafter

/-- The tokens of a closing tag, in the order in which they are scanned. -/
theorem tokens_closingParts (name : String) :
    (closingParts name).flatMap Part.tokens =
      (Markup.opening false).tokens ++ (⟨.slash, ['/']⟩ ::
        ((nameParts name).flatMap Part.tokens ++ (Markup.closing false).tokens)) := by
  rw [closingParts, List.flatMap_append, List.flatMap_append, List.append_assoc]
  rfl

theorem lexes_closingParts (h : IsName name) (after : List Char) :
    Lexes .content ((closingParts name).flatMap Part.tokens) after .content := by
  have hslash : Lexes (.tag false) [⟨.slash, ['/']⟩]
      (((nameParts name).flatMap Part.tokens ++ (Markup.closing false).tokens).flatMap
        Token.chars ++ after) (.tag false) := lexes_mark rfl
  rw [tokens_closingParts]
  refine (lexes_opening fun _ => ?_).append (hslash.append
    ((h.lexes (Markup.endsWord_closing false after)).append (lexes_closing false after)))
  intro c hc
  cases hc
  decide

/-- The symbols of closing tags are their tokens. -/
theorem symbols_closings (h : ∀ name ∈ names, IsName name) :
    symbols (closings names) = symbolsOf 0 (names.flatMap closingParts) := by
  have hlexes : Lexes .content ((names.flatMap closingParts).flatMap Part.tokens) [] .content := by
    induction names with
    | nil => exact .nil _ _
    | cons name names ih =>
      rw [List.flatMap_cons, List.flatMap_append]
      refine (lexes_closingParts (h name List.mem_cons_self) _).append ?_
      exact ih fun other hother => h other (List.mem_cons_of_mem name hother)
  apply hlexes.symbols_ofSource
  rw [toList_closings, chars_parts]

/-! ### Reading closing tags -/

theorem IsName.readsBody (h : IsName name) : ReadsBody .blockClose name (nameParts name) := by
  intro s offset rest hahead hrest
  rcases h.empty_or_word with rfl | ⟨word, rfl, hparts⟩
  · have hends : EndsRun rest := endsRun_args [] offset hrest
    have hall : s.upcoming = symbolsAt offset [] ++ rest := hahead
    obtain ⟨hrun, hbehind⟩ := takeRun_of_upcoming hall rfl hends
    rw [← hbehind] at hrest
    obtain ⟨harguments, hend⟩ := readArguments_closes hrest
    refine ⟨?_, ?_, hend.trans hbehind⟩
    · change Symbol.joinTexts s.takeRun.1 = _
      rw [hrun]
      rfl
    · change (Span.cover? .expression s.takeRun.1).toList ++ s.takeRun.2.readArguments.1 = _
      rw [hrun, harguments]
      rfl
  · rw [hparts] at hahead ⊢
    exact readNamed_of_upcoming word [] hahead hrest

theorem exists_of_mem_symbolsAt {tokens : List Token} {x : Symbol}
    (h : x ∈ symbolsAt offset tokens) : ∃ t ∈ tokens, x.kind = t.kind := by
  induction tokens generalizing offset with
  | nil => cases h
  | cons t tokens ih =>
    rcases List.mem_cons.1 h with rfl | h
    · exact ⟨t, List.mem_cons_self, rfl⟩
    · obtain ⟨u, hu, hkind⟩ := ih h
      exact ⟨u, List.mem_cons_of_mem t hu, hkind⟩

/-- Names have neither text nor opening delimiters in them. -/
theorem IsName.inside (h : IsName name) :
    ∀ t ∈ (nameParts name).flatMap Part.tokens,
      t.kind ≠ .text ∧ t.kind.isOpenDelimiter = false := by
  intro t ht
  rcases h.empty_or_word with rfl | ⟨word, -, hparts⟩
  · cases ht
  · rw [hparts] at ht
    rw [List.mem_singleton.1 ht]
    rcases kind_wordKind word.chars with hkind | hkind | hkind <;> rw [Word.token, hkind] <;>
      exact ⟨by simp, rfl⟩

/-- The symbols of a closing tag, the first of which is its delimiter. -/
theorem symbolsOf_closingParts (h : IsName name) (offset : Nat) :
    ∃ x y inner, symbolsOf offset (closingParts name) = x :: y :: inner ∧
      x.kind.isOpenDelimiter = true ∧ y.kind = .slash ∧
      ∀ z ∈ y :: inner, z.kind ≠ .text ∧ z.kind.isOpenDelimiter = false := by
  rw [symbolsOf, tokens_closingParts]
  refine ⟨_, _, _, rfl, rfl, rfl, fun z hz => ?_⟩
  obtain ⟨t, ht, hkind⟩ : ∃ t ∈ Token.mk .slash ['/'] ::
      ((nameParts name).flatMap Part.tokens ++ (Markup.closing false).tokens), z.kind = t.kind :=
    exists_of_mem_symbolsAt hz
  rw [hkind]
  rcases List.mem_cons.1 ht with rfl | ht
  · exact ⟨by simp, rfl⟩
  · rcases List.mem_append.1 ht with ht | ht
    · exact h.inside t ht
    · rw [List.mem_singleton.1 ht]
      exact ⟨by simp, rfl⟩

/-- A closing tag is read as it was written. -/
theorem closesAt_of_upcoming (h : IsName name) {s : SymbolStream} {rest : List Symbol}
    (hahead : s.upcoming = symbolsOf offset (closingParts name) ++ rest) :
    ClosesAt offset name (Tag.read (Heading.kindOf s.advance.upcoming) s).1 := by
  obtain ⟨x, y, inner, hsymbols, -, hslash, -⟩ := symbolsOf_closingParts h offset
  have hbehind : s.advance.upcoming = y :: (inner ++ rest) := by
    rw [hsymbols] at hahead
    exact (SymbolStream.current_of_upcoming hahead).2.2
  have htilde : y.kind ≠ .tilde := by
    rw [hslash]
    decide
  have hkind : Heading.kindOf s.advance.upcoming = .blockClose := by
    rw [hbehind, Heading.kindOf, Heading.behindMark, if_neg htilde]
    change TagKind.ofMarker y.kind = _
    rw [hslash]
    rfl
  have hnone := (SymbolStream.readMark_of_upcoming hbehind).2 htilde
  have hmark : ReadsMarker .blockClose Mark.slash.parts :=
    fun _ _ _ => Mark.slash.readMarker_of_upcoming
  obtain ⟨hname, hspans, hproblems, -⟩ := read_of_upcoming hahead hnone hmark h.readsBody
  rw [hkind]
  exact ⟨rfl, hspans, hproblems, hname⟩

/-- The pieces of closing tags are these tags. -/
theorem readClosings_of_readOff {stop : Nat} {pieces : List Piece}
    (hnames : ∀ name ∈ names, IsName name)
    (h : Piece.ReadOff stop (symbolsOf offset (names.flatMap closingParts)) pieces) :
    ReadClosings offset names pieces := by
  induction names generalizing offset pieces with
  | nil =>
    cases h
    exact .nil offset
  | cons name names ih =>
    have hname := hnames name List.mem_cons_self
    obtain ⟨x, y, inner, hsymbols, hopen, -, hinner⟩ := symbolsOf_closingParts hname offset
    rw [List.flatMap_cons, symbolsOf_append, hsymbols] at h
    obtain ⟨tag, others, rfl, ⟨s, -, hcurrent, hahead, rfl⟩, hrest⟩ := h.of_tag hopen
    have hall : s.upcoming = symbolsOf offset (closingParts name) ++
        symbolsOf (offset + width (closingParts name)) (names.flatMap closingParts) := by
      have hdelimiter : s.current.kind.isOpenDelimiter = true := by
        rw [hcurrent]
        exact hopen
      have hnotEnd := Symbol.not_isEnd_of_isOpenDelimiter hdelimiter
      rw [SymbolStream.upcoming_of_not_isEnd hnotEnd, hcurrent, hahead, hsymbols]
      rfl
    have hread := closesAt_of_upcoming hname hall
    rw [hahead] at hread
    refine .cons hread (ih (fun other hother => hnames other (List.mem_cons_of_mem name hother)) ?_)
    exact hrest.of_append_inside hinner

/-! ### Closing tags further back -/

theorem spansAt_move (d offset : Nat) (parts : List Part) :
    spansAt (offset + d) parts = (spansAt offset parts).map (Span.move d) := by
  induction parts generalizing offset with
  | nil => rfl
  | cons p parts ih =>
    rw [spansAt, spansAt, List.map_cons, ← ih, Nat.add_right_comm]
    rfl

theorem ReadClosings.move (d : Nat) {pieces : List Piece} (h : ReadClosings offset names pieces) :
    ReadClosings (offset + d) names (pieces.map (Piece.move d)) := by
  induction h with
  | nil offset => exact .nil _
  | @cons offset name names tag pieces htag _ ih =>
    refine .cons ⟨htag.kind, ?_, ?_, htag.name⟩ ?_
    · rw [spansAt_move, ← htag.spans]
      rfl
    · change tag.problems.map (Diagnostic.move d) = []
      rw [htag.problems]
      rfl
    · rw [Nat.add_right_comm]
      exact ih

end Template

end BraceTemplate
