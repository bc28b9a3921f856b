import BraceTemplate.Proofs.Pieces
import BraceTemplate.Proofs.Template.Lexing

/-!
# Reading what is written

A stream that has the symbols of written parts ahead is read as these parts:
every reader takes what was written for it and leaves the rest. Tags of written
templates are read with their kind and name, and with nothing to complain about.
-/

namespace BraceTemplate

namespace SymbolStream

variable {s : SymbolStream} {front back : List Symbol}

theorem takeBy_of_upcoming {σ : Type} {step : σ → Symbol → Option σ} {state final : σ}
    (hahead : s.upcoming = front ++ back) (hfront : front.foldlM step state = some final)
    (hback : ∀ x ∈ back.head?, step final x = none) :
    (takeBy step state s).1 = front ∧ (takeBy step state s).2.upcoming = back := by
  have hcut : cutBy step state s.upcoming = (front, back) := by
    rw [hahead]
    refine cutBy_eq_of_foldlM step hfront ?_
    rintro x rest rfl
    exact hback x rfl
  exact ⟨by rw [takeBy_fst, hcut], by rw [upcoming_takeBy, hcut]⟩

theorem takeWhile_of_upcoming {p : SymbolKind → Bool} (hahead : s.upcoming = front ++ back)
    (hfront : ∀ x ∈ front, p x.kind = true) (hback : ∀ x ∈ back.head?, p x.kind = false) :
    (s.takeWhile p).1 = front ∧ (s.takeWhile p).2.upcoming = back := by
  have hfold : front.foldlM (fun () x => if p x.kind then some () else none) () = some () := by
    clear hahead
    induction front with
    | nil => rfl
    | cons x front ih =>
      rw [List.foldlM_cons, if_pos (hfront x List.mem_cons_self)]
      exact ih fun y hy => hfront y (List.mem_cons_of_mem x hy)
  refine takeBy_of_upcoming hahead hfold ?_
  intro x hx
  rw [hback x hx]
  rfl

theorem takeBlanks_of_upcoming (hahead : s.upcoming = front ++ back)
    (hfront : ∀ x ∈ front, x.kind = .whitespace) (hback : ∀ x ∈ back.head?, x.kind ≠ .whitespace) :
    s.takeBlanks.1 = front ∧ s.takeBlanks.2.upcoming = back :=
  takeWhile_of_upcoming hahead (fun x hx => beq_iff_eq.2 (hfront x hx))
    fun x hx => beq_eq_false_iff_ne.2 (hback x hx)

/-- A mark that is ahead is read, and one of another kind is not. -/
theorem readMark_of_upcoming {kind : SymbolKind} {x : Symbol} (hahead : s.upcoming = x :: back) :
    (x.kind = kind → s.readMark kind = ((Span.cover? .metaCode [x]).toList, s.advance)) ∧
      (x.kind ≠ kind → s.readMark kind = ([], s)) := by
  obtain ⟨-, hcurrent, -⟩ := current_of_upcoming hahead
  constructor
  · intro hkind
    rw [readMark, hcurrent, if_pos hkind]
  · intro hkind
    exact readMark_of_ne (by rwa [hcurrent])

end SymbolStream

namespace Template

/-! ### Symbols of parts -/

/-- Symbols for parts that are written from an offset on. -/
def symbolsOf (offset : Nat) (parts : List Part) : List Symbol :=
  symbolsAt offset (parts.flatMap Part.tokens)

theorem chars_parts (parts : List Part) :
    (parts.flatMap Part.tokens).flatMap Token.chars = parts.flatMap Part.chars := by
  rw [List.flatMap_assoc]
  rfl

theorem width_append (parts more : List Part) :
    width (parts ++ more) = width parts + width more := by
  rw [width, List.flatMap_append, Text.byteLength_append]
  rfl

theorem symbolsOf_append (offset : Nat) (parts more : List Part) :
    symbolsOf offset (parts ++ more) =
      symbolsOf offset parts ++ symbolsOf (offset + width parts) more := by
  rw [symbolsOf, List.flatMap_append, symbolsAt_append, chars_parts]
  rfl

theorem spansAt_append (offset : Nat) (parts more : List Part) :
    spansAt offset (parts ++ more) =
      spansAt offset parts ++ spansAt (offset + width parts) more := by
  induction parts generalizing offset with
  | nil => rfl
  | cons p parts ih =>
    rw [List.cons_append, spansAt, spansAt, ih, width, width, List.flatMap_cons,
      Text.byteLength_append, Nat.add_assoc]
    rfl

theorem follow_symbolsAt (offset : Nat) {tokens : List Token} (h : ∀ t ∈ tokens, t.chars ≠ []) :
    Stretch.Follow offset ((symbolsAt offset tokens).map Symbol.stretch)
      (offset + Text.byteLength (tokens.flatMap Token.chars)) := by
  induction tokens generalizing offset with
  | nil => rfl
  | cons t tokens ih =>
    have hrest := ih (offset + Text.byteLength t.chars) fun u hu => h u (List.mem_cons_of_mem t hu)
    rw [List.flatMap_cons, Text.byteLength_append, ← Nat.add_assoc]
    refine ⟨?_, ?_, hrest⟩
    · rw [Stretch.text_ne_iff]
      change (String.ofList t.chars).toList ≠ []
      rw [String.toList_ofList]
      exact h t List.mem_cons_self
    · change (⟨offset, _⟩ : Location) =
        ⟨offset, offset + Text.byteLength (String.ofList t.chars).toList⟩
      rw [String.toList_ofList]

theorem joinTexts_symbolsAt (offset : Nat) (tokens : List Token) :
    Symbol.joinTexts (symbolsAt offset tokens) = String.ofList (tokens.flatMap Token.chars) := by
  rw [← String.toList_inj, Symbol.toList_joinTexts, String.toList_ofList]
  induction tokens generalizing offset with
  | nil => rfl
  | cons t tokens ih =>
    rw [symbolsAt, List.map_cons, Stretch.chars_cons, ih, List.flatMap_cons, Symbol.stretch,
      String.toList_ofList]

/-- A part that has its span. -/
structure Part.Solid (p : Part) : Prop where
  nonempty : p.tokens ≠ []
  chars : ∀ t ∈ p.tokens, t.chars ≠ []

/-- The symbols of a part have the span of the part. -/
theorem Part.Solid.cover? {p : Part} (h : p.Solid) (offset : Nat) :
    (Span.cover? p.kind (symbolsAt offset p.tokens)).toList = spansAt offset [p] := by
  have hne : symbolsAt offset p.tokens ≠ [] := by
    obtain ⟨kind, tokens⟩ := p
    cases tokens with
    | nil => exact absurd rfl h.nonempty
    | cons t tokens => exact List.cons_ne_nil _ _
  rw [Span.cover?_of_follow hne (follow_symbolsAt offset h.chars), joinTexts_symbolsAt]
  rfl

theorem solid_one {kind : SpanKind} {t : Token} (h : t.chars ≠ []) : Part.Solid ⟨kind, [t]⟩ where
  nonempty := List.cons_ne_nil _ _
  chars u hu := by
    rw [List.mem_singleton.1 hu]
    exact h

/-- A token that is a part of its own has one span. -/
theorem cover?_one (kind : SpanKind) {t : Token} (h : t.chars ≠ []) (offset : Nat) :
    (Span.cover? kind (symbolsAt offset [t])).toList = spansAt offset [⟨kind, [t]⟩] := by
  have hsolid : Part.Solid ⟨kind, [t]⟩ := solid_one h
  exact hsolid.cover? offset

/-! ### Runs -/

/-- The nesting behind tokens of a run, if the run does not end among them. -/
def nestingAfter (n : Nesting) (tokens : List Token) : Option Nesting :=
  tokens.foldlM (fun n t => if n.stopsAt t.kind then none else some (n.after t.kind)) n

theorem foldlM_symbolsAt (n : Nesting) (offset : Nat) (tokens : List Token) :
    (symbolsAt offset tokens).foldlM Nesting.step n = nestingAfter n tokens := by
  induction tokens generalizing n offset with
  | nil => rfl
  | cons t tokens ih =>
    rw [symbolsAt, List.foldlM_cons, nestingAfter, List.foldlM_cons, Nesting.step]
    split
    · rfl
    · exact ih _ _

theorem kind_wordKind (cs : List Char) :
    Lexeme.wordKind cs = .number ∨ Lexeme.wordKind cs = .keyword ∨
      Lexeme.wordKind cs = .identifier := by
  rw [Lexeme.wordKind]
  split
  · exact .inl rfl
  · split
    · exact .inr (.inl rfl)
    · exact .inr (.inr rfl)

/-- A word ends no run and does not nest. -/
theorem nestingAfter_word (n : Nesting) (w : Word) (tokens : List Token) :
    nestingAfter n (w.token :: tokens) = nestingAfter n tokens := by
  have hkind : n.stopsAt w.token.kind = false ∧ n.after w.token.kind = n := by
    rcases kind_wordKind w.chars with h | h | h <;> rw [Word.token, h] <;> exact ⟨rfl, rfl⟩
  rw [nestingAfter, List.foldlM_cons, hkind.1, hkind.2]
  rfl

/-- Blanks do not end a run that is nested. -/
theorem nestingAfter_gap {n : Nesting} (h : n.isNested = true) (g : Gap) (tokens : List Token) :
    nestingAfter n (g.token :: tokens) = nestingAfter n tokens := by
  have hkind : n.stopsAt g.token.kind = false := by
    change (false || false || true && !n.isNested) = false
    rw [h]
    rfl
  rw [nestingAfter, List.foldlM_cons, hkind]
  rfl

theorem nestingAfter_words {n : Nesting} (h : n.isNested = true) (first : Word)
    (others : List (Gap × Word)) (tokens : List Token) :
    nestingAfter n (first.token ::
      (others.flatMap fun (g, w) => [g.token, w.token]) ++ tokens) = nestingAfter n tokens := by
  induction others generalizing first with
  | nil => exact nestingAfter_word n first tokens
  | cons next others ih =>
    obtain ⟨g, w⟩ := next
    rw [List.cons_append, nestingAfter_word, List.flatMap_cons]
    exact (nestingAfter_gap h g _).trans (ih w)

/-- An argument is one run. -/
theorem Arg.nestingAfter_tokens (a : Arg) : nestingAfter {} a.tokens = some {} := by
  cases a with
  | word w => exact nestingAfter_word {} w []
  | pair key value hkey =>
    rw [tokens, nestingAfter_word]
    exact nestingAfter_word {} value []
  | quoted cs hcs => rfl
  | group first others =>
    have hnested : ({ parens := 1 } : Nesting).isNested = true := rfl
    exact nestingAfter_words hnested first others [⟨.rightParen, [')']⟩]

/-- What may follow a run: the end of the arguments, or blanks in front of the
next. -/
def EndsRun (symbols : List Symbol) : Prop :=
  ∀ x ∈ symbols.head?, x.kind = .whitespace ∨ x.kind.isCloseDelimiter = true

theorem takeRun_of_upcoming {s : SymbolStream} {offset : Nat} {tokens : List Token}
    {rest : List Symbol} (hahead : s.upcoming = symbolsAt offset tokens ++ rest)
    (hrun : nestingAfter {} tokens = some {}) (hrest : EndsRun rest) :
    s.takeRun.1 = symbolsAt offset tokens ∧ s.takeRun.2.upcoming = rest := by
  refine SymbolStream.takeBy_of_upcoming hahead ((foldlM_symbolsAt _ _ _).trans hrun) ?_
  intro x hx
  rw [Nesting.step, if_pos]
  rcases hrest x hx with h | h
  · rw [h]
    rfl
  · rw [Nesting.stopsAt, h, Bool.or_true, Bool.true_or]

/-! ### Arguments -/

theorem Arg.head_tokens (a : Arg) : ∃ t more, a.tokens = t :: more ∧ t.kind ≠ .whitespace ∧
    SymbolStream.endsArguments t.kind = false := by
  have hword : ∀ w : Word, w.token.kind ≠ .whitespace ∧
      SymbolStream.endsArguments w.token.kind = false := by
    intro w
    rcases kind_wordKind w.chars with h | h | h <;> rw [Word.token, h] <;> exact ⟨nofun, rfl⟩
  cases a with
  | word w => exact ⟨w.token, [], rfl, hword w⟩
  | pair key value hkey => exact ⟨key.token, _, rfl, hword key⟩
  | quoted cs hcs => exact ⟨_, _, rfl, nofun, rfl⟩
  | group first others => exact ⟨_, _, rfl, nofun, rfl⟩

theorem Arg.solid_part (a : Arg) : a.part.Solid := by
  cases a with
  | word w => exact solid_one w.nonempty
  | pair key value hkey =>
    refine ⟨List.cons_ne_nil _ _, ?_⟩
    intro t ht
    simp only [part, tokens, List.mem_cons, List.not_mem_nil, or_false] at ht
    rcases ht with rfl | rfl | rfl
    · exact key.nonempty
    · exact List.cons_ne_nil _ _
    · exact value.nonempty
  | quoted cs hcs => exact solid_one (List.cons_ne_nil _ _)
  | group first others =>
    refine ⟨List.cons_ne_nil _ _, ?_⟩
    intro t ht
    simp only [part, tokens, List.mem_append, List.mem_cons, List.mem_flatMap, List.not_mem_nil,
      or_false] at ht
    rcases ht with (rfl | rfl | ⟨⟨g, w⟩, -, ht⟩) | rfl
    · exact List.cons_ne_nil _ _
    · exact first.nonempty
    · rcases ht with rfl | rfl
      · exact g.nonempty
      · exact w.nonempty
    · exact List.cons_ne_nil _ _

/-- An argument with a key has a span of its own kind. -/
theorem Arg.kind_part (a : Arg) (offset : Nat) :
    (if SymbolStream.isKeyed (symbolsAt offset a.tokens) then SpanKind.map else .parameter) =
      a.part.kind := by
  cases a with
  | pair key value hkey =>
    have hkind : key.token.kind = .keyword ∨ key.token.kind = .identifier := by
      rw [Word.token, Lexeme.wordKind, hkey, if_neg Bool.false_ne_true]
      split
      · exact .inl rfl
      · exact .inr rfl
    rw [if_pos]
    · rfl
    · change (key.token.kind == .identifier || key.token.kind == .keyword) && true
      rcases hkind with h | h <;> rw [h] <;> rfl
  | group first others =>
    rw [if_neg]
    · rfl
    · cases others <;> exact nofun
  | _ => rfl

theorem Arg.argument?_tokens (a : Arg) (offset : Nat) :
    (SymbolStream.argument? (symbolsAt offset a.tokens)).toList = spansAt offset [a.part] := by
  have htokens : a.part.tokens = a.tokens := by cases a <;> rfl
  have hspan := a.solid_part.cover? offset
  rw [htokens] at hspan
  rw [SymbolStream.argument?, a.kind_part, hspan]

/-- A closing delimiter comes first. -/
def Closes (symbols : List Symbol) : Prop :=
  ∃ x more, symbols = x :: more ∧ x.kind.isCloseDelimiter = true

theorem Closes.ne_whitespace {x : Symbol} (h : x.kind.isCloseDelimiter = true) :
    x.kind ≠ .whitespace ∧ x.kind ≠ .tilde ∧ x.kind ≠ .comment := by
  refine ⟨?_, ?_, ?_⟩ <;> intro hkind <;> rw [hkind] at h <;> cases h

theorem endsRun_args (args : Args) (offset : Nat) {rest : List Symbol} (h : Closes rest) :
    EndsRun (symbolsOf offset args.parts ++ rest) := by
  intro x hx
  cases args with
  | nil =>
    obtain ⟨y, more, rfl, hclose⟩ := h
    cases hx
    exact .inr hclose
  | cons next args =>
    cases hx
    exact .inl rfl

/-- No arguments are read in front of a closing delimiter. -/
theorem readArguments_closes {s : SymbolStream} (h : Closes s.upcoming) :
    s.readArguments.1 = [] ∧ s.readArguments.2.upcoming = s.upcoming := by
  obtain ⟨x, more, hahead, hclose⟩ := h
  have hblank : ∀ y ∈ (x :: more).head?, y.kind ≠ .whitespace := by
    intro y hy
    cases hy
    exact (Closes.ne_whitespace hclose).1
  have hall : s.upcoming = [] ++ x :: more := hahead
  obtain ⟨hblanks, hleft⟩ :=
    SymbolStream.takeBlanks_of_upcoming hall (fun _ h => nomatch h) hblank
  have hends : SymbolStream.endsArguments s.takeBlanks.2.current.kind = true := by
    rw [(SymbolStream.current_of_upcoming hleft).2.1, SymbolStream.endsArguments, hclose,
      Bool.or_true]
  rw [SymbolStream.readArguments_of_ends hends, hblanks]
  exact ⟨rfl, hleft.trans hahead.symm⟩

/-- What is written for an argument and the blanks in front of it. -/
def Args.next (g : Gap) (a : Arg) : List Part := [⟨.whiteSpace, [g.token]⟩, a.part]

theorem symbolsOf_next (offset : Nat) (g : Gap) (a : Arg) :
    symbolsOf offset (Args.next g a) = symbolsAt offset [g.token] ++
      symbolsAt (offset + width [⟨.whiteSpace, [g.token]⟩]) a.tokens := by
  have hpart : a.part.tokens = a.tokens := by cases a <;> rfl
  have hnext : Args.next g a = [⟨.whiteSpace, [g.token]⟩] ++ [a.part] := rfl
  rw [hnext, symbolsOf_append, symbolsOf, symbolsOf, List.flatMap_singleton,
    List.flatMap_singleton, hpart]

/-- Blanks and the argument behind them are read as two spans. -/
theorem readArguments_next {s : SymbolStream} {offset : Nat} {g : Gap} {a : Arg}
    {back : List Symbol} (hahead : s.upcoming = symbolsOf offset (Args.next g a) ++ back)
    (hback : EndsRun back) :
    ∃ u : SymbolStream, u.upcoming = back ∧ s.readArguments =
      (spansAt offset (Args.next g a) ++ u.readArguments.1, u.readArguments.2) := by
  obtain ⟨t, more, htokens, hblank, hcontinue⟩ := a.head_tokens
  rw [symbolsOf_next, List.append_assoc] at hahead
  have hgap : ∀ x ∈ symbolsAt offset [g.token], x.kind = .whitespace := by
    intro x hx
    rw [List.mem_singleton.1 hx]
    rfl
  obtain ⟨hblanks, hleft⟩ := SymbolStream.takeBlanks_of_upcoming hahead hgap (by
    intro x hx
    rw [htokens] at hx
    cases hx
    exact hblank)
  have hnot : ¬ SymbolStream.endsArguments s.takeBlanks.2.current.kind := by
    rw [htokens] at hleft
    rw [(SymbolStream.current_of_upcoming hleft).2.1]
    exact Bool.not_eq_true _ ▸ hcontinue
  obtain ⟨hrun, hbehind⟩ := takeRun_of_upcoming hleft a.nestingAfter_tokens hback
  have hspan := cover?_one (t := g.token) .whiteSpace g.nonempty offset
  have hspans := spansAt_append offset [⟨.whiteSpace, [g.token]⟩] [a.part]
  refine ⟨_, hbehind, ?_⟩
  rw [SymbolStream.readArguments_of_not_ends hnot, hblanks, Args.next]
  simp only [hrun, a.argument?_tokens, hspan, ← hspans]
  rfl

/-- Written arguments are read one after the other. -/
theorem readArguments_of_upcoming (args : Args) {s : SymbolStream} {offset : Nat}
    {rest : List Symbol} (hahead : s.upcoming = symbolsOf offset args.parts ++ rest)
    (hrest : Closes rest) :
    s.readArguments.1 = spansAt offset args.parts ∧ s.readArguments.2.upcoming = rest := by
  induction args generalizing s offset with
  | nil =>
    have hcloses : Closes s.upcoming := by
      rw [hahead]
      exact hrest
    obtain ⟨hspans, hend⟩ := readArguments_closes hcloses
    exact ⟨hspans, hend.trans hahead⟩
  | cons next args ih =>
    obtain ⟨g, a⟩ := next
    have hparts : Args.parts ((g, a) :: args) = Args.next g a ++ Args.parts args := rfl
    rw [hparts, symbolsOf_append, List.append_assoc] at hahead
    obtain ⟨u, hu, hread⟩ := readArguments_next hahead (endsRun_args args _ hrest)
    obtain ⟨hspans, hend⟩ := ih hu
    rw [hread, hspans, hparts, spansAt_append]
    exact ⟨rfl, hend⟩

/-! ### Tags -/

theorem closes_closing (raw : Bool) (offset : Nat) (rest : List Symbol) :
    Closes (symbolsOf offset [Markup.closing raw] ++ rest) := by
  cases raw <;> exact ⟨_, rest, rfl, rfl⟩

/-- A single mark that is ahead is read as its span. -/
theorem readMark_of_token {kind : SymbolKind} {cs : List Char} (hcs : cs ≠ [])
    {s : SymbolStream} {offset : Nat} {rest : List Symbol}
    (hahead : s.upcoming = symbolsOf offset [⟨.metaCode, [⟨kind, cs⟩]⟩] ++ rest) :
    (s.readMark kind).1 = spansAt offset [⟨.metaCode, [⟨kind, cs⟩]⟩] ∧
      (s.readMark kind).2.upcoming = rest := by
  have hread := (SymbolStream.readMark_of_upcoming hahead).1 rfl
  rw [hread]
  exact ⟨cover?_one .metaCode hcs offset, (SymbolStream.current_of_upcoming hahead).2.2⟩

theorem Mark.readMarker_of_upcoming (mark : Mark) {s : SymbolStream} {offset : Nat}
    {rest : List Symbol} (hahead : s.upcoming = symbolsOf offset mark.parts ++ rest) :
    (Tag.readMarker mark.kind s).1 = spansAt offset mark.parts ∧
      (Tag.readMarker mark.kind s).2.upcoming = rest := by
  cases mark with
  | none => exact ⟨rfl, hahead⟩
  | hash => exact readMark_of_token (List.cons_ne_nil _ _) hahead
  | slash => exact readMark_of_token (List.cons_ne_nil _ _) hahead

/-- A name and its arguments are read as such. -/
theorem readNamed_of_upcoming (name : Word) (args : Args) {s : SymbolStream} {offset : Nat}
    {rest : List Symbol}
    (hahead : s.upcoming = symbolsOf offset (⟨.expression, [name.token]⟩ :: args.parts) ++ rest)
    (hrest : Closes rest) :
    (Tag.readNamed s).name = name.text ∧
      (Tag.readNamed s).spans = spansAt offset (⟨.expression, [name.token]⟩ :: args.parts) ∧
      (Tag.readNamed s).rest.upcoming = rest := by
  have hparts : ⟨.expression, [name.token]⟩ :: args.parts =
      [⟨.expression, [name.token]⟩] ++ args.parts := rfl
  rw [hparts, symbolsOf_append, List.append_assoc] at hahead
  obtain ⟨hrun, hbehind⟩ :=
    takeRun_of_upcoming hahead (nestingAfter_word {} name []) (endsRun_args args _ hrest)
  obtain ⟨hspans, hend⟩ := readArguments_of_upcoming args hbehind hrest
  refine ⟨?_, ?_, hend⟩
  · change Symbol.joinTexts s.takeRun.1 = _
    rw [hrun, joinTexts_symbolsAt, Word.text]
    exact congrArg String.ofList (List.append_nil name.chars)
  · change (Span.cover? .expression s.takeRun.1).toList ++ s.takeRun.2.readArguments.1 = _
    rw [hrun, hspans, hparts, spansAt_append]
    exact congrArg (· ++ _) (cover?_one .expression name.nonempty offset)

theorem readComment_of_upcoming (c : Comment) {s : SymbolStream} {offset : Nat}
    {rest : List Symbol} (hahead : s.upcoming = symbolsOf offset c.parts ++ rest)
    (hrest : Closes rest) :
    (Tag.readComment s).name = "" ∧ (Tag.readComment s).spans = spansAt offset c.parts ∧
      (Tag.readComment s).rest.upcoming = rest := by
  have hfront : ∀ x ∈ symbolsOf offset c.parts, (x.kind == .comment) = true := by
    intro x hx
    rw [Comment.parts] at hx
    split at hx
    · cases hx
    · rw [List.mem_singleton.1 hx]
      rfl
  have hback : ∀ x ∈ rest.head?, (x.kind == .comment) = false := by
    obtain ⟨y, more, rfl, hclose⟩ := hrest
    intro x hx
    cases hx
    exact beq_eq_false_iff_ne.2 (Closes.ne_whitespace hclose).2.2
  obtain ⟨htext, hleft⟩ :=
    SymbolStream.takeWhile_of_upcoming (p := (· == .comment)) hahead hfront hback
  refine ⟨rfl, ?_, hleft⟩
  change (Span.cover? .comment (s.takeWhile (· == .comment)).1).toList = _
  rw [htext]
  by_cases hbody : c.body = []
  · rw [Comment.parts, if_pos hbody]
    rfl
  · rw [Comment.parts, if_neg hbody]
    exact cover?_one .comment hbody offset

theorem solid_opening (raw : Bool) : (Markup.opening raw).Solid := by
  cases raw <;> exact solid_one (List.cons_ne_nil _ _)

theorem solid_closing (raw : Bool) : (Markup.closing raw).Solid := by
  cases raw <;> exact solid_one (List.cons_ne_nil _ _)

/-- The closing delimiter ends a tag that was opened in the same way. -/
theorem readEnding_of_upcoming {raw : Bool} {s : SymbolStream} {offset : Nat}
    {rest : List Symbol}
    (hahead : s.upcoming = symbolsOf offset [Markup.closing raw] ++ rest) :
    (s.readEnding raw false).spans = spansAt offset [Markup.closing raw] ∧
      (s.readEnding raw false).problems = [] ∧
      (s.readEnding raw false).rest.upcoming = rest := by
  obtain ⟨x, hx, hspan, hclose, hraw⟩ : ∃ x, symbolsOf offset [Markup.closing raw] = [x] ∧
      (Span.cover? .metaCode [x]).toList = spansAt offset [Markup.closing raw] ∧
      x.kind.isCloseDelimiter = true ∧ raw = x.kind.isRaw := by
    have hspan := (solid_closing raw).cover? offset
    cases raw <;> exact ⟨_, rfl, hspan, rfl, rfl⟩
  rw [hx] at hahead
  obtain ⟨-, hcurrent, hbehind⟩ := SymbolStream.current_of_upcoming hahead
  have htilde : s.readMark .tilde = ([], s) :=
    (SymbolStream.readMark_of_upcoming hahead).2 (Closes.ne_whitespace hclose).2.1
  have hending : s.readEnding raw false = ⟨(Span.cover? .metaCode [x]).toList, [], s.advance⟩ := by
    rw [SymbolStream.readEnding]
    simp only [htilde, hcurrent, hclose, dite_true, SymbolStream.readDelimiter, if_pos hraw,
      List.nil_append]
  rw [hending]
  exact ⟨hspan, rfl, hbehind⟩

/-- A tag that is read as it was written from an offset on. -/
structure Markup.ReadAs (m : Markup) (offset : Nat) (tag : Tag) : Prop where
  kind : tag.kind = m.kind
  name : tag.name = m.name
  spans : tag.spans = spansAt offset m.parts
  problems : tag.problems = []

/-- The marks of tags of a kind are read as the given parts. -/
def ReadsMarker (kind : TagKind) (marker : List Part) : Prop :=
  ∀ ⦃s : SymbolStream⦄ ⦃offset : Nat⦄ ⦃rest : List Symbol⦄,
    s.upcoming = symbolsOf offset marker ++ rest →
    (Tag.readMarker kind s).1 = spansAt offset marker ∧
      (Tag.readMarker kind s).2.upcoming = rest

/-- The bodies of tags of a kind are read as the given parts, with a name among
them. -/
def ReadsBody (kind : TagKind) (name : String) (body : List Part) : Prop :=
  ∀ ⦃s : SymbolStream⦄ ⦃offset : Nat⦄ ⦃rest : List Symbol⦄,
    s.upcoming = symbolsOf offset body ++ rest → Closes rest →
    (Tag.readBody kind s).name = name ∧ (Tag.readBody kind s).spans = spansAt offset body ∧
      (Tag.readBody kind s).rest.upcoming = rest

/-- A tag is written as a delimiter, a mark, a body and a delimiter, and read in
this order. -/
theorem read_of_upcoming {kind : TagKind} {raw : Bool} {marker body : List Part} {name : String}
    {s : SymbolStream} {offset : Nat} {rest : List Symbol}
    (hahead : s.upcoming = symbolsOf offset
      (Markup.opening raw :: marker ++ body ++ [Markup.closing raw]) ++ rest)
    (htilde : s.advance.readMark .tilde = ([], s.advance))
    (hmarker : ReadsMarker kind marker) (hbody : ReadsBody kind name body) :
    (Tag.read kind s).1.name = name ∧
      (Tag.read kind s).1.spans = spansAt offset
        (Markup.opening raw :: marker ++ body ++ [Markup.closing raw]) ∧
      (Tag.read kind s).1.problems = [] ∧ (Tag.read kind s).2.upcoming = rest := by
  have hparts : Markup.opening raw :: marker ++ body ++ [Markup.closing raw] =
      [Markup.opening raw] ++ (marker ++ (body ++ [Markup.closing raw])) := by simp
  rw [hparts, symbolsOf_append, symbolsOf_append, symbolsOf_append, List.append_assoc,
    List.append_assoc, List.append_assoc] at hahead
  obtain ⟨x, hx, hdelimiter, hraw⟩ : ∃ x, symbolsOf offset [Markup.opening raw] = [x] ∧
      (Span.cover? .metaCode [x]).toList = spansAt offset [Markup.opening raw] ∧
      x.kind.isRaw = raw := by
    have hspan := (solid_opening raw).cover? offset
    cases raw <;> exact ⟨_, rfl, hspan, rfl⟩
  rw [hx] at hahead
  obtain ⟨-, hcurrent, hbehind⟩ := SymbolStream.current_of_upcoming hahead
  obtain ⟨hmark, hfront⟩ := hmarker hbehind
  obtain ⟨hname, hspans, hback⟩ := hbody hfront (closes_closing raw _ rest)
  obtain ⟨hclosing, hproblems, hend⟩ := readEnding_of_upcoming hback
  rw [hparts, spansAt_append, spansAt_append, spansAt_append]
  simp only [Tag.read, htilde, hcurrent, hraw]
  refine ⟨hname, ?_, hproblems, hend⟩
  simp only [hdelimiter, hmark, hspans, hclosing, List.append_assoc, List.nil_append]

/-- The first symbols of a tag tell its kind. -/
theorem Markup.symbolsOf_parts (m : Markup) (offset : Nat) :
    ∃ x y more, symbolsOf offset m.parts = x :: y :: more ∧ x.kind.isOpenDelimiter = true ∧
      y.kind ≠ .tilde ∧ TagKind.ofMarker y.kind = m.kind := by
  cases m with
  | comment c => exact ⟨_, _, _, rfl, rfl, nofun, rfl⟩
  | named mark raw name args =>
    have hopening : ∀ more, ∃ x, symbolsOf offset (opening raw :: more) =
        x :: symbolsAt (offset + Text.byteLength (opening raw).chars) (more.flatMap Part.tokens) ∧
          x.kind.isOpenDelimiter = true := by
      intro more
      cases raw <;> exact ⟨_, rfl, rfl⟩
    obtain ⟨x, hx, hopen⟩ :=
      hopening (mark.parts ++ ⟨.expression, [name.token]⟩ :: args.parts ++ [closing raw])
    have hparts : (named mark raw name args).parts = opening raw ::
        (mark.parts ++ ⟨.expression, [name.token]⟩ :: args.parts ++ [closing raw]) := rfl
    rw [hparts, hx]
    cases mark with
    | hash => exact ⟨x, _, _, rfl, hopen, nofun, rfl⟩
    | slash => exact ⟨x, _, _, rfl, hopen, nofun, rfl⟩
    | none =>
      refine ⟨x, _, _, rfl, hopen, ?_⟩
      change name.token.kind ≠ .tilde ∧ TagKind.ofMarker name.token.kind = .expression
      rcases kind_wordKind name.chars with h | h | h <;> rw [Word.token, h] <;> exact ⟨nofun, rfl⟩

/-- A written tag is read as it was written. -/
theorem Markup.read (m : Markup) {s : SymbolStream} {offset : Nat} {rest : List Symbol}
    (hahead : s.upcoming = symbolsOf offset m.parts ++ rest) :
    m.ReadAs offset (Tag.read (Heading.kindOf s.advance.upcoming) s).1 ∧
      (Tag.read (Heading.kindOf s.advance.upcoming) s).2.upcoming = rest := by
  obtain ⟨x, y, more, hsymbols, -, htilde, hmarker⟩ := m.symbolsOf_parts offset
  have hbehind : s.advance.upcoming = y :: (more ++ rest) := by
    rw [hsymbols] at hahead
    exact (SymbolStream.current_of_upcoming hahead).2.2
  have hkind : Heading.kindOf s.advance.upcoming = m.kind := by
    rw [hbehind, Heading.kindOf, Heading.behindMark, if_neg htilde]
    exact hmarker
  have hnone := (SymbolStream.readMark_of_upcoming hbehind).2 htilde
  rw [hkind]
  cases m with
  | named mark raw name args =>
    have hmark : ReadsMarker mark.kind mark.parts := fun _ _ _ => mark.readMarker_of_upcoming
    have hbody : ReadsBody mark.kind name.text (⟨.expression, [name.token]⟩ :: args.parts) := by
      intro u o more hu hmore
      have hnamed := readNamed_of_upcoming name args hu hmore
      cases mark <;> exact hnamed
    obtain ⟨hname, hspans, hproblems, hend⟩ := read_of_upcoming hahead hnone hmark hbody
    exact ⟨⟨rfl, hname, hspans, hproblems⟩, hend⟩
  | comment c =>
    have hmark : ReadsMarker .comment [⟨.metaCode, [⟨.bang, ['!']⟩]⟩] :=
      fun _ _ _ => readMark_of_token (List.cons_ne_nil _ _)
    have hbody : ReadsBody .comment "" c.parts := fun _ _ _ => readComment_of_upcoming c
    obtain ⟨hname, hspans, hproblems, hend⟩ := read_of_upcoming hahead hnone hmark hbody
    exact ⟨⟨rfl, hname, hspans, hproblems⟩, hend⟩

end Template

end BraceTemplate
