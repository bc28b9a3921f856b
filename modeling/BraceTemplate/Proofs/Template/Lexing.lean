import Mathlib.Data.List.Chain
import BraceTemplate.Proofs.Symbol.Fronts
import BraceTemplate.Proofs.Symbol.Tiling
import BraceTemplate.Proofs.Template.Syntax

/-!
# Scanning what is written

The lexemes of a written template are its tokens. Which lexeme is next depends
on what follows, so each token is looked at in front of the rest: words, blanks
and text end where the rest starts, and all others say themselves where they
end.
-/

namespace BraceTemplate

namespace Template

/-! ### Tokens and symbols -/

/-- Symbols for tokens that are written from an offset on. -/
def symbolsAt (offset : Nat) : List Token → List Symbol
  | [] => []
  | t :: tokens =>
    let stop := offset + Text.byteLength t.chars
    ⟨t.kind, ⟨offset, stop⟩, String.ofList t.chars⟩ :: symbolsAt stop tokens

theorem symbolsAt_append (offset : Nat) (tokens more : List Token) :
    symbolsAt offset (tokens ++ more) = symbolsAt offset tokens ++
      symbolsAt (offset + Text.byteLength (tokens.flatMap Token.chars)) more := by
  induction tokens generalizing offset with
  | nil => rfl
  | cons t tokens ih =>
    rw [List.cons_append, symbolsAt, ih, List.flatMap_cons, Text.byteLength_append,
      ← Nat.add_assoc]
    rfl

/-- The tokens are the lexemes at the front of their text, where a rest
follows. -/
inductive Lexes : Mode → List Token → List Char → Mode → Prop
  | nil (mode : Mode) (after : List Char) : Lexes mode [] after mode
  | cons {mode middle final : Mode} {t : Token} {tokens : List Token} {after : List Char}
      (hne : t.chars ≠ [])
      (hnext : Lexeme.next mode (t.chars ++ (tokens.flatMap Token.chars ++ after)) =
        ⟨t.kind, t.chars.length, middle⟩)
      (h : Lexes middle tokens after final) : Lexes mode (t :: tokens) after final

namespace Lexes

variable {mode middle final : Mode} {tokens more : List Token} {after : List Char}

theorem one {t : Token} (hne : t.chars ≠ [])
    (hnext : Lexeme.next mode (t.chars ++ after) = ⟨t.kind, t.chars.length, final⟩) :
    Lexes mode [t] after final :=
  .cons hne hnext (.nil final after)

theorem append (h : Lexes mode tokens (more.flatMap Token.chars ++ after) middle)
    (hmore : Lexes middle more after final) : Lexes mode (tokens ++ more) after final := by
  generalize hrest : more.flatMap Token.chars ++ after = rest at h
  induction h with
  | nil => exact hmore
  | cons hne hnext _ ih =>
    refine .cons hne ?_ (ih hmore hrest)
    change Lexeme.next _ (_ ++ (List.flatMap Token.chars (_ ++ more) ++ after)) = _
    rw [List.flatMap_append, List.append_assoc, hrest]
    exact hnext

/-- Scanning hands out the tokens as symbols. -/
theorem symbols (h : Lexes mode tokens after final) (offset : Nat) :
    Scanner.symbols ⟨tokens.flatMap Token.chars ++ after, offset, mode⟩ =
      symbolsAt offset tokens ++
        Scanner.symbols ⟨after, offset + Text.byteLength (tokens.flatMap Token.chars), final⟩ := by
  induction h generalizing offset with
  | nil => rfl
  | @cons mode middle final t tokens after hne hnext _ ih =>
    rw [List.flatMap_cons, List.append_assoc]
    have hrest : t.chars ++ (tokens.flatMap Token.chars ++ after) ≠ [] := by simp [hne]
    have htext : Scanner.nextText ⟨t.chars ++ (tokens.flatMap Token.chars ++ after), offset, mode⟩ =
        t.chars := by
      rw [Scanner.nextText, hnext]
      exact List.take_left
    have hadvance :
        Scanner.advance ⟨t.chars ++ (tokens.flatMap Token.chars ++ after), offset, mode⟩ =
          ⟨tokens.flatMap Token.chars ++ after, offset + Text.byteLength t.chars, middle⟩ := by
      rw [Scanner.advance_of_rest_ne_nil hrest, htext, hnext]
      simp
    rw [Scanner.symbols_of_rest_ne_nil hrest, hadvance, ih, Scanner.current_of_rest_ne_nil hrest,
      htext, hnext, symbolsAt, Text.byteLength_append, Nat.add_assoc]
    rfl

/-- A source of nothing but tokens has them as its symbols. -/
theorem symbols_ofSource {source : String} (h : Lexes .content tokens [] final)
    (hsource : source.toList = tokens.flatMap Token.chars) :
    BraceTemplate.symbols source = symbolsAt 0 tokens := by
  have hsymbols := h.symbols 0
  have hend : ∀ offset, Scanner.symbols ⟨[], offset, final⟩ = [] := fun _ =>
    Scanner.symbols_of_rest_eq_nil rfl
  rw [List.append_nil, hend, List.append_nil, ← hsource] at hsymbols
  exact hsymbols

end Lexes

/-! ### Arguments -/

/-- No word goes on into the rest. -/
def EndsWord (after : List Char) : Prop := ∀ c ∈ after.head?, Lexeme.isWordChar c = false

/-- No blanks go on into the rest. -/
def EndsGap (after : List Char) : Prop := ∀ c ∈ after.head?, Text.isBlank c = false

theorem endsWord_cons {c : Char} (h : Lexeme.isWordChar c = false) (after : List Char) :
    EndsWord (c :: after) := by
  intro d hd
  cases hd
  exact h

theorem endsGap_cons {c : Char} (h : Text.isBlank c = false) (after : List Char) :
    EndsGap (c :: after) := by
  intro d hd
  cases hd
  exact h

theorem Gap.endsWord (g : Gap) (after : List Char) : EndsWord (g.chars ++ after) := by
  obtain ⟨cs, hne, hblank⟩ := g
  cases cs with
  | nil => exact absurd rfl hne
  | cons c cs =>
    refine endsWord_cons ?_ (cs ++ after)
    rw [Lexeme.isWordChar, hblank c List.mem_cons_self]
    rfl

theorem Word.endsGap (w : Word) (after : List Char) : EndsGap (w.chars ++ after) := by
  obtain ⟨cs, hne, hword⟩ := w
  cases cs with
  | nil => exact absurd rfl hne
  | cons c cs =>
    exact endsGap_cons (Lexeme.isBlank_of_isWordChar (hword c List.mem_cons_self)) (cs ++ after)

variable {after : List Char}

theorem Word.lexes (w : Word) (raw : Bool) (h : EndsWord after) :
    Lexes (.tag raw) [w.token] after (.tag raw) :=
  .one w.nonempty (Lexeme.inTag_word w.nonempty w.wordChars h raw)

theorem Gap.lexes (g : Gap) (raw : Bool) (h : EndsGap after) :
    Lexes (.tag raw) [g.token] after (.tag raw) :=
  .one g.nonempty (Lexeme.inTag_blank g.nonempty g.blank h raw)

theorem lexes_mark {c : Char} {kind : SymbolKind} {raw : Bool}
    (h : Lexeme.inTag raw (c :: after) = ⟨kind, 1, .tag raw⟩) :
    Lexes (.tag raw) [⟨kind, [c]⟩] after (.tag raw) :=
  .one (List.cons_ne_nil c []) h

/-- Words with blanks between them, and a closing parenthesis. -/
theorem lexes_words (first : Word) (others : List (Gap × Word)) (raw : Bool) :
    Lexes (.tag raw)
      (first.token :: (others.flatMap fun (g, w) => [g.token, w.token]) ++
        [⟨.rightParen, [')']⟩]) after (.tag raw) := by
  induction others generalizing first with
  | nil => exact (first.lexes raw (endsWord_cons (by decide) _)).append (lexes_mark rfl)
  | cons next others ih =>
    obtain ⟨g, w⟩ := next
    refine (first.lexes raw ?_).append ((g.lexes raw ?_).append (ih w))
    · rw [List.flatMap_cons, List.append_assoc]
      exact g.endsWord _
    · rw [List.flatMap_cons, List.append_assoc]
      exact w.endsGap _

theorem Arg.lexes (a : Arg) (raw : Bool) (h : EndsWord after) :
    Lexes (.tag raw) a.tokens after (.tag raw) := by
  cases a with
  | word w => exact w.lexes raw h
  | pair key value hkey =>
    refine (key.lexes raw ?_).append ((lexes_mark rfl).append (value.lexes raw h))
    exact endsWord_cons (by decide) _
  | quoted cs hcs =>
    refine .one (List.cons_ne_nil _ _) ?_
    have hnext := Lexeme.inTag_quoted hcs after raw
    rw [List.append_assoc, List.length_append, List.length_cons, List.length_singleton]
    exact hnext
  | group first others =>
    exact (lexes_mark (c := '(') rfl).append (lexes_words first others raw)

theorem Arg.endsGap (a : Arg) (after : List Char) :
    EndsGap (a.tokens.flatMap Token.chars ++ after) := by
  cases a with
  | word w =>
    rw [tokens, List.flatMap_cons, List.append_assoc]
    exact w.endsGap _
  | pair key value hkey =>
    rw [tokens, List.flatMap_cons, List.append_assoc]
    exact key.endsGap _
  | quoted cs hcs => exact endsGap_cons (by decide) _
  | group first others => exact endsGap_cons (by decide) _

/-- The tokens of arguments. -/
def Args.tokens (args : Args) : List Token := args.flatMap fun (g, a) => g.token :: a.tokens

theorem Args.tokens_parts (args : Args) : args.parts.flatMap Part.tokens = args.tokens := by
  induction args with
  | nil => rfl
  | cons next args ih =>
    obtain ⟨g, a⟩ := next
    have hpart : a.part.tokens = a.tokens := by cases a <;> rfl
    change g.token :: (a.part.tokens ++ (parts args).flatMap Part.tokens) = _
    rw [ih, hpart]
    rfl

theorem Args.endsWord (args : Args) (h : EndsWord after) :
    EndsWord (args.tokens.flatMap Token.chars ++ after) := by
  cases args with
  | nil => exact h
  | cons next args =>
    obtain ⟨g, a⟩ := next
    change EndsWord (g.chars ++ (a.tokens ++ tokens args).flatMap Token.chars ++ after)
    rw [List.append_assoc]
    exact g.endsWord _

theorem Args.lexes (args : Args) (raw : Bool) (h : EndsWord after) :
    Lexes (.tag raw) args.tokens after (.tag raw) := by
  induction args with
  | nil => exact .nil _ after
  | cons next args ih =>
    obtain ⟨g, a⟩ := next
    refine (g.lexes raw ?_).append ((a.lexes raw (Args.endsWord args h)).append ih)
    change EndsGap ((a.tokens ++ tokens args).flatMap Token.chars ++ after)
    rw [List.flatMap_append, List.append_assoc]
    exact a.endsGap _

/-! ### Tags and text -/

theorem Comment.bodyLength_eq (c : Comment) (after : List Char) :
    Lexeme.bodyLength false (c.body ++ '}' :: '}' :: after) = c.body.length := by
  cases c with
  | short cs hcs hdashes => exact Lexeme.bodyLength_short hcs hdashes after
  | long cs hcs =>
    have hlong := Lexeme.bodyLength_long hcs after
    rw [body, hlong]
    simp

theorem lexes_closing (raw : Bool) (after : List Char) :
    Lexes (.tag raw) (Markup.closing raw).tokens after .content := by
  cases raw with
  | false => exact .one (List.cons_ne_nil _ _) rfl
  | true => exact .one (List.cons_ne_nil _ _) rfl

/-- The body of a comment and its closing delimiter. -/
theorem Comment.lexes (c : Comment) (after : List Char) :
    Lexes (.comment false)
      (c.parts.flatMap Part.tokens ++ (Markup.closing false).tokens) after .content := by
  have hlength := c.bodyLength_eq after
  by_cases hbody : c.body = []
  · rw [parts, if_pos hbody]
    rw [hbody] at hlength
    refine .one (List.cons_ne_nil _ _) ?_
    change Lexeme.inComment false ('}' :: '}' :: after) = _
    rw [Lexeme.inComment, show Lexeme.bodyLength false ('}' :: '}' :: after) = 0 from hlength]
    rfl
  · rw [parts, if_neg hbody]
    have hlexes :
        Lexes (.comment false) [⟨.comment, c.body⟩] ('}' :: '}' :: after) (.tag false) := by
      refine .one hbody ?_
      change Lexeme.inComment false (c.body ++ '}' :: '}' :: after) = _
      rw [Lexeme.inComment, hlength]
      cases hcount : c.body.length with
      | zero => exact absurd (List.length_eq_zero_iff.1 hcount) hbody
      | succ n => rfl
    exact hlexes.append (lexes_closing false after)

/-- The opening delimiter of a tag with two braces has no brace behind it. -/
def NoBrace (after : List Char) : Prop := ∀ c ∈ after.head?, c ≠ '{'

theorem lexes_opening {raw : Bool} (h : raw = false → NoBrace after) :
    Lexes .content (Markup.opening raw).tokens after (.tag raw) := by
  cases raw with
  | true => exact .one (List.cons_ne_nil _ _) rfl
  | false =>
    refine .one (List.cons_ne_nil _ _) ?_
    change Lexeme.opening after = _
    rw [Lexeme.opening, if_neg]
    · rfl
    · intro hhead
      exact h rfl '{' hhead rfl

theorem Word.noBrace (w : Word) (after : List Char) : NoBrace (w.chars ++ after) := by
  obtain ⟨cs, hne, hword⟩ := w
  cases cs with
  | nil => exact absurd rfl hne
  | cons c cs =>
    intro d hd
    cases hd
    have hmark := Lexeme.ne_mark_of_isWordChar (hword c List.mem_cons_self)
    exact Lexeme.ne_of_not_mem_marks hmark (by decide)

/-- The mark of a tag and its name. -/
theorem Mark.lexes (mark : Mark) (name : Word) (raw : Bool) (h : EndsWord after) :
    Lexes (.tag raw) (mark.parts.flatMap Part.tokens ++ [name.token]) after (.tag raw) := by
  cases mark with
  | none => exact name.lexes raw h
  | hash => exact (lexes_mark rfl).append (name.lexes raw h)
  | slash => exact (lexes_mark rfl).append (name.lexes raw h)

theorem Mark.noBrace (mark : Mark) (name : Word) (after : List Char) :
    NoBrace ((mark.parts.flatMap Part.tokens ++ [name.token]).flatMap Token.chars ++ after) := by
  cases mark with
  | none =>
    change NoBrace ((name.chars ++ []) ++ after)
    rw [List.append_nil]
    exact name.noBrace after
  | hash =>
    intro c hc
    cases hc
    decide
  | slash =>
    intro c hc
    cases hc
    decide

namespace Markup

/-- The tokens of a tag with a name, in the order in which they are scanned. -/
theorem tokens_named (mark : Mark) (raw : Bool) (name : Word) (args : Args) :
    (named mark raw name args).parts.flatMap Part.tokens =
      (opening raw).tokens ++ ((mark.parts.flatMap Part.tokens ++ [name.token]) ++
        (args.tokens ++ (closing raw).tokens)) := by
  rw [← Args.tokens_parts]
  simp only [parts, List.cons_append, List.append_assoc, List.flatMap_cons, List.flatMap_append,
    List.flatMap_nil, List.append_nil, List.nil_append]

theorem tokens_comment (c : Comment) :
    (comment c).parts.flatMap Part.tokens =
      (opening false).tokens ++ (⟨.bang, ['!']⟩ ::
        (c.parts.flatMap Part.tokens ++ (closing false).tokens)) := by
  simp only [parts, List.cons_append, List.flatMap_cons, List.flatMap_append,
    List.flatMap_nil, List.append_nil, List.nil_append]

theorem endsWord_closing (raw : Bool) (after : List Char) :
    EndsWord ((closing raw).tokens.flatMap Token.chars ++ after) := by
  cases raw <;> exact endsWord_cons (by decide) _

/-- A tag is scanned alike whatever follows. -/
theorem lexes (m : Markup) (after : List Char) :
    Lexes .content (m.parts.flatMap Part.tokens) after .content := by
  cases m with
  | named mark raw name args =>
    rw [tokens_named]
    refine (lexes_opening fun _ => ?_).append ((mark.lexes name raw ?_).append
      ((args.lexes raw (endsWord_closing raw after)).append (lexes_closing raw after)))
    · rw [List.flatMap_append, List.append_assoc]
      exact mark.noBrace name _
    · rw [List.flatMap_append, List.append_assoc]
      exact args.endsWord (endsWord_closing raw after)
  | comment c =>
    rw [tokens_comment]
    refine (lexes_opening fun _ => ?_).append (.cons (List.cons_ne_nil _ _) rfl (c.lexes after))
    intro d hd
    cases hd
    decide

end Markup

namespace Fragment

def isText : Fragment → Bool
  | text _ => true
  | markup _ => false

/-- The tokens that are written for fragments. -/
def tokens (fs : List Fragment) : List Token := (fs.flatMap parts).flatMap Part.tokens

theorem tokens_cons (f : Fragment) (fs : List Fragment) :
    tokens (f :: fs) = f.parts.flatMap Part.tokens ++ tokens fs := by
  rw [tokens, List.flatMap_cons, List.flatMap_append]
  rfl

/-- No two texts are adjacent. -/
def Apart (fs : List Fragment) : Prop := fs.IsChain fun a b => a.isText = false ∨ b.isText = false

theorem opens_tokens {fs : List Fragment} (h : ∀ f ∈ fs.head?, f.isText = false) :
    (tokens fs).flatMap Token.chars = [] ∨
      ∃ rest, (tokens fs).flatMap Token.chars = '{' :: '{' :: rest := by
  cases fs with
  | nil => exact .inl rfl
  | cons f fs =>
    right
    rw [tokens_cons, List.flatMap_append]
    cases f with
    | text t => exact absurd (h _ rfl) (by simp [isText])
    | markup m =>
      cases m with
      | named mark raw name args => cases raw <;> exact ⟨_, rfl⟩
      | comment c => exact ⟨_, rfl⟩

theorem lexes {fs : List Fragment} (h : Apart fs) : Lexes .content (tokens fs) [] .content := by
  induction fs with
  | nil => exact .nil _ _
  | cons f fs ih =>
    obtain ⟨hhead, hrest⟩ := List.isChain_cons.1 h
    rw [tokens_cons]
    refine Lexes.append ?_ (ih hrest)
    rw [List.append_nil]
    cases f with
    | markup m => exact m.lexes _
    | text t =>
      refine .one t.nonempty (Lexeme.inContent_text t.nonempty t.plain (opens_tokens ?_))
      intro g hg
      exact (hhead g hg).resolve_left (by simp [isText])

end Fragment

/-- An item starts and ends with text if it is text. -/
theorem Item.isText_fragments (item : Item) {f : Fragment}
    (h : f ∈ item.fragments.head? ∨ f ∈ item.fragments.getLast?) : f.isText = item.isText := by
  cases item with
  | text t => rcases h with h | h <;> cases h <;> rfl
  | single tag => rcases h with h | h <;> cases h <;> rfl
  | block name args body =>
    rcases h with h | h
    · cases h
      rfl
    · rw [fragments, ← List.cons_append, List.getLast?_concat] at h
      cases h
      rfl

theorem Item.fragments_ne_nil (item : Item) : item.fragments ≠ [] := by
  cases item <;> exact List.cons_ne_nil _ _

theorem isText_head_fragments {items : List Item} (h : items.head?.any Item.isText = false)
    {f : Fragment} (hf : f ∈ (fragments items).head?) : f.isText = false := by
  cases items with
  | nil => cases hf
  | cons item rest =>
    rw [fragments, List.head?_append_of_ne_nil _ item.fragments_ne_nil] at hf
    rw [item.isText_fragments (.inl hf)]
    exact h

mutual

theorem Item.apart {options : Options} {inBranch : Bool} :
    (item : Item) → item.fits options inBranch = true → Fragment.Apart item.fragments
  | .text _, _ => .singleton _
  | .single _, _ => .singleton _
  | .block name args body, h => by
    refine List.isChain_cons.2 ⟨fun _ _ => .inl rfl, ?_⟩
    refine List.isChain_append.2 ⟨apart_fragments body h, .singleton _, ?_⟩
    intro f _ g hg
    cases hg
    exact .inr rfl

/-- Items without adjacent texts are written without adjacent texts. -/
theorem apart_fragments {options : Options} {inBranch : Bool} :
    (items : List Item) → Item.fit options inBranch items = true → Fragment.Apart (fragments items)
  | [], _ => .nil
  | item :: rest, h => by
    rw [Item.fit, Bool.and_eq_true, Bool.and_eq_true, Bool.not_eq_true'] at h
    obtain ⟨⟨hitem, hnext⟩, hrest⟩ := h
    refine List.isChain_append.2 ⟨item.apart hitem, apart_fragments rest hrest, ?_⟩
    intro f hf g hg
    cases htext : item.isText with
    | false => exact .inl ((item.isText_fragments (.inr hf)).trans htext)
    | true =>
      rw [htext, Bool.true_and] at hnext
      exact .inr (isText_head_fragments hnext hg)

end

/-- The symbols of a written template are its tokens. -/
theorem symbols_print {options : Options} {inBranch : Bool} {items : List Item}
    (h : Item.fit options inBranch items = true) :
    symbols (print items) = symbolsAt 0 (tokens items) :=
  (Fragment.lexes (apart_fragments items h)).symbols_ofSource String.toList_ofList

end Template

end BraceTemplate
