import Mathlib.Data.List.Chain
import Mathlib.Data.List.TakeWhile
import BraceTemplate.Proofs.Symbol.Delimiters

/-!
# Neighbours

What the symbol behind another one can be. Text, blanks and words are as long as
they can be, so none of them stands behind another of its sort. A brace alone is
one that is not doubled, and a comment stands behind its `!`.
-/

namespace BraceTemplate

/-- Whether symbols of the kind are words. -/
def SymbolKind.isWord : SymbolKind → Bool
  | identifier | keyword | number => true
  | _ => false

/-- What holds of two symbols where the second follows the first. -/
structure Symbol.Before (s t : Symbol) : Prop where
  text : s.kind = .text → t.kind.isOpenDelimiter = true
  whitespace : s.kind = .whitespace → t.kind ≠ .whitespace
  word : s.kind.isWord = true → t.kind.isWord = false
  leftBrace : s.kind = .leftBrace → t.text.toList.head? ≠ some '{'
  rightBrace : s.kind = .rightBrace → t.text.toList.head? ≠ some '}'
  comment : t.kind = .comment → s.kind = .bang

theorem Mode.eq_content {mode : Mode} (h : mode.raw? = none) : mode = .content := by
  cases mode with
  | content => rfl
  | tag raw => cases h
  | comment raw => cases h

theorem Turns.eq_of_isDelimiter {inside after : Option Bool} {kind : SymbolKind}
    (h : Turns inside kind after) (hkind : kind.isDelimiter = false) : after = inside := by
  obtain ⟨hopen, hclose⟩ := SymbolKind.isDelimiter_eq_false.1 hkind
  cases h with
  | opens _ h => rw [h] at hopen; cases hopen
  | closes h _ => rw [h] at hclose; cases hclose
  | stays _ _ => rfl

namespace Lexeme

/-- What a rest starts with whose next lexeme has a kind. -/
def Starts : SymbolKind → List Char → Prop
  | .whitespace, cs => ∃ c ∈ cs.head?, Text.isBlank c = true
  | .identifier, cs | .keyword, cs | .number, cs => ∃ c ∈ cs.head?, isWordChar c = true
  | _, _ => True

/-- What is left of a rest behind a lexeme of a kind. -/
def Leaves : SymbolKind → List Char → Prop
  | .text, cs => cs = [] ∨ ∃ rest, cs = '{' :: '{' :: rest
  | .whitespace, cs => ∀ c ∈ cs.head?, Text.isBlank c = false
  | .identifier, cs | .keyword, cs | .number, cs => ∀ c ∈ cs.head?, isWordChar c = false
  | .leftBrace, cs => cs.head? ≠ some '{'
  | .rightBrace, cs => cs.head? ≠ some '}'
  | .error, cs => cs = []
  | _, _ => True

section Words
variable {kind : SymbolKind} {cs : List Char} (h : kind.isWord = true)
include h

theorem starts_of_isWord : Starts kind cs ↔ ∃ c ∈ cs.head?, isWordChar c = true := by
  cases kind <;> first | exact Iff.rfl | cases h

theorem leaves_of_isWord : Leaves kind cs ↔ ∀ c ∈ cs.head?, isWordChar c = false := by
  cases kind <;> first | exact Iff.rfl | cases h

end Words

theorem isWord_wordKind (cs : List Char) : (wordKind cs).isWord = true := by
  unfold wordKind
  split
  · rfl
  · split <;> rfl

theorem starts_markKind? {c : Char} {kind : SymbolKind} (h : markKind? c = some kind)
    (cs : List Char) : Starts kind cs := by
  revert h
  fun_cases markKind? c <;> intro h <;> cases h <;> trivial

section Delimiters
variable {kind : SymbolKind} (h : kind.isDelimiter = true) (cs : List Char)
include h

theorem starts_of_isDelimiter : Starts kind cs := by
  cases kind <;> trivial

theorem leaves_of_isDelimiter : Leaves kind cs := by
  cases kind <;> trivial

end Delimiters

theorem isOpenDelimiter_opening (cs : List Char) : (opening cs).kind.isOpenDelimiter = true := by
  unfold opening
  split <;> rfl

theorem isDelimiter_opening (cs : List Char) : (opening cs).kind.isDelimiter = true := by
  rw [SymbolKind.isDelimiter, isOpenDelimiter_opening, Bool.true_or]

theorem isDelimiter_closing (raw : Bool) (cs : List Char) :
    (closing raw cs).kind.isDelimiter = true := by
  unfold closing
  split <;> rfl

/-- Two braces in a row are no braces alone. -/
theorem leaves_markKind? {c : Char} {cs : List Char} {kind : SymbolKind}
    (h : markKind? c = some kind) (hopen : ∀ rest, ¬ (c = '{' ∧ cs = '{' :: rest))
    (hclose : ∀ rest, ¬ (c = '}' ∧ cs = '}' :: rest)) : Leaves kind cs := by
  revert h
  fun_cases markKind? c with
  | case1 =>
    rintro ⟨⟩ hhead
    cases cs with
    | nil => cases hhead
    | cons d rest =>
      cases Option.some.inj hhead
      exact hopen rest ⟨rfl, rfl⟩
  | case2 =>
    rintro ⟨⟩ hhead
    cases cs with
    | nil => cases hhead
    | cons d rest =>
      cases Option.some.inj hhead
      exact hclose rest ⟨rfl, rfl⟩
  | _ => intro h; cases h <;> trivial

/-- Behind the characters of a sort that are in front is none of them. -/
theorem not_of_mem_head?_drop {p : Char → Bool} {cs : List Char} {c : Char}
    (h : c ∈ (cs.drop (cs.takeWhile p).length).head?) : p c = false := by
  have hrest : cs.drop (cs.takeWhile p).length = cs.dropWhile p :=
    calc cs.drop (cs.takeWhile p).length
        = (cs.takeWhile p ++ cs.dropWhile p).drop (cs.takeWhile p).length := by
          rw [List.takeWhile_append_dropWhile]
      _ = cs.dropWhile p := List.drop_left
  have hhead := List.head?_dropWhile_not p cs
  rw [← hrest, Option.mem_def.1 h] at hhead
  simpa using hhead

theorem leaves_quoted (raw : Bool) (q c : Char) (cs : List Char) :
    Leaves (quoted raw q cs).kind ((c :: cs).drop (quoted raw q cs).length) := by
  unfold quoted
  split
  · trivial
  · exact List.drop_length

theorem starts_inTag (raw : Bool) (cs : List Char) : Starts (inTag raw cs).kind cs := by
  fun_cases inTag raw cs with
  | case1 cs => exact starts_of_isDelimiter (isDelimiter_closing raw cs) _
  | case2 cs => exact starts_of_isDelimiter (isDelimiter_opening cs) _
  | case3 => trivial
  | case4 c cs _ _ _ kind hkind => exact starts_markKind? hkind _
  | case5 c cs => unfold quoted; split <;> trivial
  | case6 c cs _ _ _ _ _ hblank => exact ⟨c, rfl, hblank⟩
  | case7 c cs _ _ hbang hmark hquote hblank =>
    refine (starts_of_isWord (isWord_wordKind _)).2 ⟨c, rfl, ?_⟩
    exact isWordChar_of_not_mark (by simpa using hbang) hmark (by simpa using hquote)
      (by simpa using hblank)
  | case8 => trivial

theorem leaves_inTag (raw : Bool) (cs : List Char) :
    Leaves (inTag raw cs).kind (cs.drop (inTag raw cs).length) := by
  fun_cases inTag raw cs with
  | case1 cs => exact leaves_of_isDelimiter (isDelimiter_closing raw cs) _
  | case2 cs => exact leaves_of_isDelimiter (isDelimiter_opening cs) _
  | case3 => trivial
  | case4 c cs hclose hopen _ kind hkind =>
    exact leaves_markKind? hkind (by simpa using hopen) (by simpa using hclose)
  | case5 c cs => exact leaves_quoted raw c c cs
  | case6 c cs => exact fun d hd => not_of_mem_head?_drop hd
  | case7 c cs =>
    refine (leaves_of_isWord (isWord_wordKind _)).2 ?_
    exact fun d hd => not_of_mem_head?_drop hd
  | case8 => trivial

theorem leaves_inContent (cs : List Char) :
    Leaves (inContent cs).kind (cs.drop (inContent cs).length) := by
  have htext : ∀ cs : List Char, Leaves .text (cs.drop (textLength cs)) := by
    intro cs
    fun_induction textLength cs with
    | case1 cs ih => exact ih
    | case2 cs => exact .inr ⟨cs, rfl⟩
    | case3 c cs _ _ ih => exact ih
    | case4 => exact .inl rfl
  fun_cases inContent cs with
  | case1 cs => exact leaves_of_isDelimiter (isDelimiter_opening cs) _
  | case2 cs => exact htext cs

theorem next_starts (mode : Mode) (cs : List Char) : Starts (next mode cs).kind cs := by
  cases mode with
  | content =>
    change Starts (inContent cs).kind cs
    fun_cases inContent cs with
    | case1 cs => exact starts_of_isDelimiter (isDelimiter_opening cs) _
    | case2 => trivial
  | tag raw => exact starts_inTag raw cs
  | comment raw =>
    change Starts (inComment raw cs).kind cs
    unfold inComment
    split
    · exact starts_inTag raw cs
    · trivial

theorem next_leaves (mode : Mode) (cs : List Char) :
    Leaves (next mode cs).kind (cs.drop (next mode cs).length) := by
  cases mode with
  | content => exact leaves_inContent cs
  | tag raw => exact leaves_inTag raw cs
  | comment raw =>
    change Leaves (inComment raw cs).kind (cs.drop (inComment raw cs).length)
    unfold inComment
    split
    · exact leaves_inTag raw cs
    · trivial

/-- Neither text nor comments are found where a tag goes on. -/
theorem inTag_kind_ne (raw : Bool) (cs : List Char) :
    (inTag raw cs).kind ≠ .text ∧ (inTag raw cs).kind ≠ .comment := by
  fun_cases inTag raw cs with
  | case1 => unfold closing; split <;> simp
  | case2 => unfold opening; split <;> simp
  | case4 c cs _ _ _ kind hkind =>
    revert hkind
    fun_cases markKind? c <;> intro h <;> cases h <;> simp
  | case5 => unfold quoted; split <;> simp
  | case6 => simp [blank]
  | case7 c cs =>
    have hword : (word raw (c :: cs)).kind.isWord = true := isWord_wordKind _
    constructor <;> intro hkind <;> rw [hkind] at hword <;> cases hword
  | _ => simp

/-- Text is found outside of tags. -/
theorem mode_of_text {mode : Mode} {cs : List Char} (h : (next mode cs).kind = .text) :
    mode = .content := by
  cases mode with
  | content => rfl
  | tag raw => exact absurd h (inTag_kind_ne raw cs).1
  | comment raw =>
    change (inComment raw cs).kind = .text at h
    unfold inComment at h
    split at h
    · exact absurd h (inTag_kind_ne raw cs).1
    · cases h

/-- Comments are found where one was started. -/
theorem mode_of_comment {mode : Mode} {cs : List Char} (h : (next mode cs).kind = .comment) :
    ∃ raw, mode = .comment raw := by
  cases mode with
  | content =>
    change (inContent cs).kind = .comment at h
    revert h
    fun_cases inContent cs with
    | case1 cs => unfold opening; split <;> intro h <;> cases h
    | case2 => intro h; cases h
  | tag raw => exact absurd h (inTag_kind_ne raw cs).2
  | comment raw => exact ⟨raw, rfl⟩

/-- A comment starts behind a `!` and nowhere else. -/
theorem bang_of_mode {mode : Mode} {cs : List Char} {raw : Bool}
    (h : (next mode cs).mode = .comment raw) : (next mode cs).kind = .bang := by
  have htag : ∀ r, (inTag r cs).mode = .comment raw → (inTag r cs).kind = .bang := by
    intro r
    fun_cases inTag r cs with
    | case1 => unfold closing; split <;> intro h <;> cases h
    | case2 => unfold opening; split <;> intro h <;> cases h
    | case3 => exact fun _ => rfl
    | case5 => unfold quoted; split <;> intro h <;> cases h
    | _ => intro h; cases h
  cases mode with
  | content =>
    change (inContent cs).mode = .comment raw at h
    revert h
    fun_cases inContent cs with
    | case1 cs => unfold opening; split <;> intro h <;> cases h
    | case2 => intro h; cases h
  | tag r => exact htag r h
  | comment r =>
    change (inComment r cs).mode = .comment raw at h
    change (inComment r cs).kind = .bang
    unfold inComment at h ⊢
    split at h
    · exact htag r h
    · cases h

end Lexeme

namespace Scanner

variable {s : Scanner}

/-- The text of a symbol starts where the rest does. -/
theorem head?_text_current (h : s.rest ≠ []) : s.current.text.toList.head? = s.rest.head? := by
  rw [current_of_rest_ne_nil h, String.toList_ofList]
  conv_rhs => rw [← nextText_append_rest h]
  exact (List.head?_append_of_ne_nil _ (nextText_ne_nil h)).symm

/-- A symbol and the one behind it. -/
theorem before_advance (h : s.rest ≠ []) (hnext : s.advance.rest ≠ []) :
    s.current.Before s.advance.current := by
  have hleaves := Lexeme.next_leaves s.mode s.rest
  have hstarts := Lexeme.next_starts s.advance.mode s.advance.rest
  rw [← kind_current h, ← rest_advance h] at hleaves
  rw [← kind_current hnext] at hstarts
  have hhead := head?_text_current hnext
  refine ⟨?_, ?_, ?_, ?_, ?_, ?_⟩
  · intro htext
    rw [htext] at hleaves
    obtain ⟨rest, hrest⟩ := hleaves.resolve_left hnext
    have hturns := Lexeme.turns_next s.mode s.rest
    rw [← kind_current h, ← mode_advance h, htext] at hturns
    rw [kind_current h] at htext
    rw [Lexeme.mode_of_text htext] at hturns
    have hmode : s.advance.mode = .content := Mode.eq_content (hturns.eq_of_isDelimiter rfl)
    rw [kind_current hnext, hmode, hrest]
    exact Lexeme.isOpenDelimiter_opening rest
  · intro hblank hother
    rw [hblank] at hleaves
    rw [hother] at hstarts
    obtain ⟨c, hc, hyes⟩ := hstarts
    rw [hleaves c hc] at hyes
    cases hyes
  · intro hword
    by_contra hother
    rw [Bool.not_eq_false] at hother
    obtain ⟨c, hc, hyes⟩ := (Lexeme.starts_of_isWord hother).1 hstarts
    rw [(Lexeme.leaves_of_isWord hword).1 hleaves c hc] at hyes
    cases hyes
  · intro hbrace
    rw [hbrace] at hleaves
    rw [hhead]
    exact hleaves
  · intro hbrace
    rw [hbrace] at hleaves
    rw [hhead]
    exact hleaves
  · intro hcomment
    rw [kind_current hnext] at hcomment
    obtain ⟨raw, hmode⟩ := Lexeme.mode_of_comment hcomment
    rw [mode_advance h] at hmode
    rw [kind_current h]
    exact Lexeme.bang_of_mode hmode

/-- A literal without its closing quote takes all that is left. -/
theorem symbols_advance_of_error (h : s.rest ≠ []) (herror : s.current.kind = .error) :
    s.advance.symbols = [] := by
  have hleaves := Lexeme.next_leaves s.mode s.rest
  rw [← kind_current h, ← rest_advance h, herror] at hleaves
  exact symbols_of_rest_eq_nil hleaves

/-- Consecutive symbols stand to each other as their kinds allow. -/
theorem isChain_symbols (s : Scanner) : s.symbols.IsChain Symbol.Before := by
  fun_induction symbols s with
  | case1 => exact .nil
  | case2 s hrest ih =>
    refine List.isChain_cons.2 ⟨?_, ih⟩
    intro t ht
    by_cases hnext : s.advance.rest = []
    · rw [symbols_of_rest_eq_nil hnext] at ht
      cases ht
    · rw [symbols_of_rest_ne_nil hnext] at ht
      cases Option.some.inj ht
      exact before_advance hrest hnext

end Scanner

end BraceTemplate
