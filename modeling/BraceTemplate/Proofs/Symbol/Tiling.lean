import BraceTemplate.Proofs.Text.Stretch
import BraceTemplate.Symbol.Scanner

/-!
# Symbols as stretches

The symbols of a source follow each other from its first byte to its last.
Delimiters and marks have one spelling each.
-/

namespace BraceTemplate

namespace SymbolKind

/-- The only text of a kind, for kinds with one text. -/
def spelling? : SymbolKind → Option String
  | openDelimiter => some "\x7b\x7b"
  | rawOpenDelimiter => some "\x7b\x7b\x7b"
  | closeDelimiter => some "\x7d\x7d"
  | rawCloseDelimiter => some "\x7d\x7d\x7d"
  | hash => some "#"
  | slash => some "/"
  | bang => some "!"
  | tilde => some "~"
  | assign => some "="
  | leftBrace => some "\x7b"
  | rightBrace => some "\x7d"
  | leftBracket => some "["
  | rightBracket => some "]"
  | leftParen => some "("
  | rightParen => some ")"
  | pipe => some "|"
  | _ => none

def isDelimiter (kind : SymbolKind) : Bool := kind.isOpenDelimiter || kind.isCloseDelimiter

theorem isDelimiter_eq_false {kind : SymbolKind} :
    kind.isDelimiter = false ↔ kind.isOpenDelimiter = false ∧ kind.isCloseDelimiter = false :=
  Bool.or_eq_false_iff

theorem not_isOpenDelimiter_of_isCloseDelimiter {kind : SymbolKind}
    (h : kind.isCloseDelimiter = true) : kind.isOpenDelimiter = false := by
  cases kind <;> first | rfl | cases h

theorem not_isCloseDelimiter_of_isOpenDelimiter {kind : SymbolKind}
    (h : kind.isOpenDelimiter = true) : kind.isCloseDelimiter = false := by
  cases kind <;> first | rfl | cases h

end SymbolKind

def Symbol.stretch (s : Symbol) : Stretch := ⟨s.text, s.location⟩

theorem Symbol.toList_joinTexts (group : List Symbol) :
    (Symbol.joinTexts group).toList = Stretch.chars (group.map Symbol.stretch) := by
  rw [Symbol.joinTexts, String.toList_join, Stretch.chars, List.flatMap_map, List.flatMap_map]
  rfl

namespace Lexeme

theorem spelling?_wordKind (cs : List Char) : (wordKind cs).spelling? = none := by
  unfold wordKind
  split
  · rfl
  · split <;> rfl

theorem spelling?_markKind {c : Char} {kind : SymbolKind} (h : markKind? c = some kind) :
    kind.spelling? = some (String.ofList [c]) := by
  revert h
  fun_cases markKind? c <;> intro h <;> cases h <;> rfl

theorem take_opening {cs : List Char} {text : String}
    (h : (opening cs).kind.spelling? = some text) :
    ('{' :: '{' :: cs).take (opening cs).length = text.toList := by
  unfold opening at h ⊢
  split at h
  · rename_i hbrace
    obtain ⟨rest, rfl⟩ : ∃ rest, cs = '{' :: rest := by
      cases cs with
      | nil => simp at hbrace
      | cons c rest => exact ⟨rest, by simpa using hbrace⟩
    cases h
    rfl
  · rename_i hbrace
    rw [if_neg hbrace]
    cases h
    rfl

theorem take_closing {raw : Bool} {cs : List Char} {text : String}
    (h : (closing raw cs).kind.spelling? = some text) :
    ('}' :: '}' :: cs).take (closing raw cs).length = text.toList := by
  unfold closing at h ⊢
  split at h
  · rename_i hbrace
    obtain ⟨rest, rfl⟩ : ∃ rest, cs = '}' :: rest := by
      cases cs with
      | nil => simp at hbrace
      | cons c rest => exact ⟨rest, by simp at hbrace; simp [hbrace.2]⟩
    rw [if_pos hbrace]
    cases h
    rfl
  · rename_i hbrace
    rw [if_neg hbrace]
    cases h
    rfl

theorem take_inTag {raw : Bool} {cs : List Char} {text : String}
    (h : (inTag raw cs).kind.spelling? = some text) :
    cs.take (inTag raw cs).length = text.toList := by
  revert h
  fun_cases inTag raw cs with
  | case1 cs => exact take_closing
  | case2 cs => exact take_opening
  | case3 cs =>
    intro h
    cases h
    rfl
  | case4 c cs _ _ _ kind hkind =>
    intro h
    rw [spelling?_markKind hkind] at h
    cases h
    simp
  | case5 c cs =>
    intro h
    unfold quoted at h
    split at h <;> cases h
  | case6 c cs => intro h; cases h
  | case7 c cs =>
    intro h
    have hword : (word raw (c :: cs)).kind.spelling? = none := spelling?_wordKind _
    rw [hword] at h
    cases h
  | case8 => intro h; cases h

/-- A lexeme of a kind with one text has that text. -/
theorem take_next {mode : Mode} {cs : List Char} {text : String}
    (h : (next mode cs).kind.spelling? = some text) :
    cs.take (next mode cs).length = text.toList := by
  cases mode with
  | content =>
    change (inContent cs).kind.spelling? = some text at h
    change cs.take (inContent cs).length = text.toList
    revert h
    fun_cases inContent cs with
    | case1 cs => exact take_opening
    | case2 cs => intro h; cases h
  | tag raw => exact take_inTag h
  | comment raw =>
    change (inComment raw cs).kind.spelling? = some text at h
    change cs.take (inComment raw cs).length = text.toList
    unfold inComment at h ⊢
    split at h
    · exact take_inTag h
    · cases h

end Lexeme

namespace Scanner

theorem nextText_ne_nil {s : Scanner} (h : s.rest ≠ []) : s.nextText ≠ [] := by
  have hpos := (Lexeme.next_length s.mode h).1
  intro hnil
  rcases List.take_eq_nil_iff.1 hnil with hzero | hrest
  · omega
  · exact h hrest

theorem current_of_rest_ne_nil {s : Scanner} (h : s.rest ≠ []) :
    s.current = ⟨(Lexeme.next s.mode s.rest).kind,
      ⟨s.position, s.position + Text.byteLength s.nextText⟩, String.ofList s.nextText⟩ := by
  simp [current, h]

theorem advance_of_rest_ne_nil {s : Scanner} (h : s.rest ≠ []) :
    s.advance = ⟨s.rest.drop (Lexeme.next s.mode s.rest).length,
      s.position + Text.byteLength s.nextText, (Lexeme.next s.mode s.rest).mode⟩ := by
  simp [advance, nextText, h]

/-- What the next symbol takes and what is left of it make up the rest. -/
theorem nextText_append_rest {s : Scanner} (h : s.rest ≠ []) :
    s.nextText ++ s.advance.rest = s.rest := by
  rw [advance_of_rest_ne_nil h]
  exact List.take_append_drop _ _

/-- The symbols to come have the texts of the rest. -/
theorem chars_symbols (s : Scanner) :
    Stretch.chars (s.symbols.map Symbol.stretch) = s.rest := by
  fun_induction symbols s with
  | case1 s h => exact h.symm
  | case2 s h ih =>
    rw [List.map_cons, Stretch.chars_cons, ih, current_of_rest_ne_nil h]
    rw [Symbol.stretch, String.toList_ofList]
    exact nextText_append_rest h

theorem follow_symbols (s : Scanner) :
    Stretch.Follow s.position (s.symbols.map Symbol.stretch)
      (s.position + Text.byteLength s.rest) := by
  fun_induction symbols s with
  | case1 s h => rw [h]; rfl
  | case2 s h ih =>
    have hbytes : Text.byteLength s.rest =
        Text.byteLength s.nextText + Text.byteLength s.advance.rest := by
      rw [← nextText_append_rest h, Text.byteLength_append]
    have hposition : s.advance.position = s.position + Text.byteLength s.nextText := by
      rw [advance_of_rest_ne_nil h]
    rw [current_of_rest_ne_nil h, hbytes, ← Nat.add_assoc, ← hposition]
    refine ⟨?_, ?_, ih⟩
    · rw [Stretch.text_ne_iff]
      simpa [Symbol.stretch] using nextText_ne_nil h
    · simp [Symbol.stretch, hposition]

theorem text_of_spelling? {s : Scanner} {symbol : Symbol} (h : symbol ∈ s.symbols) {text : String}
    (hkind : symbol.kind.spelling? = some text) : symbol.text = text := by
  fun_induction symbols s with
  | case1 => cases h
  | case2 s hrest ih =>
    rcases List.mem_cons.1 h with rfl | h
    · rw [current_of_rest_ne_nil hrest] at hkind ⊢
      have htake := Lexeme.take_next hkind
      rw [nextText, htake]
      exact String.ofList_toList
    · exact ih h

end Scanner

/-- The symbols of a source cover it from its first byte to its last. -/
theorem symbols_follow (source : String) :
    Stretch.Follow 0 ((symbols source).map Symbol.stretch)
      (Text.byteLength source.toList) := by
  have h := (Scanner.ofSource source).follow_symbols
  rwa [show (Scanner.ofSource source).position = 0 from rfl, Nat.zero_add] at h

theorem chars_symbols (source : String) :
    Stretch.chars ((symbols source).map Symbol.stretch) = source.toList :=
  (Scanner.ofSource source).chars_symbols

end BraceTemplate
