import BraceTemplate.Proofs.Symbol.CommentBody
import BraceTemplate.Proofs.Symbol.Tiling

/-!
# Delimiters in step with the scanner

Every closing delimiter has an opening one before it with no other closing one
in between, and three braces close only what three braces opened. So the
delimiters alone tell at each symbol whether it is in a tag. A comment is closed
right behind its text.
-/

namespace BraceTemplate

/-- The tag that a mode is inside of, by whether it has three braces. -/
def Mode.raw? : Mode → Option Bool
  | .content => none
  | .tag raw => some raw
  | .comment raw => some raw

/-- How a symbol changes the tag that the scanner is inside of. -/
inductive Turns : Option Bool → SymbolKind → Option Bool → Prop
  | opens (inside : Option Bool) {kind : SymbolKind} (h : kind.isOpenDelimiter = true) :
      Turns inside kind (some kind.isRaw)
  | closes {raw : Bool} {kind : SymbolKind} (h : kind.isCloseDelimiter = true)
      (hraw : kind.isRaw = true → raw = true) : Turns (some raw) kind none
  | stays (inside : Option Bool) {kind : SymbolKind} (h : kind.isDelimiter = false) :
      Turns inside kind inside

/-- Symbols whose delimiters are in order, behind an opening one or outside of
tags. -/
inductive Bracketed : Option Bool → List Symbol → Prop
  | nil (inside : Option Bool) : Bracketed inside []
  | cons {inside after : Option Bool} {s : Symbol} {rest : List Symbol}
      (h : Turns inside s.kind after) (hrest : Bracketed after rest) : Bracketed inside (s :: rest)

/-- The closing delimiter of a tag is next, perhaps behind a `~`, or nothing
is. -/
def Closes (raw : Bool) : List Symbol → Prop
  | [] => True
  | s :: rest =>
    (s.kind.isCloseDelimiter = true ∧ s.kind.isRaw = raw) ∨
      s.kind = .tilde ∧ ∃ t ∈ rest.head?, t.kind.isCloseDelimiter = true ∧ t.kind.isRaw = raw

/-- What is left of symbols behind the text of a comment. -/
def behindComment (symbols : List Symbol) : List Symbol := symbols.dropWhile (·.kind == .comment)

/-- Comments are closed right behind their text. -/
def CommentsClose : List Symbol → Prop
  | [] => True
  | s :: rest => (s.kind = .bang → ∃ raw, Closes raw (behindComment rest)) ∧ CommentsClose rest

theorem CommentsClose.of_append {front back : List Symbol} (h : CommentsClose (front ++ back)) :
    CommentsClose back := by
  induction front with
  | nil => exact h
  | cons s front ih => exact ih h.2

theorem Closes.behindComment_eq {raw : Bool} {symbols : List Symbol} (h : Closes raw symbols) :
    behindComment symbols = symbols := by
  cases symbols with
  | nil => rfl
  | cons s rest =>
    apply List.dropWhile_cons_of_neg
    intro hcomment
    rw [beq_iff_eq] at hcomment
    rcases h with ⟨hclose, -⟩ | ⟨htilde, -⟩
    · rw [hcomment] at hclose
      cases hclose
    · rw [hcomment] at htilde
      cases htilde

namespace Lexeme

theorem wordKind_not_delimiter (cs : List Char) : (wordKind cs).isDelimiter = false := by
  unfold wordKind
  split
  · rfl
  · split <;> rfl

theorem markKind?_not_delimiter {c : Char} {kind : SymbolKind} (h : markKind? c = some kind) :
    kind.isDelimiter = false := by
  revert h
  fun_cases markKind? c <;> intro h <;> cases h <;> rfl

theorem turns_opening (inside : Option Bool) (cs : List Char) :
    Turns inside (opening cs).kind (opening cs).mode.raw? := by
  unfold opening
  split
  · exact .opens inside rfl
  · exact .opens inside rfl

theorem turns_inTag (raw : Bool) (cs : List Char) :
    Turns (some raw) (inTag raw cs).kind (inTag raw cs).mode.raw? := by
  fun_cases inTag raw cs with
  | case1 cs =>
    unfold closing
    split
    · rename_i hraw
      exact .closes rfl fun _ => (Bool.and_eq_true_iff.1 hraw).1
    · refine .closes rfl fun hraw => ?_
      cases hraw
  | case2 cs => exact turns_opening _ cs
  | case3 => exact .stays _ rfl
  | case4 c cs _ _ _ kind hkind => exact .stays _ (markKind?_not_delimiter hkind)
  | case5 c cs =>
    unfold quoted
    split
    · exact .stays _ rfl
    · exact .stays _ rfl
  | case6 => exact .stays _ rfl
  | case7 => exact .stays _ (wordKind_not_delimiter _)
  | case8 => exact .stays _ rfl

theorem turns_next (mode : Mode) (cs : List Char) :
    Turns mode.raw? (next mode cs).kind (next mode cs).mode.raw? := by
  cases mode with
  | content =>
    change Turns none (inContent cs).kind (inContent cs).mode.raw?
    fun_cases inContent cs with
    | case1 cs => exact turns_opening _ cs
    | case2 => exact .stays _ rfl
  | tag raw => exact turns_inTag raw cs
  | comment raw =>
    change Turns (some raw) (inComment raw cs).kind (inComment raw cs).mode.raw?
    unfold inComment
    split
    · exact turns_inTag raw cs
    · exact .stays _ rfl

/-- A comment starts behind every `!` in a tag. -/
theorem mode_of_bang {mode : Mode} {cs : List Char} (h : (next mode cs).kind = .bang) :
    ∃ raw, (next mode cs).mode = .comment raw := by
  have htag : ∀ raw, (inTag raw cs).kind = .bang → (inTag raw cs).mode = .comment raw := by
    intro raw
    fun_cases inTag raw cs with
    | case1 cs => unfold closing; split <;> intro h <;> cases h
    | case2 cs => unfold opening; split <;> intro h <;> cases h
    | case3 => exact fun _ => rfl
    | case4 c cs _ _ _ kind hkind =>
      intro hbang
      change kind = .bang at hbang
      rw [hbang] at hkind
      revert hkind
      fun_cases markKind? c <;> intro h <;> cases h
    | case5 c cs => unfold quoted; split <;> intro h <;> cases h
    | case6 => intro h; cases h
    | case7 c cs =>
      intro hbang
      change wordKind _ = .bang at hbang
      unfold wordKind at hbang
      split at hbang
      · cases hbang
      · split at hbang <;> cases hbang
    | case8 => intro h; cases h
  cases mode with
  | content =>
    change (inContent cs).kind = .bang at h
    unfold inContent at h
    split at h
    · unfold opening at h
      split at h <;> cases h
    · cases h
  | tag raw => exact ⟨raw, htag raw h⟩
  | comment raw =>
    change (inComment raw cs).kind = .bang at h
    change ∃ r, (inComment raw cs).mode = .comment r
    unfold inComment at h ⊢
    split at h
    · exact ⟨raw, htag raw h⟩
    · cases h

/-- The closing delimiter that is in front is the next lexeme. -/
theorem inTag_closeDelimiter {raw : Bool} {cs : List Char}
    (h : (closeDelimiter raw).isPrefixOf cs = true) :
    (inTag raw cs).kind.isCloseDelimiter = true ∧ (inTag raw cs).kind.isRaw = raw := by
  obtain ⟨rest, rfl⟩ := List.isPrefixOf_iff_prefix.1 h
  cases raw <;> exact ⟨rfl, rfl⟩

end Lexeme

namespace Scanner

theorem kind_current {s : Scanner} (h : s.rest ≠ []) :
    s.current.kind = (Lexeme.next s.mode s.rest).kind := by
  rw [current_of_rest_ne_nil h]

theorem mode_advance {s : Scanner} (h : s.rest ≠ []) :
    s.advance.mode = (Lexeme.next s.mode s.rest).mode := by
  rw [advance_of_rest_ne_nil h]

theorem rest_advance {s : Scanner} (h : s.rest ≠ []) :
    s.advance.rest = s.rest.drop (Lexeme.next s.mode s.rest).length := by
  rw [advance_of_rest_ne_nil h]

/-- The delimiters that a scanner gives are in order. -/
theorem bracketed_symbols (s : Scanner) : Bracketed s.mode.raw? s.symbols := by
  fun_induction symbols s with
  | case1 => exact .nil _
  | case2 s hrest ih =>
    refine .cons ?_ ih
    rw [kind_current hrest, mode_advance hrest]
    exact Lexeme.turns_next s.mode s.rest

/-- A body that ends here is followed by its closing delimiter. -/
theorem closes_symbols {s : Scanner} {raw : Bool} (hmode : s.mode = .tag raw)
    (h : s.rest = [] ∨ Lexeme.bodyEnds raw s.rest = true) : Closes raw s.symbols := by
  by_cases hrest : s.rest = []
  · rw [symbols_of_rest_eq_nil hrest]
    trivial
  · rw [symbols_of_rest_ne_nil hrest]
    have hnext : Lexeme.next s.mode s.rest = Lexeme.inTag raw s.rest := by rw [hmode]; rfl
    rcases Bool.or_eq_true_iff.1 (h.resolve_left hrest) with hclose | htilde
    · have hkind := Lexeme.inTag_closeDelimiter hclose
      rw [← hnext, ← kind_current hrest] at hkind
      exact .inl hkind
    · obtain ⟨rest, hcs⟩ := List.isPrefixOf_iff_prefix.1 htilde
      have hlexeme : Lexeme.next s.mode s.rest = ⟨.tilde, 1, .tag raw⟩ := by
        rw [hnext, ← hcs]
        rfl
      have hadvance : s.advance.rest = Lexeme.closeDelimiter raw ++ rest := by
        rw [rest_advance hrest, hlexeme, ← hcs]
        rfl
      have hne : s.advance.rest ≠ [] := by
        rw [hadvance]
        cases raw <;> exact List.cons_ne_nil _ _
      refine .inr ⟨?_, s.advance.current, ?_, ?_⟩
      · rw [kind_current hrest, hlexeme]
      · rw [symbols_of_rest_ne_nil hne]
        rfl
      · rw [kind_current hne, mode_advance hrest, hlexeme]
        apply Lexeme.inTag_closeDelimiter
        rw [hadvance, List.isPrefixOf_iff_prefix]
        exact List.prefix_append _ _

/-- A comment is closed behind its text, which may be empty. -/
theorem closes_behindComment {s : Scanner} {raw : Bool} (hmode : s.mode = .comment raw) :
    Closes raw (behindComment s.symbols) := by
  by_cases hrest : s.rest = []
  · rw [symbols_of_rest_eq_nil hrest]
    trivial
  · have hnext : Lexeme.next s.mode s.rest = Lexeme.inComment raw s.rest := by rw [hmode]; rfl
    have hend := Lexeme.endsAt_bodyLength raw s.rest
    cases hlength : Lexeme.bodyLength raw s.rest with
    | zero =>
      -- without a text the scanner goes on as it does elsewhere in a tag
      let t : Scanner := ⟨s.rest, s.position, .tag raw⟩
      have hsame : s.symbols = t.symbols := by
        have htag : Lexeme.next s.mode s.rest = Lexeme.next t.mode t.rest := by
          rw [hnext, Lexeme.inComment, hlength]
          rfl
        have hcurrent : s.current = t.current := by simp only [current, nextText, htag, t]
        have hadvance : s.advance = t.advance := by
          rw [advance_of_rest_ne_nil hrest, advance_of_rest_ne_nil (s := t) hrest]
          simp only [nextText, htag, t]
        rw [symbols_of_rest_ne_nil hrest, symbols_of_rest_ne_nil (s := t) hrest, hcurrent, hadvance]
      rw [hlength] at hend
      have hcloses := closes_symbols (s := t) rfl hend
      rw [hsame, hcloses.behindComment_eq]
      exact hcloses
    | succ n =>
      have hlexeme : Lexeme.next s.mode s.rest = ⟨.comment, n + 1, .tag raw⟩ := by
        rw [hnext, Lexeme.inComment, hlength]
      have hcloses : Closes raw s.advance.symbols := by
        refine closes_symbols (by rw [mode_advance hrest, hlexeme]) ?_
        rw [rest_advance hrest, hlexeme]
        rwa [hlength] at hend
      have hcomment : s.current.kind = .comment := by rw [kind_current hrest, hlexeme]
      rw [symbols_of_rest_ne_nil hrest, behindComment,
        List.dropWhile_cons_of_pos (by rw [hcomment]; rfl)]
      change Closes raw (behindComment s.advance.symbols)
      rwa [hcloses.behindComment_eq]

theorem commentsClose_symbols (s : Scanner) : CommentsClose s.symbols := by
  fun_induction symbols s with
  | case1 => trivial
  | case2 s hrest ih =>
    refine ⟨?_, ih⟩
    intro hbang
    rw [kind_current hrest] at hbang
    obtain ⟨raw, hmode⟩ := Lexeme.mode_of_bang hbang
    exact ⟨raw, closes_behindComment (by rw [mode_advance hrest, hmode])⟩

end Scanner

end BraceTemplate
