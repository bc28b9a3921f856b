import BraceTemplate.Proofs.Symbol.Neighbours
import BraceTemplate.Proofs.Symbol.Progress

/-!
# Inside and outside of tags

Whether the scanner is in a tag can be read off the symbols that it gave: it is
if the latest delimiter is an opening one. Outside of tags there is text between
opening delimiters and nothing else, and text is only there. A comment is the
text right behind a `!`, and is closed by what closes its tag.
-/

namespace BraceTemplate

/-- What may stand inside a tag or outside of any. -/
structure Suits (inside : Option Bool) (kind : SymbolKind) : Prop where
  outside : inside = none → kind = .text ∨ kind.isOpenDelimiter = true
  text : kind = .text → inside = none

/-- Symbols whose kinds suit what is open in front of each of them. -/
inductive Modal : Option Bool → List Symbol → Prop
  | nil (inside : Option Bool) : Modal inside []
  | cons {inside after : Option Bool} {s : Symbol} {rest : List Symbol}
      (hsuits : Suits inside s.kind) (hturns : Turns inside s.kind after)
      (hrest : Modal after rest) : Modal inside (s :: rest)

/-- The tag that symbols leave open, as their latest delimiter tells. -/
def openTag? (symbols : List Symbol) : Option Bool :=
  match symbols.reverse.find? (·.kind.isDelimiter) with
  | some s => if s.kind.isOpenDelimiter then some s.kind.isRaw else none
  | none => none

theorem Turns.openTag?_concat {symbols : List Symbol} {s : Symbol} {after : Option Bool}
    (h : Turns (openTag? symbols) s.kind after) : openTag? (symbols ++ [s]) = after := by
  generalize hinside : openTag? symbols = inside at h
  rw [openTag?, List.reverse_concat]
  cases h with
  | opens _ hopen =>
    rw [List.find?_cons_of_pos (by simp [SymbolKind.isDelimiter, hopen])]
    exact if_pos hopen
  | closes hclose _ =>
    rw [List.find?_cons_of_pos (by simp [SymbolKind.isDelimiter, hclose])]
    refine if_neg ?_
    rw [SymbolKind.not_isOpenDelimiter_of_isCloseDelimiter hclose]
    exact Bool.false_ne_true
  | stays _ hother =>
    rw [List.find?_cons_of_neg (by simp [hother]), ← hinside]
    rfl

theorem Turns.exists_of_isCloseDelimiter {inside after : Option Bool} {kind : SymbolKind}
    (h : Turns inside kind after) (hkind : kind.isCloseDelimiter = true) :
    ∃ raw, inside = some raw ∧ (kind.isRaw = true → raw = true) := by
  cases h with
  | opens _ hopen =>
    rw [SymbolKind.not_isCloseDelimiter_of_isOpenDelimiter hopen] at hkind
    cases hkind
  | closes _ hraw => exact ⟨_, rfl, hraw⟩
  | stays _ hother =>
    rw [(SymbolKind.isDelimiter_eq_false.1 hother).2] at hkind
    cases hkind

theorem Lexeme.next_suits (mode : Mode) (cs : List Char) :
    Suits mode.raw? (next mode cs).kind := by
  constructor
  · intro houtside
    rw [Mode.eq_content houtside]
    change (inContent cs).kind = .text ∨ (inContent cs).kind.isOpenDelimiter = true
    fun_cases inContent cs with
    | case1 cs => exact .inr (isOpenDelimiter_opening cs)
    | case2 => exact .inl rfl
  · intro htext
    rw [mode_of_text htext]
    rfl

namespace Scanner

theorem modal_symbols (s : Scanner) : Modal s.mode.raw? s.symbols := by
  fun_induction symbols s with
  | case1 => exact .nil _
  | case2 s hrest ih =>
    refine .cons ?_ ?_ ih
    · rw [kind_current hrest]
      exact Lexeme.next_suits s.mode s.rest
    · rw [kind_current hrest, mode_advance hrest]
      exact Lexeme.turns_next s.mode s.rest

theorem symbols_iterate (s : Scanner) (k : Nat) : (advance^[k] s).symbols = s.symbols.drop k := by
  induction k generalizing s with
  | zero => rfl
  | succ k ih =>
    rw [Function.iterate_succ_apply, ih]
    by_cases hrest : s.rest = []
    · rw [advance_of_rest_eq_nil hrest, symbols_of_rest_eq_nil hrest, List.drop_nil, List.drop_nil]
    · rw [symbols_of_rest_ne_nil hrest, List.drop_succ_cons]

theorem symbols_behind {source : String} {before after : List Symbol}
    (h : BraceTemplate.symbols source = before ++ after) :
    (behind source before.length).symbols = after := by
  have hdrop : (behind source before.length).symbols =
      (BraceTemplate.symbols source).drop before.length := symbols_iterate _ _
  rw [hdrop, h, List.drop_left]

/-- A symbol of a source is what the scanner behind the symbols in front of it
gives. -/
theorem current_behind {source : String} {before after : List Symbol} {s : Symbol}
    (h : BraceTemplate.symbols source = before ++ s :: after) :
    (behind source before.length).rest ≠ [] ∧ (behind source before.length).current = s ∧
      (behind source before.length).advance.symbols = after := by
  have hsymbols := symbols_behind h
  have hrest : (behind source before.length).rest ≠ [] := by
    intro hrest
    rw [symbols_of_rest_eq_nil hrest] at hsymbols
    cases hsymbols
  rw [symbols_of_rest_ne_nil hrest] at hsymbols
  obtain ⟨hcurrent, hafter⟩ := List.cons.inj hsymbols
  exact ⟨hrest, hcurrent, hafter⟩

/-- The tag that the scanner is inside of is the one that its symbols leave
open. -/
theorem raw?_behind (source : String) (k : Nat) :
    (behind source k).mode.raw? = openTag? ((BraceTemplate.symbols source).take k) := by
  induction k with
  | zero => rfl
  | succ k ih =>
    have hdrop : (behind source k).symbols = (BraceTemplate.symbols source).drop k :=
      symbols_iterate _ k
    rw [behind, Function.iterate_succ_apply']
    change (behind source k).advance.mode.raw? = _
    by_cases hrest : (behind source k).rest = []
    · rw [symbols_of_rest_eq_nil hrest] at hdrop
      have hk := List.drop_eq_nil_iff.1 hdrop.symm
      rw [advance_of_rest_eq_nil hrest, ih, List.take_of_length_le hk,
        List.take_of_length_le (Nat.le_succ_of_le hk)]
    · rw [symbols_of_rest_ne_nil hrest] at hdrop
      have htake : (BraceTemplate.symbols source).take (k + 1) =
          (BraceTemplate.symbols source).take k ++ [(behind source k).current] := by
        rw [List.take_add_one, ← List.head?_drop, ← hdrop]
        rfl
      have hturns := Lexeme.turns_next (behind source k).mode (behind source k).rest
      rw [← kind_current hrest, ← mode_advance hrest, ih] at hturns
      rw [htake, hturns.openTag?_concat]

end Scanner

/-- What holds of a symbol between those in front of it and those behind. -/
structure InPlace (before : List Symbol) (s : Symbol) (after : List Symbol) : Prop where
  outside : openTag? before = none → s.kind = .text ∨ s.kind.isOpenDelimiter = true
  text : s.kind = .text → openTag? before = none
  closing : s.kind.isCloseDelimiter = true →
    ∃ raw, openTag? before = some raw ∧ (s.kind.isRaw = true → raw = true)
  comment : s.kind = .comment → ∃ t ∈ before.getLast?, t.kind = .bang
  bang : s.kind = .bang → ∃ raw, openTag? before = some raw ∧
    (Closes raw after ∨ ∃ t rest, after = t :: rest ∧ t.kind = .comment ∧ Closes raw rest)
  next : ∀ t ∈ after.head?, s.Before t
  error : s.kind = .error → after = []

section
variable {source : String} {before after : List Symbol} {s : Symbol}
  (h : symbols source = before ++ s :: after)
include h

open Scanner

theorem openTag?_before : openTag? before = (behind source before.length).mode.raw? := by
  rw [raw?_behind, h, List.take_left]

theorem before_of_mem_head? {t : Symbol} (ht : t ∈ after.head?) : s.Before t := by
  have hchain := isChain_symbols (ofSource source)
  change (symbols source).IsChain Symbol.Before at hchain
  rw [h] at hchain
  exact (List.isChain_cons.1 (List.isChain_append.1 hchain).2.1).1 t ht

/-- Behind a `!` the scanner is in a comment of the tag that is open in front of
it. -/
theorem mode_behind_bang (hbang : s.kind = .bang) :
    ∃ raw, openTag? before = some raw ∧
      (behind source before.length).advance.mode = .comment raw := by
  obtain ⟨hrest, hcurrent, -⟩ := current_behind h
  have hkind : (Lexeme.next (behind source before.length).mode
      (behind source before.length).rest).kind = .bang := by
    rw [← kind_current hrest, hcurrent, hbang]
  obtain ⟨raw, hmode⟩ := Lexeme.mode_of_bang hkind
  have hturns := Lexeme.turns_next (behind source before.length).mode
    (behind source before.length).rest
  rw [hkind, hmode, ← openTag?_before h] at hturns
  exact ⟨raw, (hturns.eq_of_isDelimiter rfl).symm, (mode_advance hrest).trans hmode⟩

/-- A comment is closed behind its text, of which there is at most one symbol. -/
theorem closes_of_bang (hbang : s.kind = .bang) :
    ∃ raw, openTag? before = some raw ∧
      (Closes raw after ∨ ∃ t rest, after = t :: rest ∧ t.kind = .comment ∧ Closes raw rest) := by
  obtain ⟨raw, hopen, hmode⟩ := mode_behind_bang h hbang
  have hcloses := closes_behindComment hmode
  rw [(current_behind h).2.2] at hcloses
  refine ⟨raw, hopen, ?_⟩
  cases hsplit : after with
  | nil => exact .inl trivial
  | cons t rest =>
    subst hsplit
    by_cases hcomment : t.kind = .comment
    · refine .inr ⟨t, rest, rfl, hcomment, ?_⟩
      have hother : behindComment rest = rest := by
        cases rest with
        | nil => rfl
        | cons u rest =>
          have hnext := @before_of_mem_head? source (before ++ [s]) (u :: rest) t (by simpa using h)
          refine List.dropWhile_cons_of_neg fun hu => ?_
          have hbang := (hnext rfl).comment (by simpa using hu)
          rw [hcomment] at hbang
          cases hbang
      rw [behindComment, List.dropWhile_cons_of_pos (by rw [hcomment]; rfl)] at hcloses
      change Closes raw (behindComment rest) at hcloses
      rwa [hother] at hcloses
    · rw [behindComment, List.dropWhile_cons_of_neg (by simpa using hcomment)] at hcloses
      exact .inl hcloses

theorem inPlace_of_symbols_eq : InPlace before s after := by
  obtain ⟨hrest, hcurrent, hafter⟩ := current_behind h
  have hmode := openTag?_before h
  have hsuits := Lexeme.next_suits (behind source before.length).mode
    (behind source before.length).rest
  have hturns := Lexeme.turns_next (behind source before.length).mode
    (behind source before.length).rest
  rw [← kind_current hrest, hcurrent, ← hmode] at hsuits hturns
  refine ⟨hsuits.outside, hsuits.text, hturns.exists_of_isCloseDelimiter, ?_, closes_of_bang h,
    fun _ => before_of_mem_head? h, ?_⟩
  · intro hcomment
    rcases List.eq_nil_or_concat before with rfl | ⟨front, t, rfl⟩
    · rw [hcomment] at hsuits
      rcases hsuits.outside rfl with htext | hopen
      · cases htext
      · cases hopen
    · have hnext := @before_of_mem_head? source front (s :: after) t (by simpa using h)
      exact ⟨t, by simp, (hnext rfl).comment hcomment⟩
  · intro herror
    rw [← hcurrent] at herror
    rw [← hafter]
    exact symbols_advance_of_error hrest herror

end

/-- The symbols of a source follow the mode that the delimiters among them tell. -/
theorem scanner_modal (source : String) :
    (∀ k, (Scanner.behind source k).inTag = (openTag? ((symbols source).take k)).isSome) ∧
      ∀ before s after, symbols source = before ++ s :: after → InPlace before s after := by
  constructor
  · intro k
    rw [← Scanner.raw?_behind, Scanner.inTag]
    cases (Scanner.behind source k).mode <;> rfl
  · intro before s after h
    exact inPlace_of_symbols_eq h

end BraceTemplate
