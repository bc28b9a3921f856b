import Mathlib.Logic.Function.Iterate
import BraceTemplate.Proofs.Symbol.CommentBody
import BraceTemplate.Proofs.Symbol.Tiling

/-!
# Progress of the scanner

Asked for one symbol after the other, a scanner is through its source after as
many steps as there are symbols, and then stays where it is. Every step takes a
character at least and stops between two characters, so nothing is ever cut
inside a character.
-/

namespace BraceTemplate

namespace Scanner

/-- The scanner of a source behind the first `k` symbols. -/
def behind (source : String) (k : Nat) : Scanner := advance^[k] (ofSource source)

/-- What a scanner that is not at the end of a source gives when it is asked. -/
structure Step (source : String) (s : Scanner) : Prop where
  symbol : s.current.isEnd = false
  nonempty : s.current.text ≠ ""
  start : s.current.location.start = s.position
  stop : s.current.location.stop = s.advance.position
  boundaries : Text.IsBoundary source.toList s.position ∧
    Text.IsBoundary source.toList s.advance.position
  slice : s.current.location.slice? source = some s.current.text
  body : ∀ raw, s.mode = .comment raw → Lexeme.bodyOffset? raw s.rest =
    some (Text.byteLength (s.rest.take (Lexeme.bodyLength raw s.rest)))

/-- The scanner stands at its position in a source. -/
def Inside (source : String) (s : Scanner) : Prop :=
  ∃ before, source.toList = before ++ s.rest ∧ s.position = Text.byteLength before

variable {source : String} {s : Scanner}

theorem inside_ofSource (source : String) : Inside source (ofSource source) := ⟨[], rfl, rfl⟩

theorem position_advance (h : s.rest ≠ []) :
    s.advance.position = s.position + Text.byteLength s.nextText := by
  rw [advance_of_rest_ne_nil h]

theorem Inside.boundary (h : Inside source s) : Text.IsBoundary source.toList s.position := by
  obtain ⟨before, hsource, hposition⟩ := h
  exact ⟨before, s.rest, hsource, hposition⟩

theorem Inside.position_of_end (h : Inside source s) (hrest : s.rest = []) :
    s.position = Text.byteLength source.toList := by
  obtain ⟨before, hsource, hposition⟩ := h
  rw [hsource, hrest, List.append_nil, hposition]

theorem Inside.advance (h : Inside source s) : Inside source s.advance := by
  by_cases hrest : s.rest = []
  · rwa [advance_of_rest_eq_nil hrest]
  · -- what was in front goes on with the text that is taken
    obtain ⟨before, hsource, hposition⟩ := h
    refine ⟨before ++ s.nextText, ?_, ?_⟩
    · rw [hsource, List.append_assoc, nextText_append_rest hrest]
    · rw [position_advance hrest, hposition, Text.byteLength_append]

theorem Inside.step (h : Inside source s) (hrest : s.rest ≠ []) : Step source s where
  symbol := by
    rw [isEnd_current]
    simpa using hrest
  nonempty := by
    rw [current_of_rest_ne_nil hrest]
    intro hnil
    apply nextText_ne_nil hrest
    simpa using congrArg String.toList hnil
  start := by rw [current_of_rest_ne_nil hrest]
  stop := by rw [current_of_rest_ne_nil hrest, position_advance hrest]
  boundaries := ⟨h.boundary, h.advance.boundary⟩
  slice := by
    obtain ⟨before, hsource, hposition⟩ := h
    have htext : source = String.ofList (before ++ s.nextText ++ s.advance.rest) := by
      rw [List.append_assoc, nextText_append_rest hrest, ← hsource, String.ofList_toList]
    rw [current_of_rest_ne_nil hrest, hposition, ← Text.byteLength_append, htext]
    exact Text.slice?_between _ _ _
  body raw _ := Lexeme.bodyOffset?_eq raw s.rest

theorem inside_behind (source : String) (k : Nat) : Inside source (behind source k) := by
  induction k with
  | zero => exact inside_ofSource source
  | succ k ih =>
    rw [behind, Function.iterate_succ_apply']
    exact ih.advance

/-- A scanner is at the end when it was asked for all symbols. -/
theorem rest_iterate_eq_nil_iff (s : Scanner) (k : Nat) :
    (advance^[k] s).rest = [] ↔ s.symbols.length ≤ k := by
  induction k generalizing s with
  | zero =>
    by_cases hrest : s.rest = []
    · simp [hrest, symbols_of_rest_eq_nil hrest]
    · simp [hrest, symbols_of_rest_ne_nil hrest]
  | succ k ih =>
    rw [Function.iterate_succ_apply, ih]
    by_cases hrest : s.rest = []
    · simp [advance_of_rest_eq_nil hrest, symbols_of_rest_eq_nil hrest]
    · rw [symbols_of_rest_ne_nil hrest, List.length_cons]
      omega

/-- The symbols are what the scanner gives from step to step. -/
theorem symbols_eq_map_range (s : Scanner) :
    s.symbols = (List.range s.symbols.length).map fun k => (advance^[k] s).current := by
  fun_induction symbols s with
  | case1 => rfl
  | case2 s hrest ih =>
    rw [List.length_cons, List.range_succ_eq_map, List.map_cons, List.map_map]
    exact congrArg (s.current :: ·) ih

theorem length_symbols_le (s : Scanner) : s.symbols.length ≤ s.rest.length := by
  fun_induction symbols s with
  | case1 => exact Nat.zero_le _
  | case2 s hrest ih =>
    have hless := rest_advance_lt hrest
    rw [List.length_cons]
    omega

end Scanner

open Scanner

/-- The scanner of a source makes progress up to its end. -/
theorem scanner_tiles (source : String) :
    ∃ n, n ≤ source.toList.length ∧
      (behind source 0).position = 0 ∧
      (∀ k < n, (behind source k).Step source) ∧
      (∀ k, n ≤ k →
        (behind source k).position = Text.byteLength source.toList ∧
        (behind source k).current = .endOfSource (Text.byteLength source.toList) ∧
        (behind source (k + 1)) = behind source k) ∧
      symbols source = (List.range n).map (fun k => (behind source k).current) ∧
      Symbol.joinTexts (symbols source) = source := by
  have hend := fun k => rest_iterate_eq_nil_iff (ofSource source) k
  refine ⟨(symbols source).length, length_symbols_le _, rfl, ?_, ?_, symbols_eq_map_range _, ?_⟩
  · intro k hk
    apply (inside_behind source k).step
    rw [behind, Ne, hend]
    exact Nat.not_le.2 hk
  · intro k hk
    have hrest : (behind source k).rest = [] := (hend k).2 hk
    have hposition := (inside_behind source k).position_of_end hrest
    refine ⟨hposition, ?_, ?_⟩
    · rw [current, hrest, hposition]
      rfl
    · rw [behind, Function.iterate_succ_apply']
      exact advance_of_rest_eq_nil hrest
  · rw [← String.toList_inj, Symbol.toList_joinTexts, chars_symbols]

end BraceTemplate
