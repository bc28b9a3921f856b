import BraceTemplate.Proofs.Moving
import BraceTemplate.Proofs.Symbol.Modal
import BraceTemplate.Proofs.Symbol.Prefix

/-!
# Sources put together

Where one source ends outside of tags, the symbols of another source behind it
are those that it has alone, moved. Only the last lexeme of the first source
reaches the seam: it has to be one that more text does not change, such as the
closing delimiter that fits its tag.
-/

namespace BraceTemplate

/-- A symbol that stays what it is when more text follows. -/
def Symbol.Finished (s : Symbol) : Prop := Lexeme.Finished s.text.toList

instance (s : Symbol) : Decidable s.Finished :=
  inferInstanceAs (Decidable (Lexeme.Finished s.text.toList))

namespace Scanner

/-- A scanner that stands further back. -/
def move (d : Nat) (s : Scanner) : Scanner := { s with position := s.position + d }

/-- A scanner that has more text at the end. -/
def extend (s : Scanner) (after : List Char) : Scanner := { s with rest := s.rest ++ after }

variable {s : Scanner}

theorem current_move (d : Nat) (h : s.rest ≠ []) : (s.move d).current = s.current.move d := by
  have hmoved : (s.move d).rest ≠ [] := h
  rw [current_of_rest_ne_nil h, current_of_rest_ne_nil hmoved]
  simp only [move, nextText, Symbol.move, Location.move, Symbol.mk.injEq, Location.mk.injEq,
    true_and, and_true]
  omega

theorem advance_move (d : Nat) (h : s.rest ≠ []) : (s.move d).advance = s.advance.move d := by
  have hmoved : (s.move d).rest ≠ [] := h
  rw [advance_of_rest_ne_nil h, advance_of_rest_ne_nil hmoved]
  simp only [move, nextText, Scanner.mk.injEq, true_and, and_true]
  omega

theorem symbols_move (d : Nat) (s : Scanner) :
    (s.move d).symbols = s.symbols.map (Symbol.move d) := by
  fun_induction symbols s with
  | case1 s h => exact symbols_of_rest_eq_nil h
  | case2 s h ih =>
    have hmoved : (s.move d).rest ≠ [] := h
    rw [symbols_of_rest_ne_nil hmoved, current_move d h, advance_move d h, ih, List.map_cons]

section Extend
variable {after : List Char}

/-- The next lexeme is the same where more text follows. -/
def Settled (after : List Char) (s : Scanner) : Prop :=
  Lexeme.next s.mode (s.rest ++ after) = Lexeme.next s.mode s.rest

theorem settled_of_advance (h : s.rest ≠ []) (hadvance : s.advance.rest ≠ [])
    (hcomment : s.current.kind = .comment → s.current.Finished) : s.Settled after := by
  apply Lexeme.next_append
  · rw [rest_advance h, Ne, List.drop_eq_nil_iff] at hadvance
    exact Nat.not_le.1 hadvance
  · rw [current_of_rest_ne_nil h] at hcomment
    rintro hkind
    have hfinished := hcomment hkind
    rwa [Symbol.Finished, String.toList_ofList] at hfinished

theorem nextText_extend (h : s.rest ≠ []) (hsettled : s.Settled after) :
    (s.extend after).nextText = s.nextText := by
  rw [nextText, nextText]
  change (s.rest ++ after).take (Lexeme.next s.mode (s.rest ++ after)).length = _
  rw [hsettled, List.take_append_of_le_length (Lexeme.next_length s.mode h).2]

theorem current_extend (h : s.rest ≠ []) (hsettled : s.Settled after) :
    (s.extend after).current = s.current := by
  have hextended : (s.extend after).rest ≠ [] := by simp [extend, h]
  rw [current_of_rest_ne_nil h, current_of_rest_ne_nil hextended, nextText_extend h hsettled]
  change Symbol.mk (Lexeme.next s.mode (s.rest ++ after)).kind _ _ = _
  rw [hsettled]
  rfl

theorem advance_extend (h : s.rest ≠ []) (hsettled : s.Settled after) :
    (s.extend after).advance = s.advance.extend after := by
  have hextended : (s.extend after).rest ≠ [] := by simp [extend, h]
  rw [advance_of_rest_ne_nil h, advance_of_rest_ne_nil hextended, nextText_extend h hsettled]
  change Scanner.mk ((s.rest ++ after).drop (Lexeme.next s.mode (s.rest ++ after)).length) _
    (Lexeme.next s.mode (s.rest ++ after)).mode = _
  rw [hsettled, List.drop_append_of_le_length (Lexeme.next_length s.mode h).2]
  rfl

/-- With more text at the end, a scanner gives the same symbols first, and then
those that it gives from where it was at its end. -/
theorem symbols_extend (s : Scanner)
    (hcomments : ∀ x ∈ s.symbols, x.kind = .comment → x.Finished)
    (hlast : ∀ before x, s.symbols = before ++ [x] → (advance^[before.length] s).Settled after) :
    (s.extend after).symbols =
      s.symbols ++ ((advance^[s.symbols.length] s).extend after).symbols := by
  fun_induction symbols s with
  | case1 s h => rfl
  | case2 s h ih =>
    have hsettled : s.Settled after := by
      by_cases hadvance : s.advance.rest = []
      · exact hlast [] s.current (by rw [symbols_of_rest_eq_nil hadvance]; rfl)
      · exact settled_of_advance h hadvance (hcomments _ List.mem_cons_self)
    have hrest := ih (fun x hx => hcomments x (List.mem_cons_of_mem _ hx)) ?_
    · have hextended : (s.extend after).rest ≠ [] := by simp [extend, h]
      rw [symbols_of_rest_ne_nil hextended, current_extend h hsettled, advance_extend h hsettled,
        hrest, List.length_cons, Function.iterate_succ_apply, List.cons_append]
    · intro before x hbefore
      exact hlast (s.current :: before) x (by rw [hbefore]; rfl)

end Extend

end Scanner

open Scanner

/-- The symbols of two sources put together, the first of which ends outside of
tags. -/
theorem symbols_append {front back : String}
    (hcomments : ∀ x ∈ symbols front, x.kind = .comment → x.Finished)
    (hclosed : openTag? (symbols front) = none)
    (hlast : ∀ before x, symbols front = before ++ [x] →
      (behind front before.length).Settled back.toList) :
    symbols (front ++ back) =
      symbols front ++ (symbols back).map (Symbol.move (Text.byteLength front.toList)) := by
  have hrest : (behind front (symbols front).length).rest = [] :=
    (rest_iterate_eq_nil_iff (ofSource front) _).2 (Nat.le_refl _)
  have hmode : (behind front (symbols front).length).mode = .content := by
    apply Mode.eq_content
    rw [raw?_behind, List.take_length, hclosed]
  have hposition := (inside_behind front (symbols front).length).position_of_end hrest
  have hseam : (behind front (symbols front).length).extend back.toList =
      (ofSource back).move (Text.byteLength front.toList) := by
    rw [extend, hrest, hmode, hposition, move, ofSource, Nat.zero_add, List.nil_append]
  have hextended : ofSource (front ++ back) = (ofSource front).extend back.toList := by
    rw [ofSource, String.toList_append]
    rfl
  have hsymbols := symbols_extend (ofSource front) hcomments hlast
  change _ = symbols front ++ ((behind front (symbols front).length).extend back.toList).symbols
    at hsymbols
  rw [hseam, symbols_move] at hsymbols
  rw [symbols, hextended]
  exact hsymbols

/-! ### Last lexemes that more text does not change -/

namespace Lexeme

/-- The closing delimiter that fits a tag is next whatever is behind it. -/
theorem next_closeDelimiter {mode : Mode} {raw : Bool} (h : mode.raw? = some raw)
    (after : List Char) :
    next mode (closeDelimiter raw ++ after) = next mode (closeDelimiter raw) := by
  cases mode with
  | content => cases h
  | tag r =>
    cases Option.some.inj h
    cases raw <;> rfl
  | comment r =>
    cases Option.some.inj h
    cases raw <;> rfl

theorem closeDelimiter_of_spelling? {kind : SymbolKind} (h : kind.isCloseDelimiter = true) :
    kind.spelling? = some (String.ofList (closeDelimiter kind.isRaw)) := by
  cases kind <;> first | rfl | cases h

theorem mem_getLast?_cons {c e : Char} {cs : List Char} (h : e ∈ cs.getLast?) :
    e ∈ (c :: cs).getLast? := by
  cases cs with
  | nil => cases h
  | cons d cs => rwa [List.getLast?_cons_cons]

/-- Text that does not end like the front of a delimiter ends where one starts. -/
theorem textLength_delimiter {cs : List Char} (after : List Char) (h : textLength cs = cs.length)
    (hlast : ∀ c ∈ cs.getLast?, c ≠ '{' ∧ c ≠ '\\') :
    textLength (cs ++ '{' :: '{' :: after) = cs.length := by
  fun_induction textLength cs with
  | case1 cs ih =>
    have hrest := ih (by simpa using h) fun c hc => hlast c (mem_getLast?_cons (mem_getLast?_cons
      (mem_getLast?_cons hc)))
    exact congrArg (· + 3) hrest
  | case2 => cases h
  | case3 c cs hescape hbrace ih =>
    have hrest := ih (by simpa using h) fun e he => hlast e (mem_getLast?_cons he)
    rw [List.cons_append, textLength.eq_3, hrest]
    · rfl
    · rintro rest rfl heq
      rcases cs with _ | ⟨e, _ | ⟨f, cs⟩⟩
      · exact (hlast '\\' rfl).2 rfl
      · obtain ⟨rfl, -⟩ := List.cons.inj heq
        exact (hlast '{' rfl).1 rfl
      · obtain ⟨rfl, hbehind⟩ := List.cons.inj heq
        obtain ⟨rfl, -⟩ := List.cons.inj hbehind
        exact hescape cs rfl rfl
    · rintro rest rfl heq
      rcases cs with _ | ⟨e, cs⟩
      · exact (hlast '{' rfl).1 rfl
      · obtain ⟨rfl, -⟩ := List.cons.inj heq
        exact hbrace cs rfl rfl
  | case4 => rfl

theorem inContent_delimiter {cs : List Char} (after : List Char) (hne : cs ≠ [])
    (hkind : (inContent cs).kind = .text) (h : (inContent cs).length = cs.length)
    (hlast : ∀ c ∈ cs.getLast?, c ≠ '{' ∧ c ≠ '\\') :
    inContent (cs ++ '{' :: '{' :: after) = inContent cs := by
  revert hkind h
  fun_cases inContent cs with
  | case1 cs =>
    intro hkind
    have hopen := isOpenDelimiter_opening cs
    rw [hkind] at hopen
    cases hopen
  | case2 cs hopen =>
    intro _ h
    have hlength := textLength_delimiter after h hlast
    rw [inContent.eq_2, hlength]
    · exact congrArg (Lexeme.mk .text · .content) h.symm
    · rintro rest heq
      rcases cs with _ | ⟨c, _ | ⟨d, cs⟩⟩
      · exact hne rfl
      · obtain ⟨rfl, -⟩ := List.cons.inj heq
        exact (hlast '{' rfl).1 rfl
      · obtain ⟨rfl, hrest⟩ := List.cons.inj heq
        obtain ⟨rfl, -⟩ := List.cons.inj hrest
        exact hopen cs rfl

end Lexeme

variable {source : String} {before : List Symbol} {x : Symbol}

theorem settled_of_close {raw : Bool} (h : symbols source = before ++ [x])
    (hopen : openTag? before = some raw) (hclose : x.kind.isCloseDelimiter = true)
    (hraw : x.kind.isRaw = raw) (after : List Char) :
    (behind source before.length).Settled after := by
  obtain ⟨hrest, hcurrent, -⟩ := current_behind h
  have hmode := openTag?_before h
  rw [hopen] at hmode
  rw [← hcurrent, kind_current hrest] at hclose hraw
  have hspelling := Lexeme.closeDelimiter_of_spelling? hclose
  have htake := Lexeme.take_next hspelling
  rw [hraw, String.toList_ofList] at htake
  have hfront : (behind source before.length).rest =
      Lexeme.closeDelimiter raw ++ (behind source before.length).rest.drop
        (Lexeme.next (behind source before.length).mode
          (behind source before.length).rest).length := by
    rw [← htake, List.take_append_drop]
  rw [Settled, hfront, List.append_assoc, Lexeme.next_closeDelimiter hmode.symm,
    Lexeme.next_closeDelimiter hmode.symm]

theorem settled_of_text (h : symbols source = before ++ [x]) (hkind : x.kind = .text)
    (hlast : ∀ c ∈ x.text.toList.getLast?, c ≠ '{' ∧ c ≠ '\\') (after : List Char) :
    (behind source before.length).Settled ('{' :: '{' :: after) := by
  obtain ⟨hrest, hcurrent, hafter⟩ := current_behind h
  rw [← hcurrent, kind_current hrest] at hkind
  have hmode := Lexeme.mode_of_text hkind
  have hend : (behind source before.length).advance.rest = [] := by
    by_contra hne
    rw [symbols_of_rest_ne_nil hne] at hafter
    cases hafter
  have hall := nextText_append_rest hrest
  rw [hend, List.append_nil] at hall
  have hlength := congrArg List.length hall
  rw [nextText, List.length_take_of_le (Lexeme.next_length _ hrest).2] at hlength
  rw [← hcurrent, current_of_rest_ne_nil hrest, String.toList_ofList, hall] at hlast
  rw [hmode] at hkind hlength
  rw [Settled, hmode]
  exact Lexeme.inContent_delimiter after hrest hkind hlength hlast

end BraceTemplate
