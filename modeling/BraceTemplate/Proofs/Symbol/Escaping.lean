import BraceTemplate.Proofs.Symbol.Modal

/-!
# Escaped braces

Two braces stay in literal text for one of two reasons: a backslash stands right
in front of them, or a backslash and a brace do, since the backslash takes two
braces and a third one makes a pair with the second. Where two braces open a tag
outside of tags, neither is the case. So what is in front of two braces tells
whether they open a tag, however many braces and backslashes come together.
-/

namespace BraceTemplate

namespace Text

/-- A piece of text starts at a byte offset of another. -/
def StandsAt (piece cs : List Char) (offset : Nat) : Prop :=
  ∃ before after, cs = before ++ (piece ++ after) ∧ offset = byteLength before

/-- A backslash stands right in front of an offset, or a backslash and a brace
do. -/
def EscapedAt (cs : List Char) (offset : Nat) : Prop :=
  (∃ i, offset = i + 1 ∧ StandsAt ['\\'] cs i) ∨
    ∃ i, offset = i + 2 ∧ StandsAt ['\\', '{'] cs i

/-- A text ends as what is in front of literal braces does. -/
def Escapes (front : List Char) : Prop := ['\\'] <:+ front ∨ ['\\', '{'] <:+ front

theorem not_escapes_nil : ¬ Escapes [] := by
  rintro (h | h) <;> simpa using h.length_le

theorem Escapes.append {front : List Char} (h : Escapes front) (more : List Char) :
    Escapes (more ++ front) := by
  apply h.imp
  · exact fun h => h.trans (List.suffix_append more front)
  · exact fun h => h.trans (List.suffix_append more front)

theorem Escapes.last {front : List Char} {c : Char} (h : Escapes (front ++ [c])) :
    c = '\\' ∨ c = '{' := by
  rcases h with ⟨more, h⟩ | ⟨more, h⟩
  · have hlast := congrArg List.getLast? h
    left
    simpa using hlast.symm
  · have hlast := congrArg List.getLast? h
    right
    simpa using hlast.symm

/-- The braces that a backslash takes escape nothing by themselves. -/
theorem not_escapes_braces (front : List Char) : ¬ Escapes (front ++ ['\\', '{', '{']) := by
  rintro (⟨more, h⟩ | ⟨more, h⟩)
  · simpa using congrArg List.getLast? h
  · simpa using congrArg (·.dropLast.getLast?) h

/-- What stands in front of an offset ends at it. -/
theorem standsAt_iff_suffix {piece front after : List Char} {i : Nat}
    (hi : byteLength front = i + byteLength piece) :
    StandsAt piece (front ++ after) i ↔ piece <:+ front := by
  constructor
  · rintro ⟨before, behind, hcs, rfl⟩
    rw [← List.append_assoc] at hcs
    have hsplit := splitAt?_append front after
    rw [hcs, hi, ← byteLength_append, splitAt?_append] at hsplit
    cases hsplit
    exact List.suffix_append before piece
  · rintro ⟨before, rfl⟩
    refine ⟨before, after, List.append_assoc .., ?_⟩
    rw [byteLength_append] at hi
    omega

theorem escapedAt_iff {front after : List Char} :
    EscapedAt (front ++ after) (byteLength front) ↔ Escapes front := by
  constructor
  · rintro (⟨i, hi, h⟩ | ⟨i, hi, h⟩)
    · exact .inl ((standsAt_iff_suffix hi).1 h)
    · exact .inr ((standsAt_iff_suffix hi).1 h)
  · rintro (⟨before, rfl⟩ | ⟨before, rfl⟩)
    · have hi : byteLength (before ++ ['\\']) = byteLength before + 1 := byteLength_append ..
      exact .inl ⟨_, hi, (standsAt_iff_suffix hi).2 (List.suffix_append before _)⟩
    · have hi : byteLength (before ++ ['\\', '{']) = byteLength before + 2 := byteLength_append ..
      exact .inr ⟨_, hi, (standsAt_iff_suffix hi).2 (List.suffix_append before _)⟩

end Text

namespace Lexeme

open Text (Escapes)

/-- Two braces in literal text are escaped. -/
theorem escapes_of_take_textLength {cs front back : List Char}
    (h : cs.take (textLength cs) = front ++ '{' :: '{' :: back) : Escapes front := by
  fun_induction textLength cs generalizing front with
  | case1 cs ih =>
    -- the pair may be the one behind the backslash, or share a brace with it
    rw [List.take_succ_cons, List.take_succ_cons, List.take_succ_cons] at h
    rcases front with _ | ⟨a, _ | ⟨b, _ | ⟨c, front⟩⟩⟩
    · cases h
    · cases h
      exact .inl (List.suffix_refl _)
    · obtain ⟨rfl, hrest⟩ := List.cons.inj h
      obtain ⟨rfl, -⟩ := List.cons.inj hrest
      exact .inr (List.suffix_refl _)
    · have hrest : cs.take (textLength cs) = front ++ '{' :: '{' :: back := by
        simpa using (List.cons.inj (List.cons.inj (List.cons.inj h).2).2).2
      exact (ih hrest).append [a, b, c]
  | case2 cs => cases front <;> cases h
  | case3 c cs hescape hbraces ih =>
    rw [List.take_succ_cons] at h
    cases front with
    | nil =>
      obtain ⟨rfl, hrest⟩ := List.cons.inj h
      obtain ⟨more, hcs⟩ := List.take_prefix (textLength cs) cs
      rw [hrest] at hcs
      exact absurd hcs.symm (hbraces _ rfl)
    | cons a front =>
      have hrest : cs.take (textLength cs) = front ++ '{' :: '{' :: back := (List.cons.inj h).2
      exact (ih hrest).append [a]
  | case4 => cases front <;> cases h

/-- Braces behind literal text are not escaped, unless the text is empty and they
were already. -/
theorem not_escapes_textLength {cs before back : List Char}
    (hstart : textLength cs = 0 → ¬ Escapes before)
    (h : cs.drop (textLength cs) = '{' :: '{' :: back) :
    ¬ Escapes (before ++ cs.take (textLength cs)) := by
  fun_induction textLength cs generalizing before with
  | case1 cs ih =>
    have hgoes : textLength cs = 0 → ¬ Escapes (before ++ ['\\', '{', '{']) :=
      fun _ => Text.not_escapes_braces before
    simpa using ih hgoes h
  | case2 cs => simpa using hstart rfl
  | case3 c cs hescape hbraces ih =>
    have hgoes : textLength cs = 0 → ¬ Escapes (before ++ [c]) := by
      intro hzero hescapes
      have hcs : cs = '{' :: '{' :: back := by simpa [hzero] using h
      rcases hescapes.last with rfl | rfl
      · exact hescape _ rfl hcs
      · exact hbraces _ rfl hcs
    simpa using ih hgoes h
  | case4 => cases h

/-- Literal text leaves no escaped braces in front. -/
theorem not_escapes_inContent {cs back : List Char} (hne : cs ≠ [])
    (hmode : (inContent cs).mode = .content)
    (h : cs.drop (inContent cs).length = '{' :: '{' :: back) (before : List Char) :
    ¬ Escapes (before ++ cs.take (inContent cs).length) := by
  revert hmode h
  fun_cases inContent cs with
  | case1 cs => unfold opening; split <;> intro hmode <;> cases hmode
  | case2 cs hbraces =>
    intro _ h
    have hpos := textLength_pos hne hbraces
    exact not_escapes_textLength (fun hzero => by omega) h

theorem length_of_text {mode : Mode} {cs : List Char} (h : (next mode cs).kind = .text) :
    (next mode cs).length = textLength cs := by
  obtain rfl := mode_of_text h
  change (inContent cs).kind = .text at h
  change (inContent cs).length = textLength cs
  revert h
  fun_cases inContent cs with
  | case1 cs => unfold opening; split <;> intro h <;> cases h
  | case2 cs => exact fun _ => rfl

theorem take_of_isOpenDelimiter {mode : Mode} {cs : List Char}
    (h : (next mode cs).kind.isOpenDelimiter = true) :
    ['{', '{'] <+: cs.take (next mode cs).length := by
  cases hkind : (next mode cs).kind with
  | openDelimiter => exact ⟨[], (@take_next mode cs "\x7b\x7b" (by rw [hkind]; rfl)).symm⟩
  | rawOpenDelimiter =>
    exact ⟨['{'], (@take_next mode cs "\x7b\x7b\x7b" (by rw [hkind]; rfl)).symm⟩
  | _ => rw [hkind] at h; cases h

theorem take_of_isCloseDelimiter {mode : Mode} {cs : List Char}
    (h : (next mode cs).kind.isCloseDelimiter = true) :
    ∃ front, cs.take (next mode cs).length = front ++ ['}'] := by
  cases hkind : (next mode cs).kind with
  | closeDelimiter => exact ⟨['}'], @take_next mode cs "\x7d\x7d" (by rw [hkind]; rfl)⟩
  | rawCloseDelimiter =>
    exact ⟨['}', '}'], @take_next mode cs "\x7d\x7d\x7d" (by rw [hkind]; rfl)⟩
  | _ => rw [hkind] at h; cases h

/-- A closing delimiter escapes nothing. -/
theorem not_escapes_closeDelimiter {mode : Mode} {cs : List Char}
    (h : (next mode cs).kind.isCloseDelimiter = true) (before : List Char) :
    ¬ Escapes (before ++ cs.take (next mode cs).length) := by
  obtain ⟨front, hfront⟩ := take_of_isCloseDelimiter h
  intro hescapes
  rw [hfront, ← List.append_assoc] at hescapes
  rcases hescapes.last with hlast | hlast
  · cases hlast
  · cases hlast

end Lexeme

namespace Scanner

variable {source : String} {s : Scanner}

/-- Where a symbol leaves the scanner outside of tags, it leaves no escaped braces
in front. -/
theorem not_escapes_advance (hrest : s.rest ≠ []) (hmode : s.advance.mode = .content)
    {back : List Char} (hback : s.advance.rest = '{' :: '{' :: back) (before : List Char) :
    ¬ Text.Escapes (before ++ s.nextText) := by
  have hturns := Lexeme.turns_next s.mode s.rest
  rw [mode_advance hrest] at hmode
  rw [rest_advance hrest] at hback
  rw [hmode] at hturns
  cases hinside : s.mode.raw? with
  | none =>
    have hnext : Lexeme.next s.mode s.rest = Lexeme.inContent s.rest := by
      rw [Mode.eq_content hinside]
      rfl
    rw [hnext] at hmode hback
    rw [nextText, hnext]
    exact Lexeme.not_escapes_inContent hrest hmode hback before
  | some raw =>
    rw [hinside] at hturns
    cases hturns with
    | closes hclose _ => exact Lexeme.not_escapes_closeDelimiter hclose before

/-- The braces of an opening delimiter are in front of the scanner. -/
theorem rest_of_isOpenDelimiter (h : s.current.kind.isOpenDelimiter = true) :
    s.rest ≠ [] ∧ ∃ back, s.rest = '{' :: '{' :: back := by
  have hrest : s.rest ≠ [] := by
    intro hnil
    have hcurrent : s.current = .endOfSource s.position := by simp [current, hnil]
    rw [hcurrent] at h
    cases h
  rw [kind_current hrest] at h
  obtain ⟨back, hback⟩ := (Lexeme.take_of_isOpenDelimiter h).trans (List.take_prefix _ s.rest)
  exact ⟨hrest, back, hback.symm⟩

/-- An opening delimiter outside of tags is not escaped. -/
theorem not_escapedAt_position (k : Nat) (hmode : (behind source k).mode = .content)
    (hopen : (behind source k).current.kind.isOpenDelimiter = true) :
    ¬ Text.EscapedAt source.toList (behind source k).position := by
  obtain ⟨hrest, back, hback⟩ := rest_of_isOpenDelimiter hopen
  cases k with
  | zero =>
    have hstart := @Text.escapedAt_iff [] source.toList
    exact fun h => Text.not_escapes_nil (hstart.1 h)
  | succ k =>
    rw [behind, Function.iterate_succ_apply'] at hmode hrest hback ⊢
    change (behind source k).advance.mode = .content at hmode
    change (behind source k).advance.rest ≠ [] at hrest
    change (behind source k).advance.rest = _ at hback
    change ¬ Text.EscapedAt source.toList (behind source k).advance.position
    have hmore : (behind source k).rest ≠ [] := by
      intro hnil
      rw [advance_of_rest_eq_nil hnil] at hrest
      exact hrest hnil
    obtain ⟨before, hsource, hposition⟩ := inside_behind source k
    rw [← nextText_append_rest hmore, ← List.append_assoc] at hsource
    rw [position_advance hmore, hposition, ← Text.byteLength_append, hsource, Text.escapedAt_iff]
    exact not_escapes_advance hmore hmode hback before

/-- Two braces in a symbol of literal text are escaped. -/
theorem escapedAt_of_text (hrest : s.rest ≠ []) (htext : s.current.kind = .text) {i : Nat}
    (h : Text.StandsAt ['{', '{'] s.current.text.toList i) :
    Text.EscapedAt s.current.text.toList i := by
  obtain ⟨front, back, htaken, rfl⟩ := h
  have hcurrent : s.current.text.toList = s.rest.take (Lexeme.textLength s.rest) := by
    rw [kind_current hrest] at htext
    rw [current_of_rest_ne_nil hrest, String.toList_ofList, nextText, Lexeme.length_of_text htext]
  rw [htaken, Text.escapedAt_iff]
  exact Lexeme.escapes_of_take_textLength (hcurrent.symm.trans htaken)

end Scanner

open Scanner

/-- What is in front of two braces tells whether they are literal text or open a
tag. -/
theorem scanner_escapes (source : String) :
    (∀ s ∈ symbols source, s.kind = .text → ∀ i,
      Text.StandsAt ['{', '{'] s.text.toList i → Text.EscapedAt s.text.toList i) ∧
    ∀ k, (behind source k).inTag = false →
      (behind source k).current.kind.isOpenDelimiter = true →
      ¬ Text.EscapedAt source.toList (behind source k).position := by
  constructor
  · intro s hs htext i hi
    obtain ⟨before, after, hsymbols⟩ := List.append_of_mem hs
    obtain ⟨hrest, rfl, -⟩ := current_behind hsymbols
    exact escapedAt_of_text hrest htext hi
  · intro k hmode hopen
    refine not_escapedAt_position k ?_ hopen
    simpa [inTag] using hmode

example : (symbols "\\\x7b\x7b\x7b\x7ba").map Symbol.text = ["\\\x7b\x7b", "\x7b\x7b", "a"] := by
  decide +kernel

end BraceTemplate
