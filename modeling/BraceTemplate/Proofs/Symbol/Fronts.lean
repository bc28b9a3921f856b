import Mathlib.Data.List.TakeWhile
import BraceTemplate.Proofs.Text.Boundary
import BraceTemplate.Symbol.Lexeme

/-!
# Lexemes at the front

Which lexeme is next depends on what follows it. Words and blanks end where a
character of another sort is, text where two braces are, and quoted literals and
comments themselves say where they end. So what is written in front of a rest is
found as one lexeme.
-/

namespace BraceTemplate

namespace Lexeme

theorem ne_mark_of_isWordChar {c : Char} (h : isWordChar c = true) : c ∉ marks := by
  rw [isWordChar, Bool.and_eq_true] at h
  simpa using h.2

theorem isBlank_of_isWordChar {c : Char} (h : isWordChar c = true) : Text.isBlank c = false := by
  rw [isWordChar, Bool.and_eq_true] at h
  simpa using h.1

theorem not_mem_marks_of_isBlank {c : Char} (h : Text.isBlank c = true) : c ∉ marks := by
  intro hmem
  have hnone : marks.all (fun d => !Text.isBlank d) = true := rfl
  have hblank := List.all_eq_true.mp hnone c hmem
  rw [h] at hblank
  cases hblank

theorem ne_of_not_mem_marks {c d : Char} (h : c ∉ marks) (hd : d ∈ marks) : c ≠ d := by
  rintro rfl
  exact h hd

/-- What is no mark starts a word or blanks. -/
theorem inTag_of_not_mem_marks {c : Char} (h : c ∉ marks) (raw : Bool) (cs : List Char) :
    inTag raw (c :: cs) = if Text.isBlank c then blank raw (c :: cs) else word raw (c :: cs) := by
  have hmark : markKind? c = none := by
    fun_cases markKind? c with
    | case12 => rfl
    | _ => exact absurd (by decide) h
  have hquote : isQuote c = false := by
    rw [isQuote, Bool.or_eq_false_iff, beq_eq_false_iff_ne, beq_eq_false_iff_ne]
    exact ⟨ne_of_not_mem_marks h (by decide), ne_of_not_mem_marks h (by decide)⟩
  rw [inTag.eq_4, hmark, hquote]
  · rfl
  · intro _ heq
    exact absurd heq (ne_of_not_mem_marks h (by decide))
  · intro _ heq
    exact absurd heq (ne_of_not_mem_marks h (by decide))
  · exact ne_of_not_mem_marks h (by decide)

theorem inTag_word {cs after : List Char} (hne : cs ≠ []) (hcs : ∀ c ∈ cs, isWordChar c = true)
    (hafter : ∀ c ∈ after.head?, isWordChar c = false) (raw : Bool) :
    inTag raw (cs ++ after) = ⟨wordKind cs, cs.length, .tag raw⟩ := by
  have htake := Text.takeWhile_append_of_head hcs hafter
  cases cs with
  | nil => exact absurd rfl hne
  | cons c cs =>
    have hc := hcs c List.mem_cons_self
    rw [List.cons_append, inTag_of_not_mem_marks (ne_mark_of_isWordChar hc),
      isBlank_of_isWordChar hc, if_neg Bool.false_ne_true, word, ← List.cons_append, htake]

theorem inTag_blank {cs after : List Char} (hne : cs ≠ [])
    (hcs : ∀ c ∈ cs, Text.isBlank c = true)
    (hafter : ∀ c ∈ after.head?, Text.isBlank c = false) (raw : Bool) :
    inTag raw (cs ++ after) = ⟨.whitespace, cs.length, .tag raw⟩ := by
  have htake := Text.takeWhile_append_of_head hcs hafter
  cases cs with
  | nil => exact absurd rfl hne
  | cons c cs =>
    have hc := hcs c List.mem_cons_self
    rw [List.cons_append, inTag_of_not_mem_marks (not_mem_marks_of_isBlank hc), hc,
      if_pos rfl, blank, ← List.cons_append, htake]

theorem quotedLength?_append {q : Char} {cs : List Char} (after : List Char)
    (hcs : ∀ c ∈ cs, c ≠ q ∧ c ≠ '\\') (hq : q ≠ '\\') :
    quotedLength? q (cs ++ q :: after) = some (cs.length + 1) := by
  induction cs with
  | nil =>
    rw [List.nil_append, quotedLength?.eq_2, if_pos rfl]
    · rfl
    · intro _ _ heq
      exact absurd heq hq
  | cons c cs ih =>
    obtain ⟨hc, hescape⟩ := hcs c List.mem_cons_self
    have hrest := ih fun d hd => hcs d (List.mem_cons_of_mem c hd)
    rw [List.cons_append, quotedLength?.eq_2, if_neg hc, hrest]
    · rfl
    · intro _ _ heq
      exact absurd heq hescape

theorem inTag_quoted {cs : List Char} (hcs : ∀ c ∈ cs, c ≠ '"' ∧ c ≠ '\\') (after : List Char)
    (raw : Bool) :
    inTag raw ('"' :: cs ++ '"' :: after) = ⟨.string, cs.length + 2, .tag raw⟩ := by
  have hlength := quotedLength?_append after hcs (by decide)
  change quoted raw '"' (cs ++ '"' :: after) = _
  rw [quoted, hlength]

/-- Text runs up to an opening delimiter or to the end. -/
theorem inContent_text {cs after : List Char} (hne : cs ≠ []) (hcs : ∀ c ∈ cs, c ≠ '{' ∧ c ≠ '\\')
    (hafter : after = [] ∨ ∃ rest, after = '{' :: '{' :: rest) :
    inContent (cs ++ after) = ⟨.text, cs.length, .content⟩ := by
  have hlength : textLength (cs ++ after) = cs.length := by
    clear hne
    induction cs with
    | nil => rcases hafter with rfl | ⟨rest, rfl⟩ <;> rfl
    | cons c cs ih =>
      obtain ⟨hbrace, hescape⟩ := hcs c List.mem_cons_self
      rw [List.cons_append, textLength.eq_3, ih fun d hd => hcs d (List.mem_cons_of_mem c hd)]
      · rfl
      · intro _ heq
        exact absurd heq hescape
      · intro _ heq
        exact absurd heq hbrace
  cases cs with
  | nil => exact absurd rfl hne
  | cons c cs =>
    have hbrace := (hcs c List.mem_cons_self).1
    rw [List.cons_append] at hlength ⊢
    rw [inContent.eq_2, hlength]
    intro _ heq
    exact absurd (List.cons.inj heq).1 hbrace

theorem bodyEnds_of_ne {c : Char} (hbrace : c ≠ '}') (htilde : c ≠ '~') (cs : List Char) :
    bodyEnds false (c :: cs) = false := by
  simp [bodyEnds, closeDelimiter, List.isPrefixOf, hbrace.symm, htilde.symm]

theorem bodyEnds_of_ne_of_ne {c d : Char} (hc : c ≠ '}') (hd : d ≠ '}') (cs : List Char) :
    bodyEnds false (c :: d :: cs) = false := by
  simp [bodyEnds, closeDelimiter, List.isPrefixOf, hc.symm, hd.symm]

theorem shortBodyLength_append {cs : List Char} (hcs : ∀ c ∈ cs, c ≠ '}' ∧ c ≠ '~')
    (after : List Char) : shortBodyLength false (cs ++ '}' :: '}' :: after) = cs.length := by
  induction cs with
  | nil => rfl
  | cons c cs ih =>
    obtain ⟨hbrace, htilde⟩ := hcs c List.mem_cons_self
    rw [List.cons_append, shortBodyLength, bodyEnds_of_ne hbrace htilde,
      if_neg Bool.false_ne_true, ih fun d hd => hcs d (List.mem_cons_of_mem c hd)]
    rfl

/-- In a comment without closing braces, the dashes at its end are the first
with a delimiter behind. -/
theorem dashesLength?_append {cs : List Char} (hcs : ∀ c ∈ cs, c ≠ '}') (after : List Char) :
    dashesLength? false (cs ++ '-' :: '-' :: '}' :: '}' :: after) = some (cs.length + 2) := by
  induction cs with
  | nil => rfl
  | cons c cs ih =>
    have hrest := ih fun d hd => hcs d (List.mem_cons_of_mem c hd)
    have hnot : (['-', '-'].isPrefixOf (c :: (cs ++ '-' :: '-' :: '}' :: '}' :: after)) &&
        bodyEnds false ((cs ++ '-' :: '-' :: '}' :: '}' :: after).drop 1)) = false := by
      rw [Bool.and_eq_false_iff]
      match cs with
      | [] => exact .inr rfl
      | [d] => exact .inr rfl
      | [_, e] => exact .inr (bodyEnds_of_ne_of_ne (hcs e (by simp)) (by decide) _)
      | _ :: e :: f :: _ =>
        exact .inr (bodyEnds_of_ne_of_ne (hcs e (by simp)) (hcs f (by simp)) _)
    rw [List.cons_append, dashesLength?, hnot, if_neg Bool.false_ne_true, hrest]
    rfl

theorem bodyLength_short {cs : List Char} (hcs : ∀ c ∈ cs, c ≠ '}' ∧ c ≠ '~')
    (hdashes : ¬ ['-', '-'] <+: cs) (after : List Char) :
    bodyLength false (cs ++ '}' :: '}' :: after) = cs.length := by
  have hnot : ['-', '-'].isPrefixOf (cs ++ '}' :: '}' :: after) = false := by
    match cs, hdashes with
    | [], _ => rfl
    | [c], _ => simp [List.isPrefixOf]
    | c :: d :: cs, hdashes =>
      rw [← Bool.not_eq_true, List.cons_append, List.cons_append]
      intro hprefix
      refine hdashes ?_
      simp only [List.isPrefixOf, Bool.and_eq_true, beq_iff_eq] at hprefix
      obtain ⟨rfl, rfl, -⟩ := hprefix
      exact ⟨cs, rfl⟩
  rw [bodyLength, longBodyLength?, hnot, if_neg Bool.false_ne_true]
  exact shortBodyLength_append hcs after

theorem bodyLength_long {cs : List Char} (hcs : ∀ c ∈ cs, c ≠ '}') (after : List Char) :
    bodyLength false ('-' :: '-' :: cs ++ ['-', '-'] ++ '}' :: '}' :: after) =
      cs.length + 4 := by
  have hdashes := dashesLength?_append hcs after
  have hlong : longBodyLength? false ('-' :: '-' :: cs ++ ['-', '-'] ++ '}' :: '}' :: after) =
      (dashesLength? false (cs ++ '-' :: '-' :: '}' :: '}' :: after)).map (· + 2) := by
    simp [longBodyLength?, List.isPrefixOf]
  rw [bodyLength, hlong, hdashes]
  rfl

end Lexeme

end BraceTemplate
