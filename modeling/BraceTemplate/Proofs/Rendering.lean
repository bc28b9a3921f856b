import Mathlib.Data.List.Perm.Subperm
import BraceTemplate.Proofs.Text.Lines
import BraceTemplate.Report

/-!
# Renderers

What is relied on of a renderer: it counts characters where diagnostics count
bytes, its lines end behind line breaks with none behind the last one, and it
leaves out what lies beyond the source. Nothing is relied on for a label that
lies partly beyond. The position of a diagnostic is that of the same number of
characters just where these are single bytes and the diagnostic does not stand
behind a line break at the end.
-/

namespace BraceTemplate

namespace Position

/-- Line and column of a number of characters. A line ends behind its line break,
and no line follows the last one, so what stands behind a line break at the end
is still on the line that it ends. -/
inductive Numbers (cs : List Char) (n : Nat) : Position → Prop
  | onLine {above : List (List Char)} {before after : List Char}
      (habove : ∀ line ∈ above, '\n' ∉ line) (hbefore : '\n' ∉ before)
      (hline : above = [] ∨ before ++ after ≠ [])
      (htext : cs = Text.closedLines above ++ (before ++ after))
      (hcount : n = (Text.closedLines above ++ before).length) :
      Numbers cs n ⟨above.length + 1, before.length + 1⟩
  | behindBreak {above : List (List Char)} {line : List Char}
      (habove : ∀ line ∈ above, '\n' ∉ line) (hline : '\n' ∉ line)
      (htext : cs = Text.closedLines above ++ (line ++ ['\n'])) (hcount : n = cs.length) :
      Numbers cs n ⟨above.length + 1, line.length + 2⟩

variable {cs : List Char} {n : Nat} {p : Position}

/-- Every character of a text has a position, and so has its end. -/
theorem exists_numbers (h : n ≤ cs.length) : ∃ p : Position, p.Numbers cs n := by
  obtain ⟨above, last, hfront, habove, hlast⟩ := Text.exists_closedLines (cs.take n)
  have htext : cs = Text.closedLines above ++ (last ++ cs.drop n) := by
    rw [← List.append_assoc, ← hfront, List.take_append_drop]
  have hcount : n = (Text.closedLines above ++ last).length := by
    rw [← hfront, List.length_take, Nat.min_eq_left h]
  by_cases hline : above = [] ∨ last ++ cs.drop n ≠ []
  · exact ⟨_, .onLine habove hlast hline htext hcount⟩
  · rw [not_or, not_not] at hline
    obtain ⟨lines, line, rfl⟩ := (List.eq_nil_or_concat above).resolve_left hline.1
    obtain ⟨hnil, -⟩ := List.append_eq_nil_iff.1 hline.2
    rw [List.concat_eq_append, Text.closedLines_append, Text.closedLines_singleton] at htext hcount
    rw [hline.2, List.append_nil] at htext
    rw [hnil, List.append_nil, ← htext] at hcount
    exact ⟨_, .behindBreak (fun other hother => habove other (by simp [hother]))
      (habove line (by simp)) htext hcount⟩

/-- The position is that of the text in front, but not behind a line break at the
end. -/
theorem Numbers.positionAt? (h : p.Numbers cs n) : Excerpt.positionAt? cs n = some p := by
  cases h with
  | @onLine above before after habove hbefore hline htext hcount =>
    have hfront : cs.take n = Text.closedLines above ++ before := by
      rw [htext, hcount, ← List.append_assoc, List.take_left]
    have hle : n ≤ cs.length := by
      rw [htext, hcount, List.length_append, List.length_append, List.length_append]
      omega
    have hend : ¬ (n = cs.length ∧ cs.getLast? = some '\n') := by
      rintro ⟨heq, hlast⟩
      have hnil : after = [] := by
        rw [heq, htext, List.length_append, List.length_append, List.length_append] at hcount
        exact List.eq_nil_of_length_eq_zero (by omega)
      rw [hnil, List.append_nil] at htext hline
      cases before with
      | nil =>
        rw [hline.resolve_right (fun hne => hne rfl)] at htext
        rw [htext] at hlast
        cases hlast
      | cons c before =>
        rw [htext, List.getLast?_append_cons] at hlast
        exact hbefore (List.mem_of_getLast? hlast)
    rw [Excerpt.positionAt?, if_neg (by omega), if_neg hend, hfront,
      after_closedLines_append habove hbefore]
  | @behindBreak above line habove hline htext hcount =>
    have hlast : cs.getLast? = some '\n' := by
      rw [htext, ← List.append_assoc, List.getLast?_concat]
    have hfront : cs.dropLast = Text.closedLines above ++ line := by
      rw [htext, ← List.append_assoc, List.dropLast_concat]
    rw [Excerpt.positionAt?, if_neg (by omega), if_pos ⟨hcount, hlast⟩, hfront,
      after_closedLines_append habove hline]

/-- There is one position for each number of characters. -/
theorem numbers_iff : p.Numbers cs n ↔ Excerpt.positionAt? cs n = some p := by
  constructor
  · exact Numbers.positionAt?
  · intro h
    have hle : n ≤ cs.length := by
      by_contra hlt
      rw [Excerpt.positionAt?, if_pos (by omega)] at h
      cases h
    obtain ⟨q, hq⟩ := exists_numbers hle
    rw [← Option.some.inj (hq.positionAt?.symm.trans h)]
    exact hq

/-- The end of a text has a position that no text in front has. -/
theorem after_ne_behindBreak {before : List Char} (h : before <+: cs)
    (hlast : cs.getLast? = some '\n') :
    after before ≠ ⟨(after cs.dropLast).line, (after cs.dropLast).column + 1⟩ := by
  intro heq
  have hcs : cs.dropLast ++ ['\n'] = cs := List.dropLast_append_getLast? _ hlast
  have hline := congrArg line heq
  have hcolumn := congrArg column heq
  rw [← hcs] at h
  rcases List.prefix_concat_iff.1 h with rfl | ⟨more, hmore⟩
  · rw [after_break] at hline
    simp only at hline
    omega
  · by_cases hnil : more = []
    · rw [hnil, List.append_nil] at hmore
      rw [hmore] at hcolumn
      simp only at hcolumn
      omega
    · have hbefore := before_after_append before hnil
      rw [hmore, Before] at hbefore
      simp only at hline hcolumn
      omega

/-- The position behind some bytes is that of the same number of characters just
where these are single bytes and it is not the end behind a line break. -/
theorem numbers_after_iff {before rest : List Char} :
    (after before).Numbers (before ++ rest) (Text.byteLength before) ↔
      (∀ c ∈ before, c.utf8Size = 1) ∧ ¬ (rest = [] ∧ before.getLast? = some '\n') := by
  rw [numbers_iff, ← Text.byteLength_le_length_iff, Excerpt.positionAt?]
  have hbytes := Text.length_le_byteLength before
  constructor
  · intro hposition
    split at hposition
    · cases hposition
    · rename_i hle
      split at hposition
      · rename_i hend
        exact absurd (Option.some.inj hposition).symm
          (after_ne_behindBreak (List.prefix_append _ _) hend.2)
      · rename_i hend
        have hfront := after_inj (List.take_prefix _ _) (List.prefix_append before rest)
          (Option.some.inj hposition)
        have hcount := congrArg List.length hfront
        rw [List.length_take, Nat.min_eq_left (Nat.le_of_not_lt hle)] at hcount
        refine ⟨Nat.le_of_eq hcount, ?_⟩
        rintro ⟨rfl, hlast⟩
        rw [List.append_nil] at hend
        exact hend ⟨hcount, hlast⟩
  · rintro ⟨hnarrow, hend⟩
    have hcount : Text.byteLength before = before.length := by omega
    rw [hcount, if_neg (by simp), if_neg, List.take_left]
    rintro ⟨hlength, hlast⟩
    have hnil : rest = [] := by
      rw [List.length_append] at hlength
      exact List.eq_nil_of_length_eq_zero (by omega)
    rw [hnil, List.append_nil] at hlast
    exact hend ⟨hnil, hlast⟩

end Position

namespace Report

/-- No label stops in front of its start. -/
def Formed (r : Report) : Prop :=
  ∀ label ∈ r.labels, label.location.start ≤ label.location.stop

/-- What is relied on of the drawing of a report on a source. -/
structure Drawn (r : Report) (filename source : String) (drawing : Excerpt) : Prop where
  /-- A label within the source is shown. -/
  kept : (r.labels.filter (·.stopsBy source.toList.length)).Subperm drawing.labels
  /-- A label that starts beyond the source is not shown, and none is added. -/
  dropped : drawing.labels.Subperm
    (r.labels.filter fun label => label.location.start ≤ source.toList.length)
  /-- With a label, the place of the report is shown. -/
  place : drawing.labels ≠ [] → ∀ p : Position, p.Numbers source.toList r.location.start →
    drawing.place = some (Excerpt.placeText filename p)
  help : drawing.labels ≠ [] → drawing.help = r.help
  /-- If all labels start beyond the source, nothing of this is shown. -/
  nothing : (∀ label ∈ r.labels, source.toList.length < label.location.start) →
    drawing.place = none ∧ drawing.help = none

end Report

/-- What is relied on of a renderer on a source. A renderer that ends lines at
other characters too is so where none of these stands in the source. -/
def Renderer.Lawful (renderer : Renderer) (source : String) : Prop :=
  ∀ (r : Report) (filename : String), r.Formed →
    r.Drawn filename source (renderer r filename source)

namespace Report

variable {r : Report} {filename source : String}

/-- A report with a label that can be shown has its place and its help. -/
theorem any_fits_of_excerpt (hformed : r.Formed)
    (h : (r.excerpt filename source).labels ≠ []) :
    r.labels.any (·.fits source.toList.length) = true := by
  obtain ⟨label, hlabel⟩ := List.exists_mem_of_ne_nil _ h
  obtain ⟨hmem, hstop⟩ := List.mem_filter.1 (List.mem_reverse.1 hlabel)
  have hle := hformed label hmem
  rw [Label.stopsBy, decide_eq_true_eq] at hstop
  refine List.any_eq_true.2 ⟨label, hmem, ?_⟩
  rw [Label.fits, Bool.and_eq_true, Bool.or_eq_true]
  exact ⟨decide_eq_true (by omega), .inr (decide_eq_true (by omega))⟩

/-- No label that starts beyond the source can be shown. -/
theorem any_fits_eq_false
    (h : ∀ label ∈ r.labels, source.toList.length < label.location.start) :
    r.labels.any (·.fits source.toList.length) = false := by
  rw [List.any_eq_false]
  intro label hmem hfits
  have hbeyond := h label hmem
  rw [Label.fits, Bool.and_eq_true, decide_eq_true_eq] at hfits
  omega

/-- The renderer at hand is as relied on. -/
theorem excerpt_lawful (source : String) : Renderer.Lawful Report.excerpt source := by
  intro r filename hformed
  constructor
  case kept => exact (List.reverse_perm _).symm.subperm
  case dropped =>
    have hstart : r.labels.filter (·.stopsBy source.toList.length) =
        (r.labels.filter fun label => label.location.start ≤ source.toList.length).filter
          (·.stopsBy source.toList.length) := by
      rw [List.filter_filter]
      refine List.filter_congr fun label hmem => ?_
      have hle := hformed label hmem
      rw [Label.stopsBy, eq_comm, Bool.and_eq_left_iff_imp, decide_eq_true_eq, decide_eq_true_eq]
      omega
    refine (List.reverse_perm _).subperm.trans ?_
    rw [hstart]
    exact List.filter_sublist.subperm
  case place =>
    intro h p hp
    have hshown := any_fits_of_excerpt hformed h
    simp only [excerpt, hshown, if_true, hp.positionAt?]
    rfl
  case help =>
    intro h
    have hshown := any_fits_of_excerpt hformed h
    simp only [excerpt, hshown, if_true]
  case nothing =>
    intro h
    simp only [excerpt, any_fits_eq_false h]
    exact ⟨rfl, rfl⟩

end Report

/-- A place tells its line and its column. -/
theorem Excerpt.placeText_inj {filename : String} {p q : Position}
    (h : placeText filename p = placeText filename q) : p = q := by
  have hdigits : ∀ n : Nat, ∀ c ∈ (toString n).toList, (c != ':') = true := by
    intro n c hc
    rw [Nat.toString_eq_repr, Nat.toList_repr] at hc
    have hdigit := Nat.isDigit_of_mem_toDigits (by decide) (by decide) hc
    rw [bne_iff_ne]
    rintro rfl
    exact absurd hdigit (by decide)
  have hnumber : ∀ {m n : Nat}, (toString m).toList = (toString n).toList → m = n := by
    intro m n hmn
    rw [Nat.toString_eq_repr, Nat.toString_eq_repr, Nat.toList_repr, Nat.toList_repr] at hmn
    rw [← @Nat.ofDigitChars_ten_toDigits m, hmn, Nat.ofDigitChars_ten_toDigits]
  have hcolon : ∀ m : Nat, ∀ c ∈ (":".toList ++ (toString m).toList).head?, (c != ':') = false := by
    rintro m c ⟨⟩
    rfl
  rw [placeText, placeText, ← String.toList_inj] at h
  simp only [String.toList_append, List.append_assoc, List.append_cancel_left_eq] at h
  obtain ⟨hline, hcolumn⟩ := Text.append_inj_of_head (hdigits p.line) (hdigits q.line)
    (hcolon p.column) (hcolon q.column) h
  obtain ⟨line, column⟩ := p
  obtain ⟨line', column'⟩ := q
  cases hnumber hline
  cases hnumber (List.append_cancel_left hcolumn)
  rfl

end BraceTemplate
