import Mathlib.Data.List.Induction
import BraceTemplate.Proofs.Text.Boundary

/-!
# Lines and columns

A source is cut at its line breaks, and a position names a line and a place in
it: in front of one of its characters, or at its end. Every boundary between
characters has one position, and positions come in the order of the offsets.
The position of a text is told character by character from its front, which
needs neither a search backwards for the start of the line nor a second count.
-/

namespace BraceTemplate

namespace Text

/-- Lines with their line breaks. -/
def closedLines (lines : List (List Char)) : List Char := lines.flatMap (· ++ ['\n'])

theorem closedLines_append (lines more : List (List Char)) :
    closedLines (lines ++ more) = closedLines lines ++ closedLines more :=
  List.flatMap_append

theorem closedLines_singleton (line : List Char) : closedLines [line] = line ++ ['\n'] :=
  List.flatMap_singleton _ _

/-- A text is some closed lines and an open one. -/
theorem exists_closedLines (text : List Char) :
    ∃ lines last, text = closedLines lines ++ last ∧ (∀ line ∈ lines, '\n' ∉ line) ∧
      '\n' ∉ last := by
  induction text using List.reverseRecOn with
  | nil => exact ⟨[], [], rfl, nofun, nofun⟩
  | append_singleton text c ih =>
    obtain ⟨lines, last, rfl, hlines, hlast⟩ := ih
    by_cases hbreak : c = '\n'
    · subst hbreak
      refine ⟨lines ++ [last], [], ?_, ?_, nofun⟩
      · rw [closedLines_append, closedLines_singleton, List.append_nil, List.append_assoc]
      · intro line hline
        rcases List.mem_append.1 hline with hline | hline
        · exact hlines line hline
        · rwa [List.mem_singleton.1 hline]
    · refine ⟨lines, last ++ [c], by rw [List.append_assoc], hlines, ?_⟩
      rw [List.mem_append, List.mem_singleton]
      rintro (hmem | rfl)
      · exact hlast hmem
      · exact hbreak rfl

/-- Closed lines are cut off one by one. -/
theorem splitOn_closedLines {lines : List (List Char)} (h : ∀ line ∈ lines, '\n' ∉ line)
    (rest : List Char) :
    (closedLines lines ++ rest).splitOn '\n' = lines ++ rest.splitOn '\n' := by
  induction lines with
  | nil => rfl
  | cons line lines ih =>
    rw [List.forall_mem_cons] at h
    have hcons : closedLines (line :: lines) ++ rest =
        line ++ '\n' :: (closedLines lines ++ rest) := by
      simp [closedLines]
    rw [hcons, List.splitOn_append_cons_self_of_not_mem h.1, ih h.2, List.cons_append]

/-- An open line goes on as the first line of what follows. -/
theorem splitOn_append_of_not_mem {front : List Char} (h : '\n' ∉ front) (rest : List Char) :
    ∃ more below, (front ++ rest).splitOn '\n' = (front ++ more) :: below := by
  induction front with
  | nil =>
    obtain ⟨more, below, hsplit⟩ := List.exists_cons_of_ne_nil (List.splitOn_ne_nil '\n' rest)
    exact ⟨more, below, hsplit⟩
  | cons c front ih =>
    rw [List.mem_cons, not_or] at h
    obtain ⟨more, below, hsplit⟩ := ih h.2
    refine ⟨more, below, ?_⟩
    rw [List.cons_append, List.splitOn_cons_eq_if_modifyHead, hsplit,
      if_neg (by simpa using Ne.symm h.1)]
    rfl

/-- A line found in a text has closed lines in front. -/
theorem exists_of_splitOn_eq {text line : List Char} {above below : List (List Char)}
    (h : text.splitOn '\n' = above ++ line :: below) :
    (∀ other ∈ above, '\n' ∉ other) ∧ '\n' ∉ line ∧
      ∃ rest, text = closedLines above ++ line ++ rest := by
  obtain ⟨lines, last, rfl, hlines, hlast⟩ := exists_closedLines text
  rw [splitOn_closedLines hlines, List.splitOn_eq_singleton hlast] at h
  rcases List.eq_nil_or_concat below with rfl | ⟨inner, final, rfl⟩
  · obtain ⟨rfl, hcons⟩ := List.append_inj' h rfl
    cases hcons
    exact ⟨hlines, hlast, [], (List.append_nil _).symm⟩
  · rw [List.concat_eq_append, ← List.cons_append, ← List.append_assoc] at h
    obtain ⟨rfl, hcons⟩ := List.append_inj' h rfl
    cases hcons
    refine ⟨fun other hother => hlines other (List.mem_append_left _ hother),
      hlines line (List.mem_append_right _ List.mem_cons_self),
      ['\n'] ++ closedLines inner ++ last, ?_⟩
    simp [closedLines]

end Text

namespace Position

/-- The position comes first in the order of lines, and of columns on one line. -/
def Before (p q : Position) : Prop := p.line < q.line ∨ p.line = q.line ∧ p.column < q.column

theorem Before.trans {p q r : Position} (hpq : p.Before q) (hqr : q.Before r) : p.Before r := by
  rw [Before] at *
  omega

theorem Before.irrefl {p : Position} : ¬ p.Before p := by
  rw [Before]
  omega

/-- The position is on a line of the text, in front of one of its characters or
at its end, and has this many bytes in front. -/
def Locates (text : List Char) (p : Position) (offset : Nat) : Prop :=
  ∃ above before after below, text.splitOn '\n' = above ++ (before ++ after) :: below ∧
    p = ⟨above.length + 1, before.length + 1⟩ ∧
    offset = Text.byteLength (Text.closedLines above ++ before)

theorem after_break (text : List Char) :
    after (text ++ ['\n']) = ⟨(after text).line + 1, 1⟩ := by
  simp [after]

theorem after_char {c : Char} (h : c ≠ '\n') (text : List Char) :
    after (text ++ [c]) = ⟨(after text).line, (after text).column + 1⟩ := by
  simp [after, h]

/-- Each character moves the position on. -/
theorem before_after_append_singleton (text : List Char) (c : Char) :
    (after text).Before (after (text ++ [c])) := by
  by_cases h : c = '\n'
  · rw [h, after_break]
    exact .inl (Nat.lt_succ_self _)
  · rw [after_char h]
    exact .inr ⟨rfl, Nat.lt_succ_self _⟩

theorem before_after_append (text : List Char) {more : List Char} (h : more ≠ []) :
    (after text).Before (after (text ++ more)) := by
  induction more using List.reverseRecOn with
  | nil => exact absurd rfl h
  | append_singleton more c ih =>
    rw [← List.append_assoc]
    by_cases hmore : more = []
    · rw [hmore, List.append_nil]
      exact before_after_append_singleton text c
    · exact (ih hmore).trans (before_after_append_singleton _ c)

theorem eq_nil_of_after_append {text more : List Char} (h : after (text ++ more) = after text) :
    more = [] := by
  by_contra hne
  have hbefore := before_after_append text hne
  rw [h] at hbefore
  exact Before.irrefl hbefore

/-- Positions tell the fronts of a text apart. -/
theorem after_inj {text before other : List Char} (h : before <+: text) (h' : other <+: text)
    (heq : after before = after other) : before = other := by
  rcases List.prefix_or_prefix_of_prefix h h' with ⟨more, rfl⟩ | ⟨more, rfl⟩
  · rw [eq_nil_of_after_append heq.symm, List.append_nil]
  · rw [eq_nil_of_after_append heq, List.append_nil]

/-- On one line the column grows with the characters. -/
theorem after_line {line : List Char} (h : '\n' ∉ line) (text : List Char) :
    after (text ++ line) = ⟨(after text).line, (after text).column + line.length⟩ := by
  induction line using List.reverseRecOn with
  | nil => rw [List.append_nil]; rfl
  | append_singleton line c ih =>
    rw [List.mem_append, List.mem_singleton, not_or] at h
    rw [← List.append_assoc, after_char (Ne.symm h.2), ih h.1, List.length_append,
      List.length_singleton, Nat.add_assoc]

/-- Closed lines lead to the front of the line after them. -/
theorem after_closedLines {lines : List (List Char)} (h : ∀ line ∈ lines, '\n' ∉ line) :
    after (Text.closedLines lines) = ⟨lines.length + 1, 1⟩ := by
  induction lines using List.reverseRecOn with
  | nil => rfl
  | append_singleton lines line ih =>
    have hfront := ih fun other hother => h other (List.mem_append_left _ hother)
    have hline := h line (List.mem_append_right _ List.mem_cons_self)
    rw [Text.closedLines_append, Text.closedLines_singleton, ← List.append_assoc, after_break,
      after_line hline, hfront, List.length_append, List.length_singleton]

theorem after_closedLines_append {above : List (List Char)} {line : List Char}
    (habove : ∀ line ∈ above, '\n' ∉ line) (hline : '\n' ∉ line) :
    after (Text.closedLines above ++ line) = ⟨above.length + 1, line.length + 1⟩ := by
  rw [after_line hline, after_closedLines habove, Nat.add_comm line.length]

/-- The places that positions locate are the boundaries, each with the position
of the text in front. -/
theorem locates_iff {text : List Char} {p : Position} {offset : Nat} :
    p.Locates text offset ↔
      ∃ before after, text = before ++ after ∧ offset = Text.byteLength before ∧
        p = .after before := by
  constructor
  · rintro ⟨above, before, after, below, hsplit, rfl, rfl⟩
    obtain ⟨habove, hline, rest, rfl⟩ := Text.exists_of_splitOn_eq hsplit
    rw [List.mem_append, not_or] at hline
    refine ⟨Text.closedLines above ++ before, after ++ rest, by simp, rfl, ?_⟩
    rw [after_closedLines_append habove hline.1]
  · rintro ⟨before, after, rfl, rfl, rfl⟩
    obtain ⟨above, last, rfl, habove, hlast⟩ := Text.exists_closedLines before
    obtain ⟨more, below, hsplit⟩ := Text.splitOn_append_of_not_mem hlast after
    refine ⟨above, last, more, below, ?_, ?_, rfl⟩
    · rw [List.append_assoc, Text.splitOn_closedLines habove, hsplit]
    · rw [after_closedLines_append habove hlast]

end Position

namespace Location

variable {source : String} {l : Location}

/-- A location that starts between two characters has the position of the text in
front. -/
theorem position?_eq_some_iff (h : l.start ≤ Text.byteLength source.toList) {p : Position} :
    l.position? source = some p ↔
      ∃ before after, source.toList = before ++ after ∧ l.start = Text.byteLength before ∧
        p = .after before := by
  rw [position?, Nat.min_eq_left h, Option.map_eq_some_iff]
  constructor
  · rintro ⟨⟨before, after⟩, hsplit, rfl⟩
    obtain ⟨hsource, hstart⟩ := Text.eq_append_of_splitAt? hsplit
    exact ⟨before, after, hsource, hstart, rfl⟩
  · rintro ⟨before, after, hsource, hstart, rfl⟩
    refine ⟨(before, after), ?_, rfl⟩
    rw [hsource, hstart, Text.splitAt?_append]

/-- Positions tell where locations start: they come in the order of the offsets,
each is the line and the column of its offset and of no other, and from the end
of the source on they are that of the end. -/
theorem position_faithful (source : String) :
    (∀ l m : Location, Text.IsBoundary source.toList l.start →
      Text.IsBoundary source.toList m.start → l.start < m.start →
      ∃ p q, l.position? source = some p ∧ m.position? source = some q ∧ p.Before q) ∧
    (∀ l : Location, l.start ≤ Text.byteLength source.toList →
      ∀ p, l.position? source = some p ↔ p.Locates source.toList l.start) ∧
    ∀ l : Location, Text.byteLength source.toList < l.start →
      ∃ p, l.position? source = some p ∧
        (point (Text.byteLength source.toList)).position? source = some p := by
  refine ⟨?_, ?_, ?_⟩
  · intro l m hl hm hlt
    have hltle := hl.le
    have hmle := hm.le
    obtain ⟨front, rest, hfront, hlstart⟩ := hl
    obtain ⟨before, after, hbefore, hmstart⟩ := hm
    refine ⟨.after front, .after before,
      (position?_eq_some_iff hltle).2 ⟨front, rest, hfront, hlstart, rfl⟩,
      (position?_eq_some_iff hmle).2 ⟨before, after, hbefore, hmstart, rfl⟩, ?_⟩
    obtain ⟨more, rfl⟩ := Text.prefix_of_byteLength_le ⟨rest, hfront.symm⟩
      ⟨after, hbefore.symm⟩ (by omega)
    apply Position.before_after_append
    rintro rfl
    rw [List.append_nil] at hmstart
    omega
  · intro l hl p
    rw [position?_eq_some_iff hl, Position.locates_iff]
  · intro l hl
    have hend : (point (Text.byteLength source.toList)).position? source =
        some (.after source.toList) :=
      (position?_eq_some_iff (Nat.le_refl _)).2
        ⟨source.toList, [], (List.append_nil _).symm, rfl, rfl⟩
    refine ⟨_, ?_, hend⟩
    rw [← hend, position?, position?, Nat.min_eq_right (Nat.le_of_lt hl)]
    exact congrArg _ (congrArg _ (Nat.min_self _).symm)

/-- On a line with a letter of two bytes, columns count characters. -/
theorem position_faithful_accented :
    (∃ p q, (point 4).position? "ab\ncdé\nf" = some p ∧
      (point 7).position? "ab\ncdé\nf" = some q ∧ p.Before q) ∧
    Position.Locates "ab\ncdé\nf".toList ⟨2, 4⟩ 7 ∧
    ∃ p, (point 12).position? "ab\ncdé\nf" = some p ∧
      (point 9).position? "ab\ncdé\nf" = some p := by
  obtain ⟨hbefore, hlocates, hbehind⟩ := position_faithful "ab\ncdé\nf"
  refine ⟨?_, (hlocates (point 7) (by decide) ⟨2, 4⟩).1 (by decide), hbehind (point 12) (by decide)⟩
  exact hbefore (point 4) (point 7) ⟨"ab\nc".toList, "dé\nf".toList, by decide, by decide⟩
    ⟨"ab\ncdé".toList, "\nf".toList, by decide, by decide⟩ (by decide)

end Location

end BraceTemplate
