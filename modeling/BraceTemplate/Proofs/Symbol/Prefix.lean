import Mathlib.Data.List.TakeWhile
import BraceTemplate.Proofs.Symbol.Delimiters

/-!
# Lexemes of a longer source

A lexeme that ends before the source does is found again when the source goes
on. For comments this takes more: one that starts with `--` and is cut off at the
first closing delimiter may find a later `--` to end at when there is more text.
-/

namespace BraceTemplate

namespace Lexeme

/-- Whether the text of a comment stays what it is when more text follows. -/
def Finished (text : List Char) : Prop :=
  ['-', '-'] <+: text → ['-', '-'] <:+ text ∧ 4 ≤ Text.byteLength text

instance (text : List Char) : Decidable (Finished text) :=
  inferInstanceAs (Decidable (_ → _))

/-! ### Text, literals and words -/

variable {raw : Bool} {cs : List Char} (after : List Char)

theorem textLength_append (h : textLength cs < cs.length) :
    textLength (cs ++ after) = textLength cs := by
  fun_induction textLength cs with
  | case1 cs ih =>
    have hrest := ih (by simp at h; omega)
    exact congrArg (· + 3) hrest
  | case2 => rfl
  | case3 c cs hescape hbrace ih =>
    rw [List.length_cons, Nat.succ_lt_succ_iff] at h
    rw [List.cons_append, textLength.eq_3, ih h]
    · -- a single brace at the end is text, so it cannot be all that is left
      rintro rest rfl heq
      match cs, h with
      | [d], h =>
        obtain ⟨rfl, -⟩ := List.cons.inj heq
        cases Nat.lt_irrefl _ h
      | d :: e :: cs, _ =>
        obtain ⟨rfl, hrest⟩ := List.cons.inj heq
        obtain ⟨rfl, -⟩ := List.cons.inj hrest
        exact hescape cs rfl rfl
    · rintro rest rfl heq
      match cs, h with
      | d :: cs, _ =>
        obtain ⟨rfl, -⟩ := List.cons.inj heq
        exact hbrace cs rfl rfl
  | case4 => cases h

theorem quotedLength?_append_of_some {q : Char} (hq : q ≠ '\\') {n : Nat}
    (h : quotedLength? q cs = some n) : quotedLength? q (cs ++ after) = some n := by
  fun_induction quotedLength? q cs generalizing n with
  | case1 c cs ih =>
    obtain ⟨m, hm, rfl⟩ := Option.map_eq_some_iff.1 h
    exact congrArg (Option.map (· + 2)) (ih hm)
  | case2 cs hescape =>
    rw [List.cons_append, quotedLength?.eq_2, if_pos rfl]
    · exact h
    · intro _ _ heq
      exact absurd heq hq
  | case3 c cs hescape hne ih =>
    obtain ⟨m, hm, rfl⟩ := Option.map_eq_some_iff.1 h
    rw [List.cons_append, quotedLength?.eq_2, if_neg hne, ih hm]
    · rfl
    · rintro d rest rfl heq
      match cs, hm with
      | e :: cs, _ => exact hescape e cs rfl rfl
  | case4 => cases h

theorem takeWhile_append_of_lt {p : Char → Bool} (h : (cs.takeWhile p).length < cs.length) :
    (cs ++ after).takeWhile p = cs.takeWhile p := by
  rw [List.takeWhile_append, if_neg (Nat.ne_of_lt h)]

/-! ### Delimiters and marks -/

theorem opening_append (h : (opening cs).length < cs.length + 2) :
    opening (cs ++ after) = opening cs := by
  cases cs with
  | nil => cases Nat.lt_irrefl _ h
  | cons c cs => rfl

theorem closing_append (h : (closing raw cs).length < cs.length + 2) :
    closing raw (cs ++ after) = closing raw cs := by
  cases cs with
  | nil =>
    rw [closing, List.head?_nil] at h
    simp at h
  | cons c cs => rfl

theorem quoted_append {q : Char} (hq : isQuote q = true)
    (h : (quoted raw q cs).length < cs.length + 1) :
    quoted raw q (cs ++ after) = quoted raw q cs := by
  have hescape : q ≠ '\\' := by
    rintro rfl
    cases hq
  rw [quoted] at h
  cases hlength : quotedLength? q cs with
  | none =>
    rw [hlength] at h
    cases Nat.lt_irrefl _ h
  | some n => rw [quoted, quoted, quotedLength?_append_of_some after hescape hlength, hlength]

theorem inContent_append (h : (inContent cs).length < cs.length) :
    inContent (cs ++ after) = inContent cs := by
  revert h
  fun_cases inContent cs with
  | case1 cs => exact fun h => opening_append after h
  | case2 cs hopen =>
    intro h
    have hlength := textLength_append after h
    rw [inContent.eq_2, hlength]
    rintro rest heq
    match cs, hopen, h with
    | [c], hopen, h =>
      have hpos := textLength_pos (List.cons_ne_nil c []) hopen
      cases Nat.not_lt.2 hpos h
    | c :: d :: cs, hopen, _ =>
      obtain ⟨rfl, hrest⟩ := List.cons.inj heq
      obtain ⟨rfl, -⟩ := List.cons.inj hrest
      exact hopen cs rfl

/-- A character does not become doubled where others follow it. -/
theorem ne_double_append {c d : Char} (hlong : 1 < (c :: cs).length)
    (h : ∀ rest, c = d → cs = d :: rest → False) (rest : List Char) (hc : c = d)
    (heq : cs ++ after = d :: rest) : False := by
  cases cs with
  | nil => cases Nat.lt_irrefl _ hlong
  | cons e cs =>
    obtain ⟨rfl, -⟩ := List.cons.inj heq
    exact h cs hc rfl

/-- Where no delimiter or comment starts, the first character tells what lexeme
is next. -/
theorem inTag_cons_append {c : Char} (hlong : 1 < (c :: cs).length)
    (hclose : ∀ rest, c = '}' → cs = '}' :: rest → False)
    (hopen : ∀ rest, c = '{' → cs = '{' :: rest → False) (hbang : c = '!' → False) :
    inTag raw (c :: cs ++ after) =
      match markKind? c with
      | some kind => ⟨kind, 1, .tag raw⟩
      | none =>
        if isQuote c then quoted raw c (cs ++ after)
        else if Text.isBlank c then blank raw (c :: cs ++ after)
        else word raw (c :: cs ++ after) := by
  apply inTag.eq_4
  · exact ne_double_append after hlong hclose
  · exact ne_double_append after hlong hopen
  · exact hbang

/-- The first two characters tell what lexeme is next in a tag, and where it
ends is seen when another character follows. -/
theorem inTag_append (h : (inTag raw cs).length < cs.length) :
    inTag raw (cs ++ after) = inTag raw cs := by
  have hlong : 1 < cs.length := by
    have hne : cs ≠ [] := List.length_pos_iff.1 (Nat.zero_lt_of_lt h)
    exact Nat.lt_of_le_of_lt (inTag_length raw hne).1 h
  revert h hlong
  fun_cases inTag raw cs with
  | case1 cs => exact fun h _ => closing_append after h
  | case2 cs => exact fun h _ => opening_append after h
  | case3 => exact fun _ _ => rfl
  | case4 c cs hclose hopen hbang kind hkind =>
    intro h hlong
    rw [inTag_cons_append after hlong hclose hopen hbang, hkind]
  | case5 c cs hclose hopen hbang hmark hquote =>
    intro h hlong
    rw [inTag_cons_append after hlong hclose hopen hbang, hmark, if_pos hquote]
    exact quoted_append after hquote h
  | case6 c cs hclose hopen hbang hmark hquote hblank =>
    intro h hlong
    have htake := takeWhile_append_of_lt after h
    rw [inTag_cons_append after hlong hclose hopen hbang, hmark, if_neg hquote, if_pos hblank,
      blank, blank, htake]
  | case7 c cs hclose hopen hbang hmark hquote hblank =>
    intro h hlong
    have htake := takeWhile_append_of_lt after h
    rw [inTag_cons_append after hlong hclose hopen hbang, hmark, if_neg hquote, if_neg hblank,
      word, word, htake]
  | case8 => intro h; cases h

/-! ### Comments -/

theorem prefix_append_iff {front : List Char} (h : front.length ≤ cs.length) :
    front <+: cs ++ after ↔ front <+: cs := by
  constructor
  · intro hfront
    exact List.prefix_of_prefix_length_le hfront (List.prefix_append cs after) h
  · intro hfront
    exact hfront.trans (List.prefix_append cs after)

theorem closesAt_append {i : Nat} (h : i + (closeDelimiter raw).length ≤ cs.length) :
    closesAt raw (cs ++ after) i = closesAt raw cs i := by
  rw [closesAt, closesAt, Bool.eq_iff_iff, List.isPrefixOf_iff_prefix, List.isPrefixOf_iff_prefix,
    List.drop_append_of_le_length (Nat.le_of_add_right_le h), prefix_append_iff]
  rw [List.length_drop]
  omega

theorem add_le_of_closesAt {i : Nat} (h : closesAt raw cs i = true) :
    i + (closeDelimiter raw).length ≤ cs.length := by
  have hlength := (List.isPrefixOf_iff_prefix.1 h).length_le
  have hlt := lt_length_of_closesAt h
  rw [List.length_drop] at hlength
  omega

theorem add_le_of_endsAt {e : Nat} (h : endsAt raw cs e = true) :
    e + (closeDelimiter raw).length ≤ cs.length := by
  rcases endsAt_iff.1 h with hclose | ⟨-, hclose⟩
  · exact add_le_of_closesAt hclose
  · have := add_le_of_closesAt hclose
    omega

/-- Up to a place where a body may end, more text changes nothing. -/
theorem endsAt_append {e i : Nat} (h : endsAt raw cs e = true) (hi : i ≤ e) :
    endsAt raw (cs ++ after) i = endsAt raw cs i := by
  have hlong := add_le_of_endsAt h
  rw [Bool.eq_iff_iff, endsAt_iff, endsAt_iff]
  rcases Nat.lt_or_eq_of_le hi with hlt | rfl
  · rw [closesAt_append after (by omega), closesAt_append after (by omega),
      List.getElem?_append_left (by omega)]
  · refine iff_of_true ?_ (endsAt_iff.1 h)
    rcases endsAt_iff.1 h with hclose | ⟨htilde, hclose⟩
    · left
      rwa [closesAt_append after (add_le_of_closesAt hclose)]
    · right
      have hlast := add_le_of_closesAt hclose
      rw [closesAt_append after hlast, List.getElem?_append_left (by omega)]
      exact ⟨htilde, hclose⟩

theorem dashedAt_append {e : Nat} (h : e ≤ cs.length) :
    dashedAt (cs ++ after) e = dashedAt cs e := by
  rw [dashedAt, dashedAt]
  by_cases hlarge : 4 ≤ e
  · rw [Bool.eq_iff_iff, Bool.and_eq_true, Bool.and_eq_true, List.isPrefixOf_iff_prefix,
      List.isPrefixOf_iff_prefix, List.drop_append_of_le_length (by omega), prefix_append_iff]
    rw [List.length_drop]
    simp
    omega
  · simp [hlarge]

/-- The first place with a property is the first one in a longer range too. -/
theorem find?_range_append {p q : Nat → Bool} {n m e : Nat}
    (h : (List.range n).find? p = some e) (hle : n ≤ m) (hpq : ∀ i ≤ e, q i = p i) :
    (List.range m).find? q = some e := by
  obtain ⟨hyes, hmem, hfirst⟩ := List.find?_range_eq_some.1 h
  refine List.find?_range_eq_some.2 ⟨?_, ?_, ?_⟩
  · rw [hpq e (Nat.le_refl e)]
    exact hyes
  · have hlt := List.mem_range.1 hmem
    exact List.mem_range.2 (Nat.lt_of_lt_of_le hlt hle)
  · intro i hi
    rw [hpq i (Nat.le_of_lt hi)]
    exact hfirst i hi

/-- A finished short body that could be a long one is one. -/
theorem dashedAt_of_finished {e : Nat} (hfront : ['-', '-'].isPrefixOf cs = true)
    (hend : endsAt raw cs e = true) (hfinished : Finished (cs.take e)) :
    dashedAt cs e = true := by
  obtain ⟨rest, rfl⟩ := List.isPrefixOf_iff_prefix.1 hfront
  have hstart : ['-', '-'] <+: (['-', '-'] ++ rest).take e := by
    match e with
    | 0 => cases raw <;> cases hend
    | 1 => cases raw <;> cases hend
    | e + 2 => exact ⟨rest.take e, rfl⟩
  obtain ⟨hstop, hlarge⟩ := hfinished hstart
  rw [← dashedAt_eq hfront (Nat.le_of_lt (lt_length_of_endsAt hend)), Bool.and_eq_true,
    List.isSuffixOf_iff_suffix, decide_eq_true_iff]
  exact ⟨hlarge, hstop⟩

theorem shortBodyLength_of_lt (h : shortBodyLength raw cs < cs.length) :
    shortBodyLength raw (cs ++ after) = shortBodyLength raw cs := by
  rw [shortBodyLength_eq] at h ⊢
  cases hfind : (List.range cs.length).find? (endsAt raw cs) with
  | none =>
    rw [hfind] at h
    cases Nat.lt_irrefl _ h
  | some e =>
    have hend : endsAt raw cs e = true := (List.find?_range_eq_some.1 hfind).1
    have hle : cs.length ≤ (cs ++ after).length := by simp
    rw [shortBodyLength_eq, hfind,
      find?_range_append hfind hle fun i hi => endsAt_append after hend hi]
    rfl

theorem longBodyLength?_of_some {n : Nat} (h : longBodyLength? raw cs = some n) :
    longBodyLength? raw (cs ++ after) = some n := by
  have hfront : ['-', '-'].isPrefixOf cs = true := by
    by_contra hother
    rw [longBodyLength?, if_neg hother] at h
    cases h
  have hagain : ['-', '-'].isPrefixOf (cs ++ after) = true := by
    rw [List.isPrefixOf_iff_prefix] at hfront ⊢
    exact hfront.trans (List.prefix_append cs after)
  have hle : cs.length ≤ (cs ++ after).length := by simp
  rw [longBodyLength?_eq raw hfront] at h
  have hend : endsAt raw cs n = true :=
    (Bool.and_eq_true_iff.1 (List.find?_range_eq_some.1 h).1).1
  have hlt := lt_length_of_endsAt hend
  rw [longBodyLength?_eq raw hagain]
  refine find?_range_append h hle fun i hi => ?_
  rw [endsAt_append after hend hi, dashedAt_append after (by omega)]

/-- A finished body ends where it did when more text follows. -/
theorem bodyLength_append (h : bodyLength raw cs < cs.length)
    (hfinished : Finished (cs.take (bodyLength raw cs))) :
    bodyLength raw (cs ++ after) = bodyLength raw cs := by
  have hend : endsAt raw cs (bodyLength raw cs) = true := by
    refine (endsAt_bodyLength raw cs).resolve_left ?_
    rw [List.drop_eq_nil_iff]
    exact Nat.not_le.2 h
  cases hbody : longBodyLength? raw cs with
  | some n => rw [bodyLength, bodyLength, longBodyLength?_of_some after hbody, hbody]; rfl
  | none =>
    have hnone : longBodyLength? raw (cs ++ after) = none := by
      rw [longBodyLength?, if_neg]
      intro hagain
      have hlong := add_le_of_endsAt hend
      have hfront : ['-', '-'].isPrefixOf cs = true := by
        rw [List.isPrefixOf_iff_prefix] at hagain ⊢
        refine (prefix_append_iff after ?_).1 hagain
        exact Nat.le_trans (by cases raw <;> decide) (Nat.le_of_add_left_le hlong)
      -- the short body would have been a long one
      rw [longBodyLength?_eq raw hfront, List.find?_range_eq_none] at hbody
      have hother := hbody _ h
      rw [hend, dashedAt_of_finished hfront hend hfinished] at hother
      cases hother
    rw [bodyLength, hbody] at h
    rw [bodyLength, bodyLength, hnone, hbody]
    exact shortBodyLength_of_lt after h

theorem inComment_append (h : (inComment raw cs).length < cs.length)
    (hcomment : (inComment raw cs).kind = .comment →
      Finished (cs.take (inComment raw cs).length)) :
    inComment raw (cs ++ after) = inComment raw cs := by
  unfold inComment at h hcomment
  cases hlength : bodyLength raw cs with
  | zero =>
    rw [hlength] at h
    have hbody := bodyLength_append after
      (by rw [hlength]; exact Nat.zero_lt_of_lt h) (by rw [hlength]; exact nofun)
    rw [inComment, inComment, hbody, hlength]
    exact inTag_append after h
  | succ n =>
    rw [hlength] at h hcomment
    have hbody := bodyLength_append after (by rw [hlength]; exact h)
      (by rw [hlength]; exact hcomment rfl)
    rw [inComment, inComment, hbody, hlength]

/-- A lexeme that ends in front of the last character is next in a longer rest
too. -/
theorem next_append {mode : Mode} (h : (next mode cs).length < cs.length)
    (hcomment : (next mode cs).kind = .comment → Finished (cs.take (next mode cs).length)) :
    next mode (cs ++ after) = next mode cs := by
  cases mode with
  | content => exact inContent_append after h
  | tag raw => exact inTag_append after h
  | comment raw => exact inComment_append after h hcomment

end Lexeme

end BraceTemplate
