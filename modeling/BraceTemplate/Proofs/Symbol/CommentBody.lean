import Mathlib.Data.List.Basic
import BraceTemplate.Proofs.Text.Boundary
import BraceTemplate.Symbol.Lexeme

/-!
# Comment bodies by offsets

A second way to find the end of a comment body: go through the byte offsets of
the closing delimiters, step back over a `~`, and look at the text in front. It
cuts the source again and again, and no cut ever fails. It finds the same end as
the walk along the characters, which is the first one where a body may end.
-/

namespace BraceTemplate.Lexeme

/-- The byte offsets of the closing delimiters in a text. -/
def closingOffsets (raw : Bool) : List Char → List Nat
  | [] => []
  | c :: cs =>
    let later := (closingOffsets raw cs).map (c.utf8Size + ·)
    if (closeDelimiter raw).isPrefixOf (c :: cs) then 0 :: later else later

/-- Where a body ends that has a closing delimiter behind it at an offset, which
must not lie inside a character. -/
def endBefore? (cs : List Char) (offset : Nat) : Option Nat :=
  (Text.splitAt? cs offset).map fun (body, _) =>
    if body.getLast? = some '~' then offset - 1 else offset

/-- The first end with dashes in front that are not those at the start. -/
def longEnd? (cs : List Char) (otherwise : Option Nat) : List Nat → Option Nat
  | [] => otherwise
  | offset :: offsets => do
    let stop ← endBefore? cs offset
    let (body, _) ← Text.splitAt? cs stop
    if 4 ≤ stop && ['-', '-'].isSuffixOf body then some stop
    else longEnd? cs otherwise offsets

/-- The byte offset at which a comment body ends, if no cut fails on the way. -/
def bodyOffset? (raw : Bool) (cs : List Char) : Option Nat :=
  let offsets := closingOffsets raw cs
  let short :=
    match offsets with
    | [] => some (Text.byteLength cs)
    | offset :: _ => endBefore? cs offset
  if ['-', '-'].isPrefixOf cs then longEnd? cs short offsets else short

/-! ### Ends by the number of characters -/

variable (raw : Bool) (cs : List Char)

/-- Whether a closing delimiter stands behind so many characters. -/
def closesAt (i : Nat) : Bool := (closeDelimiter raw).isPrefixOf (cs.drop i)

/-- Whether a body may end behind so many characters. -/
def endsAt (e : Nat) : Bool := bodyEnds raw (cs.drop e)

/-- The number of characters in front of a closing delimiter and a `~`. -/
def endIndex : Nat → Nat
  | 0 => 0
  | i + 1 => if cs[i]? = some '~' then i else i + 1

/-- Whether so many characters have dashes at the end, apart from two at the
start. -/
def dashedAt (e : Nat) : Bool := 4 ≤ e && ['-', '-'].isPrefixOf (cs.drop (e - 2))

variable {raw cs}

theorem endIndex_le (i : Nat) : endIndex cs i ≤ i := by
  cases i with
  | zero => exact Nat.le_refl 0
  | succ i =>
    rw [endIndex]
    split <;> omega

theorem endsAt_iff {e : Nat} :
    endsAt raw cs e = true ↔
      closesAt raw cs e = true ∨ cs[e]? = some '~' ∧ closesAt raw cs (e + 1) = true := by
  rw [endsAt, bodyEnds, Bool.or_eq_true, closesAt, closesAt, ← List.head?_drop, ← List.tail_drop]
  cases cs.drop e with
  | nil => simp
  | cons c rest =>
    simp only [List.isPrefixOf_cons_cons, Bool.and_eq_true, beq_iff_eq, List.head?_cons,
      Option.some.injEq, List.tail_cons, @eq_comm _ '~' c]

theorem endsAt_endIndex {i : Nat} (h : closesAt raw cs i = true) :
    endsAt raw cs (endIndex cs i) = true := by
  cases i with
  | zero => exact endsAt_iff.2 (.inl h)
  | succ i =>
    rw [endIndex]
    split
    · rename_i htilde
      exact endsAt_iff.2 (.inr ⟨htilde, h⟩)
    · exact endsAt_iff.2 (.inl h)

theorem lt_length_of_closesAt {i : Nat} (h : closesAt raw cs i = true) : i < cs.length := by
  by_contra hle
  rw [closesAt, List.drop_eq_nil_of_le (Nat.not_lt.1 hle)] at h
  cases raw <;> cases h

theorem lt_length_of_endsAt {e : Nat} (h : endsAt raw cs e = true) : e < cs.length := by
  rcases endsAt_iff.1 h with h | ⟨-, h⟩
  · exact lt_length_of_closesAt h
  · exact Nat.lt_of_succ_lt (lt_length_of_closesAt h)

/-- The first closing delimiter with a property in front of it is behind the
first end with this property. -/
theorem find?_closesAt (raw : Bool) {q : Nat → Bool}
    (hq : ∀ e, q (e + 1) = true → cs[e]? = some '~' → q e = true) :
    ((List.range cs.length).find? fun i => closesAt raw cs i && q (endIndex cs i)).map
        (endIndex cs) =
      (List.range cs.length).find? fun e => endsAt raw cs e && q e := by
  cases hfind : (List.range cs.length).find? fun e => endsAt raw cs e && q e with
  | none =>
    rw [List.find?_range_eq_none] at hfind
    rw [Option.map_eq_none_iff, List.find?_range_eq_none]
    intro i hi
    have hnone := hfind (endIndex cs i) (Nat.lt_of_le_of_lt (endIndex_le i) hi)
    by_contra hsome
    simp only [Bool.not_eq_true', Bool.not_eq_false, Bool.and_eq_true] at hsome
    rw [endsAt_endIndex hsome.1, hsome.2] at hnone
    cases hnone
  | some e =>
    rw [List.find?_range_eq_some] at hfind
    obtain ⟨hgood, -, hfirst⟩ := hfind
    rw [Bool.and_eq_true] at hgood
    obtain ⟨hend, hqe⟩ := hgood
    -- no closing delimiter in front of `e` will do, since it would have an end in front of it
    have hbefore : ∀ j < e, (closesAt raw cs j && q (endIndex cs j)) = false := by
      intro j hj
      have hnone := hfirst (endIndex cs j) (Nat.lt_of_le_of_lt (endIndex_le j) hj)
      by_contra hsome
      simp only [Bool.not_eq_false, Bool.and_eq_true] at hsome
      rw [endsAt_endIndex hsome.1, hsome.2] at hnone
      cases hnone
    rw [Option.map_eq_some_iff]
    by_cases hclose : closesAt raw cs e = true
    · have hindex : endIndex cs e = e := by
        cases e with
        | zero => rfl
        | succ e =>
          rw [endIndex, if_neg]
          intro htilde
          have hnone := hfirst e (Nat.lt_succ_self e)
          rw [endsAt_iff.2 (.inr ⟨htilde, hclose⟩), hq e hqe htilde] at hnone
          cases hnone
      refine ⟨e, List.find?_range_eq_some.2 ⟨?_, ?_, ?_⟩, hindex⟩
      · rw [hclose, hindex, hqe]
        rfl
      · exact List.mem_range.2 (lt_length_of_closesAt hclose)
      · intro j hj
        rw [hbefore j hj]
        rfl
    · obtain ⟨htilde, hnext⟩ := (endsAt_iff.1 hend).resolve_left hclose
      have hindex : endIndex cs (e + 1) = e := by rw [endIndex, if_pos htilde]
      refine ⟨e + 1, List.find?_range_eq_some.2 ⟨?_, ?_, ?_⟩, hindex⟩
      · rw [hnext, hindex, hqe]
        rfl
      · exact List.mem_range.2 (lt_length_of_closesAt hnext)
      · intro j hj
        rcases Nat.lt_succ_iff_lt_or_eq.1 hj with hj | rfl
        · rw [hbefore j hj]
          rfl
        · simp [hclose]

/-! ### Bodies by the number of characters -/

theorem find?_range_cons {p : Nat → Bool} {n : Nat} :
    (List.range (n + 1)).find? p =
      if p 0 then some 0 else ((List.range n).find? fun i => p (i + 1)).map (· + 1) := by
  rw [List.range_succ_eq_map, List.find?_cons, List.find?_map]
  cases p 0 <;> rfl

/-- A short body goes up to the first end. -/
theorem shortBodyLength_eq (raw : Bool) (cs : List Char) :
    shortBodyLength raw cs =
      ((List.range cs.length).find? (endsAt raw cs)).getD cs.length := by
  fun_induction shortBodyLength raw cs with
  | case1 => rfl
  | case2 c cs hend =>
    have hfirst : endsAt raw (c :: cs) 0 = true := hend
    rw [List.length_cons, find?_range_cons, if_pos hfirst]
    rfl
  | case3 c cs hend ih =>
    have hfirst : ¬ endsAt raw (c :: cs) 0 = true := hend
    rw [List.length_cons, find?_range_cons, if_neg hfirst, ih]
    change _ = (((List.range cs.length).find? (endsAt raw cs)).map (· + 1)).getD _
    cases (List.range cs.length).find? (endsAt raw cs) <;> rfl

theorem dashesLength?_eq (raw : Bool) (cs : List Char) :
    dashesLength? raw cs =
      ((List.range cs.length).find? fun k =>
        ['-', '-'].isPrefixOf (cs.drop k) && endsAt raw cs (k + 2)).map (· + 2) := by
  fun_induction dashesLength? raw cs with
  | case1 => rfl
  | case2 c cs hend =>
    rw [List.length_cons, find?_range_cons, if_pos (by exact hend)]
    rfl
  | case3 c cs hend ih =>
    rw [List.length_cons, find?_range_cons, if_neg (by exact hend), ih, Option.map_map,
      Option.map_map]
    rfl

/-- A long body goes up to the first end with dashes in front. -/
theorem longBodyLength?_eq (raw : Bool) {cs : List Char} (h : ['-', '-'].isPrefixOf cs = true) :
    longBodyLength? raw cs =
      (List.range cs.length).find? fun e => endsAt raw cs e && dashedAt cs e := by
  have hshift : ∀ k, (['-', '-'].isPrefixOf ((cs.drop 2).drop k) &&
      endsAt raw (cs.drop 2) (k + 2)) = (endsAt raw cs (k + 4) && dashedAt cs (k + 4)) := by
    intro k
    rw [endsAt, endsAt, dashedAt, List.drop_drop, List.drop_drop, Bool.and_comm]
    simp [show 2 + (k + 2) = k + 4 by omega, show 2 + k = k + 4 - 2 by omega]
  rw [longBodyLength?, if_pos h, dashesLength?_eq, Option.map_map,
    show ((· + 2) ∘ (· + 2) : Nat → Nat) = (· + 4) from rfl]
  simp only [hshift]
  obtain ⟨n, hn⟩ : ∃ n, cs.length = n + 2 :=
    ⟨cs.length - 2, by have := (List.isPrefixOf_iff_prefix.1 h).length_le; simp at this; omega⟩
  rw [List.length_drop, hn, Nat.add_sub_cancel]
  cases hfind : (List.range n).find? fun k => endsAt raw cs (k + 4) && dashedAt cs (k + 4) with
  | none =>
    rw [List.find?_range_eq_none] at hfind
    refine (List.find?_range_eq_none.2 fun e he => ?_).symm
    by_cases hsmall : e < 4
    · simp [dashedAt, Nat.not_le.2 hsmall]
    · by_cases hlarge : e - 4 < n
      · have hnone := hfind (e - 4) hlarge
        rwa [show e - 4 + 4 = e by omega] at hnone
      · omega
  | some k =>
    rw [List.find?_range_eq_some] at hfind
    obtain ⟨hgood, hk, hfirst⟩ := hfind
    have hlt := lt_length_of_endsAt (Bool.and_eq_true_iff.1 hgood).1
    refine (List.find?_range_eq_some.2 ⟨hgood, ?_, ?_⟩).symm
    · simp only [List.mem_range]
      omega
    · intro e he
      change e < k + 4 at he
      by_cases hsmall : e < 4
      · simp [dashedAt, Nat.not_le.2 hsmall]
      · have hnone := hfirst (e - 4) (by omega)
        rwa [show e - 4 + 4 = e by omega] at hnone

/-- Behind a comment body is the end of the source, or a place where it may end. -/
theorem endsAt_bodyLength (raw : Bool) (cs : List Char) :
    cs.drop (bodyLength raw cs) = [] ∨ endsAt raw cs (bodyLength raw cs) = true := by
  have hshort : cs.drop (shortBodyLength raw cs) = [] ∨
      endsAt raw cs (shortBodyLength raw cs) = true := by
    rw [shortBodyLength_eq]
    cases hfind : (List.range cs.length).find? (endsAt raw cs) with
    | none => exact .inl List.drop_length
    | some e => exact .inr (List.find?_range_eq_some.1 hfind).1
  rw [bodyLength]
  cases hlong : longBodyLength? raw cs with
  | none => exact hshort
  | some e =>
    by_cases hfront : ['-', '-'].isPrefixOf cs = true
    · rw [longBodyLength?_eq raw hfront, List.find?_range_eq_some] at hlong
      exact .inr (Bool.and_eq_true_iff.1 hlong.1).1
    · rw [longBodyLength?, if_neg hfront] at hlong
      cases hlong

/-! ### Bodies by byte offsets -/

theorem closingOffsets_eq (raw : Bool) (cs : List Char) :
    closingOffsets raw cs =
      ((List.range cs.length).filter (closesAt raw cs)).map fun i =>
        Text.byteLength (cs.take i) := by
  induction cs with
  | nil => rfl
  | cons c cs ih =>
    have hlater : (closingOffsets raw cs).map (c.utf8Size + ·) =
        (((List.range cs.length).filter (closesAt raw cs)).map (· + 1)).map fun i =>
          Text.byteLength ((c :: cs).take i) := by
      rw [ih, List.map_map, List.map_map]
      rfl
    have hrest : (List.map (· + 1) (List.range cs.length)).filter (closesAt raw (c :: cs)) =
        ((List.range cs.length).filter (closesAt raw cs)).map (· + 1) := by
      rw [List.filter_map]
      rfl
    rw [closingOffsets, hlater, List.length_cons, List.range_succ_eq_map, List.filter_cons, hrest]
    change (if closesAt raw (c :: cs) 0 = true then _ else _) = _
    split <;> rfl

theorem byteLength_take_succ {i : Nat} {c : Char} (h : cs[i]? = some c) :
    Text.byteLength (cs.take (i + 1)) = Text.byteLength (cs.take i) + c.utf8Size := by
  rw [List.take_add_one, h, Text.byteLength_append]
  rfl

/-- Stepping back over a `~` never fails in front of a character. -/
theorem endBefore?_take {i : Nat} (hi : i < cs.length) :
    endBefore? cs (Text.byteLength (cs.take i)) =
      some (Text.byteLength (cs.take (endIndex cs i))) := by
  have hsplit : Text.splitAt? cs (Text.byteLength (cs.take i)) = some (cs.take i, cs.drop i) := by
    have happend := Text.splitAt?_append (cs.take i) (cs.drop i)
    rwa [List.take_append_drop] at happend
  rw [endBefore?, hsplit, Option.map_some]
  cases i with
  | zero => rfl
  | succ i =>
    obtain ⟨c, hc⟩ : ∃ c, cs[i]? = some c := ⟨_, List.getElem?_eq_getElem (by omega)⟩
    have hlast : (cs.take (i + 1)).getLast? = cs[i]? := by
      rw [List.take_add_one, hc]
      exact List.getLast?_concat
    simp only [hlast, endIndex]
    split
    · rename_i htilde
      rw [byteLength_take_succ htilde]
      rfl
    · rfl

/-- Dashes at both ends do not share a dash if there are four bytes. -/
theorem dashedAt_eq (hfront : ['-', '-'].isPrefixOf cs = true) {e : Nat} (he : e ≤ cs.length) :
    (4 ≤ Text.byteLength (cs.take e) && ['-', '-'].isSuffixOf (cs.take e)) = dashedAt cs e := by
  obtain ⟨rest, rfl⟩ := List.isPrefixOf_iff_prefix.1 hfront
  have hbytes := Text.length_le_byteLength ((['-', '-'] ++ rest).take e)
  rw [List.length_take_of_le he] at hbytes
  -- four bytes may be less than four characters, but then the last of them is no dash
  by_cases hsmall : e < 4
  · have hfalse : dashedAt (['-', '-'] ++ rest) e = false := by
      simp [dashedAt, Nat.not_le.2 hsmall]
    rw [hfalse]
    match e, hsmall with
    | 0, _ => rfl
    | 1, _ => rfl
    | 2, _ => rfl
    | 3, _ =>
      cases rest with
      | nil => rfl
      | cons c rest =>
        by_cases hdash : c = '-'
        · rw [hdash]
          rfl
        · have hsuffix : ['-', '-'].isSuffixOf ['-', '-', c] = false := by
            simp [List.isSuffixOf, List.isPrefixOf, Ne.symm hdash]
          change (_ && ['-', '-'].isSuffixOf ['-', '-', c]) = false
          rw [hsuffix, Bool.and_false]
  · obtain ⟨k, rfl⟩ : ∃ k, e = k + 2 := ⟨e - 2, by omega⟩
    have hdrop : ((['-', '-'] ++ rest).take (k + 2)).drop k =
        ((['-', '-'] ++ rest).drop k).take 2 := by
      rw [List.drop_take, Nat.add_sub_cancel_left]
    rw [dashedAt, Nat.add_sub_cancel, Bool.eq_iff_iff, Bool.and_eq_true, Bool.and_eq_true,
      decide_eq_true_iff, decide_eq_true_iff, List.isSuffixOf_iff_suffix,
      List.isPrefixOf_iff_prefix, List.suffix_iff_eq_drop, List.prefix_iff_eq_take,
      List.length_take_of_le he]
    simp only [List.length_cons, List.length_nil, Nat.zero_add, Nat.add_sub_cancel, hdrop]
    constructor
    · rintro ⟨-, hdash⟩
      exact ⟨by omega, hdash⟩
    · rintro ⟨-, hdash⟩
      exact ⟨by omega, hdash⟩

theorem not_tilde_of_dashedAt (e : Nat) (h : dashedAt cs (e + 1) = true)
    (htilde : cs[e]? = some '~') : dashedAt cs e = true := by
  rw [dashedAt, Bool.and_eq_true, decide_eq_true_iff] at h
  obtain ⟨hlarge, hdash⟩ := h
  obtain ⟨k, rfl⟩ : ∃ k, e = k + 1 := ⟨e - 1, by omega⟩
  obtain ⟨rest, hrest⟩ := List.isPrefixOf_iff_prefix.1 hdash
  have hlast : (cs.drop k)[1]? = some '-' := by
    rw [show k = k + 1 + 1 - 2 by omega, ← hrest]
    rfl
  rw [List.getElem?_drop, htilde] at hlast
  cases hlast

/-- No cut fails on the way through the closing delimiters. -/
theorem longEnd?_eq (hfront : ['-', '-'].isPrefixOf cs = true) (otherwise : Option Nat)
    (is : List Nat) (his : ∀ i ∈ is, i < cs.length) :
    longEnd? cs otherwise (is.map fun i => Text.byteLength (cs.take i)) =
      match is.find? fun i => dashedAt cs (endIndex cs i) with
      | some i => some (Text.byteLength (cs.take (endIndex cs i)))
      | none => otherwise := by
  induction is with
  | nil => rfl
  | cons i is ih =>
    have hi := his i List.mem_cons_self
    have he : endIndex cs i ≤ cs.length := Nat.le_trans (endIndex_le i) (Nat.le_of_lt hi)
    have hsplit := Text.splitAt?_append (cs.take (endIndex cs i)) (cs.drop (endIndex cs i))
    rw [List.take_append_drop] at hsplit
    rw [List.map_cons, longEnd?, endBefore?_take hi]
    change (Text.splitAt? cs _).bind _ = _
    rw [hsplit]
    change (if (4 ≤ _ && ['-', '-'].isSuffixOf _) = true then _ else _) = _
    rw [dashedAt_eq hfront he, List.find?_cons,
      ih fun j hj => his j (List.mem_cons_of_mem i hj)]
    cases dashedAt cs (endIndex cs i) <;> rfl

/-- Both ways to find the end of a comment body agree, and no cut fails. -/
theorem bodyOffset?_eq (raw : Bool) (cs : List Char) :
    bodyOffset? raw cs = some (Text.byteLength (cs.take (bodyLength raw cs))) := by
  have hall : ∀ i ∈ (List.range cs.length).filter (closesAt raw cs), i < cs.length := by
    intro i hi
    exact lt_length_of_closesAt (List.mem_filter.1 hi).2
  have hshort : (match closingOffsets raw cs with
      | [] => some (Text.byteLength cs)
      | offset :: _ => endBefore? cs offset) =
        some (Text.byteLength (cs.take (shortBodyLength raw cs))) := by
    have hfind := @find?_closesAt cs raw (fun _ => true) fun _ _ _ => rfl
    simp only [Bool.and_true] at hfind
    rw [shortBodyLength_eq, ← hfind, closingOffsets_eq, ← List.head?_filter]
    cases hfilter : (List.range cs.length).filter (closesAt raw cs) with
    | nil => simp
    | cons i is =>
      rw [hfilter] at hall
      exact endBefore?_take (hall i List.mem_cons_self)
  rw [bodyOffset?, hshort, bodyLength]
  split
  · rename_i hfront
    have hfind := find?_closesAt raw (@not_tilde_of_dashedAt cs)
    have hfilter : ((List.range cs.length).filter (closesAt raw cs)).find?
        (fun i => dashedAt cs (endIndex cs i)) =
        (List.range cs.length).find? fun i => closesAt raw cs i && dashedAt cs (endIndex cs i) := by
      rw [List.find?_filter]
      simp only [Bool.decide_and, Bool.decide_eq_true]
    rw [longBodyLength?_eq raw hfront, ← hfind, closingOffsets_eq, longEnd?_eq hfront _ _ hall,
      hfilter]
    cases (List.range cs.length).find? _ <;> rfl
  · rename_i hfront
    rw [longBodyLength?, if_neg hfront]
    rfl

end BraceTemplate.Lexeme
