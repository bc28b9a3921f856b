import Mathlib.Order.Bounds.Basic
import BraceTemplate.Proofs.Symbol.Modal

/-!
# How far comments go

The text behind a `!` tells by itself how far its comment goes: to the least
offset at which a body with dashes at both ends may end, or to the first closing
delimiter, without a `~` in front of it, or to the end of the source. Nothing
here scans. The lexeme of a comment goes exactly that far, and so does a search
that goes on behind each closing delimiter and therefore misses those that
overlap another one.
-/

namespace BraceTemplate

namespace Lexeme

/-- A body with dashes at both ends, none of them shared, may end at an offset. -/
def LongEnd (raw : Bool) (cs : List Char) (e : Nat) : Prop :=
  4 ≤ e ∧ ['-', '-'] <+: cs ∧ ∃ body tail, Text.splitAt? cs e = some (body, tail) ∧
    ['-', '-'] <:+ body ∧ (closeDelimiter raw <+: tail ∨ '~' :: closeDelimiter raw <+: tail)

/-- A closing delimiter stands at an offset. -/
def ClosedAt (raw : Bool) (cs : List Char) (a : Nat) : Prop :=
  ∃ body tail, Text.splitAt? cs a = some (body, tail) ∧ closeDelimiter raw <+: tail

/-- How many bytes of a text belong to the comment that starts with it. -/
inductive Extent (raw : Bool) (cs : List Char) : Nat → Prop
  | long {e : Nat} (hleast : IsLeast {e | LongEnd raw cs e} e) : Extent raw cs e
  | short {a : Nat} {body tail : List Char} (hlong : ∀ e, ¬ LongEnd raw cs e)
      (hleast : IsLeast {a | ClosedAt raw cs a} a)
      (hsplit : Text.splitAt? cs a = some (body, tail)) :
      Extent raw cs (if body.getLast? = some '~' then a - 1 else a)
  | whole (hlong : ∀ e, ¬ LongEnd raw cs e) (hshort : ∀ a, ¬ ClosedAt raw cs a) :
      Extent raw cs (Text.byteLength cs)

variable {raw : Bool} {cs : List Char}

theorem Extent.unique {m n : Nat} (hm : Extent raw cs m) (hn : Extent raw cs n) : m = n := by
  cases hm with
  | long hm =>
    cases hn with
    | long hn => exact hm.unique hn
    | short hlong => exact absurd hm.1 (hlong _)
    | whole hlong => exact absurd hm.1 (hlong _)
  | short hlong hm hsplit =>
    cases hn with
    | long hn => exact absurd hn.1 (hlong _)
    | short _ hn hsplit' =>
      obtain rfl := hm.unique hn
      rw [hsplit] at hsplit'
      cases hsplit'
      rfl
    | whole _ hshort => exact absurd hm.1 (hshort _)
  | whole hlong hshort =>
    cases hn with
    | long hn => exact absurd hn.1 (hlong _)
    | short _ hn => exact absurd hn.1 (hshort _)
    | whole => rfl

/-! ### Offsets and numbers of characters -/

theorem splitAt?_take (cs : List Char) (i : Nat) :
    Text.splitAt? cs (Text.byteLength (cs.take i)) = some (cs.take i, cs.drop i) := by
  have happend := Text.splitAt?_append (cs.take i) (cs.drop i)
  rwa [List.take_append_drop] at happend

theorem byteLength_take_le {i j : Nat} (h : i ≤ j) :
    Text.byteLength (cs.take i) ≤ Text.byteLength (cs.take j) := by
  obtain ⟨more, hmore⟩ := List.take_prefix_take_left (l := cs) h
  rw [← hmore, Text.byteLength_append]
  exact Nat.le_add_right _ _

theorem closedAt_iff {a : Nat} :
    ClosedAt raw cs a ↔ ∃ i, closesAt raw cs i = true ∧ a = Text.byteLength (cs.take i) := by
  constructor
  · rintro ⟨body, tail, hsplit, hclose⟩
    obtain ⟨rfl, rfl⟩ := Text.eq_append_of_splitAt? hsplit
    refine ⟨body.length, ?_, by rw [List.take_left]⟩
    rwa [closesAt, List.drop_left, List.isPrefixOf_iff_prefix]
  · rintro ⟨i, hclose, rfl⟩
    exact ⟨_, _, splitAt?_take cs i, List.isPrefixOf_iff_prefix.1 hclose⟩

theorem bodyEnds_iff {tail : List Char} :
    bodyEnds raw tail = true ↔
      closeDelimiter raw <+: tail ∨ '~' :: closeDelimiter raw <+: tail := by
  rw [bodyEnds, Bool.or_eq_true, List.isPrefixOf_iff_prefix, List.isPrefixOf_iff_prefix]

theorem longEnd_iff (hfront : ['-', '-'].isPrefixOf cs = true) {e : Nat} :
    LongEnd raw cs e ↔
      ∃ i, (endsAt raw cs i && dashedAt cs i) = true ∧ e = Text.byteLength (cs.take i) := by
  constructor
  · rintro ⟨hlarge, -, body, tail, hsplit, hdashes, hends⟩
    obtain ⟨rfl, rfl⟩ := Text.eq_append_of_splitAt? hsplit
    refine ⟨body.length, ?_, by rw [List.take_left]⟩
    rw [← dashedAt_eq hfront (by simp), endsAt, List.take_left, List.drop_left,
      bodyEnds_iff.2 hends, List.isSuffixOf_iff_suffix.2 hdashes, decide_eq_true hlarge]
    rfl
  · rintro ⟨i, hend, rfl⟩
    rw [Bool.and_eq_true] at hend
    obtain ⟨hends, hdashed⟩ := hend
    rw [← dashedAt_eq hfront (Nat.le_of_lt (lt_length_of_endsAt hends)), Bool.and_eq_true,
      decide_eq_true_iff, List.isSuffixOf_iff_suffix] at hdashed
    exact ⟨hdashed.1, List.isPrefixOf_iff_prefix.1 hfront, _, _, splitAt?_take cs i, hdashed.2,
      bodyEnds_iff.1 hends⟩

/-- The first number of characters with a property gives the least offset. -/
theorem isLeast_of_find? {p : Nat → Bool} {i : Nat}
    (h : (List.range cs.length).find? p = some i) :
    IsLeast {e | ∃ j, p j = true ∧ e = Text.byteLength (cs.take j)}
      (Text.byteLength (cs.take i)) := by
  rw [List.find?_range_eq_some] at h
  obtain ⟨hgood, -, hfirst⟩ := h
  refine ⟨⟨i, hgood, rfl⟩, ?_⟩
  rintro e ⟨j, hj, rfl⟩
  by_contra hless
  have hji : j < i := by
    by_contra hle
    exact hless (byteLength_take_le (Nat.not_lt.1 hle))
  have hnone := hfirst j hji
  rw [hj] at hnone
  cases hnone

theorem extent_of_longBodyLength? {i : Nat} (h : longBodyLength? raw cs = some i) :
    Extent raw cs (Text.byteLength (cs.take i)) := by
  have hfront : ['-', '-'].isPrefixOf cs = true := by
    by_contra hfront
    rw [longBodyLength?, if_neg hfront] at h
    cases h
  rw [longBodyLength?_eq raw hfront] at h
  have hset : {e | LongEnd raw cs e} =
      {e | ∃ i, (endsAt raw cs i && dashedAt cs i) = true ∧ e = Text.byteLength (cs.take i)} :=
    Set.ext fun e => longEnd_iff hfront
  apply Extent.long
  rw [hset]
  exact isLeast_of_find? h

theorem not_longEnd (h : longBodyLength? raw cs = none) (e : Nat) : ¬ LongEnd raw cs e := by
  intro he
  have hfront := List.isPrefixOf_iff_prefix.2 he.2.1
  rw [longBodyLength?_eq raw hfront, List.find?_range_eq_none] at h
  obtain ⟨i, hi, -⟩ := (longEnd_iff hfront).1 he
  have hnone := h i (lt_length_of_endsAt (Bool.and_eq_true_iff.1 hi).1)
  rw [hi] at hnone
  cases hnone

theorem extent_shortBodyLength (hlong : ∀ e, ¬ LongEnd raw cs e) :
    Extent raw cs (Text.byteLength (cs.take (shortBodyLength raw cs))) := by
  have hfind := @find?_closesAt cs raw (fun _ => true) fun _ _ _ => rfl
  simp only [Bool.and_true] at hfind
  rw [shortBodyLength_eq, ← hfind]
  cases hclose : (List.range cs.length).find? (closesAt raw cs) with
  | some i =>
    have hset : {a | ClosedAt raw cs a} =
        {a | ∃ i, closesAt raw cs i = true ∧ a = Text.byteLength (cs.take i)} :=
      Set.ext fun a => closedAt_iff
    have hless := lt_length_of_closesAt (List.find?_range_eq_some.1 hclose).1
    have hindex := endBefore?_take hless
    rw [endBefore?, splitAt?_take, Option.map_some, Option.some.injEq] at hindex
    rw [Option.map_some, Option.getD_some, ← hindex]
    refine .short hlong ?_ (splitAt?_take cs i)
    rw [hset]
    exact isLeast_of_find? hclose
  | none =>
    rw [Option.map_none, Option.getD_none, List.take_length]
    refine .whole hlong fun a ha => ?_
    obtain ⟨i, hi, -⟩ := closedAt_iff.1 ha
    rw [List.find?_range_eq_none] at hclose
    have hnone := hclose i (lt_length_of_closesAt hi)
    rw [hi] at hnone
    cases hnone

/-- The lexeme of a comment goes as far as the text tells. -/
theorem extent_bodyLength (raw : Bool) (cs : List Char) :
    Extent raw cs (Text.byteLength (cs.take (bodyLength raw cs))) := by
  rw [bodyLength]
  cases hlong : longBodyLength? raw cs with
  | some i => exact extent_of_longBodyLength? hlong
  | none => exact extent_shortBodyLength (not_longEnd hlong)

/-! ### Closing delimiters that do not overlap -/

/-- The offsets that are left when a search goes on `width` bytes behind each of
those it finds. -/
def apart (width : Nat) : Nat → List Nat → List Nat
  | _, [] => []
  | least, offset :: offsets =>
    if offset < least then apart width least offsets
    else offset :: apart width (offset + width) offsets

/-- The end of a comment body as `bodyOffset?` finds it, but by the closing
delimiters that do not overlap an earlier one. -/
def searchedOffset? (raw : Bool) (cs : List Char) : Option Nat :=
  let offsets := apart (closeDelimiter raw).length 0 (closingOffsets raw cs)
  let short :=
    match offsets with
    | [] => some (Text.byteLength cs)
    | offset :: _ => endBefore? cs offset
  if ['-', '-'].isPrefixOf cs then longEnd? cs short offsets else short

theorem getElem?_of_closesAt {i k : Nat} (h : closesAt raw cs i = true)
    (hk : k < (closeDelimiter raw).length) : cs[i + k]? = some '}' := by
  obtain ⟨rest, hrest⟩ := List.isPrefixOf_iff_prefix.1 h
  have hbraces : ∀ c ∈ closeDelimiter raw, c = '}' := by cases raw <;> simp [closeDelimiter]
  rw [← List.getElem?_drop, ← hrest, List.getElem?_append_left hk, List.getElem?_eq_getElem hk,
    hbraces _ (List.getElem_mem hk)]

/-- A closing delimiter has as many bytes as braces. -/
theorem byteLength_take_of_closesAt {i k : Nat} (h : closesAt raw cs i = true)
    (hk : k ≤ (closeDelimiter raw).length) :
    Text.byteLength (cs.take (i + k)) = Text.byteLength (cs.take i) + k := by
  induction k with
  | zero => rfl
  | succ k ih =>
    rw [← Nat.add_assoc, byteLength_take_succ (getElem?_of_closesAt h hk),
      ih (Nat.le_of_succ_le hk)]
    rfl

/-- No body ends in a brace and in dashes. -/
theorem not_dashedAt_of_brace {i : Nat} (h : cs[i]? = some '}') :
    dashedAt cs (endIndex cs (i + 1)) = false := by
  rw [endIndex, if_neg (by rw [h]; simp)]
  by_contra hdashed
  rw [Bool.not_eq_false, dashedAt, Bool.and_eq_true, decide_eq_true_iff] at hdashed
  obtain ⟨hlarge, hdash⟩ := hdashed
  obtain ⟨rest, hrest⟩ := List.isPrefixOf_iff_prefix.1 hdash
  have hlast : (cs.drop (i + 1 - 2))[1]? = some '-' := by
    rw [← hrest]
    rfl
  rw [List.getElem?_drop, show i + 1 - 2 + 1 = i by omega, h] at hlast
  cases hlast

/-- The search behind a closing delimiter may pass over those that overlap it,
since each of them has a brace in front. -/
theorem longEnd?_apart (hfront : ['-', '-'].isPrefixOf cs = true) (otherwise : Option Nat)
    {is : List Nat} (his : ∀ i ∈ is, closesAt raw cs i = true) (hsorted : is.Pairwise (· < ·))
    {least : Nat} (hleast : ∀ i ∈ is, Text.byteLength (cs.take i) < least →
      dashedAt cs (endIndex cs i) = false) :
    longEnd? cs otherwise
        (apart (closeDelimiter raw).length least
          (is.map fun i => Text.byteLength (cs.take i))) =
      longEnd? cs otherwise (is.map fun i => Text.byteLength (cs.take i)) := by
  induction is generalizing least with
  | nil => rfl
  | cons i is ih =>
    obtain ⟨hbefore, hsorted⟩ := List.pairwise_cons.1 hsorted
    have hi := his i List.mem_cons_self
    have hclosed : ∀ j ∈ is, closesAt raw cs j = true := fun j hj =>
      his j (List.mem_cons_of_mem i hj)
    have hstep : ∀ offsets, longEnd? cs otherwise (Text.byteLength (cs.take i) :: offsets) =
        if dashedAt cs (endIndex cs i) then some (Text.byteLength (cs.take (endIndex cs i)))
        else longEnd? cs otherwise offsets := by
      intro offsets
      have hless := lt_length_of_closesAt hi
      rw [longEnd?, endBefore?_take hless]
      change (Text.splitAt? cs _).bind _ = _
      rw [splitAt?_take,
        ← dashedAt_eq hfront (Nat.le_trans (endIndex_le i) (Nat.le_of_lt hless))]
      rfl
    rw [List.map_cons, apart]
    split
    · rename_i hskip
      rw [hstep, hleast i List.mem_cons_self hskip, if_neg Bool.false_ne_true]
      exact ih hclosed hsorted fun j hj => hleast j (List.mem_cons_of_mem i hj)
    · rw [hstep, hstep, ih hclosed hsorted]
      intro j hj hskip
      -- a delimiter that starts inside this one has one of its braces in front
      obtain ⟨k, rfl⟩ : ∃ k, j = i + k + 1 := ⟨j - i - 1, by have := hbefore j hj; omega⟩
      refine not_dashedAt_of_brace (getElem?_of_closesAt hi ?_)
      by_contra hfar
      have hle : Text.byteLength (cs.take (i + (closeDelimiter raw).length)) ≤
          Text.byteLength (cs.take (i + k + 1)) := byteLength_take_le (by omega)
      rw [byteLength_take_of_closesAt hi (Nat.le_refl _)] at hle
      omega

/-- Searching behind each closing delimiter for the next one finds the same end. -/
theorem searchedOffset?_eq (raw : Bool) (cs : List Char) :
    searchedOffset? raw cs = some (Text.byteLength (cs.take (bodyLength raw cs))) := by
  have hheads : ∀ offsets : List Nat,
      (match apart (closeDelimiter raw).length 0 offsets with
        | [] => some (Text.byteLength cs)
        | offset :: _ => endBefore? cs offset) =
      match offsets with
        | [] => some (Text.byteLength cs)
        | offset :: _ => endBefore? cs offset := by
    intro offsets
    cases offsets with
    | nil => rfl
    | cons offset offsets => rw [apart, if_neg (Nat.not_lt_zero offset)]
  rw [← bodyOffset?_eq, searchedOffset?, bodyOffset?, hheads]
  split
  · rename_i hfront
    rw [closingOffsets_eq]
    refine longEnd?_apart hfront _ (fun i hi => (List.mem_filter.1 hi).2) ?_ ?_
    · exact List.Pairwise.filter _ List.pairwise_lt_range
    · intro i _ hless
      exact absurd hless (Nat.not_lt_zero _)
  · rfl

end Lexeme

/-! ### Comments of a source -/

/-- In a tag the latest opening delimiter is the latest delimiter at all. -/
theorem find?_of_openTag? {symbols : List Symbol} {raw : Bool} (h : openTag? symbols = some raw) :
    ∃ opening ∈ symbols.reverse.find? (·.kind.isOpenDelimiter), opening.kind.isRaw = raw := by
  unfold openTag? at h
  split at h
  · rename_i s hfind
    split at h
    · rename_i hopen
      obtain ⟨-, front, back, hreverse, hfront⟩ := List.find?_eq_some_iff_append.1 hfind
      refine ⟨s, List.find?_eq_some_iff_append.2 ⟨hopen, front, back, hreverse, ?_⟩,
        Option.some.inj h⟩
      intro t ht
      have hother := hfront t ht
      rw [Bool.not_eq_true'] at hother ⊢
      exact (SymbolKind.isDelimiter_eq_false.1 hother).1
    · cases h
  · cases h

open Scanner

/-- The scanner behind a `!`, and the text that it has in front of it. -/
theorem scanner_of_bang {source : String} {before after : List Symbol} {bang : Symbol}
    (h : symbols source = before ++ bang :: after) (hbang : bang.kind = .bang) :
    ∃ (s : Scanner) (raw : Bool), s.mode = .comment raw ∧ openTag? before = some raw ∧
      s.symbols = after ∧ Inside source s ∧ s.position = bang.location.stop := by
  obtain ⟨hrest, hcurrent, hafter⟩ := current_behind h
  obtain ⟨raw, hopen, hmode⟩ := mode_behind_bang h hbang
  have hinside := inside_behind source before.length
  refine ⟨_, raw, hmode, hopen, hafter, hinside.advance, ?_⟩
  rw [← (hinside.step hrest).stop, hcurrent]

/-- A comment is as long as the text behind its `!` tells, and there is none
where this is nothing. -/
theorem comment_extent {source : String} {before after : List Symbol} {bang : Symbol}
    (h : symbols source = before ++ bang :: after) (hbang : bang.kind = .bang) :
    ∃ front rest,
      Text.splitAt? source.toList bang.location.stop = some (front, rest) ∧
      (rest ≠ [] →
        ∃ opening ∈ before.reverse.find? (·.kind.isOpenDelimiter), ∃ length body tail,
          (∀ n, Lexeme.Extent opening.kind.isRaw rest n ↔ n = length) ∧
          Lexeme.searchedOffset? opening.kind.isRaw rest = some length ∧
          Text.splitAt? rest length = some (body, tail) ∧
          (0 < length → ∃ later,
            after = ⟨.comment, ⟨bang.location.stop, bang.location.stop + length⟩,
              String.ofList body⟩ :: later) ∧
          (length = 0 → after ≠ [] ∧ (∀ s ∈ after.head?, s.kind ≠ .comment) ∧
            Closes opening.kind.isRaw after)) := by
  obtain ⟨s, raw, hmode, hopen, rfl, ⟨front, hsource, hposition⟩, hstop⟩ := scanner_of_bang h hbang
  refine ⟨front, s.rest, ?_, fun hrest => ?_⟩
  · rw [← hstop, hposition, hsource]
    exact Text.splitAt?_append front s.rest
  obtain ⟨opening, hlatest, rfl⟩ := find?_of_openTag? hopen
  have hextent := Lexeme.extent_bodyLength opening.kind.isRaw s.rest
  have hnext : Lexeme.next s.mode s.rest = Lexeme.inComment opening.kind.isRaw s.rest := by
    rw [hmode]
    rfl
  refine ⟨opening, hlatest, _, _, _, fun n => ⟨fun hn => hn.unique hextent, ?_⟩,
    Lexeme.searchedOffset?_eq _ _, Lexeme.splitAt?_take s.rest _, ?_, ?_⟩
  · rintro rfl
    exact hextent
  · intro hpos
    rw [symbols_of_rest_ne_nil hrest]
    refine ⟨s.advance.symbols, congrArg (· :: s.advance.symbols) ?_⟩
    cases hlength : Lexeme.bodyLength opening.kind.isRaw s.rest with
    | zero =>
      rw [hlength] at hpos
      exact absurd hpos (Nat.lt_irrefl 0)
    | succ n =>
      have hlexeme : Lexeme.next s.mode s.rest = ⟨.comment, n + 1, .tag opening.kind.isRaw⟩ := by
        rw [hnext, Lexeme.inComment, hlength]
      rw [current_of_rest_ne_nil hrest, nextText, hlexeme, hstop]
  · intro hzero
    have hlength : Lexeme.bodyLength opening.kind.isRaw s.rest = 0 := by
      by_contra hne
      have hlt : 0 < Text.byteLength
          (s.rest.take (Lexeme.bodyLength opening.kind.isRaw s.rest)) :=
        Text.byteLength_pos (by simp [hne, hrest])
      omega
    have hkind : s.current.kind ≠ .comment := by
      rw [kind_current hrest, hnext, Lexeme.inComment, hlength]
      exact (Lexeme.inTag_kind_ne opening.kind.isRaw s.rest).2
    have hsymbols := symbols_of_rest_ne_nil hrest
    refine ⟨by rw [hsymbols]; exact List.cons_ne_nil _ _, ?_, ?_⟩
    · rw [hsymbols]
      rintro t ⟨⟩
      exact hkind
    · have hcloses := closes_behindComment hmode
      rwa [behindComment, hsymbols, List.dropWhile_cons_of_neg (by simpa using hkind),
        ← hsymbols] at hcloses

/-- A comment whose dashes let it hold a closing delimiter: `{{!-- }}--}}x`. -/
def dashed : String := "\x7b\x7b!-- \x7d\x7d--\x7d\x7dx"

theorem comment_extent_dashed :
    (∀ n, Lexeme.Extent false "-- \x7d\x7d--\x7d\x7dx".toList n ↔ n = 7) ∧
      ∃ later, symbols dashed =
        [⟨.openDelimiter, ⟨0, 2⟩, "\x7b\x7b"⟩, ⟨.bang, ⟨2, 3⟩, "!"⟩] ++
          ⟨.comment, ⟨3, 10⟩, "-- \x7d\x7d--"⟩ :: later := by
  have hsymbols : symbols dashed = [⟨.openDelimiter, ⟨0, 2⟩, "\x7b\x7b"⟩] ++
      ⟨.bang, ⟨2, 3⟩, "!"⟩ :: (symbols dashed).drop 2 := by
    decide +kernel
  obtain ⟨front, rest, hrest, hextent⟩ := comment_extent hsymbols rfl
  have hbehind : Text.splitAt? dashed.toList 3 =
      some ("\x7b\x7b!".toList, "-- \x7d\x7d--\x7d\x7dx".toList) := by
    decide
  cases hbehind.symm.trans hrest
  obtain ⟨opening, hopening, length, body, tail, hunique, hsearched, hsplit, hcomment, -⟩ :=
    hextent (by decide)
  cases hopening
  have hlength : Lexeme.searchedOffset? false "-- \x7d\x7d--\x7d\x7dx".toList = some 7 := by
    decide
  cases hlength.symm.trans hsearched
  have hbody : Text.splitAt? "-- \x7d\x7d--\x7d\x7dx".toList 7 =
      some ("-- \x7d\x7d--".toList, "\x7d\x7dx".toList) := by
    decide
  cases hbody.symm.trans hsplit
  obtain ⟨later, hlater⟩ := hcomment (by decide)
  refine ⟨hunique, later, hsymbols.trans ?_⟩
  rw [hlater]
  rfl

end BraceTemplate
