import Mathlib.Data.List.Forall2
import Mathlib.Logic.Function.Iterate
import BraceTemplate.Proofs.Pieces

/-!
# Looking for the kinds of tags

The kind of a tag is looked for with two symbols in hand, which is all that a
stream takes back. There is always room for both: at most one symbol is still
taken back when a tag begins, and then it is the delimiter itself, which is
taken off first. The other symbol comes behind the delimiter, so at most this
one is left when the tag ends.
-/

namespace BraceTemplate

open SymbolStream

namespace Piece

/-- The streams at which the kind of a tag is looked for when all pieces are
read. -/
def lookups (s : SymbolStream) : List SymbolStream :=
  let front := readText s
  if _h : front.2.current.isEnd then []
  else
    match _htag : readTag front.2 with
    | .error _ => [front.2]
    | .ok (_, t) => front.2 :: lookups t
termination_by s.upcoming.length
decreasing_by
  exact Nat.lt_of_lt_of_le (length_readTag_lt _h _htag) (readText_suffix s).length_le

theorem lookups_of_isEnd {s : SymbolStream} (hend : (readText s).2.current.isEnd) :
    lookups s = [] := by
  rw [lookups]
  simp only [hend, dite_true]

theorem lookups_of_readTag {s t : SymbolStream} {tag : Tag}
    (hend : ¬ (readText s).2.current.isEnd) (htag : readTag (readText s).2 = .ok (tag, t)) :
    lookups s = (readText s).2 :: lookups t := by
  rw [lookups]
  simp only [dif_neg hend]
  split
  · rename_i heq
    rw [htag] at heq
    cases heq
  · rename_i heq
    rw [htag] at heq
    cases heq
    rfl

end Piece

namespace TagKind

/-- The kind of a tag can be looked for, and the stream is the same for it. -/
structure Lookup (s : SymbolStream) : Prop where
  opens : s.current.kind.isOpenDelimiter = true
  pushedBack : s.pushedBack = [] ∨ s.pushedBack = [s.current]
  same : ∃ kind t, classify s = .ok (kind, t) ∧
    ∀ n, (advance^[n] t).current = (advance^[n] s).current

theorem pushedBack_of_length_le {s : SymbolStream} (h : s.pushedBack.length ≤ 1) :
    s.pushedBack = [] ∨ s.pushedBack = [s.current] := by
  obtain ⟨pushedBack, scanner⟩ := s
  match pushedBack, h with
  | [], _ => exact .inl rfl
  | [x], _ => exact .inr rfl

/-- What is taken off for the kind is taken back, symbol by symbol. -/
theorem current_iterate_of_classify {s t : SymbolStream} {kind : TagKind}
    (h : classify s = .ok (kind, t)) (n : Nat) :
    (advance^[n] t).current = (advance^[n] s).current := by
  rw [classify_eq_ok h]
  match n with
  | 0 => rfl
  | 1 => rfl
  | n + 2 => rfl

/-- Both symbols that are looked at are taken back. -/
theorem length_pushedBack_of_classify {s t : SymbolStream} {kind : TagKind}
    (hroom : s.pushedBack.length ≤ 1) (h : classify s = .ok (kind, t)) :
    t.pushedBack.length = 2 := by
  have hempty : s.advance.advance.pushedBack.length = 0 := by
    rw [length_pushedBack_advance, length_pushedBack_advance]
    omega
  rw [classify_eq_ok h, List.length_cons, List.length_cons, hempty]

theorem lookup_of_length_le {s : SymbolStream} (hopen : s.current.kind.isOpenDelimiter = true)
    (hroom : s.pushedBack.length ≤ 1) : Lookup s := by
  obtain ⟨t, hclassify, -⟩ := classify_ok (Nat.le_succ_of_le hroom)
  exact ⟨hopen, pushedBack_of_length_le hroom, _, t, hclassify,
    current_iterate_of_classify hclassify⟩

end TagKind

namespace Piece

/-- A tag takes at least its delimiter off what was taken back for its kind. -/
theorem readTag_of_length_le {s : SymbolStream} (hopen : s.current.kind.isOpenDelimiter = true)
    (hroom : s.pushedBack.length ≤ 1) :
    ∃ tag t, readTag s = .ok (tag, t) ∧ t.pushedBack.length ≤ 1 := by
  obtain ⟨u, hclassify, -⟩ := TagKind.classify_ok (Nat.le_succ_of_le hroom)
  have hopen' : u.current.kind.isOpenDelimiter = true := by
    rwa [TagKind.current_of_classify hclassify]
  have htaken := (Tag.read_takes (Heading.kindOf s.advance.upcoming) hopen').1.length_pushedBack
  rw [TagKind.length_pushedBack_of_classify hroom hclassify, List.length_cons] at htaken
  refine ⟨(Tag.read (Heading.kindOf s.advance.upcoming) u).1,
    (Tag.read (Heading.kindOf s.advance.upcoming) u).2, by rw [readTag, hclassify], ?_⟩
  omega

/-- With at most one symbol taken back, all pieces are read, and the tags among
them where their kinds are looked for. -/
theorem readAll_lookups {s : SymbolStream} (hroom : s.pushedBack.length ≤ 1) :
    ∃ pieces rest, readAll s = .ok (pieces, rest) ∧ rest.pushedBack.length ≤ 1 ∧
      (∀ u ∈ lookups s, TagKind.Lookup u) ∧
      List.Forall₂ (fun u tag => ∃ t, readTag u = .ok (tag, t)) (lookups s)
        (pieces.filterMap tag?) := by
  induction hn : s.upcoming.length using Nat.strongRecOn generalizing s with
  | ind n ih =>
    have hfront : (readText s).2.pushedBack.length ≤ 1 := by
      rw [(readText_takes s).length_pushedBack]
      omega
    by_cases hend : (readText s).2.current.isEnd
    · refine ⟨(readText s).1, (readText s).2, readAll_of_isEnd hend, hfront, ?_, ?_⟩
      · rw [lookups_of_isEnd hend]
        exact fun u hu => nomatch hu
      · rw [lookups_of_isEnd hend, tags_readText]
        exact .nil
    · have hopen := current_readText hend
      obtain ⟨tag, t, htag, hbehind⟩ := readTag_of_length_le hopen hfront
      have hless := Nat.lt_of_lt_of_le (length_readTag_lt hend htag) (readText_suffix s).length_le
      obtain ⟨pieces, rest, hall, hrest, hlookups, htags⟩ := ih _ (hn ▸ hless) hbehind rfl
      refine ⟨_, rest, readAll_of_readTag hend htag hall, hrest, ?_, ?_⟩
      · rw [lookups_of_readTag hend htag, List.forall_mem_cons]
        exact ⟨TagKind.lookup_of_length_le hopen hfront, hlookups⟩
      · rw [lookups_of_readTag hend htag, List.filterMap_append, tags_readText]
        exact .cons ⟨t, htag⟩ htags

end Piece

end BraceTemplate
