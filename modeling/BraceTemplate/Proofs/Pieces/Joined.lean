import BraceTemplate.Proofs.Pieces.Moving
import BraceTemplate.Proofs.Symbol.Seam
import BraceTemplate.Proofs.Tag.Problems

/-!
# Pieces of sources put together

Where every tag of a source is closed by the delimiter that fits it, more text
behind the source leaves its pieces as they are, and adds those that the text
has alone, moved. Whether tags are closed so is what their reports tell.
-/

namespace BraceTemplate

open Scanner

/-- The tag at an opening delimiter is closed by the delimiter that fits it. -/
def Opening.Closed (o : Opening) : Prop :=
  ∃ x, o.behind.find? (·.kind.isDelimiter) = some x ∧ x.kind.isCloseDelimiter = true ∧
    x.kind.isRaw = o.delimiter.kind.isRaw

theorem Opening.closed_of_problems {stop : Nat} {o : Opening} (h : o.problems stop = []) :
    o.Closed := by
  have hend := (List.append_eq_nil_iff.1 h).2
  rw [Tag.endProblems, List.append_eq_nil_iff, List.map_eq_nil_iff, List.map_eq_nil_iff,
    Option.toList_eq_nil_iff, Option.toList_eq_nil_iff] at hend
  obtain ⟨hunclosed, hmismatched⟩ := hend
  cases hfind : o.behind.find? (·.kind.isDelimiter) with
  | none =>
    rw [Tag.unclosedAt?, hfind] at hunclosed
    cases hunclosed
  | some x =>
    simp only [Tag.unclosedAt?, hfind] at hunclosed
    simp only [Tag.mismatchedAt?, hfind] at hmismatched
    have hdelimiter := List.find?_some hfind
    by_cases hopen : x.kind.isOpenDelimiter = true
    · rw [if_pos hopen] at hunclosed
      cases hunclosed
    · have hclose : x.kind.isCloseDelimiter = true := by
        simpa [SymbolKind.isDelimiter, hopen] using hdelimiter
      refine ⟨x, hfind, hclose, ?_⟩
      by_contra hraw
      rw [if_pos ⟨hclose, Ne.symm hraw⟩] at hmismatched
      cases hmismatched

section Openings
variable {symbols : List Symbol} {s : Symbol} {raw : Bool}

/-- The tag that symbols leave open is the one at their latest delimiter. -/
theorem exists_of_openTag? (h : openTag? symbols = some raw) :
    ∃ before s inner, symbols = before ++ s :: inner ∧ s.kind.isOpenDelimiter = true ∧
      s.kind.isRaw = raw ∧ ∀ x ∈ inner, x.kind.isDelimiter = false := by
  rw [openTag?] at h
  cases hfind : symbols.reverse.find? (·.kind.isDelimiter) with
  | none =>
    rw [hfind] at h
    cases h
  | some s =>
    simp only [hfind] at h
    split at h
    · rename_i hopen
      obtain ⟨-, inner, before, hsplit, hinner⟩ := List.find?_eq_some_iff_append.1 hfind
      refine ⟨before.reverse, s, inner.reverse, ?_, hopen, Option.some.inj h, ?_⟩
      · rw [← symbols.reverse_reverse, hsplit]
        simp
      · intro x hx
        simpa using hinner x (List.mem_reverse.1 hx)
    · cases h

variable (h : ∀ o ∈ openings symbols, o.Closed)
include h

/-- Where all tags are closed, none is left open. -/
theorem openTag?_of_closed : openTag? symbols = none := by
  cases hopen : openTag? symbols with
  | none => rfl
  | some raw =>
    obtain ⟨before, s, inner, rfl, hs, -, hinner⟩ := exists_of_openTag? hopen
    obtain ⟨x, hx, -⟩ := h ⟨s, inner⟩ (mem_openings before hs inner)
    have hdelimiter := List.find?_some hx
    have hinside := hinner x (List.mem_of_find?_eq_some hx)
    rw [hinside] at hdelimiter
    cases hdelimiter

/-- What ends the last tag is the delimiter that fits it. -/
theorem closes_of_closed {before : List Symbol} (hsymbols : symbols = before ++ [s])
    (hopen : openTag? before = some raw) :
    s.kind.isCloseDelimiter = true ∧ s.kind.isRaw = raw := by
  obtain ⟨front, delimiter, inner, rfl, hdelimiter, rfl, hinner⟩ := exists_of_openTag? hopen
  subst hsymbols
  rw [List.append_assoc] at h
  obtain ⟨x, hx, hclose, hraw⟩ := h ⟨delimiter, inner ++ [s]⟩ (mem_openings front hdelimiter _)
  have hnone : inner.find? (·.kind.isDelimiter) = none := by
    rw [List.find?_eq_none]
    intro y hy
    rw [hinner y hy]
    exact Bool.false_ne_true
  rw [List.find?_append, hnone, Option.none_or] at hx
  obtain rfl := List.mem_singleton.1 (List.mem_of_find?_eq_some hx)
  exact ⟨hclose, hraw⟩

end Openings

section Joined
variable {front back : String} (hclosed : ∀ o ∈ openings (symbols front), o.Closed)
  (hcomments : ∀ x ∈ symbols front, x.kind = .comment → x.Finished)
  (htext : ∀ before x, symbols front = before ++ [x] → x.kind = .text →
    (behind front before.length).Settled back.toList)
include hclosed

include htext in
theorem settled_of_closed {before : List Symbol} {x : Symbol} (h : symbols front = before ++ [x]) :
    (behind front before.length).Settled back.toList := by
  have hplace := inPlace_of_symbols_eq h
  cases hopen : openTag? before with
  | none =>
    rcases hplace.outside hopen with hkind | hkind
    · exact htext before x h hkind
    · -- an opening delimiter at the end is not closed
      obtain ⟨y, hy, -⟩ := hclosed ⟨x, []⟩ (h ▸ mem_openings before hkind [])
      cases hy
  | some raw =>
    obtain ⟨hclose, hraw⟩ := closes_of_closed hclosed h hopen
    exact settled_of_close h hopen hclose hraw back.toList

include hcomments htext

theorem symbols_append_of_closed :
    symbols (front ++ back) =
      symbols front ++ (symbols back).map (Symbol.move (Text.byteLength front.toList)) :=
  symbols_append hcomments (openTag?_of_closed hclosed) fun _ _ h =>
    settled_of_closed hclosed htext h

/-- The pieces of two sources put together. -/
theorem Piece.readAll_append {first second : List Piece} {rest rest' : SymbolStream}
    (hfirst : readAll (.ofSource front) = .ok (first, rest))
    (hsecond : readAll (.ofSource back) = .ok (second, rest')) :
    ∃ last, readAll (.ofSource (front ++ back)) =
      .ok (first ++ second.map (Piece.move (Text.byteLength front.toList)), last) := by
  obtain ⟨pieces, last, hall, -, hjoined⟩ := readAll_readOff (front ++ back)
  obtain ⟨_, _, hread, -, hoff⟩ := readAll_readOff front
  obtain ⟨_, _, hread', -, hoff'⟩ := readAll_readOff back
  cases hfirst.symm.trans hread
  cases hsecond.symm.trans hread'
  have hends : Text.byteLength (front ++ back).toList =
      Text.byteLength back.toList + Text.byteLength front.toList := by
    rw [String.toList_append, Text.byteLength_append, Nat.add_comm]
  have henough : ∀ o ∈ openings (symbols front), ∃ x ∈ o.behind, x.kind.isDelimiter = true := by
    intro o ho
    obtain ⟨x, hx, hclose, -⟩ := hclosed o ho
    refine ⟨x, List.mem_of_find?_eq_some hx, ?_⟩
    rw [SymbolKind.isDelimiter, hclose, Bool.or_true]
  have hzero : symbols front = (symbols front).map (Symbol.move 0) := by
    rw [Symbol.move_zero, List.map_id]
  have hmoved : (symbols back).map (Symbol.move (Text.byteLength front.toList)) =
      (symbols back).map (Symbol.move (Text.byteLength front.toList)) ++ [] :=
    (List.append_nil _).symm
  rw [symbols_append_of_closed hclosed hcomments htext, hends, hzero] at hjoined
  -- the first pieces are read without the symbols behind them, the others up to the end
  obtain ⟨others, rfl, hothers⟩ := hoff.move hjoined (.inl henough)
  rw [hmoved] at hothers
  obtain ⟨more, rfl, hnone⟩ := hoff'.move hothers (.inr ⟨rfl, rfl⟩)
  cases hnone
  refine ⟨last, hall.trans ?_⟩
  rw [List.append_nil, List.map_congr_left fun piece _ => piece.move_zero, List.map_id']

end Joined

end BraceTemplate
