/-!
# Byte offsets

Offsets count the bytes of the UTF-8 form of a text. An offset splits a text
only where it lies between two characters, so a split may fail.
-/

namespace BraceTemplate.Text

/-- Number of bytes of the UTF-8 form. -/
def byteLength (cs : List Char) : Nat :=
  cs.foldr (fun c n => c.utf8Size + n) 0

@[simp] theorem byteLength_nil : byteLength [] = 0 := rfl

@[simp] theorem byteLength_cons (c : Char) (cs : List Char) :
    byteLength (c :: cs) = c.utf8Size + byteLength cs := rfl

@[simp] theorem byteLength_append (as bs : List Char) :
    byteLength (as ++ bs) = byteLength as + byteLength bs := by
  induction as with
  | nil => simp
  | cons c cs ih =>
    rw [List.cons_append, byteLength_cons, byteLength_cons, ih, Nat.add_assoc]

theorem byteLength_pos {cs : List Char} (h : cs ≠ []) : 0 < byteLength cs := by
  cases h' : cs with
  | nil => exact absurd h' h
  | cons c cs => simp [byteLength_cons]; have := c.utf8Size_pos; omega

/-- The characters before and after an offset. -/
def splitAt? : List Char → Nat → Option (List Char × List Char)
  | cs, 0 => some ([], cs)
  | [], _ + 1 => none
  | c :: cs, n + 1 =>
    if c.utf8Size ≤ n + 1 then
      (splitAt? cs (n + 1 - c.utf8Size)).map fun (before, after) => (c :: before, after)
    else none

@[simp] theorem splitAt?_zero (cs : List Char) : splitAt? cs 0 = some ([], cs) := by
  unfold splitAt?; rfl

theorem splitAt?_cons_add (c : Char) (cs : List Char) (n : Nat) :
    splitAt? (c :: cs) (c.utf8Size + n) =
      (splitAt? cs n).map fun (before, after) => (c :: before, after) := by
  have := c.utf8Size_pos
  obtain ⟨k, hk⟩ : ∃ k, c.utf8Size + n = k + 1 := ⟨c.utf8Size + n - 1, by omega⟩
  rw [hk]
  simp only [splitAt?]
  rw [if_pos (by omega), show k + 1 - c.utf8Size = n by omega]

/-- Every boundary is found. -/
@[simp] theorem splitAt?_append (as bs : List Char) :
    splitAt? (as ++ bs) (byteLength as) = some (as, bs) := by
  induction as with
  | nil => simp
  | cons c cs ih =>
    rw [List.cons_append, byteLength_cons, splitAt?_cons_add, ih]
    rfl

/-- Only boundaries are found. -/
theorem eq_append_of_splitAt? {cs as bs : List Char} {n : Nat}
    (h : splitAt? cs n = some (as, bs)) : cs = as ++ bs ∧ n = byteLength as := by
  induction cs generalizing n as with
  | nil =>
    cases n with
    | zero =>
      simp only [splitAt?_zero, Option.some.injEq, Prod.mk.injEq] at h
      obtain ⟨rfl, rfl⟩ := h
      simp
    | succ n => simp [splitAt?] at h
  | cons c cs ih =>
    cases n with
    | zero =>
      simp only [splitAt?_zero, Option.some.injEq, Prod.mk.injEq] at h
      obtain ⟨rfl, rfl⟩ := h
      simp
    | succ n =>
      unfold splitAt? at h
      split at h
      · obtain ⟨⟨before, after⟩, hsplit, heq⟩ := Option.map_eq_some_iff.1 h
        simp only [Prod.mk.injEq] at heq
        obtain ⟨rfl, rfl⟩ := heq
        obtain ⟨hcs, hn⟩ := ih hsplit
        exact ⟨by simp [hcs], by simp; omega⟩
      · simp at h

end BraceTemplate.Text
