import BraceTemplate.Location

/-!
# Boundaries between characters

The offsets at which a source can be cut, and the locations between two of
them.
-/

namespace BraceTemplate

/-- The offset lies between two characters of a text or at one of its ends. -/
def Text.IsBoundary (cs : List Char) (offset : Nat) : Prop :=
  ∃ before after, cs = before ++ after ∧ offset = byteLength before

namespace Text

variable {cs : List Char} {offset : Nat}

theorem isBoundary_byteLength (cs : List Char) : IsBoundary cs (byteLength cs) :=
  ⟨cs, [], (List.append_nil cs).symm, rfl⟩

theorem IsBoundary.le (h : IsBoundary cs offset) : offset ≤ byteLength cs := by
  obtain ⟨before, after, rfl, rfl⟩ := h
  rw [byteLength_append]
  omega

theorem length_le_byteLength (cs : List Char) : cs.length ≤ byteLength cs := by
  induction cs with
  | nil => exact Nat.le_refl 0
  | cons c cs ih =>
    have hc := c.utf8Size_pos
    rw [List.length_cons, byteLength_cons]
    omega

/-- A text has no more bytes than characters only if all of them are single
bytes. -/
theorem byteLength_le_length_iff : byteLength cs ≤ cs.length ↔ ∀ c ∈ cs, c.utf8Size = 1 := by
  induction cs with
  | nil => simp
  | cons c cs ih =>
    have hc := c.utf8Size_pos
    have hcs := length_le_byteLength cs
    rw [List.length_cons, byteLength_cons, List.forall_mem_cons, ← ih]
    omega

/-- Of two fronts of a text, the one with fewer bytes is in front of the other. -/
theorem prefix_of_byteLength_le {front before : List Char} (hfront : front <+: cs)
    (hbefore : before <+: cs) (hle : byteLength front ≤ byteLength before) :
    front <+: before := by
  rcases List.prefix_or_prefix_of_prefix hfront hbefore with hprefix | ⟨more, rfl⟩
  · exact hprefix
  · rw [byteLength_append] at hle
    cases more with
    | nil => exact ⟨[], by simp⟩
    | cons c more =>
      have := byteLength_pos (List.cons_ne_nil c more)
      omega

/-- A front ends where a character of another sort begins. -/
theorem takeWhile_append_of_head {p : Char → Bool} {cs after : List Char}
    (hcs : ∀ c ∈ cs, p c = true) (hafter : ∀ c ∈ after.head?, p c = false) :
    (cs ++ after).takeWhile p = cs := by
  rw [List.takeWhile_append_of_pos hcs]
  cases after with
  | nil => exact List.append_nil cs
  | cons c after =>
    have hc := hafter c rfl
    rw [List.takeWhile_cons_of_neg (Bool.not_eq_true _ ▸ hc), List.append_nil]

/-- A front of one sort of characters is told from what comes behind it. -/
theorem append_inj_of_head {p : Char → Bool} {as bs rest others : List Char}
    (has : ∀ c ∈ as, p c = true) (hbs : ∀ c ∈ bs, p c = true)
    (hrest : ∀ c ∈ rest.head?, p c = false) (hothers : ∀ c ∈ others.head?, p c = false)
    (h : as ++ rest = bs ++ others) : as = bs ∧ rest = others := by
  have hfront : as = bs := by
    rw [← takeWhile_append_of_head has hrest, h, takeWhile_append_of_head hbs hothers]
  rw [hfront] at h
  exact ⟨hfront, List.append_cancel_left h⟩

end Text

namespace Location

/-- A location that starts and stops between characters of a source. -/
structure Within (source : String) (l : Location) : Prop where
  start : Text.IsBoundary source.toList l.start
  stop : Text.IsBoundary source.toList l.stop
  le : l.start ≤ l.stop

theorem within_point {source : String} {offset : Nat}
    (h : Text.IsBoundary source.toList offset) : (point offset).Within source :=
  ⟨h, h, Nat.le_refl offset⟩

/-- A source can be read at the location, and the location has a position in
it. -/
structure Readable (source : String) (l : Location) : Prop where
  within : l.Within source
  stop : l.stop ≤ Text.byteLength source.toList
  slice : (l.slice? source).isSome
  position : (l.position? source).isSome

/-- What stands between two boundaries can be read. -/
theorem Within.readable {source : String} {l : Location} (h : l.Within source) :
    l.Readable source := by
  obtain ⟨front, rest, hfront, hstart⟩ := h.start
  obtain ⟨before, after, hbefore, hstop⟩ := h.stop
  -- the text in front of the start is in front of the end, which comes later
  have hle : Text.byteLength front ≤ Text.byteLength before := by
    rw [← hstart, ← hstop]
    exact h.le
  obtain ⟨covered, rfl⟩ :=
    Text.prefix_of_byteLength_le ⟨rest, hfront.symm⟩ ⟨after, hbefore.symm⟩ hle
  refine ⟨h, h.stop.le, ?_, ?_⟩
  · rw [slice?, hstop, hbefore, Text.splitAt?_append, hstart]
    change ((Text.splitAt? (front ++ covered) (Text.byteLength front)).bind _).isSome = true
    rw [Text.splitAt?_append]
    rfl
  · simp only [position?]
    rw [Nat.min_eq_left h.start.le, hstart, hfront, Text.splitAt?_append]
    rfl

end Location

end BraceTemplate
