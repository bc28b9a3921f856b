import BraceTemplate.Location

/-!
# Stretches of a source

A stretch is a text with its place. Stretches that follow each other, none of
them empty, are cut out of one text: their texts make it up, their hull is the
range they cover, and reading the source at that range gives the text back.
Symbols and spans are both looked at as stretches.
-/

namespace BraceTemplate

namespace Text

/-- Reading between two boundaries gives what stands there. -/
theorem slice?_between (before covered after : List Char) :
    (Location.mk (byteLength before) (byteLength (before ++ covered))).slice?
      (String.ofList (before ++ covered ++ after)) = some (String.ofList covered) := by
  rw [Location.slice?, String.toList_ofList, splitAt?_append]
  change (splitAt? (before ++ covered) (byteLength before)).bind _ = _
  rw [splitAt?_append]
  rfl

end Text

structure Stretch where
  text : String
  location : Location

namespace Stretch

/-- The characters of consecutive stretches. -/
def chars (stretches : List Stretch) : List Char := stretches.flatMap (·.text.toList)

@[simp] theorem chars_nil : chars [] = [] := rfl

@[simp] theorem chars_cons (s : Stretch) (rest : List Stretch) :
    chars (s :: rest) = s.text.toList ++ chars rest := List.flatMap_cons

@[simp] theorem chars_append (as bs : List Stretch) :
    chars (as ++ bs) = chars as ++ chars bs := List.flatMap_append

/-- Nonempty stretches that cover a range of offsets, each starting where the
one before ends. -/
def Follow : Nat → List Stretch → Nat → Prop
  | first, [], last => first = last
  | first, s :: rest, last =>
    s.text ≠ "" ∧ s.location = ⟨first, first + Text.byteLength s.text.toList⟩ ∧
      Follow s.location.stop rest last

variable {first last : Nat} {as bs cs stretches : List Stretch}

theorem Follow.append (ha : Follow first as last) {final : Nat} (hb : Follow last bs final) :
    Follow first (as ++ bs) final := by
  induction as generalizing first with
  | nil =>
    have heq : first = last := ha
    exact heq ▸ hb
  | cons a as ih => exact ⟨ha.1, ha.2.1, ih ha.2.2⟩

theorem Follow.split (h : Follow first (as ++ bs) last) :
    ∃ middle, Follow first as middle ∧ Follow middle bs last := by
  induction as generalizing first with
  | nil => exact ⟨first, rfl, h⟩
  | cons a as ih =>
    obtain ⟨hne, hloc, hrest⟩ := h
    obtain ⟨middle, hleft, hright⟩ := ih hrest
    exact ⟨middle, ⟨hne, hloc, hleft⟩, hright⟩

/-- The range has as many bytes as the texts. -/
theorem Follow.last_eq (h : Follow first stretches last) :
    last = first + Text.byteLength (chars stretches) := by
  induction stretches generalizing first with
  | nil =>
    have heq : first = last := h
    simpa using heq.symm
  | cons s rest ih =>
    obtain ⟨-, hloc, hrest⟩ := h
    have hlast := ih hrest
    have hstop : s.location.stop = first + Text.byteLength s.text.toList := by rw [hloc]
    simp only [chars_cons, Text.byteLength_append]
    omega

theorem text_ne_iff {s : Stretch} : s.text ≠ "" ↔ s.text.toList ≠ [] := by
  rw [Ne, Ne, String.toList_eq_nil_iff]

theorem Follow.chars_ne_nil (h : Follow first stretches last) (hne : stretches ≠ []) :
    chars stretches ≠ [] := by
  cases stretches with
  | nil => exact absurd rfl hne
  | cons s rest =>
    intro hnil
    rw [chars_cons, List.append_eq_nil_iff] at hnil
    exact text_ne_iff.1 h.1 hnil.1

theorem Follow.lt (h : Follow first stretches last) (hne : stretches ≠ []) : first < last := by
  have hpos := Text.byteLength_pos (h.chars_ne_nil hne)
  have hlast := h.last_eq
  omega

/-- Each stretch stands within the range and has some text. -/
theorem Follow.bounds (h : Follow first stretches last) {s : Stretch} (hs : s ∈ stretches) :
    first ≤ s.location.start ∧ s.location.start < s.location.stop ∧ s.location.stop ≤ last := by
  obtain ⟨before, after, rfl⟩ := List.append_of_mem hs
  obtain ⟨middle, hbefore, hne, hlocation, hafter⟩ := h.split
  have hpos := Text.byteLength_pos (text_ne_iff.1 hne)
  have hmiddle := hbefore.last_eq
  have hlast := hafter.last_eq
  rw [hlocation] at hlast ⊢
  dsimp only at hlast ⊢
  omega

theorem Follow.foldl_hull {l : Location} (hl : l.start ≤ l.stop)
    (h : Follow l.stop stretches last) :
    (stretches.map location).foldl Location.hull l = ⟨l.start, last⟩ := by
  induction stretches generalizing l with
  | nil =>
    have heq : l.stop = last := h
    rw [← heq]
    rfl
  | cons s rest ih =>
    obtain ⟨-, hloc, hrest⟩ := h
    have hhull : l.hull s.location = ⟨l.start, s.location.stop⟩ := by
      rw [hloc]
      simp only [Location.hull, Location.mk.injEq]
      omega
    rw [List.map_cons, List.foldl_cons, hhull]
    refine ih (l := ⟨l.start, s.location.stop⟩) ?_ hrest
    rw [hloc]
    show l.start ≤ l.stop + _
    omega

/-- The hull of stretches that follow each other is their range. -/
theorem Follow.hullAll (h : Follow first stretches last) (hne : stretches ≠ []) :
    Location.hullAll (stretches.map location) = some ⟨first, last⟩ := by
  cases stretches with
  | nil => exact absurd rfl hne
  | cons s rest =>
    obtain ⟨-, hloc, hrest⟩ := h
    have hle : s.location.start ≤ s.location.stop := by rw [hloc]; simp
    rw [List.map_cons, Location.hullAll, Follow.foldl_hull hle hrest, hloc]

theorem Follow.stop_getLastD {s : Stretch} {rest : List Stretch}
    (h : Follow first (s :: rest) last) :
    s.location.start = first ∧ (rest.getLastD s).location.stop = last := by
  induction rest generalizing s first with
  | nil => exact ⟨by rw [h.2.1], h.2.2⟩
  | cons t rest ih =>
    rw [List.getLastD_cons]
    exact ⟨by rw [h.2.1], (ih h.2.2).2⟩

/-- Reading a source at the range of some of its stretches gives their texts. -/
theorem Follow.slice? {source : String} {start stop : Nat} (hbefore : Follow 0 as start)
    (h : Follow start bs stop) (hsource : chars (as ++ bs ++ cs) = source.toList) :
    (Location.mk start stop).slice? source = some (String.ofList (chars bs)) := by
  have hstart : start = Text.byteLength (chars as) := by
    have := hbefore.last_eq
    omega
  have hstop : stop = Text.byteLength (chars as ++ chars bs) := by
    have := h.last_eq
    rw [Text.byteLength_append]
    omega
  have htext : source = String.ofList (chars as ++ chars bs ++ chars cs) := by
    rw [← String.ofList_toList (s := source), ← hsource, chars_append, chars_append]
  rw [hstart, hstop, htext]
  exact Text.slice?_between _ _ _

end Stretch

end BraceTemplate
