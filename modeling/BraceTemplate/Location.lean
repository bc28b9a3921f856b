import BraceTemplate.Text.Offset

/-!
# Locations

A location is a range of byte offsets into a source, `start` included and
`stop` not. It may lie partly beyond the source or inside a character, so
reading the source at it may fail.
-/

namespace BraceTemplate

/-- Offsets are not bounded. Templates of 4 GiB or more, whose offsets do not fit
into 32 bits, are out of scope. -/
structure Location where
  start : Nat
  stop : Nat
deriving DecidableEq, Repr, Inhabited

namespace Location

/-- The location that covers nothing, at an offset. -/
def point (offset : Nat) : Location := ⟨offset, offset⟩

def length (l : Location) : Nat := l.stop - l.start

def isEmpty (l : Location) : Bool := l.start == l.stop

/-- The smallest location that includes both. -/
def hull (a b : Location) : Location := ⟨min a.start b.start, max a.stop b.stop⟩

/-- The smallest location that includes all, if there is any. -/
def hullAll : List Location → Option Location
  | [] => none
  | l :: ls => some (ls.foldl hull l)

/-- A hull starts with the first of what it includes. -/
theorem map_start_hullAll (ls : List Location) : (hullAll ls).map start = (ls.map start).min? := by
  cases ls with
  | nil => rfl
  | cons l ls =>
    rw [hullAll, Option.map_some, List.map_cons, List.min?_cons', Option.some.injEq]
    induction ls generalizing l with
    | nil => rfl
    | cons m ls ih => exact ih (l.hull m)

/-- A hull stops with the last of what it includes. -/
theorem map_stop_hullAll (ls : List Location) : (hullAll ls).map stop = (ls.map stop).max? := by
  cases ls with
  | nil => rfl
  | cons l ls =>
    rw [hullAll, Option.map_some, List.map_cons, List.max?_cons', Option.some.injEq]
    induction ls generalizing l with
    | nil => rfl
    | cons m ls ih => exact ih (l.hull m)

/-- The text covered, if both ends lie between characters of the source. -/
def slice? (l : Location) (source : String) : Option String := do
  let (before, _) ← Text.splitAt? source.toList l.stop
  let (_, covered) ← Text.splitAt? before l.start
  return String.ofList covered

end Location

/-- A line and a column, both counted from 1, the column in characters. -/
structure Position where
  line : Nat
  column : Nat
deriving DecidableEq, Repr

namespace Position

/-- The position right after a text that starts at the first position. -/
def after (text : List Char) : Position :=
  ⟨text.count '\n' + 1, (text.reverse.takeWhile (· != '\n')).length + 1⟩

end Position

/-- The position of the start, or of the end of the source if that comes
first; none inside a character. -/
def Location.position? (l : Location) (source : String) : Option Position :=
  let cs := source.toList
  (Text.splitAt? cs (min l.start (Text.byteLength cs))).map fun (before, _) => .after before

example : (Location.mk 3 4).position? "a\nbc" = some ⟨2, 2⟩ := by decide
example : (Location.mk 9 9).position? "a\n" = some ⟨2, 1⟩ := by decide
example : (Location.mk 1 2).position? "é" = none := by decide
example : (Location.mk 1 3).slice? "aéb" = some "é" := by decide

end BraceTemplate
