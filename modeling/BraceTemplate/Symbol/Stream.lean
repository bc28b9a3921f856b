import BraceTemplate.Diagnostic
import BraceTemplate.Symbol.Scanner

/-!
# Symbol streams

A stream looks at the current symbol, moves on, and takes back at most two
symbols, which come again most recent first. What lies ahead of a stream is the
list `upcoming`, up to the first end symbol; readers are measured by it.
-/

namespace BraceTemplate

structure SymbolStream where
  /-- Most recent first. -/
  pushedBack : List Symbol
  scanner : Scanner
deriving DecidableEq, Repr

namespace SymbolStream

/-- How many symbols can be taken back at once. -/
def capacity : Nat := 2

def ofSource (source : String) : SymbolStream := ⟨[], .ofSource source⟩

/-- The current symbol. -/
def current (s : SymbolStream) : Symbol :=
  match s.pushedBack with
  | symbol :: _ => symbol
  | [] => s.scanner.current

/-- The stream behind the current symbol. -/
def advance (s : SymbolStream) : SymbolStream :=
  match s.pushedBack with
  | _ :: symbols => ⟨symbols, s.scanner⟩
  | [] => ⟨[], s.scanner.advance⟩

def isAtEnd (s : SymbolStream) : Bool := s.current.isEnd

/-- Takes a symbol back, so that it becomes the current one. -/
def pushBack (s : SymbolStream) (symbol : Symbol) : Except Fault SymbolStream :=
  if s.pushedBack.length < capacity then .ok ⟨symbol :: s.pushedBack, s.scanner⟩
  else .error .pushBackOverflow

/-- The symbols ahead, up to the first end symbol. -/
def upcoming (s : SymbolStream) : List Symbol :=
  (s.pushedBack ++ s.scanner.symbols).takeWhile fun symbol => !symbol.isEnd

@[simp] theorem current_cons (symbol : Symbol) (symbols : List Symbol) (scanner : Scanner) :
    (SymbolStream.mk (symbol :: symbols) scanner).current = symbol := rfl

@[simp] theorem advance_cons (symbol : Symbol) (symbols : List Symbol) (scanner : Scanner) :
    (SymbolStream.mk (symbol :: symbols) scanner).advance = ⟨symbols, scanner⟩ := rfl

@[simp] theorem upcoming_cons (symbol : Symbol) (symbols : List Symbol) (scanner : Scanner) :
    (SymbolStream.mk (symbol :: symbols) scanner).upcoming =
      if symbol.isEnd then [] else symbol :: (SymbolStream.mk symbols scanner).upcoming := by
  cases h : symbol.isEnd <;> simp [upcoming, h]

theorem upcoming_of_isEnd {s : SymbolStream} (h : s.current.isEnd) : s.upcoming = [] := by
  obtain ⟨pushedBack, scanner⟩ := s
  cases pushedBack with
  | cons symbol symbols => rw [current_cons] at h; simp [h]
  | nil =>
    have hrest : scanner.rest = [] := by simpa [current, Scanner.isEnd_current] using h
    simp [upcoming, Scanner.symbols_of_rest_eq_nil hrest]

/-- The current symbol is the first of those ahead. -/
theorem upcoming_of_not_isEnd {s : SymbolStream} (h : ¬ s.current.isEnd) :
    s.upcoming = s.current :: s.advance.upcoming := by
  obtain ⟨pushedBack, scanner⟩ := s
  cases pushedBack with
  | cons symbol symbols => rw [current_cons] at h; simp [h]
  | nil =>
    have hrest : scanner.rest ≠ [] := by simpa [current, Scanner.isEnd_current] using h
    have hend : ¬ scanner.current.isEnd := h
    simp [upcoming, Scanner.symbols_of_rest_ne_nil hrest, hend, current, advance]

theorem length_upcoming_advance {s : SymbolStream} (h : ¬ s.current.isEnd) :
    s.advance.upcoming.length < s.upcoming.length := by
  simp [upcoming_of_not_isEnd h]

theorem pushBack_eq_ok_iff {s t : SymbolStream} {symbol : Symbol} :
    s.pushBack symbol = .ok t ↔
      s.pushedBack.length < capacity ∧ t = ⟨symbol :: s.pushedBack, s.scanner⟩ := by
  unfold pushBack
  split
  · rename_i h
    simp [h, eq_comm]
  · rename_i h
    simp [h]

/-! ### Taking several symbols -/

/-- Takes symbols for as long as `step` goes on from a state, and none past the
end. -/
def takeBy {σ : Type} (step : σ → Symbol → Option σ) (state : σ) (s : SymbolStream) :
    List Symbol × SymbolStream :=
  if _h : s.current.isEnd then ([], s)
  else
    match step state s.current with
    | none => ([], s)
    | some state =>
      let (symbols, rest) := takeBy step state s.advance
      (s.current :: symbols, rest)
termination_by s.upcoming.length
decreasing_by exact length_upcoming_advance _h

/-- Takes symbols for as long as their kinds satisfy `p`. -/
def takeWhile (p : SymbolKind → Bool) (s : SymbolStream) : List Symbol × SymbolStream :=
  takeBy (fun () symbol => if p symbol.kind then some () else none) () s

theorem takeBy_append_upcoming {σ : Type} (step : σ → Symbol → Option σ) (state : σ)
    (s : SymbolStream) :
    (takeBy step state s).1 ++ (takeBy step state s).2.upcoming = s.upcoming := by
  fun_induction takeBy step state s with
  | case1 => rfl
  | case2 => rfl
  | case3 state s h state' hstep symbols rest heq ih =>
    rw [heq] at ih
    simp [upcoming_of_not_isEnd h, ← ih]

/-- What is left after taking symbols is an end of what was ahead. -/
theorem takeBy_suffix {σ : Type} (step : σ → Symbol → Option σ) (state : σ) (s : SymbolStream) :
    (takeBy step state s).2.upcoming <:+ s.upcoming :=
  ⟨_, takeBy_append_upcoming step state s⟩

theorem advance_suffix {s : SymbolStream} (h : ¬ s.current.isEnd) :
    s.advance.upcoming <:+ s.upcoming :=
  ⟨[s.current], (upcoming_of_not_isEnd h).symm⟩

/-- Taking a symbol at all leaves less ahead. -/
theorem length_takeBy_lt {σ : Type} {step : σ → Symbol → Option σ} {state : σ}
    {s : SymbolStream} (h : ¬ s.current.isEnd) (hstep : (step state s.current).isSome) :
    (takeBy step state s).2.upcoming.length < s.upcoming.length := by
  obtain ⟨state', hstate⟩ := Option.isSome_iff_exists.1 hstep
  unfold takeBy
  simp only [h, hstate]
  exact Nat.lt_of_le_of_lt (takeBy_suffix step state' s.advance).length_le
    (length_upcoming_advance h)

theorem takeWhile_suffix (p : SymbolKind → Bool) (s : SymbolStream) :
    (s.takeWhile p).2.upcoming <:+ s.upcoming :=
  takeBy_suffix _ () s

/-- Taking symbols of some kinds ends at the end or at another kind. -/
theorem current_takeWhile (p : SymbolKind → Bool) (s : SymbolStream) :
    (s.takeWhile p).2.current.isEnd ∨ p (s.takeWhile p).2.current.kind = false := by
  unfold takeWhile
  fun_induction takeBy (fun () symbol => if p symbol.kind then some () else none) () s with
  | case1 state s h => exact .inl h
  | case2 state s h hstep =>
    right
    simpa using hstep
  | case3 state s h state' hstep symbols rest heq ih => rw [heq] at ih; exact ih

end SymbolStream

end BraceTemplate
