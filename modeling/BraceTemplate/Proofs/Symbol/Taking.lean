import Mathlib.Data.List.TakeWhile
import BraceTemplate.Symbol.Stream

/-!
# Taking symbols off a stream

Readers take symbols off the front of what is ahead, one at a time and never
past the end. What they take is told by the symbols ahead alone. Nothing is
taken back on the way, so the room for symbols taken back does not shrink.
-/

namespace BraceTemplate

theorem Symbol.kind_of_isEnd {s : Symbol} (h : s.isEnd) : s.kind = .eof := by
  simpa [isEnd] using h

theorem Symbol.not_isEnd_of_isOpenDelimiter {s : Symbol} (h : s.kind.isOpenDelimiter = true) :
    ¬ s.isEnd := by
  intro hend
  rw [kind_of_isEnd hend] at h
  cases h

theorem Symbol.not_isEnd_of_isCloseDelimiter {s : Symbol} (h : s.kind.isCloseDelimiter = true) :
    ¬ s.isEnd := by
  intro hend
  rw [kind_of_isEnd hend] at h
  cases h

namespace SymbolStream

theorem current_of_upcoming {s : SymbolStream} {symbol : Symbol} {rest : List Symbol}
    (h : s.upcoming = symbol :: rest) :
    ¬ s.current.isEnd ∧ s.current = symbol ∧ s.advance.upcoming = rest := by
  by_cases hend : s.current.isEnd
  · rw [upcoming_of_isEnd hend] at h
    cases h
  · rw [upcoming_of_not_isEnd hend] at h
    obtain ⟨hcurrent, hrest⟩ := List.cons.inj h
    exact ⟨hend, hcurrent, hrest⟩

theorem isEnd_of_upcoming {s : SymbolStream} (h : s.upcoming = []) : s.current.isEnd := by
  by_contra hend
  rw [upcoming_of_not_isEnd hend] at h
  cases h

theorem upcoming_ofSource (source : String) : (ofSource source).upcoming = symbols source := by
  have hall : ∀ scanner : Scanner, ∀ symbol ∈ scanner.symbols, (!symbol.isEnd) = true := by
    intro scanner
    fun_induction Scanner.symbols scanner with
    | case1 => intro symbol h; cases h
    | case2 scanner hrest ih =>
      intro symbol h
      rcases List.mem_cons.1 h with rfl | h
      · rw [Scanner.isEnd_current]
        simpa using hrest
      · exact ih symbol h
  exact List.takeWhile_eq_self_iff.2 (hall _)

theorem length_pushedBack_advance (s : SymbolStream) :
    s.advance.pushedBack.length = s.pushedBack.length - 1 := by
  obtain ⟨pushedBack, scanner⟩ := s
  cases pushedBack with
  | nil => rfl
  | cons symbol symbols => rfl

/-- A stream hands out some symbols, none of them the end, and becomes another. -/
inductive Takes : SymbolStream → List Symbol → SymbolStream → Prop
  | none (s : SymbolStream) : Takes s [] s
  | next {s t : SymbolStream} {taken : List Symbol} (hend : ¬ s.current.isEnd)
      (h : Takes s.advance taken t) : Takes s (s.current :: taken) t

variable {s t u : SymbolStream} {taken more : List Symbol}

theorem Takes.one (hend : ¬ s.current.isEnd) : Takes s [s.current] s.advance :=
  .next hend (.none _)

theorem Takes.trans (h : Takes s taken t) (hmore : Takes t more u) :
    Takes s (taken ++ more) u := by
  induction h with
  | none s => exact hmore
  | next hend _ ih => exact .next hend (ih hmore)

theorem Takes.upcoming (h : Takes s taken t) : s.upcoming = taken ++ t.upcoming := by
  induction h with
  | none s => rfl
  | next hend _ ih => rw [upcoming_of_not_isEnd hend, ih, List.cons_append]

/-- Symbols that were taken back come first. -/
theorem Takes.length_pushedBack (h : Takes s taken t) :
    t.pushedBack.length = s.pushedBack.length - taken.length := by
  induction h with
  | none s => rfl
  | next _ _ ih =>
    rw [ih, length_pushedBack_advance, List.length_cons]
    omega

/-- Cuts a list of symbols where `step` does not go on. -/
def cutBy {σ : Type} (step : σ → Symbol → Option σ) : σ → List Symbol → List Symbol × List Symbol
  | _, [] => ([], [])
  | state, symbol :: symbols =>
    match step state symbol with
    | none => ([], symbol :: symbols)
    | some state =>
      let cut := cutBy step state symbols
      (symbol :: cut.1, cut.2)

section TakeBy
variable {σ : Type} (step : σ → Symbol → Option σ)

theorem takeBy_takes (state : σ) (s : SymbolStream) :
    Takes s (takeBy step state s).1 (takeBy step state s).2 := by
  fun_induction takeBy step state s with
  | case1 state s hend => exact .none s
  | case2 state s hend hstep => exact .none s
  | case3 state s hend state' hstep symbols rest heq ih =>
    rw [heq] at ih
    exact .next hend ih

/-- What is taken depends on the symbols ahead alone. -/
theorem takeBy_fst (state : σ) (s : SymbolStream) :
    (takeBy step state s).1 = (cutBy step state s.upcoming).1 := by
  fun_induction takeBy step state s with
  | case1 state s hend => rw [upcoming_of_isEnd hend]; rfl
  | case2 state s hend hstep =>
    rw [upcoming_of_not_isEnd hend, cutBy, hstep]
  | case3 state s hend state' hstep symbols rest heq ih =>
    have htaken : symbols = (cutBy step state' s.advance.upcoming).1 := by rw [← ih, heq]
    rw [upcoming_of_not_isEnd hend, cutBy, hstep, htaken]

theorem cutBy_append (state : σ) (symbols : List Symbol) :
    (cutBy step state symbols).1 ++ (cutBy step state symbols).2 = symbols := by
  fun_induction cutBy step state symbols with
  | case1 => rfl
  | case2 => rfl
  | case3 state symbol symbols state' hstep cut ih =>
    rw [List.cons_append, ih]

theorem upcoming_takeBy (state : σ) (s : SymbolStream) :
    (takeBy step state s).2.upcoming = (cutBy step state s.upcoming).2 := by
  have htakes := (takeBy_takes step state s).upcoming
  rw [takeBy_fst] at htakes
  exact List.append_cancel_left (htakes.symm.trans (cutBy_append step state s.upcoming).symm)

/-- Every symbol that is taken is one that `step` goes on with from some state. -/
theorem exists_step_of_mem_cutBy {state : σ} {symbols : List Symbol} {symbol : Symbol}
    (h : symbol ∈ (cutBy step state symbols).1) : ∃ state', (step state' symbol).isSome := by
  fun_induction cutBy step state symbols with
  | case1 => cases h
  | case2 => cases h
  | case3 state first symbols state' hstep cut ih =>
    rcases List.mem_cons.1 h with rfl | h
    · exact ⟨state, by rw [hstep]; rfl⟩
    · exact ih h

/-- A step function that goes on over a list and not behind it cuts there. -/
theorem cutBy_eq_of_foldlM {state final : σ} {front back : List Symbol}
    (hfront : front.foldlM step state = some final)
    (hback : ∀ symbol rest, back = symbol :: rest → step final symbol = none) :
    cutBy step state (front ++ back) = (front, back) := by
  induction front generalizing state with
  | nil =>
    cases hfront
    cases back with
    | nil => rfl
    | cons symbol rest => rw [List.nil_append, cutBy, hback symbol rest rfl]
  | cons symbol front ih =>
    rw [List.foldlM_cons] at hfront
    obtain ⟨state', hstep, hrest⟩ := Option.bind_eq_some_iff.1 hfront
    rw [List.cons_append, cutBy, hstep]
    simp only [ih hrest]

end TakeBy

theorem takeWhile_takes (p : SymbolKind → Bool) (s : SymbolStream) :
    Takes s (s.takeWhile p).1 (s.takeWhile p).2 := takeBy_takes _ _ _

theorem upcoming_takeWhile (p : SymbolKind → Bool) (s : SymbolStream) :
    (s.takeWhile p).2.upcoming = s.upcoming.dropWhile fun symbol => p symbol.kind := by
  rw [takeWhile, upcoming_takeBy]
  induction s.upcoming with
  | nil => rfl
  | cons symbol symbols ih =>
    rw [cutBy]
    by_cases hp : p symbol.kind = true
    · rw [if_pos hp, List.dropWhile_cons, if_pos hp]
      exact ih
    · rw [if_neg hp, List.dropWhile_cons, if_neg hp]

theorem takeWhile_all {p : SymbolKind → Bool} {s : SymbolStream} {symbol : Symbol}
    (h : symbol ∈ (s.takeWhile p).1) : p symbol.kind = true := by
  rw [takeWhile, takeBy_fst] at h
  obtain ⟨-, hstep⟩ := exists_step_of_mem_cutBy _ h
  by_contra hp
  rw [if_neg hp] at hstep
  cases hstep

end SymbolStream

end BraceTemplate
