import Mathlib.Data.Stream.Init
import BraceTemplate.Proofs.Answering
import BraceTemplate.Proofs.Symbol.Tiling
import BraceTemplate.Symbol.Stream

/-!
# Streams asked for anything

A stream answers like an endless list of symbols: those of its source, and the
end symbol forever behind them. Looking changes nothing, taking takes the first
symbol, and a symbol that is taken back is put in front. The list has no limit;
the stream refuses a third symbol as long as two that were taken back are ahead.
A stream that keeps the symbol it looked at answers in the same way.
-/

namespace BraceTemplate

namespace Scanner

/-- All that a scanner hands out from its place on. -/
def ahead (s : Scanner) : Stream' Symbol :=
  s.symbols ++ₛ Stream'.const (.endOfSource (s.position + Text.byteLength s.rest))

/-- What is ahead is the next symbol and what is ahead of the scanner behind it,
also at the end. -/
theorem ahead_eq_cons (s : Scanner) : s.ahead = Stream'.cons s.current s.advance.ahead := by
  by_cases hrest : s.rest = []
  · have hcurrent : s.current = .endOfSource s.position := by simp [current, hrest]
    rw [advance_of_rest_eq_nil hrest, hcurrent, ahead, symbols_of_rest_eq_nil hrest, hrest,
      Text.byteLength_nil, Nat.add_zero, Stream'.nil_append_stream]
    exact Stream'.const_eq _
  · have hstop : s.position + Text.byteLength s.rest =
        s.advance.position + Text.byteLength s.advance.rest := by
      rw [← nextText_append_rest hrest, Text.byteLength_append, ← Nat.add_assoc,
        advance_of_rest_ne_nil hrest]
    rw [ahead, symbols_of_rest_ne_nil hrest, Stream'.cons_append_stream, hstop]
    rfl

end Scanner

namespace SymbolStream

/-- What a stream can be asked for. -/
inductive Request where
  | peek
  | advance
  | pushBack (symbol : Symbol)
  | isAtEnd
  | countPushedBack

inductive Answer where
  | symbol (symbol : Symbol)
  | flag (holds : Bool)
  | count (number : Nat)
  | done

def answer (s : SymbolStream) : Request → SymbolStream × Except Fault Answer
  | .peek => (s, .ok (.symbol s.current))
  | .advance => (s.advance, .ok (.symbol s.current))
  | .pushBack symbol => settle s .done (s.pushBack symbol)
  | .isAtEnd => (s, .ok (.flag s.isAtEnd))
  | .countPushedBack => (s, .ok (.count s.pushedBack.length))

end SymbolStream

open SymbolStream (Request Answer)

/-- An endless list of symbols, and how many of those in front were put there and
not taken since. -/
structure Endless where
  symbols : Stream' Symbol
  returned : Nat

namespace Endless

def ofSource (source : String) : Endless :=
  ⟨BraceTemplate.symbols source ++ₛ
    Stream'.const (.endOfSource (Text.byteLength source.toList)), 0⟩

/-- Two symbols that were put in front are the limit. -/
def answer (e : Endless) : Request → Endless × Except Fault Answer
  | .peek => (e, .ok (.symbol e.symbols.head))
  | .advance => (⟨e.symbols.tail, e.returned - 1⟩, .ok (.symbol e.symbols.head))
  | .pushBack symbol =>
    if e.returned = 2 then (e, .error .pushBackOverflow)
    else (⟨.cons symbol e.symbols, e.returned + 1⟩, .ok .done)
  | .isAtEnd => (e, .ok (.flag e.symbols.head.isEnd))
  | .countPushedBack => (e, .ok (.count e.returned))

end Endless

/-- A stream that looks at its scanner by taking a symbol from it, which is kept
until it is taken from the stream. -/
structure KeepingStream where
  /-- Most recent first. -/
  pushedBack : List Symbol
  kept : Option Symbol
  scanner : Scanner

namespace KeepingStream

def ofSource (source : String) : KeepingStream := ⟨[], none, .ofSource source⟩

def peek : KeepingStream → Symbol × KeepingStream
  | ⟨symbol :: symbols, kept, scanner⟩ => (symbol, ⟨symbol :: symbols, kept, scanner⟩)
  | ⟨[], some symbol, scanner⟩ => (symbol, ⟨[], some symbol, scanner⟩)
  | ⟨[], none, scanner⟩ => (scanner.current, ⟨[], some scanner.current, scanner.advance⟩)

def advance : KeepingStream → Symbol × KeepingStream
  | ⟨symbol :: symbols, kept, scanner⟩ => (symbol, ⟨symbols, kept, scanner⟩)
  | ⟨[], some symbol, scanner⟩ => (symbol, ⟨[], none, scanner⟩)
  | ⟨[], none, scanner⟩ => (scanner.current, ⟨[], none, scanner.advance⟩)

def pushBack (s : KeepingStream) (symbol : Symbol) : Except Fault KeepingStream :=
  if s.pushedBack.length < SymbolStream.capacity then
    .ok { s with pushedBack := symbol :: s.pushedBack }
  else .error .pushBackOverflow

def answer (s : KeepingStream) : Request → KeepingStream × Except Fault Answer
  | .peek => (s.peek.2, .ok (.symbol s.peek.1))
  | .advance => (s.advance.2, .ok (.symbol s.advance.1))
  | .pushBack symbol => settle s .done (s.pushBack symbol)
  | .isAtEnd => (s.peek.2, .ok (.flag s.peek.1.isEnd))
  | .countPushedBack => (s, .ok (.count s.pushedBack.length))

end KeepingStream

/-- An endless list is what symbols taken back and others behind them make up. -/
structure Endless.Holds (e : Endless) (pushedBack : List Symbol) (behind : Stream' Symbol) :
    Prop where
  symbols : e.symbols = pushedBack ++ₛ behind
  returned : e.returned = pushedBack.length
  bounded : e.returned ≤ 2

namespace Endless.Holds

variable {e : Endless} {symbol : Symbol} {pushedBack : List Symbol} {behind : Stream' Symbol}

theorem ofSource (source : String) :
    (Endless.ofSource source).Holds [] (Scanner.ofSource source).ahead := by
  refine ⟨?_, rfl, Nat.zero_le 2⟩
  rw [Stream'.nil_append_stream, Scanner.ahead]
  change _ = _ ++ₛ Stream'.const (Symbol.endOfSource (0 + _))
  rw [Nat.zero_add]
  rfl

theorem head_cons (h : e.Holds (symbol :: pushedBack) behind) : e.symbols.head = symbol := by
  rw [h.symbols]
  rfl

theorem head_nil (h : e.Holds [] behind) : e.symbols.head = behind.head := by
  rw [h.symbols]
  rfl

/-- The most recent symbol that was taken back is the first to be taken. -/
theorem tail_cons (h : e.Holds (symbol :: pushedBack) behind) :
    Endless.Holds ⟨e.symbols.tail, e.returned - 1⟩ pushedBack behind := by
  refine ⟨?_, ?_, Nat.le_trans (Nat.sub_le _ _) h.bounded⟩
  · rw [h.symbols]
    rfl
  · change e.returned - 1 = _
    rw [h.returned, List.length_cons, Nat.add_sub_cancel]

theorem tail_nil (h : e.Holds [] behind) :
    Endless.Holds ⟨e.symbols.tail, e.returned - 1⟩ [] behind.tail := by
  refine ⟨?_, ?_, Nat.le_trans (Nat.sub_le _ _) h.bounded⟩
  · rw [h.symbols]
    rfl
  · change e.returned - 1 = 0
    rw [h.returned]
    rfl

/-- The limit of the list is the room that there is. -/
theorem pushBack (h : e.Holds pushedBack behind) (symbol : Symbol) :
    pushedBack.length < SymbolStream.capacity ∧
        e.answer (.pushBack symbol) = (⟨.cons symbol e.symbols, e.returned + 1⟩, .ok .done) ∧
        Endless.Holds ⟨.cons symbol e.symbols, e.returned + 1⟩ (symbol :: pushedBack) behind ∨
      ¬ pushedBack.length < SymbolStream.capacity ∧
        e.answer (.pushBack symbol) = (e, .error .pushBackOverflow) := by
  have hbounded := h.bounded
  have hreturned := h.returned
  change pushedBack.length < 2 ∧ _ ∨ ¬ pushedBack.length < 2 ∧ _
  by_cases hfull : e.returned = 2
  · exact .inr ⟨by omega, if_pos hfull⟩
  · refine .inl ⟨by omega, if_neg hfull, ?_, ?_, ?_⟩
    · rw [h.symbols]
      rfl
    · change e.returned + 1 = _
      rw [hreturned, List.length_cons]
    · change e.returned + 1 ≤ 2
      omega

end Endless.Holds

namespace SymbolStream

/-- The list holds what is ahead of a stream. -/
def Like (s : SymbolStream) (e : Endless) : Prop := e.Holds s.pushedBack s.scanner.ahead

variable {s : SymbolStream} {e : Endless}

theorem Like.head (h : s.Like e) : e.symbols.head = s.current := by
  obtain ⟨pushedBack, scanner⟩ := s
  cases pushedBack with
  | nil =>
    rw [Endless.Holds.head_nil h, Scanner.ahead_eq_cons]
    rfl
  | cons symbol symbols => exact Endless.Holds.head_cons h

theorem Like.advance (h : s.Like e) :
    s.advance.Like ⟨e.symbols.tail, e.returned - 1⟩ := by
  obtain ⟨pushedBack, scanner⟩ := s
  cases pushedBack with
  | nil =>
    have htail := Endless.Holds.tail_nil h
    rw [Scanner.ahead_eq_cons] at htail
    exact htail
  | cons symbol symbols => exact Endless.Holds.tail_cons h

theorem Like.answer (h : s.Like e) (request : Request) :
    (s.answer request).1.Like (e.answer request).1 ∧
      (s.answer request).2 = (e.answer request).2 := by
  cases request with
  | peek => exact ⟨h, by rw [SymbolStream.answer, Endless.answer, h.head]⟩
  | advance => exact ⟨h.advance, by rw [SymbolStream.answer, Endless.answer, h.head]⟩
  | pushBack symbol =>
    rw [SymbolStream.answer, pushBack]
    rcases Endless.Holds.pushBack h symbol with ⟨hroom, hanswer, hnext⟩ | ⟨hfull, hanswer⟩
    · rw [if_pos hroom, hanswer]
      exact ⟨hnext, rfl⟩
    · rw [if_neg hfull, hanswer]
      exact ⟨h, rfl⟩
  | isAtEnd => exact ⟨h, by rw [SymbolStream.answer, Endless.answer, h.head, isAtEnd]⟩
  | countPushedBack => exact ⟨h, by rw [SymbolStream.answer, Endless.answer, h.returned]⟩

end SymbolStream

namespace KeepingStream

/-- The list holds what is ahead of a stream, a kept symbol between those that
were taken back and those of the scanner. -/
def Like (s : KeepingStream) (e : Endless) : Prop :=
  e.Holds s.pushedBack (s.kept.toList ++ₛ s.scanner.ahead)

variable {s : KeepingStream} {e : Endless}

/-- Looking at a symbol does not change what is ahead. -/
theorem Like.peek (h : s.Like e) : s.peek.2.Like e ∧ e.symbols.head = s.peek.1 := by
  obtain ⟨pushedBack, kept, scanner⟩ := s
  cases pushedBack with
  | cons symbol symbols => exact ⟨h, Endless.Holds.head_cons h⟩
  | nil =>
    cases kept with
    | some symbol => exact ⟨h, Endless.Holds.head_nil h⟩
    | none =>
      change e.Holds [] scanner.ahead at h
      rw [Scanner.ahead_eq_cons] at h
      exact ⟨h, Endless.Holds.head_nil h⟩

theorem Like.advance (h : s.Like e) :
    s.advance.2.Like ⟨e.symbols.tail, e.returned - 1⟩ ∧ e.symbols.head = s.advance.1 := by
  obtain ⟨pushedBack, kept, scanner⟩ := s
  cases pushedBack with
  | cons symbol symbols => exact ⟨Endless.Holds.tail_cons h, Endless.Holds.head_cons h⟩
  | nil =>
    cases kept with
    | some symbol => exact ⟨Endless.Holds.tail_nil h, Endless.Holds.head_nil h⟩
    | none =>
      change e.Holds [] scanner.ahead at h
      rw [Scanner.ahead_eq_cons] at h
      exact ⟨Endless.Holds.tail_nil h, Endless.Holds.head_nil h⟩

theorem Like.answer (h : s.Like e) (request : Request) :
    (s.answer request).1.Like (e.answer request).1 ∧
      (s.answer request).2 = (e.answer request).2 := by
  obtain ⟨hpeeked, hpeek⟩ := h.peek
  obtain ⟨hadvanced, hadvance⟩ := h.advance
  cases request with
  | peek => exact ⟨hpeeked, by rw [KeepingStream.answer, Endless.answer, hpeek]⟩
  | advance => exact ⟨hadvanced, by rw [KeepingStream.answer, Endless.answer, hadvance]⟩
  | pushBack symbol =>
    rw [KeepingStream.answer, pushBack]
    rcases Endless.Holds.pushBack h symbol with ⟨hroom, hanswer, hnext⟩ | ⟨hfull, hanswer⟩
    · rw [if_pos hroom, hanswer]
      exact ⟨hnext, rfl⟩
    · rw [if_neg hfull, hanswer]
      exact ⟨h, rfl⟩
  | isAtEnd => exact ⟨hpeeked, by rw [KeepingStream.answer, Endless.answer, hpeek]⟩
  | countPushedBack => exact ⟨h, by rw [KeepingStream.answer, Endless.answer, h.returned]⟩

end KeepingStream

/-- No list that stands for a stream has more than two symbols put in front. -/
theorem Endless.count_le (e : Endless) (he : e.returned ≤ 2) (request : Request) :
    (e.answer request).1.returned ≤ 2 ∧
      ∀ n, (e.answer request).2 = .ok (.count n) → n ≤ 2 := by
  cases request with
  | peek => exact ⟨he, nofun⟩
  | advance => exact ⟨Nat.le_trans (Nat.sub_le _ _) he, nofun⟩
  | pushBack symbol =>
    rw [answer]
    split
    · exact ⟨he, nofun⟩
    · rename_i hroom
      exact ⟨by change e.returned + 1 ≤ 2; omega, nofun⟩
  | isAtEnd => exact ⟨he, nofun⟩
  | countPushedBack =>
    refine ⟨he, ?_⟩
    intro n hn
    cases hn
    exact he

/-- Whatever a stream is asked for, it answers like an endless list that starts as
the symbols of the source, and so does one that keeps what it looked at. -/
theorem SymbolStream.answerAll_endless (source : String) (requests : List Request) :
    ∃ results, (answerAll Endless.answer (.ofSource source) requests).2 = results ∧
      (answerAll answer (.ofSource source) requests).2 = results ∧
      (answerAll KeepingStream.answer (.ofSource source) requests).2 = results ∧
      ∀ n, .ok (.count n) ∈ results → n ≤ 2 := by
  have hstream : (ofSource source).Like (.ofSource source) := Endless.Holds.ofSource source
  have hkeeping : (KeepingStream.ofSource source).Like (.ofSource source) :=
    Endless.Holds.ofSource source
  have hcounts := (answerAll_keeps (fun e : Endless => e.returned ≤ 2)
    (fun result : Except Fault Answer => ∀ n, result = .ok (.count n) → n ≤ 2)
    (fun e request he => e.count_le he request) (s := .ofSource source) (Nat.zero_le 2) requests).2
  refine ⟨_, rfl, ?_, ?_, fun n hn => hcounts _ hn n rfl⟩
  · exact (answerAll_same Like (fun _ _ request h => h.answer request) hstream requests).2
  · exact (answerAll_same KeepingStream.Like (fun _ _ request h => h.answer request) hkeeping
      requests).2

end BraceTemplate
