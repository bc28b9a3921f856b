import BraceTemplate.Tag.Run
import BraceTemplate.Tree.Span

/-!
# Arguments

What follows the name of a tag: blanks and runs, each a span, up to a `~`, a
delimiter or the end. Each pass over the blanks and the run behind them takes
at least the first symbol of the run.
-/

namespace BraceTemplate

namespace SymbolStream

/-- Whether the arguments end in front of a symbol. -/
def endsArguments (kind : SymbolKind) : Bool :=
  kind == .eof || kind == .tilde || kind.isOpenDelimiter || kind.isCloseDelimiter

/-- Whether a run starts with a key and `=`. -/
def isKeyed : List Symbol → Bool
  | key :: sign :: _ =>
    (key.kind == .identifier || key.kind == .keyword) && sign.kind == .assign
  | _ => false

/-- The span of a run that is an argument. -/
def argument? (run : List Symbol) : Option Span :=
  Span.cover? (if isKeyed run then .map else .parameter) run

/-- Reads an argument. An identifier or a keyword is taken as it is, and so is an
`=` behind it, which makes it a key; the run of the value is behind these. Any
other argument is a run from its first symbol on. -/
def readArgument (s : SymbolStream) : Option Span × SymbolStream :=
  if s.current.kind = .identifier ∨ s.current.kind = .keyword then
    let behind := s.advance
    if behind.current.kind = .assign then
      let value := behind.advance.takeRun
      (Span.cover? .map (s.current :: behind.current :: value.1), value.2)
    else
      let more := behind.takeRun
      (Span.cover? .parameter (s.current :: more.1), more.2)
  else
    let run := s.takeRun
    (Span.cover? .parameter run.1, run.2)

/-- A symbol that neither ends a run nor nests anything is in front of a run. -/
theorem takeRun_eq_cons {s : SymbolStream} (hend : s.current.isEnd = false)
    (hstep : Nesting.step {} s.current = some {}) :
    s.takeRun = (s.current :: s.advance.takeRun.1, s.advance.takeRun.2) := by
  rw [takeRun, takeBy, dif_neg (by simp [hend])]
  simp only [hstep]
  rfl

/-- A run starts with the current symbol. -/
theorem exists_takeRun_eq_cons {s : SymbolStream} (h : s.takeRun.1 ≠ []) :
    ∃ more, s.takeRun.1 = s.current :: more := by
  rw [takeRun, takeBy] at h ⊢
  by_cases hend : s.current.isEnd
  · rw [dif_pos hend] at h
    exact absurd rfl h
  · rw [dif_neg hend] at h ⊢
    cases hstep : Nesting.step {} s.current with
    | none => exact absurd (by rw [hstep]) h
    | some n => exact ⟨_, rfl⟩

/-- A word or an `=` neither ends a run nor nests anything. -/
theorem takeRun_of_word {s : SymbolStream} (h : s.current.kind = .identifier ∨
    s.current.kind = .keyword ∨ s.current.kind = .assign) :
    s.takeRun = (s.current :: s.advance.takeRun.1, s.advance.takeRun.2) := by
  refine takeRun_eq_cons ?_ ?_
  · rcases h with h | h | h <;> simp [Symbol.isEnd, h]
  · rcases h with h | h | h <;> rw [Nesting.step, h] <;> rfl

theorem isKeyed_takeRun_iff (s : SymbolStream) : isKeyed s.takeRun.1 = true ↔
    (s.current.kind = .identifier ∨ s.current.kind = .keyword) ∧
      s.advance.current.kind = .assign := by
  constructor
  · intro h
    have hne : s.takeRun.1 ≠ [] := fun hnil => by rw [hnil] at h; cases h
    obtain ⟨more, hmore⟩ := exists_takeRun_eq_cons hne
    have hword : s.current.kind = .identifier ∨ s.current.kind = .keyword := by
      rw [hmore] at h
      match more, h with
      | sign :: more, h =>
        simp only [isKeyed, Bool.and_eq_true, Bool.or_eq_true, beq_iff_eq] at h
        exact h.1
    rw [takeRun_of_word (hword.imp_right .inl)] at h
    have hsign : s.advance.takeRun.1 ≠ [] := fun hnil => by rw [hnil] at h; cases h
    obtain ⟨rest, hrest⟩ := exists_takeRun_eq_cons hsign
    rw [hrest] at h
    simp only [isKeyed, Bool.and_eq_true, beq_iff_eq] at h
    exact ⟨hword, h.2⟩
  · rintro ⟨hword, hassign⟩
    rw [takeRun_of_word (hword.imp_right .inl), takeRun_of_word (.inr (.inr hassign))]
    simpa [isKeyed, hassign] using hword

/-- Whichever way an argument is read, it is the run at the front. -/
theorem readArgument_eq (s : SymbolStream) :
    s.readArgument = (argument? s.takeRun.1, s.takeRun.2) := by
  by_cases hword : s.current.kind = .identifier ∨ s.current.kind = .keyword
  · by_cases hassign : s.advance.current.kind = .assign
    · rw [argument?, if_pos ((isKeyed_takeRun_iff s).2 ⟨hword, hassign⟩),
        takeRun_of_word (hword.imp_right .inl), takeRun_of_word (.inr (.inr hassign))]
      simp only [readArgument, if_pos hword, if_pos hassign]
    · rw [argument?, if_neg (fun h => hassign ((isKeyed_takeRun_iff s).1 h).2),
        takeRun_of_word (hword.imp_right .inl)]
      simp only [readArgument, if_pos hword, if_neg hassign]
  · rw [argument?, if_neg (fun h => hword ((isKeyed_takeRun_iff s).1 h).1)]
    simp only [readArgument, if_neg hword]

theorem length_takeRun_lt {s : SymbolStream} (h : ¬ endsArguments s.current.kind)
    (hblank : s.current.kind ≠ .whitespace) :
    s.takeRun.2.upcoming.length < s.upcoming.length := by
  simp only [endsArguments, Bool.or_eq_true, beq_iff_eq, not_or] at h
  obtain ⟨⟨⟨heof, htilde⟩, hopen⟩, hclose⟩ := h
  refine length_takeBy_lt ?_ ?_
  · simpa [Symbol.isEnd] using heof
  · simp [Nesting.step, Nesting.stopsAt, hopen, hclose, htilde, hblank]

/-- Takes blanks. -/
def takeBlanks (s : SymbolStream) : List Symbol × SymbolStream := s.takeWhile (· == .whitespace)

theorem current_takeBlanks (s : SymbolStream) :
    s.takeBlanks.2.current.kind ≠ .whitespace := by
  rcases current_takeWhile (· == .whitespace) s with hend | hkind
  · simp only [Symbol.isEnd, beq_iff_eq] at hend
    intro hblank
    rw [takeBlanks, hend] at hblank
    simp at hblank
  · unfold takeBlanks
    simpa using hkind

theorem length_readArgument_lt {s : SymbolStream}
    (h : ¬ endsArguments s.takeBlanks.2.current.kind) :
    s.takeBlanks.2.readArgument.2.upcoming.length < s.upcoming.length := by
  rw [readArgument_eq]
  exact Nat.lt_of_lt_of_le (length_takeRun_lt h (current_takeBlanks s))
    (takeWhile_suffix _ s).length_le

/-- Reads blanks and arguments for as long as there are any. -/
def readArguments (s : SymbolStream) : List Span × SymbolStream :=
  let blanks := s.takeBlanks
  let blankSpan := (Span.cover? .whiteSpace blanks.1).toList
  if _h : endsArguments blanks.2.current.kind then (blankSpan, blanks.2)
  else
    let argument := blanks.2.readArgument
    let more := readArguments argument.2
    (blankSpan ++ argument.1.toList ++ more.1, more.2)
termination_by s.upcoming.length
decreasing_by exact length_readArgument_lt _h

/-- Arguments are read one by one, each of them a run, up to where they end. -/
theorem readArguments_induct {motive : SymbolStream → Prop}
    (ends : ∀ s, endsArguments s.takeBlanks.2.current.kind → motive s)
    (run : ∀ s, ¬ endsArguments s.takeBlanks.2.current.kind →
      motive s.takeBlanks.2.takeRun.2 → motive s) (s : SymbolStream) : motive s := by
  induction s using readArguments.induct with
  | case1 s _ hends => exact ends s hends
  | case2 s _ hends _ ih =>
    refine run s hends ?_
    have hrest := congrArg Prod.snd (readArgument_eq s.takeBlanks.2)
    rw [← hrest]
    exact ih

theorem readArguments_of_ends {s : SymbolStream}
    (h : endsArguments s.takeBlanks.2.current.kind) :
    readArguments s =
      ((Span.cover? .whiteSpace s.takeBlanks.1).toList, s.takeBlanks.2) := by
  unfold readArguments
  simp [h]

theorem readArguments_of_not_ends {s : SymbolStream}
    (h : ¬ endsArguments s.takeBlanks.2.current.kind) :
    readArguments s =
      let run := s.takeBlanks.2.takeRun
      ((Span.cover? .whiteSpace s.takeBlanks.1).toList ++ (argument? run.1).toList ++
        (readArguments run.2).1, (readArguments run.2).2) := by
  rw [readArguments]
  simp [h, readArgument_eq]

theorem takeBlanks_suffix (s : SymbolStream) : s.takeBlanks.2.upcoming <:+ s.upcoming :=
  takeWhile_suffix _ s

theorem takeRun_suffix (s : SymbolStream) : s.takeRun.2.upcoming <:+ s.upcoming :=
  takeBy_suffix _ _ s

theorem readArgument_suffix (s : SymbolStream) : s.readArgument.2.upcoming <:+ s.upcoming := by
  rw [readArgument_eq]
  exact takeRun_suffix s

theorem readArguments_suffix (s : SymbolStream) :
    (readArguments s).2.upcoming <:+ s.upcoming := by
  induction s using readArguments_induct with
  | ends s hends =>
    rw [readArguments_of_ends hends]
    exact takeBlanks_suffix s
  | run s hends ih =>
    rw [readArguments_of_not_ends hends]
    exact ih.trans ((takeRun_suffix _).trans (takeBlanks_suffix s))

/-- Arguments are read where there are any. -/
theorem length_readArguments_lt {s : SymbolStream} (h : ¬ endsArguments s.current.kind) :
    (readArguments s).2.upcoming.length < s.upcoming.length := by
  have hend : ¬ s.current.isEnd := by
    simp only [endsArguments, Bool.or_eq_true, beq_iff_eq, not_or] at h
    simpa [Symbol.isEnd] using h.1.1.1
  by_cases hblank : s.current.kind = .whitespace
  · have hlt : s.takeBlanks.2.upcoming.length < s.upcoming.length :=
      length_takeBy_lt hend (by simp [hblank])
    by_cases hends : endsArguments s.takeBlanks.2.current.kind
    · rw [readArguments_of_ends hends]
      exact hlt
    · rw [readArguments_of_not_ends hends]
      exact Nat.lt_of_le_of_lt
        ((readArguments_suffix _).trans (takeRun_suffix _)).length_le hlt
  · have hnone : s.takeBlanks = ([], s) := by
      unfold takeBlanks SymbolStream.takeWhile takeBy
      simp [hend, hblank]
    rw [readArguments_of_not_ends (by rw [hnone]; exact h), hnone]
    exact Nat.lt_of_le_of_lt (readArguments_suffix _).length_le (length_takeRun_lt h hblank)

end SymbolStream

end BraceTemplate
