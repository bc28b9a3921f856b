import BraceTemplate.Piece

/-!
# Passes of the loops

Three loops read a template: one over text and tags, one over arguments with the
blanks in front of them, and one over what stands in front of the end of a tag.
A run of a loop is told here pass by pass, each with the stream it starts at and
the one at which the next pass of the same loop starts. A run is finite, and
whether a stream has one is not assumed. No pass of the two loops inside tags
goes on without taking a symbol: a `~` taken in one pass at the end is not there
for the next one, and if there is none the arguments take something.
-/

namespace BraceTemplate

open SymbolStream

inductive Loop where
  /-- Text, and a tag behind it. -/
  | content
  /-- Blanks, and an argument behind them. -/
  | arguments
  /-- A `~`, and stray arguments behind it. -/
  | ending
deriving DecidableEq

structure Pass where
  loop : Loop
  start : SymbolStream
  /-- Where the next pass of the loop starts, unless this one returns. -/
  next? : Option SymbolStream

/-- What a pass has to take. For text and tags that is the first opening
delimiter ahead, for the others any symbol. -/
def Loop.Consumes (taken : List Symbol) : Loop → Prop
  | .content => ∃ text delimiter more, taken = text ++ delimiter :: more ∧
      delimiter.kind.isOpenDelimiter = true ∧ ∀ symbol ∈ text, symbol.kind.isOpenDelimiter = false
  | _ => taken ≠ []

/-- A pass returns, or takes what it has to. -/
def Pass.Progresses (pass : Pass) : Prop :=
  ∀ next, pass.next? = some next →
    ∃ taken, pass.start.upcoming = taken ++ next.upcoming ∧ pass.loop.Consumes taken

theorem Pass.progresses_of_returns (loop : Loop) (s : SymbolStream) :
    (Pass.mk loop s none).Progresses := fun _ hnext => nomatch hnext

/-- How many of the passes are of a loop. -/
def Loop.passes (loop : Loop) (log : List Pass) : Nat := log.countP fun pass => pass.loop = loop

namespace Loop

variable (loop : Loop)

@[simp] theorem passes_nil : loop.passes [] = 0 := rfl

@[simp] theorem passes_cons (pass : Pass) (log : List Pass) :
    loop.passes (pass :: log) = loop.passes log + if pass.loop = loop then 1 else 0 := by
  simp [passes, List.countP_cons]

@[simp] theorem passes_append (log more : List Pass) :
    loop.passes (log ++ more) = loop.passes log + loop.passes more := List.countP_append

end Loop

/-- The loop over arguments: it returns behind blanks where the arguments end,
and else goes on behind the argument there. -/
inductive RunsArguments : SymbolStream → List Pass → SymbolStream → Prop
  | returns {s : SymbolStream} (hends : endsArguments s.takeBlanks.2.current.kind) :
      RunsArguments s [⟨.arguments, s, none⟩] s.takeBlanks.2
  | again {s t : SymbolStream} {log : List Pass}
      (hends : ¬ endsArguments s.takeBlanks.2.current.kind)
      (h : RunsArguments s.takeBlanks.2.readArgument.2 log t) :
      RunsArguments s (⟨.arguments, s, some s.takeBlanks.2.readArgument.2⟩ :: log) t

/-- The loop at the end of a tag: behind a `~`, if there is one, it returns with
the closing delimiter taken or in front of what leaves the tag unclosed, and else
goes on behind the arguments there. -/
inductive RunsEnding : SymbolStream → List Pass → SymbolStream → Prop
  | closed {s : SymbolStream} (hclose : (s.readMark .tilde).2.current.kind.isCloseDelimiter) :
      RunsEnding s [⟨.ending, s, none⟩] (s.readMark .tilde).2.advance
  | unclosed {s : SymbolStream}
      (hclose : ¬ (s.readMark .tilde).2.current.kind.isCloseDelimiter)
      (hunclosed : leavesUnclosed (s.readMark .tilde).2.current.kind) :
      RunsEnding s [⟨.ending, s, none⟩] (s.readMark .tilde).2
  | again {s t u : SymbolStream} {log more : List Pass}
      (hclose : ¬ (s.readMark .tilde).2.current.kind.isCloseDelimiter)
      (hunclosed : ¬ leavesUnclosed (s.readMark .tilde).2.current.kind)
      (harguments : RunsArguments (s.readMark .tilde).2 log t) (h : RunsEnding t more u) :
      RunsEnding s (⟨.ending, s, some t⟩ :: (log ++ more)) u

/-- The stream behind the marks at the front of a tag. -/
def Tag.afterMarks (kind : TagKind) (s : SymbolStream) : SymbolStream :=
  (readMarker kind (s.advance.readMark .tilde).2).2

/-- The loops inside a tag. A comment has no arguments. -/
inductive RunsTag : TagKind → SymbolStream → List Pass → SymbolStream → Prop
  | comment {s t : SymbolStream} {log : List Pass}
      (h : RunsEnding (Tag.readComment (Tag.afterMarks .comment s)).rest log t) :
      RunsTag .comment s log t
  | named {kind : TagKind} {s t u : SymbolStream} {log more : List Pass} (hkind : kind ≠ .comment)
      (harguments : RunsArguments (Tag.afterMarks kind s).takeRun.2 log t)
      (h : RunsEnding t more u) : RunsTag kind s (log ++ more) u

/-- A pass that leaves less ahead has taken a symbol. -/
theorem exists_taken {s t : SymbolStream} (hsuffix : t.upcoming <:+ s.upcoming)
    (hlt : t.upcoming.length < s.upcoming.length) :
    ∃ taken, s.upcoming = taken ++ t.upcoming ∧ taken ≠ [] := by
  obtain ⟨taken, htaken⟩ := hsuffix
  refine ⟨taken, htaken.symm, ?_⟩
  rintro rfl
  rw [← htaken] at hlt
  exact Nat.lt_irrefl _ hlt

section arguments

variable {s t : SymbolStream} {log : List Pass}

/-- The loop over arguments comes to an end, whatever the stream. -/
theorem exists_runsArguments (s : SymbolStream) : ∃ log, RunsArguments s log s.readArguments.2 := by
  fun_induction readArguments s with
  | case1 s blanks blankSpan hends => exact ⟨_, .returns hends⟩
  | case2 s blanks blankSpan hends argument more ih =>
    obtain ⟨log, h⟩ := ih
    exact ⟨_, .again hends h⟩

theorem RunsArguments.eq_readArguments (h : RunsArguments s log t) : t = s.readArguments.2 := by
  induction h with
  | returns hends => rw [readArguments_of_ends hends]
  | again hends _ ih =>
    rw [readArguments, dif_neg hends]
    exact ih

theorem RunsArguments.suffix (h : RunsArguments s log t) : t.upcoming <:+ s.upcoming := by
  rw [h.eq_readArguments]
  exact readArguments_suffix s

theorem RunsArguments.ends (h : RunsArguments s log t) : endsArguments t.current.kind := by
  induction h with
  | returns hends => exact hends
  | again _ _ ih => exact ih

theorem RunsArguments.passes_of_ne (h : RunsArguments s log t) {loop : Loop}
    (hloop : loop ≠ .arguments) : loop.passes log = 0 := by
  induction h with
  | returns => simp [hloop.symm]
  | again _ _ ih => simp [ih, hloop.symm]

/-- Every pass over arguments but the last one is paid for with a symbol. -/
theorem RunsArguments.passes_le (h : RunsArguments s log t) :
    Loop.arguments.passes log + t.upcoming.length ≤ s.upcoming.length + 1 := by
  induction h with
  | @returns s hends =>
    have hle := (takeBlanks_suffix s).length_le
    simp only [Loop.passes_cons, Loop.passes_nil, if_true]
    omega
  | again hends _ ih =>
    have hlt := length_readArgument_lt hends
    simp only [Loop.passes_cons, if_true]
    omega

theorem RunsArguments.progresses (h : RunsArguments s log t) {pass : Pass} (hpass : pass ∈ log) :
    pass.Progresses := by
  induction h with
  | returns =>
    rw [List.mem_singleton.1 hpass]
    exact Pass.progresses_of_returns _ _
  | again hends _ ih =>
    rcases List.mem_cons.1 hpass with rfl | hpass
    · rintro next ⟨⟩
      exact exists_taken ((readArgument_suffix _).trans (takeBlanks_suffix _))
        (length_readArgument_lt hends)
    · exact ih hpass

end arguments

section ending

variable {s t : SymbolStream} {log : List Pass}

/-- The loop at the end of a tag comes to an end, whatever the stream. -/
theorem exists_runsEnding (raw reported : Bool) (s : SymbolStream) :
    ∃ log, RunsEnding s log (readEnding raw reported s).rest := by
  fun_induction readEnding raw reported s with
  | case1 reported s tilde symbol hclose last => exact ⟨_, .closed hclose⟩
  | case2 reported s tilde symbol hclose hunclosed => exact ⟨_, .unclosed hclose hunclosed⟩
  | case3 reported s tilde symbol hclose hunclosed stray arguments more ih =>
    obtain ⟨log, harguments⟩ := exists_runsArguments tilde.2
    obtain ⟨more, h⟩ := ih
    exact ⟨_, .again hclose hunclosed harguments h⟩

theorem RunsEnding.eq_readEnding (h : RunsEnding s log t) (raw reported : Bool) :
    t = (readEnding raw reported s).rest := by
  induction h generalizing reported with
  | closed hclose =>
    rw [readEnding]
    simp [hclose, readDelimiter]
  | unclosed hclose hunclosed =>
    rw [readEnding]
    simp [hclose, hunclosed]
  | again hclose hunclosed harguments _ ih =>
    rw [readEnding]
    simp only [dif_neg hclose, dif_neg hunclosed]
    rw [ih true, harguments.eq_readArguments]

theorem RunsEnding.suffix (h : RunsEnding s log t) : t.upcoming <:+ s.upcoming := by
  rw [h.eq_readEnding false false]
  exact readEnding_suffix false false s

/-- A pass at the end of a tag that goes on has taken a symbol: the `~`, or else
arguments. -/
theorem RunsArguments.length_lt_of_readMark (h : RunsArguments (s.readMark .tilde).2 log t)
    (hclose : ¬ (s.readMark .tilde).2.current.kind.isCloseDelimiter)
    (hunclosed : ¬ leavesUnclosed (s.readMark .tilde).2.current.kind) :
    t.upcoming.length < s.upcoming.length := by
  rw [h.eq_readArguments]
  exact length_readArguments_readMark_lt hclose hunclosed

/-- Where arguments end, a pass at the end of a tag goes on behind a `~` only. -/
theorem length_readMark_lt_of_ends (hends : endsArguments s.current.kind)
    (hclose : ¬ (s.readMark .tilde).2.current.kind.isCloseDelimiter)
    (hunclosed : ¬ leavesUnclosed (s.readMark .tilde).2.current.kind) :
    (s.readMark .tilde).2.upcoming.length < s.upcoming.length := by
  by_cases htilde : s.current.kind = .tilde
  · exact length_readMark_lt nofun htilde
  · rw [readMark_of_ne htilde] at hclose hunclosed
    simp only [endsArguments, leavesUnclosed, Bool.or_eq_true, beq_iff_eq, not_or]
      at hends hunclosed
    rcases hends with ((heof | hmark) | hopen) | hend
    · exact absurd heof hunclosed.1
    · exact absurd hmark htilde
    · exact absurd hopen hunclosed.2
    · exact absurd hend hclose

theorem RunsEnding.passes_content (h : RunsEnding s log t) : Loop.content.passes log = 0 := by
  induction h with
  | closed => rfl
  | unclosed => rfl
  | again _ _ harguments _ ih => simp [ih, harguments.passes_of_ne]

/-- Where arguments end, the `~` of a pass at the end of the tag pays for the one
pass over stray arguments that takes nothing. -/
theorem RunsEnding.passes_arguments_le_of_ends (h : RunsEnding s log t)
    (hends : endsArguments s.current.kind) :
    Loop.arguments.passes log + t.upcoming.length ≤ s.upcoming.length := by
  induction h with
  | closed hclose =>
    have hle := (RunsEnding.closed hclose).suffix.length_le
    simpa using hle
  | unclosed hclose hunclosed =>
    have hle := (RunsEnding.unclosed hclose hunclosed).suffix.length_le
    simpa using hle
  | again hclose hunclosed harguments _ ih =>
    have hlt := length_readMark_lt_of_ends hends hclose hunclosed
    have hstray := harguments.passes_le
    have hmore := ih harguments.ends
    simp only [Loop.passes_cons, Loop.passes_append, reduceCtorEq, if_false]
    omega

/-- At the end of a tag, every pass of a loop but one is paid for with a symbol. -/
theorem RunsEnding.passes_le (h : RunsEnding s log t) (loop : Loop) :
    loop.passes log + t.upcoming.length ≤ s.upcoming.length + 1 := by
  induction h with
  | @closed s hclose =>
    have hle := (RunsEnding.closed hclose).suffix.length_le
    have hone : loop.passes [⟨.ending, s, none⟩] ≤ 1 := List.countP_le_length
    omega
  | @unclosed s hclose hunclosed =>
    have hle := (RunsEnding.unclosed hclose hunclosed).suffix.length_le
    have hone : loop.passes [⟨.ending, s, none⟩] ≤ 1 := List.countP_le_length
    omega
  | @again s t u log more hclose hunclosed harguments h ih =>
    have hlt := harguments.length_lt_of_readMark hclose hunclosed
    simp only [Loop.passes_cons, Loop.passes_append]
    by_cases hloop : loop = .arguments
    · -- The arguments may take nothing behind a `~`, but then the loop goes on where they end.
      subst hloop
      have hle := (@readMark_suffix .tilde s nofun).length_le
      have hstray := harguments.passes_le
      have hmore := h.passes_arguments_le_of_ends harguments.ends
      simp only [reduceCtorEq, if_false]
      omega
    · have hnone := harguments.passes_of_ne hloop
      split <;> omega

theorem RunsEnding.progresses (h : RunsEnding s log t) {pass : Pass} (hpass : pass ∈ log) :
    pass.Progresses := by
  induction h with
  | closed | unclosed =>
    rw [List.mem_singleton.1 hpass]
    exact Pass.progresses_of_returns _ _
  | again hclose hunclosed harguments _ ih =>
    rcases List.mem_cons.1 hpass with rfl | hpass
    · rintro next ⟨⟩
      exact exists_taken (harguments.suffix.trans (readMark_suffix _ nofun))
        (harguments.length_lt_of_readMark hclose hunclosed)
    · rcases List.mem_append.1 hpass with hpass | hpass
      · exact harguments.progresses hpass
      · exact ih hpass

end ending

section tag

variable {kind : TagKind} {s t : SymbolStream} {log : List Pass}

theorem Tag.rest_read (kind : TagKind) (s : SymbolStream) : (Tag.read kind s).2 =
    (readEnding s.current.kind.isRaw false (Tag.readBody kind (Tag.afterMarks kind s)).rest).rest :=
  rfl

/-- The loops inside a tag come to an end, whatever the stream. -/
theorem exists_runsTag (kind : TagKind) (s : SymbolStream) :
    ∃ log, RunsTag kind s log (Tag.read kind s).2 := by
  by_cases hkind : kind = .comment
  · subst hkind
    obtain ⟨log, h⟩ := exists_runsEnding s.current.kind.isRaw false
      (Tag.readComment (Tag.afterMarks .comment s)).rest
    exact ⟨log, .comment h⟩
  · obtain ⟨log, harguments⟩ := exists_runsArguments (Tag.afterMarks kind s).takeRun.2
    obtain ⟨more, h⟩ := exists_runsEnding s.current.kind.isRaw false
      (Tag.afterMarks kind s).takeRun.2.readArguments.2
    rw [Tag.rest_read, Tag.readBody_of_ne_comment hkind]
    exact ⟨log ++ more, .named hkind harguments h⟩

theorem RunsTag.eq_read (h : RunsTag kind s log t) : t = (Tag.read kind s).2 := by
  cases h with
  | comment h => exact h.eq_readEnding _ _
  | named hkind harguments h =>
    rw [Tag.rest_read, Tag.readBody_of_ne_comment hkind]
    change _ = (readEnding _ _ (Tag.afterMarks kind s).takeRun.2.readArguments.2).rest
    rw [← harguments.eq_readArguments]
    exact h.eq_readEnding _ _

theorem Tag.length_afterMarks_lt (kind : TagKind) (hend : ¬ s.current.isEnd) :
    (Tag.afterMarks kind s).upcoming.length < s.upcoming.length := by
  have hmarker := (Tag.readMarker_suffix kind (s.advance.readMark .tilde).2).length_le
  have htilde := (@readMark_suffix .tilde s.advance nofun).length_le
  have hdelimiter := length_upcoming_advance hend
  exact Nat.lt_of_le_of_lt (Nat.le_trans hmarker htilde) hdelimiter

theorem RunsTag.passes_content (h : RunsTag kind s log t) : Loop.content.passes log = 0 := by
  cases h with
  | comment h => exact h.passes_content
  | named hkind harguments h => simp [harguments.passes_of_ne, h.passes_content]

/-- The opening delimiter of a tag pays for the pass with which each loop inside
the tag returns. -/
theorem RunsTag.passes_le (h : RunsTag kind s log t) (hend : ¬ s.current.isEnd) (loop : Loop) :
    loop.passes log + t.upcoming.length ≤ s.upcoming.length := by
  have hmarks := Tag.length_afterMarks_lt kind hend
  cases h with
  | comment h =>
    have hbody := (Tag.readBody_suffix .comment (Tag.afterMarks .comment s)).length_le
    have hending := h.passes_le loop
    change _ ≤ (Tag.readBody .comment _).rest.upcoming.length + 1 at hending
    omega
  | named hkind harguments h =>
    have hname := (takeRun_suffix (Tag.afterMarks kind s)).length_le
    rw [Loop.passes_append]
    by_cases hloop : loop = .arguments
    · subst hloop
      have hbody := harguments.passes_le
      have hending := h.passes_arguments_le_of_ends harguments.ends
      omega
    · have hbody := harguments.suffix.length_le
      have hnone := harguments.passes_of_ne hloop
      have hending := h.passes_le loop
      omega

theorem RunsTag.progresses (h : RunsTag kind s log t) {pass : Pass} (hpass : pass ∈ log) :
    pass.Progresses := by
  cases h with
  | comment h => exact h.progresses hpass
  | named hkind harguments h =>
    rcases List.mem_append.1 hpass with hpass | hpass
    · exact harguments.progresses hpass
    · exact h.progresses hpass

end tag

end BraceTemplate
