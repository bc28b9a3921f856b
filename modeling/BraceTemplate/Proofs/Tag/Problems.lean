import BraceTemplate.Proofs.Openings
import BraceTemplate.Proofs.Symbol.Delimiters

/-!
# What tags report

What is wrong with a tag is told by the symbols behind its opening delimiter:
the first delimiter among them tells whether the tag is closed and by what, and
the symbol behind the first `~` whether something stands in the wrong place. No
nesting of arguments is looked at but to find that `~`.
-/

namespace BraceTemplate

namespace Tag

/-- Where a tag is found not to be closed: at the next opening delimiter or the
end, whichever is in front of any closing delimiter. -/
def unclosedAt? (stop : Nat) (behind : List Symbol) : Option Location :=
  match behind.find? (·.kind.isDelimiter) with
  | none => some (.point stop)
  | some s => if s.kind.isOpenDelimiter then some s.location else none

/-- Where a tag is closed by the other closing delimiter. -/
def mismatchedAt? (raw : Bool) (behind : List Symbol) : Option Location :=
  match behind.find? (·.kind.isDelimiter) with
  | none => none
  | some s => if s.kind.isCloseDelimiter = true ∧ raw ≠ s.kind.isRaw then some s.location else none

/-- The symbol behind the first `~` of a tag that is not nested, unless it is a
delimiter. -/
def strayIn? (nesting : Nesting) : List Symbol → Option Symbol
  | [] => none
  | s :: rest =>
    if s.kind.isDelimiter then none
    else if s.kind = .tilde ∧ nesting.isNested = false then
      rest.head?.filter fun t => !t.kind.isDelimiter
    else strayIn? (nesting.after s.kind) rest

/-- The symbols behind the marks at the front of a tag. -/
def behindMarks (behind : List Symbol) : List Symbol :=
  match Heading.kindOf behind with
  | .expression => Heading.behindMark .tilde behind
  | .blockOpen | .blockClose | .comment => (Heading.behindMark .tilde behind).tail

/-- What stands between a `~` of a tag and its end. -/
def stray? (behind : List Symbol) : Option Symbol := strayIn? {} (behindMarks behind)

/-- What is told of the end of a tag. -/
def endProblems (stop : Nat) (raw : Bool) (behind : List Symbol) : List Diagnostic :=
  (unclosedAt? stop behind).toList.map (⟨.unclosedTag, ·⟩) ++
    (mismatchedAt? raw behind).toList.map (⟨.mismatchedDelimiter, ·⟩)

def strayProblems (stray : Option Symbol) : List Diagnostic :=
  stray.toList.map fun s => ⟨.unexpectedSymbol, s.location⟩

end Tag

/-- What is told of the tag at an opening delimiter. -/
def Opening.problems (stop : Nat) (o : Opening) : List Diagnostic :=
  Tag.strayProblems (Tag.stray? o.behind) ++
    Tag.endProblems stop o.delimiter.kind.isRaw o.behind

namespace Tag

open SymbolStream Heading

variable {s : SymbolStream} {stop : Nat} {raw : Bool}

section End
variable {x : Symbol} {rest : List Symbol}

theorem find?_of_isDelimiter (h : x.kind.isDelimiter = true) :
    (x :: rest).find? (·.kind.isDelimiter) = some x := List.find?_cons_of_pos h

theorem find?_of_not_isDelimiter (h : x.kind.isDelimiter = false) :
    (x :: rest).find? (·.kind.isDelimiter) = rest.find? (·.kind.isDelimiter) :=
  List.find?_cons_of_neg (by simp [h])

theorem unclosedAt?_open (h : x.kind.isOpenDelimiter = true) :
    unclosedAt? stop (x :: rest) = some x.location := by
  rw [unclosedAt?, find?_of_isDelimiter (by rw [SymbolKind.isDelimiter, h, Bool.true_or])]
  exact if_pos h

theorem unclosedAt?_close (h : x.kind.isCloseDelimiter = true) :
    unclosedAt? stop (x :: rest) = none := by
  rw [unclosedAt?, find?_of_isDelimiter (by rw [SymbolKind.isDelimiter, h, Bool.or_true])]
  exact if_neg (by simp [SymbolKind.not_isOpenDelimiter_of_isCloseDelimiter h])

theorem unclosedAt?_inside (h : x.kind.isDelimiter = false) :
    unclosedAt? stop (x :: rest) = unclosedAt? stop rest := by
  rw [unclosedAt?, unclosedAt?, find?_of_not_isDelimiter h]

theorem mismatchedAt?_open (h : x.kind.isOpenDelimiter = true) :
    mismatchedAt? raw (x :: rest) = none := by
  rw [mismatchedAt?, find?_of_isDelimiter (by rw [SymbolKind.isDelimiter, h, Bool.true_or])]
  exact if_neg (by simp [SymbolKind.not_isCloseDelimiter_of_isOpenDelimiter h])

theorem mismatchedAt?_close (h : x.kind.isCloseDelimiter = true) :
    mismatchedAt? raw (x :: rest) = if raw = x.kind.isRaw then none else some x.location := by
  rw [mismatchedAt?, find?_of_isDelimiter (by rw [SymbolKind.isDelimiter, h, Bool.or_true])]
  by_cases hraw : raw = x.kind.isRaw <;> simp [h, hraw]

theorem mismatchedAt?_inside (h : x.kind.isDelimiter = false) :
    mismatchedAt? raw (x :: rest) = mismatchedAt? raw rest := by
  rw [mismatchedAt?, mismatchedAt?, find?_of_not_isDelimiter h]

theorem endProblems_nil : endProblems stop raw [] = [⟨.unclosedTag, .point stop⟩] := rfl

theorem endProblems_open (h : x.kind.isOpenDelimiter = true) :
    endProblems stop raw (x :: rest) = [⟨.unclosedTag, x.location⟩] := by
  rw [endProblems, unclosedAt?_open h, mismatchedAt?_open h]
  rfl

theorem endProblems_close (h : x.kind.isCloseDelimiter = true) :
    endProblems stop raw (x :: rest) =
      if raw = x.kind.isRaw then [] else [⟨.mismatchedDelimiter, x.location⟩] := by
  rw [endProblems, unclosedAt?_close h, mismatchedAt?_close h]
  split <;> rfl

theorem endProblems_append {inner : List Symbol} (h : ∀ x ∈ inner, x.kind.isDelimiter = false)
    (rest : List Symbol) : endProblems stop raw (inner ++ rest) = endProblems stop raw rest := by
  induction inner with
  | nil => rfl
  | cons x inner ih =>
    have hx := h x List.mem_cons_self
    rw [List.cons_append, endProblems, unclosedAt?_inside hx, mismatchedAt?_inside hx]
    exact ih fun y hy => h y (List.mem_cons_of_mem x hy)

end End

/-! ### Finding the stray symbol -/

/-- The symbol behind a `~` in front, unless it is a delimiter. -/
def strayAfterMark? (symbols : List Symbol) : Option Symbol :=
  (behindMark .tilde symbols).head?.filter fun t => !t.kind.isDelimiter

/-- Outside of nesting nothing is open. -/
theorem nesting_eq_empty {n : Nesting} (h : n.isNested = false) : n = {} := by
  obtain ⟨parens, brackets, inPipes⟩ := n
  simp only [Nesting.isNested, Bool.or_eq_false_iff, bne_eq_false_iff_eq] at h
  obtain ⟨⟨rfl, rfl⟩, rfl⟩ := h
  rfl

/-- A run is passed as a whole: its nesting is over where it ends. -/
theorem strayIn?_cutBy (n : Nesting) (symbols : List Symbol) :
    strayIn? n symbols = strayIn? {} (cutBy Nesting.step n symbols).2 := by
  fun_induction cutBy Nesting.step n symbols with
  | case1 => rfl
  | case2 n x rest hstep =>
    have hstops : n.stopsAt x.kind = true := by
      by_contra hgoes
      rw [Nesting.step, if_neg hgoes] at hstep
      cases hstep
    by_cases hnested : n.isNested = false
    · rw [nesting_eq_empty hnested]
    · have hdelimiter : x.kind.isDelimiter = true := by
        rw [Bool.not_eq_false] at hnested
        simpa [Nesting.stopsAt, hnested, SymbolKind.isDelimiter] using hstops
      rw [strayIn?, strayIn?, if_pos hdelimiter, if_pos hdelimiter]
  | case3 n x rest n' hstep cut ih =>
    have hgoes : n.stopsAt x.kind = false := by
      by_contra hstops
      rw [Nesting.step, if_pos (by simpa using hstops)] at hstep
      cases hstep
    rw [Nesting.step, if_neg (by simp [hgoes])] at hstep
    simp only [Nesting.stopsAt, Bool.or_eq_false_iff, Bool.and_eq_false_iff] at hgoes
    have hdelimiter : x.kind.isDelimiter = false := SymbolKind.isDelimiter_eq_false.2 hgoes.1
    have htilde : ¬ (x.kind = .tilde ∧ n.isNested = false) := by
      rintro ⟨htilde, hnested⟩
      simp [htilde, hnested] at hgoes
    rw [strayIn?, if_neg (by simp [hdelimiter]), if_neg htilde, Option.some.inj hstep]
    exact ih

theorem strayIn?_takeRun (s : SymbolStream) :
    strayIn? {} s.upcoming = strayIn? {} s.takeRun.2.upcoming := by
  rw [takeRun, upcoming_takeBy]
  exact strayIn?_cutBy {} s.upcoming

/-- Neither blanks nor the text of a comment matter. -/
theorem strayIn?_dropWhile {kind : SymbolKind} (hkind : kind = .whitespace ∨ kind = .comment)
    (symbols : List Symbol) :
    strayIn? {} symbols = strayIn? {} (symbols.dropWhile (·.kind == kind)) := by
  induction symbols with
  | nil => rfl
  | cons x rest ih =>
    by_cases hx : x.kind = kind
    · rw [List.dropWhile_cons_of_pos (by simpa using hx), ← ih, strayIn?, hx]
      rcases hkind with rfl | rfl <;> rfl
    · rw [List.dropWhile_cons_of_neg (by simpa using hx)]

theorem strayIn?_takeBlanks (s : SymbolStream) :
    strayIn? {} s.upcoming = strayIn? {} s.takeBlanks.2.upcoming := by
  rw [takeBlanks, upcoming_takeWhile]
  exact strayIn?_dropWhile (.inl rfl) s.upcoming

theorem strayIn?_readArguments (s : SymbolStream) :
    strayIn? {} s.upcoming = strayIn? {} s.readArguments.2.upcoming := by
  induction s using readArguments_induct with
  | ends s hends =>
    rw [readArguments_of_ends hends]
    exact strayIn?_takeBlanks s
  | run s hends ih =>
    rw [readArguments_of_not_ends hends]
    exact ((strayIn?_takeBlanks s).trans (strayIn?_takeRun s.takeBlanks.2)).trans ih

theorem endsArguments_readArguments (s : SymbolStream) :
    endsArguments s.readArguments.2.current.kind = true := by
  induction s using readArguments_induct with
  | ends s hends =>
    rw [readArguments_of_ends hends]
    exact hends
  | run s hends ih =>
    rw [readArguments_of_not_ends hends]
    exact ih

/-- Where arguments end, the stray symbol is behind a `~` that is in front. -/
theorem strayIn?_of_ends (h : endsArguments s.current.kind = true) :
    strayIn? {} s.upcoming = strayAfterMark? s.upcoming := by
  cases hahead : s.upcoming with
  | nil => rfl
  | cons x rest =>
    obtain ⟨hend, rfl, -⟩ := current_of_upcoming hahead
    by_cases htilde : s.current.kind = .tilde
    · rw [strayIn?, strayAfterMark?, behindMark, htilde]
      rfl
    · have hdelimiter : s.current.kind.isDelimiter = true := by
        simpa [endsArguments, htilde, SymbolKind.isDelimiter,
          show s.current.kind ≠ .eof by simpa [Symbol.isEnd] using hend] using h
      rw [strayIn?, strayAfterMark?, behindMark, if_neg htilde, if_pos hdelimiter, List.head?_cons,
        Option.filter_some, hdelimiter]
      rfl

/-! ### Reading -/

/-- What is read inside a tag tells nothing of its end. -/
theorem endProblems_readsInside {t : SymbolStream} {spans : List Span}
    (h : ReadsInside s spans t) :
    endProblems stop raw s.upcoming = endProblems stop raw t.upcoming := by
  obtain ⟨taken, htakes, -, hinside⟩ := h
  rw [htakes.upcoming, endProblems_append hinside]

theorem endsAt_readsInside {t : SymbolStream} {spans : List Span} (hends : s.EndsAt stop)
    (h : ReadsInside s spans t) : t.EndsAt stop := by
  obtain ⟨taken, htakes, -⟩ := h
  exact hends.takes htakes

theorem strayAfterMark?_of_isEnd (h : (s.readMark .tilde).2.current.isEnd) :
    strayAfterMark? s.upcoming = none := by
  rw [strayAfterMark?, ← upcoming_readMark s (by simp), upcoming_of_isEnd h]
  rfl

theorem strayAfterMark?_of_not_isEnd (h : ¬ (s.readMark .tilde).2.current.isEnd) :
    strayAfterMark? s.upcoming =
      if (s.readMark .tilde).2.current.kind.isDelimiter then none
      else some (s.readMark .tilde).2.current := by
  rw [strayAfterMark?, ← upcoming_readMark s (by simp), upcoming_of_not_isEnd h, List.head?_cons,
    Option.filter_some]
  cases (s.readMark .tilde).2.current.kind.isDelimiter <;> rfl

/-- What the end of a tag reports is told by the symbols in front of it. -/
theorem problems_readEnding (reported : Bool) (hends : s.EndsAt stop) :
    (readEnding raw reported s).problems =
      (if reported then [] else strayProblems (strayAfterMark? s.upcoming)) ++
        endProblems stop raw s.upcoming := by
  fun_induction readEnding raw reported s with
  | case1 reported s tilde symbol hclose last =>
    have hmark := @readMark_readsInside .tilde s rfl rfl
    have hend : ¬ tilde.2.current.isEnd := Symbol.not_isEnd_of_isCloseDelimiter hclose
    rw [endProblems_readsInside hmark, upcoming_of_not_isEnd hend, endProblems_close hclose,
      strayAfterMark?_of_not_isEnd hend, SymbolKind.isDelimiter, hclose, Bool.or_true]
    cases reported <;> rfl
  | case2 reported s tilde symbol hclose hunclosed =>
    have hmark := @readMark_readsInside .tilde s rfl rfl
    rw [endProblems_readsInside hmark]
    by_cases hend : tilde.2.current.isEnd
    · have hstop := (endsAt_readsInside hends hmark).location_current hend
      rw [upcoming_of_isEnd hend, endProblems_nil, strayAfterMark?_of_isEnd hend, ← hstop]
      cases reported <;> rfl
    · have hopen : symbol.kind.isOpenDelimiter = true := by
        rw [leavesUnclosed, Bool.or_eq_true] at hunclosed
        exact hunclosed.resolve_left (by simpa [Symbol.isEnd] using hend)
      rw [upcoming_of_not_isEnd hend, endProblems_open hopen, strayAfterMark?_of_not_isEnd hend,
        SymbolKind.isDelimiter, hopen, Bool.true_or]
      cases reported <;> rfl
  | case3 reported s tilde symbol hclose hunclosed stray arguments more ih =>
    have hmark := (@readMark_readsInside .tilde s rfl rfl).trans
      (readArguments_readsInside _)
    obtain ⟨heof, hopen⟩ := Bool.or_eq_false_iff.1 (Bool.not_eq_true _ ▸ hunclosed)
    have hend : ¬ tilde.2.current.isEnd := by simpa [Symbol.isEnd] using heof
    have hdelimiter : symbol.kind.isDelimiter = false :=
      SymbolKind.isDelimiter_eq_false.2 ⟨hopen, Bool.not_eq_true _ ▸ hclose⟩
    rw [ih (endsAt_readsInside hends hmark), endProblems_readsInside hmark,
      strayAfterMark?_of_not_isEnd hend, hdelimiter]
    cases reported <;> rfl

/-- Reading a mark and the marker of a kind passes the marks of the tag. -/
theorem upcoming_readMarker_readMark (s : SymbolStream) :
    (readMarker (kindOf s.upcoming) (s.readMark .tilde).2).2.upcoming =
      behindMarks s.upcoming := by
  have hbehind := @upcoming_readMark .tilde s (by simp)
  obtain ⟨hmarked, hplain⟩ := upcoming_readMarker (kindOf_upcoming s)
  rw [hbehind] at hmarked hplain
  rw [behindMarks]
  cases hkind : kindOf s.upcoming with
  | expression =>
    rw [hkind] at hplain
    exact hplain rfl
  | _ =>
    rw [hkind] at hmarked
    exact hmarked (by simp)

/-- Nothing stands in the wrong place where a tag is closed. -/
theorem stray_of_closes {symbols : List Symbol} (h : Closes raw symbols) :
    strayAfterMark? symbols = none ∧ strayIn? {} symbols = none := by
  have hclosing : ∀ {x : Symbol}, x.kind.isCloseDelimiter = true → x.kind.isDelimiter = true := by
    intro x hx
    rw [SymbolKind.isDelimiter, hx, Bool.or_true]
  cases symbols with
  | nil => exact ⟨rfl, rfl⟩
  | cons x rest =>
    rcases h with ⟨hclose, -⟩ | ⟨htilde, y, hy, hclose, -⟩
    · have htilde : x.kind ≠ .tilde := by
        intro htilde
        rw [htilde] at hclose
        cases hclose
      rw [strayAfterMark?, behindMark, if_neg htilde, strayIn?, hclosing hclose, if_pos rfl,
        List.head?_cons, Option.filter_some, hclosing hclose]
      exact ⟨rfl, rfl⟩
    · have hfilter : rest.head?.filter (fun t => !t.kind.isDelimiter) = none := by
        rw [Option.mem_def.1 hy, Option.filter_some, hclosing hclose]
        rfl
      rw [strayAfterMark?, behindMark, if_pos htilde, strayIn?, htilde]
      exact ⟨hfilter, hfilter⟩

/-- Behind its marks a comment has its text and is closed. -/
theorem closes_of_comment {behind : List Symbol} (hcomments : CommentsClose behind)
    (hkind : kindOf behind = .comment) :
    ∃ raw, Closes raw (behindComment (behindMarks behind)) := by
  have hfront : CommentsClose (behindMark .tilde behind) := by
    cases behind with
    | nil => exact hcomments
    | cons x rest =>
      rw [behindMark]
      split
      · exact hcomments.2
      · exact hcomments
  rw [behindMarks, hkind]
  rw [kindOf] at hkind
  cases hmarks : behindMark .tilde behind with
  | nil => rw [hmarks] at hkind; cases hkind
  | cons x rest =>
    rw [hmarks] at hkind hfront
    exact hfront.1 (TagKind.current_kind_of_ofMarker.2.2 hkind)

/-- In comments nothing stands in the wrong place. -/
theorem stray?_comment {behind : List Symbol} (hcomments : CommentsClose behind)
    (hkind : kindOf behind = .comment) : stray? behind = none := by
  obtain ⟨raw, hcloses⟩ := closes_of_comment hcomments hkind
  rw [stray?, strayIn?_dropWhile (.inr rfl)]
  exact (stray_of_closes hcloses).2

/-- Behind the body of a tag the stray symbol is the one behind a `~` in
front. -/
theorem strayAfterMark?_readBody (hcomments : CommentsClose s.upcoming) :
    let marker := readMarker (kindOf s.upcoming) (s.readMark .tilde).2
    strayAfterMark? (readBody (kindOf s.upcoming) marker.2).rest.upcoming =
      stray? s.upcoming := by
  intro marker
  have hmarks : marker.2.upcoming = behindMarks s.upcoming := upcoming_readMarker_readMark s
  have hnamed : strayAfterMark? (readNamed marker.2).rest.upcoming = stray? s.upcoming := by
    change strayAfterMark? marker.2.takeRun.2.readArguments.2.upcoming = _
    rw [stray?, ← hmarks, strayIn?_takeRun, strayIn?_readArguments,
      strayIn?_of_ends (endsArguments_readArguments _)]
  cases hkind : kindOf s.upcoming with
  | comment =>
    obtain ⟨raw, hcloses⟩ := closes_of_comment hcomments hkind
    have hrest : (readBody .comment marker.2).rest.upcoming =
        behindComment (behindMarks s.upcoming) := by
      rw [← hmarks]
      exact upcoming_takeWhile _ marker.2
    rw [hrest, (stray_of_closes hcloses).1, stray?_comment hcomments hkind]
  | _ => exact hnamed

/-- A tag reports what the symbols behind its delimiter tell. -/
theorem ReadAt.problems {o : Opening} {tag : Tag} (h : ReadAt stop o tag)
    (hcomments : CommentsClose o.behind) : tag.problems = o.problems stop := by
  obtain ⟨s, hends, hdelimiter, hbehind, rfl⟩ := h
  have hread := ((@readMark_readsInside .tilde s.advance rfl rfl).trans
    (readMarker_readsInside (kindOf o.behind) _)).trans (readBody_readsInside (kindOf o.behind) _)
  rw [← hbehind] at hcomments hread ⊢
  change (readEnding s.current.kind.isRaw false
    (readBody (kindOf s.advance.upcoming) (readMarker (kindOf s.advance.upcoming)
      (s.advance.readMark .tilde).2).2).rest).problems = _
  rw [problems_readEnding false (endsAt_readsInside hends.advance hread),
    strayAfterMark?_readBody hcomments, ← endProblems_readsInside hread, hdelimiter, hbehind]
  rfl

end Tag

theorem commentsClose_of_mem_openings {source : String} {o : Opening}
    (h : o ∈ openings (symbols source)) : CommentsClose o.behind := by
  obtain ⟨front, hsymbols⟩ := exists_append_of_mem_openings h
  have hall := Scanner.commentsClose_symbols (.ofSource source)
  change CommentsClose (symbols source) at hall
  rw [hsymbols] at hall
  exact hall.of_append.2

end BraceTemplate
