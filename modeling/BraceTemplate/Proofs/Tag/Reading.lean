import BraceTemplate.Proofs.Symbol.Taking
import BraceTemplate.Proofs.Tag.Cover
import BraceTemplate.Tag.Basic

/-!
# What reading a tag takes

A tag takes the symbols up to and with its closing delimiter, and where another
tag is opened or the source ends before that, the symbols up to there. Its spans
cover them. Nothing in between is a delimiter, whatever the tag holds, and what
a tag finds wrong concerns the tag alone.
-/

namespace BraceTemplate

theorem Symbol.not_isEnd_of_isMarkup {s : Symbol} (h : s.kind.isMarkup = true) : ¬ s.isEnd := by
  intro hend
  rw [kind_of_isEnd hend] at h
  cases h

/-- The symbols of a tag behind its opening delimiter. -/
def Tag.extent : List Symbol → List Symbol
  | [] => []
  | s :: rest =>
    if s.kind.isOpenDelimiter then []
    else if s.kind.isCloseDelimiter then [s]
    else s :: extent rest

theorem Tag.extent_append {inner : List Symbol} (h : ∀ s ∈ inner, s.kind.isDelimiter = false)
    (rest : List Symbol) : extent (inner ++ rest) = inner ++ extent rest := by
  induction inner with
  | nil => rfl
  | cons s inner ih =>
    have hs := SymbolKind.isDelimiter_eq_false.1 (h s List.mem_cons_self)
    rw [List.cons_append, extent, hs.1, hs.2, ih fun x hx => h x (List.mem_cons_of_mem s hx)]
    rfl

theorem Tag.isOpenDelimiter_of_mem_extent {symbols : List Symbol} {s : Symbol}
    (h : s ∈ extent symbols) : s.kind.isOpenDelimiter = false := by
  induction symbols with
  | nil => cases h
  | cons first rest ih =>
    rw [extent] at h
    split at h
    · cases h
    · rename_i hopen
      have hfirst : first.kind.isOpenDelimiter = false := by simpa using hopen
      split at h
      · rw [List.mem_singleton.1 h]
        exact hfirst
      · rcases List.mem_cons.1 h with rfl | h
        · exact hfirst
        · exact ih h

namespace Problem

/-- Whether the problem is one of a single tag, whatever is open around it. -/
def isTagLevel : Problem → Bool
  | unclosedTag | mismatchedDelimiter | unexpectedSymbol => true
  | _ => false

end Problem

namespace SymbolStream

/-- Spans are read from symbols that a stream hands out, none of which is a
delimiter. -/
def ReadsInside (s : SymbolStream) (spans : List Span) (t : SymbolStream) : Prop :=
  ∃ taken, Takes s taken t ∧ Span.Covers spans taken ∧ ∀ x ∈ taken, x.kind.isDelimiter = false

theorem ReadsInside.refl (s : SymbolStream) : ReadsInside s [] s :=
  ⟨[], .none s, .nil, fun _ h => nomatch h⟩

theorem ReadsInside.trans {s t u : SymbolStream} {spans more : List Span}
    (h : ReadsInside s spans t) (hmore : ReadsInside t more u) :
    ReadsInside s (spans ++ more) u := by
  obtain ⟨taken, htakes, hcovers, hinside⟩ := h
  obtain ⟨taken', htakes', hcovers', hinside'⟩ := hmore
  refine ⟨taken ++ taken', htakes.trans htakes', hcovers.append hcovers', ?_⟩
  intro x hx
  rcases List.mem_append.1 hx with hx | hx
  · exact hinside x hx
  · exact hinside' x hx

/-- Symbols of one group that are no delimiters. -/
theorem readsInside_of_takes {s t : SymbolStream} {group : List Symbol} {kind : SpanKind}
    (h : Takes s group t) (hfits : Span.Fits kind group)
    (hinside : ∀ x ∈ group, x.kind.isDelimiter = false) :
    ReadsInside s (Span.cover? kind group).toList t :=
  ⟨group, h, .one hfits, hinside⟩

theorem readMark_readsInside {kind : SymbolKind} (s : SymbolStream)
    (hmarkup : kind.isMarkup = true) (hinside : kind.isDelimiter = false) :
    ReadsInside s (s.readMark kind).1 (s.readMark kind).2 := by
  by_cases h : s.current.kind = kind
  · have hend := Symbol.not_isEnd_of_isMarkup (h ▸ hmarkup)
    simp only [readMark, h, if_true]
    refine readsInside_of_takes (.one hend) ⟨s.current, rfl, by rw [h]; exact hmarkup⟩ ?_
    intro x hx
    rw [List.mem_singleton.1 hx, h]
    exact hinside
  · rw [readMark_of_ne h]
    exact .refl s

theorem takeBlanks_readsInside (s : SymbolStream) :
    ReadsInside s (Span.cover? .whiteSpace s.takeBlanks.1).toList s.takeBlanks.2 := by
  have hall : ∀ x ∈ s.takeBlanks.1, x.kind = .whitespace := by
    intro x hx
    exact beq_iff_eq.1 (takeWhile_all (p := (· == .whitespace)) hx)
  refine readsInside_of_takes (takeWhile_takes _ s) hall ?_
  intro x hx
  rw [hall x hx]
  rfl

/-- Runs hold no delimiters. -/
theorem isDelimiter_of_mem_takeRun {s : SymbolStream} {x : Symbol} (h : x ∈ s.takeRun.1) :
    x.kind.isDelimiter = false := by
  rw [takeRun, takeBy_fst] at h
  obtain ⟨nesting, hstep⟩ := exists_step_of_mem_cutBy _ h
  by_contra hdelimiter
  have hstops : nesting.stopsAt x.kind = true := by
    rw [Bool.not_eq_false, SymbolKind.isDelimiter] at hdelimiter
    rw [Nesting.stopsAt, hdelimiter, Bool.true_or]
  rw [Nesting.step, hstops] at hstep
  cases hstep

theorem takeRun_readsInside {kind : SpanKind} (s : SymbolStream)
    (hkind : kind = .expression ∨ kind = .parameter ∨ kind = .map) :
    ReadsInside s (Span.cover? kind s.takeRun.1).toList s.takeRun.2 := by
  have hinside : ∀ x ∈ s.takeRun.1, x.kind.isDelimiter = false :=
    fun _ => isDelimiter_of_mem_takeRun
  refine readsInside_of_takes (takeBy_takes _ _ s) ?_ hinside
  rcases hkind with rfl | rfl | rfl <;> exact hinside

theorem readArguments_readsInside (s : SymbolStream) :
    ReadsInside s (readArguments s).1 (readArguments s).2 := by
  induction s using readArguments_induct with
  | ends s hends =>
    rw [readArguments_of_ends hends]
    exact takeBlanks_readsInside s
  | run s hends ih =>
    have hrun : ReadsInside s.takeBlanks.2 (argument? s.takeBlanks.2.takeRun.1).toList
        s.takeBlanks.2.takeRun.2 := by
      refine takeRun_readsInside s.takeBlanks.2 ?_
      by_cases hkeyed : isKeyed s.takeBlanks.2.takeRun.1
      · exact .inr (.inr (if_pos hkeyed))
      · exact .inr (.inl (if_neg hkeyed))
    rw [readArguments_of_not_ends hends]
    exact ((takeBlanks_readsInside s).trans hrun).trans ih

/-- Blanks and arguments are all that is found between the name and the end. -/
theorem kind_of_mem_readArguments {s : SymbolStream} {span : Span}
    (h : span ∈ (readArguments s).1) :
    span.kind = .whiteSpace ∨ span.kind = .parameter ∨ span.kind = .map := by
  induction s using readArguments_induct with
  | ends s hends =>
    rw [readArguments_of_ends hends] at h
    exact .inl (Span.kind_of_mem_cover? h)
  | run s hends ih =>
    rw [readArguments_of_not_ends hends] at h
    rcases List.mem_append.1 h with h | h
    · rcases List.mem_append.1 h with h | h
      · exact .inl (Span.kind_of_mem_cover? h)
      · have hkind := Span.kind_of_mem_cover? h
        by_cases hkeyed : isKeyed s.takeBlanks.2.takeRun.1
        · exact .inr (.inr (hkind.trans (if_pos hkeyed)))
        · exact .inr (.inl (hkind.trans (if_neg hkeyed)))
    · exact ih h

/-- Reading to the end of a tag takes the rest of the tag. -/
theorem readEnding_takes (raw reported : Bool) (s : SymbolStream) :
    Takes s (Tag.extent s.upcoming) (readEnding raw reported s).rest ∧
      Span.Covers (readEnding raw reported s).spans (Tag.extent s.upcoming) := by
  fun_induction readEnding raw reported s with
  | case1 reported s tilde symbol hclose last =>
    obtain ⟨taken, htakes, hcovers, hinside⟩ :=
      @readMark_readsInside .tilde s rfl rfl
    have hend : ¬ tilde.2.current.isEnd := Symbol.not_isEnd_of_isCloseDelimiter hclose
    have hopen := SymbolKind.not_isOpenDelimiter_of_isCloseDelimiter hclose
    have hrest : Tag.extent tilde.2.upcoming = [symbol] := by
      rw [upcoming_of_not_isEnd hend, Tag.extent, if_neg (by simp [symbol, hopen]), if_pos hclose]
    rw [htakes.upcoming, Tag.extent_append hinside, hrest]
    have hfits : Span.Fits .metaCode [symbol] :=
      ⟨symbol, rfl, by simp [SymbolKind.isMarkup, SymbolKind.isDelimiter, hclose]⟩
    exact ⟨htakes.trans (.one hend), hcovers.append (.one hfits)⟩
  | case2 reported s tilde symbol hclose hunclosed =>
    obtain ⟨taken, htakes, hcovers, hinside⟩ :=
      @readMark_readsInside .tilde s rfl rfl
    have hrest : Tag.extent tilde.2.upcoming = [] := by
      by_cases hend : tilde.2.current.isEnd
      · rw [upcoming_of_isEnd hend]
        rfl
      · have hopen : symbol.kind.isOpenDelimiter = true := by
          rw [leavesUnclosed, Bool.or_eq_true] at hunclosed
          exact hunclosed.resolve_left (by simpa [Symbol.isEnd] using hend)
        rw [upcoming_of_not_isEnd hend, Tag.extent, if_pos hopen]
    rw [htakes.upcoming, Tag.extent_append hinside, hrest, List.append_nil]
    exact ⟨htakes, hcovers⟩
  | case3 reported s tilde symbol hclose hunclosed stray arguments more ih =>
    obtain ⟨taken, htakes, hcovers, hinside⟩ :=
      (@readMark_readsInside .tilde s rfl rfl).trans (readArguments_readsInside _)
    rw [htakes.upcoming, Tag.extent_append hinside]
    exact ⟨htakes.trans ih.1, hcovers.append ih.2⟩

theorem kind_of_mem_readMark {kind : SymbolKind} {s : SymbolStream} {span : Span}
    (h : span ∈ (s.readMark kind).1) : span.kind = .metaCode := by
  rw [readMark] at h
  split at h
  · exact Span.kind_of_mem_cover? h
  · cases h

/-- Neither names nor comments are found at the end of a tag. -/
theorem kind_of_mem_readEnding {raw reported : Bool} {s : SymbolStream} {span : Span}
    (h : span ∈ (readEnding raw reported s).spans) :
    span.kind = .metaCode ∨ span.kind = .whiteSpace ∨ span.kind = .parameter ∨
      span.kind = .map := by
  fun_induction readEnding raw reported s with
  | case1 reported s tilde symbol hclose last =>
    rcases List.mem_append.1 h with h | h
    · exact .inl (kind_of_mem_readMark h)
    · exact .inl (Span.kind_of_mem_cover? h)
  | case2 => exact .inl (kind_of_mem_readMark h)
  | case3 reported s tilde symbol hclose hunclosed stray arguments more ih =>
    rcases List.mem_append.1 h with h | h
    · rcases List.mem_append.1 h with h | h
      · exact .inl (kind_of_mem_readMark h)
      · exact .inr (kind_of_mem_readArguments h)
    · exact ih h

theorem isTagLevel_of_mem_readEnding {raw reported : Bool} {s : SymbolStream} {d : Diagnostic}
    (h : d ∈ (readEnding raw reported s).problems) : d.problem.isTagLevel = true := by
  fun_induction readEnding raw reported s with
  | case1 reported s tilde symbol hclose last =>
    change d ∈ (readDelimiter raw tilde.2).problems at h
    rw [readDelimiter] at h
    split at h
    · cases h
    · rw [List.mem_singleton.1 h]
      rfl
  | case2 =>
    rw [List.mem_singleton.1 h]
    rfl
  | case3 reported s tilde symbol hclose hunclosed stray arguments more ih =>
    rcases List.mem_append.1 h with h | h
    · change d ∈ (if reported then [] else _) at h
      split at h
      · cases h
      · rw [List.mem_singleton.1 h]
        rfl
    · exact ih h

end SymbolStream

namespace Tag

open SymbolStream

theorem readMarker_readsInside (kind : TagKind) (s : SymbolStream) :
    ReadsInside s (readMarker kind s).1 (readMarker kind s).2 := by
  cases kind with
  | expression => exact .refl s
  | _ => exact readMark_readsInside s rfl rfl

theorem readBody_readsInside (kind : TagKind) (s : SymbolStream) :
    ReadsInside s (readBody kind s).spans (readBody kind s).rest := by
  have hnamed : ReadsInside s (readNamed s).spans (readNamed s).rest :=
    (takeRun_readsInside s (.inl rfl)).trans (readArguments_readsInside _)
  cases kind with
  | comment =>
    have hall : ∀ x ∈ (s.takeWhile (· == .comment)).1, x.kind = .comment :=
      fun x hx => beq_iff_eq.1 (takeWhile_all (p := (· == .comment)) hx)
    refine readsInside_of_takes (takeWhile_takes _ s) hall ?_
    intro x hx
    rw [hall x hx]
    rfl
  | _ => exact hnamed

/-- A tag takes its opening delimiter and its extent, and its spans cover both. -/
theorem read_takes (kind : TagKind) {s : SymbolStream} (hopen : s.current.kind.isOpenDelimiter) :
    Takes s (s.current :: extent s.advance.upcoming) (read kind s).2 ∧
      Span.Covers (read kind s).1.spans (s.current :: extent s.advance.upcoming) := by
  have hend := Symbol.not_isEnd_of_isOpenDelimiter hopen
  obtain ⟨taken, htakes, hcovers, hinside⟩ :=
    ((@readMark_readsInside .tilde s.advance rfl rfl).trans
      (readMarker_readsInside kind _)).trans (readBody_readsInside kind _)
  have hending := readEnding_takes s.current.kind.isRaw false
    (readBody kind (readMarker kind (s.advance.readMark .tilde).2).2).rest
  have hfits : Span.Fits .metaCode [s.current] :=
    ⟨s.current, rfl, by simp [SymbolKind.isMarkup, SymbolKind.isDelimiter, hopen]⟩
  rw [htakes.upcoming, extent_append hinside]
  refine ⟨.next hend (htakes.trans hending.1), ?_⟩
  have h := (Span.Covers.one hfits).append (hcovers.append hending.2)
  simpa only [read, List.append_assoc, List.singleton_append] using h

theorem isTagLevel_of_mem_problems {kind : TagKind} {s : SymbolStream} {d : Diagnostic}
    (h : d ∈ (read kind s).1.problems) : d.problem.isTagLevel = true :=
  isTagLevel_of_mem_readEnding h

end Tag

end BraceTemplate
