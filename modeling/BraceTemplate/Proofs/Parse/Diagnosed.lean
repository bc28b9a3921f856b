import BraceTemplate.Proofs.Builder.Reporting
import BraceTemplate.Proofs.Tag.Problems

/-!
# Parses and their tags

What a parse tells of single tags is told by the symbols of its source alone, in
the order of the opening delimiters. So the delimiters can be counted, and the
pairs that do not match are found without looking at tags at all.
-/

namespace BraceTemplate

/-- Where the plain closing delimiters stand whose most recent opening delimiter
has three braces. -/
def mismatchesIn (raw : Bool) : List Symbol → List Location
  | [] => []
  | s :: rest =>
    if s.kind.isOpenDelimiter then mismatchesIn s.kind.isRaw rest
    else if s.kind = .closeDelimiter ∧ raw = true then s.location :: mismatchesIn raw rest
    else mismatchesIn raw rest

/-- The diagnostics about single tags, told by the symbols of a source. -/
structure TagDiagnostics (source : String) (ds : List Diagnostic) : Prop where
  inOrder : Diagnostic.ofTags ds =
    (openings (symbols source)).flatMap (Opening.problems (Text.byteLength source.toList))
  unclosed : ds.filter (·.problem == .unclosedTag) =
    ((openings (symbols source)).filterMap fun o =>
      Tag.unclosedAt? (Text.byteLength source.toList) o.behind).map (⟨.unclosedTag, ·⟩)
  balanced : (symbols source).countP (·.kind.isOpenDelimiter) =
    (symbols source).countP (·.kind.isCloseDelimiter) + ds.countP (·.problem == .unclosedTag)
  mismatched : ds.filter (·.problem == .mismatchedDelimiter) =
    (mismatchesIn false (symbols source)).map (⟨.mismatchedDelimiter, ·⟩)
  plain : ∀ o ∈ openings (symbols source), o.delimiter.kind = .openDelimiter →
    Tag.mismatchedAt? o.delimiter.kind.isRaw o.behind = none
  unexpected : ds.filter (·.problem == .unexpectedSymbol) =
    ((openings (symbols source)).filterMap fun o => Tag.stray? o.behind).map fun s =>
      ⟨.unexpectedSymbol, s.location⟩
  comment : ∀ o ∈ openings (symbols source), Heading.kindOf o.behind = .comment →
    Tag.stray? o.behind = none

namespace Bracketed

variable {inside : Option Bool} {symbols rest : List Symbol} {s : Symbol} {raw : Bool}

/-- What is found at the ends of tags that are ahead: that of the tag which the
symbols start in, and those of the tags that are opened in them. -/
def atEnds {α : Type} (find? : Bool → List Symbol → Option α) (inside : Option Bool)
    (symbols : List Symbol) : List α :=
  inside.toList.filterMap (find? · symbols) ++
    (openings symbols).filterMap fun o => find? o.delimiter.kind.isRaw o.behind

section AtEnds
variable {α : Type} {find? : Bool → List Symbol → Option α}

theorem atEnds_open (h : s.kind.isOpenDelimiter = true) :
    atEnds find? inside (s :: rest) =
      inside.toList.filterMap (find? · (s :: rest)) ++
        atEnds find? (some s.kind.isRaw) rest := by
  rw [atEnds, openings_cons h, List.append_cancel_left_eq, ← List.singleton_append,
    List.filterMap_append]
  rfl

theorem atEnds_other (h : s.kind.isOpenDelimiter = false) :
    atEnds find? inside (s :: rest) =
      inside.toList.filterMap (find? · (s :: rest)) ++ atEnds find? none rest := by
  rw [atEnds, openings, h]
  rfl

/-- Symbols that tell nothing of the end may be left out. -/
theorem atEnds_inside (h : s.kind.isDelimiter = false)
    (hfind : ∀ raw, find? raw (s :: rest) = find? raw rest) :
    atEnds find? inside (s :: rest) = atEnds find? inside rest := by
  rw [atEnds_other (SymbolKind.isDelimiter_eq_false.1 h).1]
  simp only [hfind]
  rfl

end AtEnds

/-- Every tag is closed or not, so the opening delimiters are as many as the
closing ones and the tags that are not closed. -/
theorem countP_open (stop : Nat) (h : Bracketed inside symbols) :
    symbols.countP (·.kind.isOpenDelimiter) + inside.toList.length =
      symbols.countP (·.kind.isCloseDelimiter) +
        (atEnds (fun _ => Tag.unclosedAt? stop) inside symbols).length := by
  induction h with
  | nil inside => cases inside <;> rfl
  | @cons inside after s rest hturns _ ih =>
    rw [List.countP_cons, List.countP_cons]
    cases hturns with
    | opens _ hopen =>
      have hclose := SymbolKind.not_isCloseDelimiter_of_isOpenDelimiter hopen
      -- the tag around is not closed, as another one is opened first
      have haround : (inside.toList.filterMap fun _ =>
          Tag.unclosedAt? stop (s :: rest)).length = inside.toList.length := by
        simp [Tag.unclosedAt?_open hopen]
      rw [hopen, hclose, atEnds_open hopen, List.length_append, haround]
      simp only [Option.toList_some, List.length_singleton] at ih
      simp only [if_true, Bool.false_eq_true, if_false]
      omega
    | closes hclose hraw =>
      have hopen := SymbolKind.not_isOpenDelimiter_of_isCloseDelimiter hclose
      rw [hopen, hclose, atEnds_other hopen, List.length_append]
      simp only [Option.toList_some, Option.toList_none, List.filterMap_cons,
        Tag.unclosedAt?_close hclose, List.filterMap_nil, List.length_nil,
        List.length_singleton] at ih ⊢
      simp only [if_true, Bool.false_eq_true, if_false]
      omega
    | stays _ hinside =>
      obtain ⟨hopen, hclose⟩ := SymbolKind.isDelimiter_eq_false.1 hinside
      rw [hopen, hclose, atEnds_inside hinside fun _ => Tag.unclosedAt?_inside hinside]
      exact ih

/-- The most recent opening delimiter is that of the tag around. -/
theorem mismatchesIn_eq (h : Bracketed inside symbols) (hraw : ∀ r ∈ inside, r = raw) :
    mismatchesIn raw symbols = atEnds Tag.mismatchedAt? inside symbols := by
  induction h generalizing raw with
  | nil inside => cases inside <;> rfl
  | @cons inside after s rest hturns _ ih =>
    rw [mismatchesIn]
    cases hturns with
    | opens _ hopen =>
      have hbrace : ∀ r ∈ some s.kind.isRaw, r = s.kind.isRaw :=
        fun r hr => (Option.some.inj hr).symm
      rw [if_pos hopen, ih hbrace, atEnds_open hopen]
      simp [Tag.mismatchedAt?_open hopen]
    | @closes r _ hclose hcloses =>
      have hr : r = raw := hraw r rfl
      have hopen := SymbolKind.not_isOpenDelimiter_of_isCloseDelimiter hclose
      have hkind : s.kind = .closeDelimiter ↔ s.kind.isRaw = false := by
        revert hclose
        cases s.kind <;> decide
      have hplain : s.kind = .closeDelimiter ∧ raw = true ↔ r ≠ s.kind.isRaw := by
        rw [hkind, ← hr]
        revert hcloses
        cases r <;> cases s.kind.isRaw <;> decide
      -- behind the tag nothing closes before another one opens, so `raw` no longer matters
      rw [if_neg (by simp [hopen]), ih nofun, atEnds_other hopen]
      by_cases hmatch : r = s.kind.isRaw
      · rw [if_neg (by rw [hplain]; exact not_not_intro hmatch)]
        simp [Tag.mismatchedAt?_close hclose, hmatch]
      · rw [if_pos (hplain.2 hmatch)]
        simp [Tag.mismatchedAt?_close hclose, hmatch]
    | stays _ hinside =>
      obtain ⟨hopen, hclose⟩ := SymbolKind.isDelimiter_eq_false.1 hinside
      have hkind : s.kind ≠ .closeDelimiter := by
        intro hkind
        rw [hkind] at hclose
        cases hclose
      rw [if_neg (by simp [hopen]), if_neg (by simp [hkind]), ih hraw,
        atEnds_inside hinside fun _ => Tag.mismatchedAt?_inside hinside]

theorem of_mem_openings (h : Bracketed inside symbols) {o : Opening} (ho : o ∈ openings symbols) :
    Bracketed (some o.delimiter.kind.isRaw) o.behind := by
  induction h with
  | nil => cases ho
  | @cons inside after s rest hturns hrest ih =>
    by_cases hopen : s.kind.isOpenDelimiter = true
    · rw [openings_cons hopen] at ho
      rcases List.mem_cons.1 ho with rfl | ho
      · cases hturns with
        | opens => exact hrest
        | closes hclose =>
          rw [SymbolKind.not_isOpenDelimiter_of_isCloseDelimiter hclose] at hopen
          cases hopen
        | stays _ hinside =>
          rw [(SymbolKind.isDelimiter_eq_false.1 hinside).1] at hopen
          cases hopen
      · exact ih ho
    · rw [openings, if_neg hopen] at ho
      exact ih ho

/-- Three braces never close what two braces opened. -/
theorem mismatchedAt?_plain (h : Bracketed (some false) symbols) :
    Tag.mismatchedAt? false symbols = none := by
  generalize hinside : some false = inside at h
  induction h with
  | nil => rfl
  | @cons inside after s rest hturns _ ih =>
    cases hturns with
    | opens _ hopen => exact Tag.mismatchedAt?_open hopen
    | closes hclose hraw =>
      cases hinside
      rw [Tag.mismatchedAt?_close hclose, if_pos]
      by_contra hne
      cases hraw (by simpa using hne)
    | stays _ hother => rw [Tag.mismatchedAt?_inside hother, ih hinside]

end Bracketed

theorem Tag.flatMap_problems {stop : Nat} {os : List Opening} {tags : List Tag}
    (h : List.Forall₂ (Tag.ReadAt stop) os tags)
    (hcomments : ∀ o ∈ os, CommentsClose o.behind) :
    tags.flatMap Tag.problems = os.flatMap (Opening.problems stop) := by
  induction h with
  | nil => rfl
  | cons hfirst _ ih =>
    rw [List.flatMap_cons, List.flatMap_cons, hfirst.problems (hcomments _ List.mem_cons_self),
      ih fun o ho => hcomments o (List.mem_cons_of_mem _ ho)]

/-- A parse tells of tags what the opening delimiters of its source tell. -/
theorem parse_ofTags (source : String) (options : Options) :
    ∃ p, parse source options = .ok p ∧ Diagnostic.ofTags p.diagnostics =
      (openings (symbols source)).flatMap (Opening.problems (Text.byteLength source.toList)) := by
  obtain ⟨pieces, rest, hread, hcut, htags⟩ := Piece.readAll_ofSource source
  obtain ⟨block, outer, ds, -, hplaced, hparse⟩ := parse_of_readAll hread options
  refine ⟨_, hparse, ?_⟩
  have hlevel : ∀ piece ∈ pieces, ∀ d ∈ piece.problems, d.problem.isTagLevel = true := by
    intro piece hpiece d hd
    cases piece with
    | text span => cases hd
    | tag tag => exact (hcut.formed_ofSource hpiece).2 d hd
  rw [Builder.ofTags_closeAll, hplaced.ofTags_diagnostics hlevel, Piece.flatMap_problems,
    Tag.flatMap_problems htags fun _ => commentsClose_of_mem_openings]
  rfl

namespace Diagnostic

variable {ds : List Diagnostic} {os : List Opening} {stop : Nat}

/-- The diagnostics of one kind are those that the opening delimiters tell. -/
theorem filter_of_ofTags {α : Type} {problem : Problem} {at? : Opening → Option α}
    {f : α → Diagnostic} (h : ofTags ds = os.flatMap (Opening.problems stop))
    (hlevel : problem.isTagLevel = true)
    (hat : ∀ o : Opening, (o.problems stop).filter (·.problem == problem) = (at? o).toList.map f) :
    ds.filter (·.problem == problem) = (os.filterMap at?).map f := by
  have hfilter : ds.filter (·.problem == problem) = (ofTags ds).filter (·.problem == problem) := by
    rw [ofTags, List.filter_filter]
    refine List.filter_congr fun d _ => ?_
    by_cases hd : d.problem = problem
    · rw [hd, hlevel, Bool.and_true]
    · rw [beq_eq_false_iff_ne.2 hd, Bool.false_and]
  rw [hfilter, h, List.filter_flatMap, List.filterMap_eq_flatMap_toList, List.map_flatMap]
  simp only [hat]

end Diagnostic

namespace Opening

variable (stop : Nat) (o : Opening)

theorem filter_unclosedTag : (o.problems stop).filter (·.problem == .unclosedTag) =
    (Tag.unclosedAt? stop o.behind).toList.map (⟨.unclosedTag, ·⟩) := by
  rw [problems, Tag.strayProblems, Tag.endProblems]
  cases Tag.stray? o.behind <;> cases Tag.unclosedAt? stop o.behind <;>
    cases Tag.mismatchedAt? o.delimiter.kind.isRaw o.behind <;> rfl

theorem filter_mismatchedDelimiter : (o.problems stop).filter (·.problem == .mismatchedDelimiter) =
    (Tag.mismatchedAt? o.delimiter.kind.isRaw o.behind).toList.map (⟨.mismatchedDelimiter, ·⟩) := by
  rw [problems, Tag.strayProblems, Tag.endProblems]
  cases Tag.stray? o.behind <;> cases Tag.unclosedAt? stop o.behind <;>
    cases Tag.mismatchedAt? o.delimiter.kind.isRaw o.behind <;> rfl

theorem filter_unexpectedSymbol : (o.problems stop).filter (·.problem == .unexpectedSymbol) =
    (Tag.stray? o.behind).toList.map fun s => ⟨.unexpectedSymbol, s.location⟩ := by
  rw [problems, Tag.strayProblems, Tag.endProblems]
  cases Tag.stray? o.behind <;> cases Tag.unclosedAt? stop o.behind <;>
    cases Tag.mismatchedAt? o.delimiter.kind.isRaw o.behind <;> rfl

end Opening

/-- The tags of a source are diagnosed as its symbols tell, whatever the options
are. -/
theorem parse_diagnoses (source : String) (options : Options) :
    ∃ p, parse source options = .ok p ∧ TagDiagnostics source p.diagnostics := by
  obtain ⟨p, hparse, htags⟩ := parse_ofTags source options
  have hbracketed : Bracketed none (symbols source) :=
    (Scanner.ofSource source).bracketed_symbols
  have hunclosed := Diagnostic.filter_of_ofTags htags rfl (Opening.filter_unclosedTag _)
  have hmismatched := Diagnostic.filter_of_ofTags htags rfl (Opening.filter_mismatchedDelimiter _)
  refine ⟨p, hparse, htags, hunclosed, ?_, ?_, ?_, ?_, ?_⟩
  · have hcount := hbracketed.countP_open (Text.byteLength source.toList)
    rw [List.countP_eq_length_filter (l := p.diagnostics), hunclosed, List.length_map]
    exact hcount
  · rw [hmismatched, hbracketed.mismatchesIn_eq nofun]
    rfl
  · intro o ho hkind
    have hbehind := hbracketed.of_mem_openings ho
    rw [hkind] at hbehind ⊢
    exact hbehind.mismatchedAt?_plain
  · exact Diagnostic.filter_of_ofTags htags rfl (Opening.filter_unexpectedSymbol _)
  · intro o ho hkind
    exact Tag.stray?_comment (commentsClose_of_mem_openings ho) hkind

end BraceTemplate
