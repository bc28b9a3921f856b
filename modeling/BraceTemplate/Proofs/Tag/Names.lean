import BraceTemplate.Proofs.Tag.Places

/-!
# Names and what is reported behind them

The name of a tag is written where the tag says, which in a closing tag is right
behind the `/`. What a tag reports stands behind its name, one thing behind the
other, and in front of the next tag. So the places of a source that tags report
come in the order of the source.
-/

namespace BraceTemplate

open SymbolStream

/-- Where the first opening delimiter stands, or where the source ends. -/
def nextOpening (stop : Nat) (symbols : List Symbol) : Nat :=
  ((openings symbols).head?.map (·.delimiter.location.start)).getD stop

theorem nextOpening_append {front : List Symbol}
    (h : ∀ s ∈ front, s.kind.isDelimiter = false) (stop : Nat) (rest : List Symbol) :
    nextOpening stop (front ++ rest) = nextOpening stop rest := by
  rw [nextOpening, openings_append fun s hs => (SymbolKind.isDelimiter_eq_false.1 (h s hs)).1]
  rfl

theorem nextOpening_open {s : Symbol} (h : s.kind.isOpenDelimiter = true) (stop : Nat)
    (rest : List Symbol) : nextOpening stop (s :: rest) = s.location.start := by
  rw [nextOpening, openings_cons h]
  rfl

theorem le_nextOpening {symbols : List Symbol} {first stop : Nat}
    (h : Stretch.Follow first (symbols.map Symbol.stretch) stop) :
    first ≤ nextOpening stop symbols := by
  rw [nextOpening]
  cases hopenings : openings symbols with
  | nil =>
    have hlast := h.last_eq
    change first ≤ stop
    omega
  | cons o os =>
    obtain ⟨front, rfl⟩ := exists_append_of_mem_openings (hopenings ▸ List.mem_cons_self)
    exact (h.bounds (List.mem_map_of_mem (by simp))).1

namespace Tag

/-- The name of a tag is where the tag says. -/
structure Written (source : String) (tag : Tag) : Prop where
  slice : tag.nameAt.slice? source = some tag.name
  slash : tag.kind = .blockClose →
    ∃ slash ∈ tag.spans, slash.IsMarkup "/" ∧ slash.location.stop = tag.nameAt.start

/-- How the symbols behind an opening delimiter are cut by the marks of its tag
and by the name. -/
structure NameCut (o : Opening) (tag : Tag) (first stop : Nat)
    (passed run rest : List Symbol) : Prop where
  split : o.behind = passed ++ (run ++ rest)
  marks : behindMarks o.behind = run ++ rest
  inside : ∀ x ∈ passed, x.kind.isDelimiter = false
  before : Stretch.Follow first ((o.delimiter :: passed).map Symbol.stretch) tag.nameAt.start
  named : Stretch.Follow tag.nameAt.start (run.map Symbol.stretch) tag.nameAt.stop
  after : Stretch.Follow tag.nameAt.stop (rest.map Symbol.stretch) stop
  name : tag.name = Symbol.joinTexts run

/-- Where a tag and what it reports stand. -/
def points (tag : Tag) : List Nat :=
  tag.nameAt.start :: tag.problems.map (·.location.start)

section ReadAt
variable {o : Opening} {tag : Tag} {first stop : Nat}

theorem ReadAt.nameCut (h : ReadAt stop o tag)
    (hfollow : Stretch.Follow first ((o.delimiter :: o.behind).map Symbol.stretch) stop) :
    ∃ passed run rest, NameCut o tag first stop passed run rest := by
  obtain ⟨s, hends, hdelimiter, hbehind, rfl⟩ := h
  obtain ⟨passed, htakes, -, hinside⟩ := (@readMark_readsInside .tilde s.advance rfl rfl).trans
    (readMarker_readsInside (Heading.kindOf o.behind) _)
  have hmarks := upcoming_readMarker_readMark s.advance
  have hsplit := htakes.upcoming
  rw [hbehind] at hmarks hsplit
  rw [hsplit, ← List.cons_append, List.map_append] at hfollow
  obtain ⟨middle, hpassed, hbody⟩ := hfollow.split
  obtain ⟨run, rest, last, hahead, hrun, hnameAt, hname, -⟩ :=
    exists_run_readBody (Heading.kindOf o.behind) (hends.advance.takes htakes) hbody
  rw [hahead, List.map_append] at hbody
  obtain ⟨last', hrun', hrest⟩ := hbody.split
  have hlast : last' = last := by
    rw [hrun'.last_eq, hrun.last_eq]
  rw [hlast] at hrest
  change (read (Heading.kindOf o.behind) s).1.nameAt = ⟨middle, last⟩ at hnameAt
  refine ⟨passed, run, rest, ?_, ?_, hinside, ?_, ?_, ?_, hname⟩
  · rw [hsplit, hahead]
  · rw [← hmarks, hahead]
  · rw [hnameAt]
    exact hpassed
  · rw [hnameAt]
    exact hrun
  · rw [hnameAt]
    exact hrest

/-- The `/` of a closing tag is a span of its own, right in front of the name. -/
theorem ReadAt.slash (h : ReadAt stop o tag)
    (hfollow : Stretch.Follow first ((o.delimiter :: o.behind).map Symbol.stretch) stop)
    (hspelled : ∀ x ∈ o.behind, x.Spelled) (hkind : tag.kind = .blockClose) :
    ∃ slash ∈ tag.spans, slash.IsMarkup "/" ∧ slash.location.stop = tag.nameAt.start := by
  obtain ⟨s, hends, hdelimiter, hbehind, rfl⟩ := h
  change Heading.kindOf o.behind = .blockClose at hkind
  have htilde := @readMark_readsInside .tilde s.advance rfl rfl
  have hslash : (s.advance.readMark .tilde).2.current.kind = .slash := by
    rw [← hbehind, Heading.kindOf_upcoming] at hkind
    exact TagKind.current_kind_of_ofMarker.2.1 hkind
  have hend : ¬ (s.advance.readMark .tilde).2.current.isEnd := by simp [Symbol.isEnd, hslash]
  obtain ⟨taken, htakes, -, -⟩ := htilde
  have hsplit := htakes.upcoming
  rw [hbehind, upcoming_of_not_isEnd hend] at hsplit
  have hmarker : readMarker .blockClose (s.advance.readMark .tilde).2 =
      ([⟨.metaCode, "/", (s.advance.readMark .tilde).2.current.location⟩],
        (s.advance.readMark .tilde).2.advance) :=
    readMark_of_eq hslash (hspelled _ (by rw [hsplit]; simp)) rfl (by simp)
  rw [hsplit, ← List.cons_append, List.map_append] at hfollow
  obtain ⟨middle, -, -, -, hbody⟩ := hfollow.split
  obtain ⟨-, -, last, -, -, hnameAt, -⟩ :=
    exists_run_readBody .blockClose (hends.advance.takes htakes).advance hbody
  rw [hkind]
  refine ⟨⟨.metaCode, "/", (s.advance.readMark .tilde).2.current.location⟩, ?_, ⟨rfl, rfl⟩, ?_⟩
  · simp [read, hmarker]
  · change _ = (readBody .blockClose (readMarker .blockClose
      (s.advance.readMark .tilde).2).2).nameAt.start
    rw [hmarker, hnameAt]
    rfl

theorem ReadAt.written {source : String} (h : ReadAt (Text.byteLength source.toList) o tag)
    (ho : o ∈ openings (symbols source)) : tag.Written source := by
  obtain ⟨front, hsymbols⟩ := exists_append_of_mem_openings ho
  have hfollow := symbols_follow source
  have hchars := chars_symbols source
  rw [hsymbols, List.map_append] at hfollow
  obtain ⟨first, hfront, htag⟩ := hfollow.split
  refine ⟨?_, h.slash htag fun x hx => spelled_of_mem_symbols (mem_symbols_of_mem_behind ho hx)⟩
  obtain ⟨passed, run, rest, hcut⟩ := h.nameCut htag
  have hbefore := hfront.append hcut.before
  rw [hsymbols, hcut.split, ← List.cons_append, List.map_append, List.map_append,
    List.map_append, ← List.append_assoc, ← List.append_assoc] at hchars
  rw [hbefore.slice? hcut.named hchars, hcut.name, ← Symbol.toList_joinTexts, String.ofList_toList]

/-- The stray symbol of a tag is in front of the first delimiter. -/
theorem mem_of_strayIn?_append {n : Nesting} {inside rest : List Symbol} {x : Symbol}
    (hrest : ∀ s ∈ rest.head?, s.kind.isDelimiter = true)
    (h : strayIn? n (inside ++ rest) = some x) : x ∈ inside := by
  have hnone : rest.head?.filter (fun t => !t.kind.isDelimiter) = none := by
    cases rest with
    | nil => rfl
    | cons s rest => simp [hrest s rfl]
  induction inside generalizing n with
  | nil =>
    cases rest with
    | nil => cases h
    | cons s rest =>
      rw [List.nil_append, strayIn?, if_pos (hrest s rfl)] at h
      cases h
  | cons s inside ih =>
    rw [List.cons_append, strayIn?] at h
    split at h
    · cases h
    · split at h
      · cases inside with
        | nil =>
          rw [List.nil_append, hnone] at h
          cases h
        | cons t inside =>
          cases (Option.filter_eq_some_iff.1 h).1
          simp
      · exact List.mem_cons_of_mem s (ih h)

/-- Symbols up to the first delimiter, and those from there on. -/
theorem exists_split_at_delimiter (symbols : List Symbol) :
    ∃ inside rest, symbols = inside ++ rest ∧ (∀ x ∈ inside, x.kind.isDelimiter = false) ∧
      ∀ s ∈ rest.head?, s.kind.isDelimiter = true := by
  induction symbols with
  | nil => exact ⟨[], [], rfl, nofun, nofun⟩
  | cons s symbols ih =>
    cases hs : s.kind.isDelimiter with
    | true => exact ⟨[], s :: symbols, rfl, nofun, by rintro t ⟨⟩; exact hs⟩
    | false =>
      obtain ⟨inside, rest, rfl, hinside, hrest⟩ := ih
      refine ⟨s :: inside, rest, rfl, ?_, hrest⟩
      intro x hx
      rcases List.mem_cons.1 hx with rfl | hx
      · exact hs
      · exact hinside x hx

/-- What is told of the end of a tag stands where the first delimiter does. -/
theorem start_of_mem_endProblems {raw : Bool} {symbols : List Symbol} {d : Diagnostic}
    (hfollow : Stretch.Follow first (symbols.map Symbol.stretch) stop)
    (hfirst : ∀ s ∈ symbols.head?, s.kind.isDelimiter = true)
    (hd : d ∈ endProblems stop raw symbols) : d.location.start = first := by
  cases symbols with
  | nil =>
    rw [endProblems_nil, List.mem_singleton] at hd
    rw [hd]
    exact hfollow.symm
  | cons s rest =>
    have hstart : s.location.start = first := hfollow.stop_getLastD.1
    rcases Bool.or_eq_true_iff.1 (hfirst s rfl) with hopen | hclose
    · rw [endProblems_open hopen, List.mem_singleton] at hd
      rw [hd, hstart]
    · rw [endProblems_close hclose] at hd
      split at hd
      · cases hd
      · rw [List.mem_singleton.1 hd, hstart]

/-- What is told of a tag comes in order, from its name up to its end, which is in
front of the next tag. -/
theorem NameCut.problems_sorted {passed run rest : List Symbol}
    (h : NameCut o tag first stop passed run rest) :
    ∃ last, tag.nameAt.start ≤ last ∧ last ≤ nextOpening stop o.behind ∧
      (∀ d ∈ o.problems stop,
        tag.nameAt.start ≤ d.location.start ∧ d.location.start ≤ last) ∧
      (o.problems stop).Pairwise fun d e => d.location.start ≤ e.location.start := by
  have hmarks := h.named.append h.after
  rw [← List.map_append, ← h.marks] at hmarks
  -- the stray symbol is in front of the first delimiter, and the rest is told of this one
  obtain ⟨inside, back, hsplit, hinside, hback⟩ := exists_split_at_delimiter (behindMarks o.behind)
  rw [hsplit, List.map_append] at hmarks
  obtain ⟨last, hfront, hlast⟩ := hmarks.split
  have hbehind : o.behind = (passed ++ inside) ++ back := by
    rw [List.append_assoc, ← hsplit, h.marks, ← h.split]
  have hdelimiters : ∀ x ∈ passed ++ inside, x.kind.isDelimiter = false := by
    intro x hx
    exact (List.mem_append.1 hx).elim (h.inside x) (hinside x)
  have hnamed : tag.nameAt.start ≤ last := by
    have := hfront.last_eq
    omega
  have hnext : last ≤ nextOpening stop o.behind := by
    rw [hbehind, nextOpening_append hdelimiters]
    exact le_nextOpening hlast
  have hstray : ∀ d ∈ strayProblems (stray? o.behind),
      tag.nameAt.start ≤ d.location.start ∧ d.location.start ≤ last := by
    intro d hd
    obtain ⟨x, hx, rfl⟩ := List.mem_map.1 hd
    rw [stray?, hsplit] at hx
    have hmem := mem_of_strayIn?_append hback (Option.mem_toList.1 hx)
    have hbounds := hfront.bounds (List.mem_map_of_mem hmem)
    exact ⟨hbounds.1, Nat.le_of_lt (Nat.lt_of_lt_of_le hbounds.2.1 hbounds.2.2)⟩
  have hend : ∀ d ∈ endProblems stop o.delimiter.kind.isRaw o.behind,
      d.location.start = last := by
    intro d hd
    rw [hbehind, endProblems_append hdelimiters] at hd
    exact start_of_mem_endProblems hlast hback hd
  refine ⟨last, hnamed, hnext, ?_, List.pairwise_append.2 ⟨?_, ?_, ?_⟩⟩
  · intro d hd
    rcases List.mem_append.1 hd with hd | hd
    · exact hstray d hd
    · rw [hend d hd]
      exact ⟨hnamed, Nat.le_refl last⟩
  · rw [strayProblems]
    cases stray? o.behind with
    | none => exact .nil
    | some x => exact List.pairwise_singleton _ _
  · refine List.pairwise_of_forall_mem_list fun d hd e he => ?_
    rw [hend d hd, hend e he]
  · intro d hd e he
    rw [hend e he]
    exact (hstray d hd).2

/-- What a tag reports comes in order, from its delimiter up to the next tag. -/
theorem ReadAt.points_sorted (h : ReadAt stop o tag) (hcomments : CommentsClose o.behind)
    (hfollow : Stretch.Follow first ((o.delimiter :: o.behind).map Symbol.stretch) stop) :
    tag.points.Pairwise (· ≤ ·) ∧
      ∀ n ∈ tag.points, first ≤ n ∧ n ≤ nextOpening stop o.behind := by
  obtain ⟨passed, run, rest, hcut⟩ := h.nameCut hfollow
  obtain ⟨last, hnamed, hnext, hall, hordered⟩ := hcut.problems_sorted
  have hname := hcut.before.last_eq
  rw [points, h.problems hcomments]
  refine ⟨List.pairwise_cons.2 ⟨?_, List.pairwise_map.2 hordered⟩, ?_⟩
  · intro n hn
    obtain ⟨d, hd, rfl⟩ := List.mem_map.1 hn
    exact (hall d hd).1
  · intro n hn
    rcases List.mem_cons.1 hn with rfl | hn
    · omega
    · obtain ⟨d, hd, rfl⟩ := List.mem_map.1 hn
      have hbounds := hall d hd
      omega

end ReadAt

/-- What the tags of a source report comes in the order of the source. -/
theorem points_pairwise {symbols : List Symbol} {tags : List Tag} {first stop : Nat}
    (h : List.Forall₂ (ReadAt stop) (openings symbols) tags)
    (hcomments : CommentsClose symbols)
    (hfollow : Stretch.Follow first (symbols.map Symbol.stretch) stop) :
    (tags.flatMap points).Pairwise (· ≤ ·) ∧
      ∀ n ∈ tags.flatMap points, nextOpening stop symbols ≤ n := by
  induction symbols generalizing tags first with
  | nil =>
    cases h
    exact ⟨.nil, nofun⟩
  | cons s rest ih =>
    cases hopen : s.kind.isOpenDelimiter with
    | false =>
      have hsame : openings (s :: rest) = openings rest := by
        rw [openings, hopen, if_neg Bool.false_ne_true]
      rw [hsame] at h
      rw [nextOpening, hsame]
      exact ih h hcomments.2 hfollow.2.2
    | true =>
      rw [openings_cons hopen] at h
      cases h with
      | cons hfirst hlater =>
        obtain ⟨hsorted, hbounds⟩ := hfirst.points_sorted hcomments.2 hfollow
        obtain ⟨hrest, hnext⟩ := ih hlater hcomments.2 hfollow.2.2
        have hstart : s.location.start = first := hfollow.stop_getLastD.1
        rw [List.flatMap_cons, nextOpening_open hopen, hstart]
        refine ⟨List.pairwise_append.2 ⟨hsorted, hrest, ?_⟩, ?_⟩
        · intro m hm n hn
          exact Nat.le_trans (hbounds m hm).2 (hnext n hn)
        · intro n hn
          rcases List.mem_append.1 hn with hn | hn
          · exact (hbounds n hn).1
          · have hrange := (hfollow.bounds (s := s.stretch) (by simp)).2.1
            have hfar := le_nextOpening hfollow.2.2
            have hnear := hnext n hn
            change s.location.start < s.location.stop at hrange
            change s.location.stop ≤ nextOpening stop rest at hfar
            omega

end Tag

end BraceTemplate
