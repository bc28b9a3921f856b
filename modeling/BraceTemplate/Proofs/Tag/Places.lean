import BraceTemplate.Proofs.Tag.Problems
import BraceTemplate.Proofs.Text.Boundary

/-!
# Where tags stand

The name of a tag, its markup and what it reports all stand between characters of
the source, even where the source ends inside the tag.
-/

namespace BraceTemplate

/-- Some of the stretches that make up a source stand within it. -/
theorem Stretch.Follow.within {source : String} {as bs cs : List Stretch} {first last : Nat}
    (hbefore : Follow 0 as first) (h : Follow first bs last)
    (hsource : chars (as ++ (bs ++ cs)) = source.toList) :
    (Location.mk first last).Within source := by
  have hfirst := hbefore.last_eq
  have hlast := h.last_eq
  rw [chars_append, chars_append] at hsource
  refine ⟨⟨chars as, chars bs ++ chars cs, ?_, ?_⟩, ⟨chars as ++ chars bs, chars cs, ?_, ?_⟩, ?_⟩
  · exact hsource.symm
  · change first = _
    omega
  · rw [← hsource, List.append_assoc]
  · rw [Text.byteLength_append]
    change last = _
    omega
  · change first ≤ last
    omega

/-- Some of the symbols of a source, one after the other, stand within it. -/
theorem within_of_symbols_eq {source : String} {front group back : List Symbol}
    (h : symbols source = front ++ (group ++ back)) :
    ∃ first last, Stretch.Follow 0 (front.map Symbol.stretch) first ∧
      Stretch.Follow first (group.map Symbol.stretch) last ∧
      (Location.mk first last).Within source := by
  have hfollow := symbols_follow source
  have hchars := chars_symbols source
  rw [h, List.map_append, List.map_append] at hfollow hchars
  obtain ⟨first, hfront, hrest⟩ := hfollow.split
  obtain ⟨last, hgroup, -⟩ := hrest.split
  exact ⟨first, last, hfront, hgroup, hfront.within hgroup hchars⟩

theorem Symbol.location_within {source : String} {s : Symbol} (h : s ∈ symbols source) :
    s.location.Within source := by
  obtain ⟨front, back, hsplit⟩ := List.append_of_mem h
  obtain ⟨first, last, -, hgroup, hwithin⟩ :=
    @within_of_symbols_eq source front [s] back hsplit
  obtain ⟨hstart, hstop⟩ := Stretch.Follow.stop_getLastD hgroup
  rwa [← hstart, ← hstop] at hwithin

namespace Tag

open SymbolStream Heading

variable {source : String} {o : Opening} {tag : Tag}

/-- The current symbol is where the symbols ahead start, and at the end of the
source when there are none. -/
theorem start_current {s : SymbolStream} {first stop : Nat} (hends : s.EndsAt stop)
    (hfollow : Stretch.Follow first (s.upcoming.map Symbol.stretch) stop) :
    s.current.location.start = first := by
  by_cases hend : s.current.isEnd
  · rw [upcoming_of_isEnd hend] at hfollow
    rw [hends.location_current hend]
    exact hfollow.symm
  · rw [upcoming_of_not_isEnd hend] at hfollow
    exact hfollow.stop_getLastD.1

/-- The name of a body is the text of a run of symbols and stands where they do,
and there is a span for it if there are any. -/
theorem exists_run_readBody (kind : TagKind) {s : SymbolStream} {first stop : Nat}
    (hends : s.EndsAt stop)
    (hfollow : Stretch.Follow first (s.upcoming.map Symbol.stretch) stop) :
    ∃ run rest last, s.upcoming = run ++ rest ∧
      Stretch.Follow first (run.map Symbol.stretch) last ∧
      (readBody kind s).nameAt = ⟨first, last⟩ ∧
      (readBody kind s).name = Symbol.joinTexts run ∧
      (Span.cover? .expression run).toList ⊆ (readBody kind s).spans := by
  -- also where no symbol is left the name has its place, at the end of the source
  have hstart := start_current hends hfollow
  have hnamed : ∃ run rest last, s.upcoming = run ++ rest ∧
      Stretch.Follow first (run.map Symbol.stretch) last ∧
      (readNamed s).nameAt = ⟨first, last⟩ ∧
      (readNamed s).name = Symbol.joinTexts run ∧
      (Span.cover? .expression run).toList ⊆ (readNamed s).spans := by
    have hrun : s.upcoming = s.takeRun.1 ++ s.takeRun.2.upcoming :=
      (takeBy_append_upcoming Nesting.step {} s).symm
    rw [hrun, List.map_append] at hfollow
    obtain ⟨last, hgroup, -⟩ := hfollow.split
    have hlast := hgroup.last_eq
    rw [← Symbol.toList_joinTexts, ← hstart] at hlast
    refine ⟨_, _, last, hrun, hgroup, ?_, rfl, List.subset_append_left _ _⟩
    rw [hlast, ← hstart]
    rfl
  cases kind with
  | comment =>
    refine ⟨[], s.upcoming, first, rfl, rfl, ?_, rfl, List.nil_subset _⟩
    change Location.point s.current.location.start = _
    rw [hstart]
    rfl
  | _ => exact hnamed

/-- A body whose symbols are the last of a source has its name in the source. -/
theorem nameAt_readBody_within {kind : TagKind} {s : SymbolStream}
    (hends : s.EndsAt (Text.byteLength source.toList)) (h : s.upcoming <:+ symbols source) :
    (readBody kind s).nameAt.Within source := by
  obtain ⟨front, hsymbols⟩ := h
  have hfollow := symbols_follow source
  have hchars := chars_symbols source
  rw [← hsymbols, List.map_append] at hfollow hchars
  obtain ⟨first, hfront, hahead⟩ := hfollow.split
  obtain ⟨run, rest, last, hsplit, hrun, hname, -⟩ := exists_run_readBody kind hends hahead
  rw [hsplit, List.map_append] at hchars
  rw [hname]
  exact hfront.within hrun hchars

/-- What stands within a source, of all that is known of a tag. -/
structure Within (source : String) (tag : Tag) : Prop where
  nameAt : tag.nameAt.Within source
  markup : ∃ l, tag.markup? = some l ∧ l.Within source
  problems : ∀ d ∈ tag.problems, d.location.Within source

theorem unclosedAt?_within {stop : Nat} {behind : List Symbol} {l : Location}
    (hstop : (Location.point stop).Within source) (hbehind : ∀ s ∈ behind, s ∈ symbols source)
    (h : unclosedAt? stop behind = some l) : l.Within source := by
  rw [unclosedAt?] at h
  split at h
  · cases h
    exact hstop
  · rename_i s hs
    split at h
    · cases h
      exact Symbol.location_within (hbehind s (List.mem_of_find?_eq_some hs))
    · cases h

theorem mismatchedAt?_within {raw : Bool} {behind : List Symbol} {l : Location}
    (hbehind : ∀ s ∈ behind, s ∈ symbols source) (h : mismatchedAt? raw behind = some l) :
    l.Within source := by
  rw [mismatchedAt?] at h
  split at h
  · cases h
  · rename_i s hs
    split at h
    · cases h
      exact Symbol.location_within (hbehind s (List.mem_of_find?_eq_some hs))
    · cases h

theorem mem_of_strayIn? {n : Nesting} {symbols : List Symbol} {s : Symbol}
    (h : strayIn? n symbols = some s) : s ∈ symbols := by
  fun_induction strayIn? n symbols with
  | case1 => cases h
  | case2 => cases h
  | case3 n x rest =>
    obtain ⟨hhead, -⟩ := Option.filter_eq_some_iff.1 h
    exact List.mem_cons_of_mem x (List.mem_of_mem_head? hhead)
  | case4 n x rest _ _ ih => exact List.mem_cons_of_mem x (ih h)

theorem behindMarks_suffix (behind : List Symbol) : behindMarks behind <:+ behind := by
  have hfront : behindMark .tilde behind <:+ behind := by
    cases behind with
    | nil => exact List.suffix_refl []
    | cons x rest =>
      rw [behindMark]
      split
      · exact List.suffix_cons x rest
      · exact List.suffix_refl _
  rw [behindMarks]
  cases kindOf behind with
  | expression => exact hfront
  | _ => exact (List.tail_suffix _).trans hfront

theorem mem_symbols_of_mem_behind (ho : o ∈ openings (symbols source)) {x : Symbol}
    (hx : x ∈ o.behind) : x ∈ symbols source := by
  obtain ⟨front, hsymbols⟩ := exists_append_of_mem_openings ho
  rw [hsymbols]
  exact List.mem_append_right _ (List.mem_cons_of_mem _ hx)

theorem problems_within (ho : o ∈ openings (symbols source)) {d : Diagnostic}
    (hd : d ∈ o.problems (Text.byteLength source.toList)) : d.location.Within source := by
  have hbehind : ∀ x ∈ o.behind, x ∈ symbols source := fun x => mem_symbols_of_mem_behind ho
  have hstop := Location.within_point (Text.isBoundary_byteLength source.toList)
  rcases List.mem_append.1 hd with hd | hd
  · obtain ⟨x, hx, rfl⟩ := List.mem_map.1 hd
    have hmem := mem_of_strayIn? (Option.mem_toList.1 hx)
    exact Symbol.location_within (hbehind x ((behindMarks_suffix o.behind).subset hmem))
  · rcases List.mem_append.1 hd with hd | hd
    · obtain ⟨l, hl, rfl⟩ := List.mem_map.1 hd
      exact unclosedAt?_within hstop hbehind (Option.mem_toList.1 hl)
    · obtain ⟨l, hl, rfl⟩ := List.mem_map.1 hd
      exact mismatchedAt?_within hbehind (Option.mem_toList.1 hl)

theorem extent_prefix (symbols : List Symbol) : extent symbols <+: symbols := by
  fun_induction extent symbols with
  | case1 => exact List.prefix_refl []
  | case2 s rest => exact List.nil_prefix
  | case3 s rest => exact ⟨rest, rfl⟩
  | case4 s rest _ _ ih => exact (List.prefix_cons_inj s).2 ih

/-- The markup of a tag stands where its symbols stand, from the opening
delimiter on. -/
theorem markup_within (ho : o ∈ openings (symbols source)) :
    (Heading.ofSymbols o.delimiter o.behind).markup.Within source := by
  obtain ⟨front, hsymbols⟩ := exists_append_of_mem_openings ho
  obtain ⟨rest, hrest⟩ := extent_prefix o.behind
  have hsplit : symbols source = front ++ ((o.delimiter :: extent o.behind) ++ rest) := by
    rw [hsymbols, List.cons_append, hrest]
  obtain ⟨first, last, -, hgroup, hwithin⟩ := within_of_symbols_eq hsplit
  obtain ⟨hstart, hstop⟩ := Stretch.Follow.stop_getLastD hgroup
  rw [← hstart, ← hstop, List.getLastD_map] at hwithin
  exact hwithin

/-- Everything that is known of a tag stands in the source that it is read
from. -/
theorem ReadAt.within (h : ReadAt (Text.byteLength source.toList) o tag)
    (ho : o ∈ openings (symbols source)) : tag.Within source := by
  have hproblems := h.problems (commentsClose_of_mem_openings ho)
  obtain ⟨front, hsymbols⟩ := exists_append_of_mem_openings ho
  obtain ⟨s, hends, hdelimiter, hbehind, rfl⟩ := h
  have hopen : s.current.kind.isOpenDelimiter = true := by
    rw [hdelimiter]
    exact isOpenDelimiter_of_mem_openings ho
  have hend := Symbol.not_isEnd_of_isOpenDelimiter hopen
  rw [← hdelimiter, ← hbehind, ← upcoming_of_not_isEnd hend] at hsymbols
  refine ⟨?_, ?_, ?_⟩
  · obtain ⟨taken, htakes, -⟩ := (@readMark_readsInside .tilde s.advance rfl rfl).trans
      (readMarker_readsInside (kindOf o.behind) _)
    have hmarks : (readMarker (kindOf o.behind) (s.advance.readMark .tilde).2).2.upcoming <:+
        s.upcoming := List.IsSuffix.trans ⟨taken, htakes.upcoming.symm⟩ (advance_suffix hend)
    exact nameAt_readBody_within (hends.advance.takes htakes)
      (hmarks.trans ⟨front, hsymbols.symm⟩)
  · have hfollow := symbols_follow source
    rw [hsymbols, List.map_append] at hfollow
    obtain ⟨first, -, hahead⟩ := hfollow.split
    rw [markup?_read (kindOf o.behind) hopen hahead, hdelimiter, hbehind]
    exact ⟨_, rfl, markup_within ho⟩
  · intro d hd
    rw [hproblems] at hd
    exact problems_within ho hd

end Tag

end BraceTemplate
