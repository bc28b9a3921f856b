import BraceTemplate.Proofs.Tag.Echoing
import BraceTemplate.Proofs.Tag.Places

/-!
# Reading a tag in an edited source

A tag is read the same wherever it stands, whatever is behind it, and without a
`~` that is taken out next to one of its delimiters: its name, its spans and what
it reports are edited, and so is the place of its markup.
-/

namespace BraceTemplate

namespace Tag

open SymbolStream

variable {e : Edit} {stop stop' : Nat} {s t : SymbolStream} {kind : TagKind}

theorem readMarker_edit (h : Echo e stop stop' s t) :
    (readMarker kind t).1 = (readMarker kind s).1.filterMap (Span.edit? e) ∧
      Echo e stop stop' (readMarker kind s).2 (readMarker kind t).2 := by
  cases kind with
  | expression => exact ⟨rfl, h⟩
  | _ => exact h.readMark (by simp) (by simp) rfl

/-- A body is edited if its name is spared. -/
theorem readBody_edit (h : Echo e stop stop' s t)
    (hname : e.Spares (readBody kind s).nameAt)
    (hspared : ∀ span ∈ (readBody kind s).spans, span.Spared e) :
    (readBody kind t).name = (readBody kind s).name ∧
      (readBody kind t).nameAt = (readBody kind s).nameAt.edit e ∧
      (readBody kind t).spans = (readBody kind s).spans.filterMap (Span.edit? e) ∧
      Echo e stop stop' (readBody kind s).rest (readBody kind t).rest := by
  have hnamed (hname : e.Spares (readNamed s).nameAt)
      (hspared : ∀ span ∈ (readNamed s).spans, span.Spared e) :
      (readNamed t).name = (readNamed s).name ∧
        (readNamed t).nameAt = (readNamed s).nameAt.edit e ∧
        (readNamed t).spans = (readNamed s).spans.filterMap (Span.edit? e) ∧
        Echo e stop stop' (readNamed s).rest (readNamed t).rest := by
    rw [readNamed, List.forall_mem_append] at hspared
    have hspares := Span.spares_of_spared (by simp) hspared.1
    obtain ⟨hrun, hbehind⟩ := h.takeRun (Span.not_takenOut_of_spares hspares)
    obtain ⟨harguments, hrest⟩ := hbehind.readArguments hspared.2
    have htext := @Symbol.joinTexts_edit e s.takeRun.1
    refine ⟨?_, ?_, ?_, hrest⟩
    · rw [readNamed, hrun, htext]
      rfl
    · rw [Edit.Spares] at hname
      rw [readNamed, hrun, htext, h.start]
      simp only [Location.edit, readNamed, Location.mk.injEq, true_and] at hname ⊢
      omega
    · rw [readNamed, hrun, harguments,
        ← Span.filterMap_cover? fun span hspan => (hspares span hspan).ne_gone,
        ← List.filterMap_append]
      rfl
  cases kind with
  | comment =>
    have hstops : ∀ kind : SymbolKind, kind.isDelimiter = true → (kind == .comment) = false := by
      intro kind hkind
      cases kind <;> first | rfl | cases hkind
    obtain ⟨htext, hrest⟩ := h.takeWhile hstops rfl
    have hspares := Span.spares_of_spared (by simp) hspared
    refine ⟨rfl, ?_, ?_, hrest⟩
    · change Location.point t.current.location.start = (Location.point _).edit e
      rw [h.start]
      rfl
    · change (Span.cover? .comment (t.takeWhile _).1).toList = _
      rw [htext]
      exact (Span.filterMap_cover? fun span hspan => (hspares span hspan).ne_gone).symm
  | _ => exact hnamed hname hspared

theorem read_edit (hcurrent : t.current = s.current.edit e)
    (hkept : e.gone? ≠ some s.current.location)
    (h : EchoesBehind e stop stop' s.advance.upcoming t.advance.upcoming)
    (hends : s.EndsAt stop) (hends' : t.EndsAt stop') (hname : e.Spares (read kind s).1.nameAt)
    (hspared : ∀ span ∈ (read kind s).1.spans, span.Spared e) :
    (read kind t).1 = (read kind s).1.edit e := by
  simp only [read, List.forall_mem_append] at hname hspared
  obtain ⟨⟨-, hinner⟩, hlast⟩ := hspared
  obtain ⟨htilde, hmark, -⟩ := readTilde_of_echoesBehind h hends.advance hends'.advance
  obtain ⟨hmarker, hfront⟩ := @readMarker_edit e stop stop' _ _ kind hmark
  obtain ⟨hname, hnameAt, hbody, hrest⟩ := readBody_edit hfront hname hinner
  obtain ⟨hspans, hproblems⟩ :=
    @Echo.readEnding e stop stop' _ _ s.current.kind.isRaw false hrest hlast
  have hraw : t.current.kind.isRaw = s.current.kind.isRaw := by rw [hcurrent]; rfl
  have hdelimiter := @Span.filterMap_cover?_one e .metaCode s.current hkept
  rw [← hcurrent] at hdelimiter
  simp only [read, edit, hraw, hname, hnameAt, hspans, hproblems, ← hdelimiter, htilde, hmarker,
    hbody, List.filterMap_append]

/-- The kind of a tag does not depend on its place or on what is behind it. -/
theorem kindOf_edit (h : EchoesBehind e stop stop' s.upcoming t.upcoming)
    (hends : s.EndsAt stop) (hends' : t.EndsAt stop') :
    Heading.kindOf t.upcoming = Heading.kindOf s.upcoming := by
  obtain ⟨-, -, hlevel⟩ := readTilde_of_echoesBehind h hends hends'
  rw [Heading.kindOf_upcoming, Heading.kindOf_upcoming, hlevel.kind]

/-- Nothing of a tag is taken out but markup. -/
structure Spared (e : Edit) (tag : Tag) : Prop where
  nameAt : e.Spares tag.nameAt
  spans : ∀ span ∈ tag.spans, span.Spared e

section ReadAt
variable {o o' : Opening} {tag tag' : Tag} {first : Nat}

/-- What is read at a delimiter that has the same symbols behind it, edited, is
the same tag, edited. -/
theorem ReadAt.edit (h : ReadAt stop o tag) (h' : ReadAt stop' o' tag')
    (hdelimiter : o'.delimiter = o.delimiter.edit e)
    (hkept : e.gone? ≠ some o.delimiter.location)
    (hbehind : EchoesBehind e stop stop' o.behind o'.behind) (hspared : tag.Spared e) :
    tag' = tag.edit e := by
  obtain ⟨s, hends, hcurrent, hahead, rfl⟩ := h
  obtain ⟨t, hends', hcurrent', hahead', rfl⟩ := h'
  rw [← hahead, ← hahead'] at hbehind
  have hkind := kindOf_edit hbehind hends.advance hends'.advance
  rw [hahead, hahead'] at hkind
  rw [hkind]
  refine read_edit (by rw [hcurrent', hcurrent, hdelimiter]) ?_ hbehind hends hends'
    hspared.nameAt hspared.spans
  rwa [hcurrent]

/-- A name that has any text is a span, so it is spared with the spans. -/
theorem spares_nameAt_readBody (hends : s.EndsAt stop)
    (hfollow : Stretch.Follow first (s.upcoming.map Symbol.stretch) stop)
    (hspared : ∀ span ∈ (readBody kind s).spans, span.Spared e) :
    e.Spares (readBody kind s).nameAt := by
  obtain ⟨run, rest, last, -, hrun, hname, -, hspan⟩ := exists_run_readBody kind hends hfollow
  rw [hname]
  by_cases hnil : run = []
  · rw [hnil] at hrun
    cases hrun
    exact Edit.spares_point first
  · have hspares := Span.spares_of_spared (by simp) fun span h => hspared span (hspan h)
    rw [Span.cover?_of_follow hnil hrun] at hspares
    exact hspares _ (List.mem_singleton_self _)

variable (h : ReadAt stop o tag)
  (hfollow : Stretch.Follow first ((o.delimiter :: o.behind).map Symbol.stretch) stop)
include h hfollow

theorem ReadAt.spared (hspared : ∀ span ∈ tag.spans, span.Spared e) : tag.Spared e := by
  refine ⟨?_, hspared⟩
  obtain ⟨s, hends, hcurrent, hahead, rfl⟩ := h
  obtain ⟨taken, htakes, -⟩ := (@readMark_readsInside .tilde s.advance rfl rfl).trans
    (readMarker_readsInside (Heading.kindOf o.behind) _)
  rw [← hahead, htakes.upcoming, ← List.cons_append, List.map_append] at hfollow
  obtain ⟨middle, -, hbody⟩ := hfollow.split
  simp only [read, List.forall_mem_append] at hspared
  exact spares_nameAt_readBody (hends.advance.takes htakes) hbody hspared.1.2

/-- The spans of a tag follow each other from its opening delimiter on. -/
theorem ReadAt.follow (hopen : o.delimiter.kind.isOpenDelimiter = true) :
    ∃ last, Stretch.Follow first (tag.spans.map Span.stretch) last := by
  obtain ⟨s, -, hcurrent, hahead, rfl⟩ := h
  rw [← hcurrent] at hopen
  rw [← hcurrent, ← hahead,
    ← upcoming_of_not_isEnd (Symbol.not_isEnd_of_isOpenDelimiter hopen)] at hfollow
  obtain ⟨htakes, hcovers⟩ := read_takes (Heading.kindOf o.behind) hopen
  rw [htakes.upcoming, List.map_append] at hfollow
  obtain ⟨last, htag, -⟩ := hfollow.split
  exact ⟨last, (hcovers.follow htag).1⟩

end ReadAt

/-- The span of the opening delimiter. -/
theorem ReadAt.delimiter_mem {o : Opening} {tag : Tag} (h : ReadAt stop o tag)
    (htext : o.delimiter.text ≠ "") :
    ⟨.metaCode, o.delimiter.text, o.delimiter.location⟩ ∈ tag.spans := by
  obtain ⟨s, -, hcurrent, -, rfl⟩ := h
  have hspan : ⟨.metaCode, o.delimiter.text, o.delimiter.location⟩ ∈
      (Span.cover? .metaCode [s.current]).toList := by
    rw [hcurrent, Span.cover?_singleton _ htext]
    exact List.mem_singleton_self _
  simp only [read, List.mem_append]
  exact .inl (.inl (.inl (.inl hspan)))

/-- The span of a `~` right behind the opening delimiter. -/
theorem ReadAt.tilde_mem {o : Opening} {tag : Tag} {tilde : Symbol} {rest : List Symbol}
    (h : ReadAt stop o tag) (hbehind : o.behind = tilde :: rest) (hkind : tilde.kind = .tilde)
    (htext : tilde.text ≠ "") : ⟨.metaCode, tilde.text, tilde.location⟩ ∈ tag.spans := by
  obtain ⟨s, -, -, hahead, rfl⟩ := h
  have hcurrent := (current_of_upcoming (hahead.trans hbehind)).2.1
  have hspan : ⟨.metaCode, tilde.text, tilde.location⟩ ∈ (s.advance.readMark .tilde).1 := by
    rw [readMark, hcurrent, if_pos hkind, Span.cover?_singleton _ htext]
    exact List.mem_singleton_self _
  simp only [read, List.mem_append]
  exact .inl (.inl (.inl (.inr hspan)))

/-- The markup of a tag is edited with the spans that are left. -/
theorem markup?_edit {tag : Tag} {first last : Nat}
    (hfollow : Stretch.Follow first (tag.spans.map Span.stretch) last)
    (hspares : ∀ span ∈ tag.spans, e.Spares span.location ∨ e.gone? = some span.location)
    (hkept : ∃ span ∈ tag.spans, e.gone? ≠ some span.location) :
    ∃ l, tag.markup? = some l ∧ (tag.edit e).markup? = some (l.edit e) := by
  obtain ⟨kept, hmem, hkept⟩ := hkept
  have hmarkup {t : Tag} {start stop : Nat} {span : Span} (hspan : span ∈ t.spans)
      (h : Stretch.Follow start (t.spans.map Span.stretch) stop) :
      t.markup? = some ⟨start, stop⟩ := by
    have hne : t.spans.map Span.stretch ≠ [] := List.ne_nil_of_mem (List.mem_map_of_mem hspan)
    rw [markup?, ← h.hullAll hne, List.map_map]
    rfl
  have hedited := hfollow.edit (e := e) (by
    intro s hs
    obtain ⟨span, hspan, rfl⟩ := List.mem_map.1 hs
    exact hspares span hspan)
  rw [← Span.stretch_edit?] at hedited
  exact ⟨⟨first, last⟩, hmarkup hmem hfollow,
    hmarkup (t := tag.edit e) (List.mem_filterMap.2 ⟨kept, hmem, Span.edit?_of_ne hkept⟩) hedited⟩

end Tag

end BraceTemplate
