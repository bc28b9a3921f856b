import BraceTemplate.Proofs.Editing
import BraceTemplate.Proofs.Openings

/-!
# Streams in an edited source

Symbols echo others if they are the same, edited, up to a delimiter or to the end
of the source, and what is behind a delimiter does not matter. A `~` may be taken
out in front of a closing delimiter or right behind the opening one, but not next
to another `~`. Readers that stop at delimiters take the same symbols off both, as
long as none of their spans but markup is taken out.
-/

namespace BraceTemplate

/-- The symbol is a `~` that is taken out. -/
structure Symbol.TakenOut (e : Edit) (s : Symbol) : Prop where
  kind : s.kind = .tilde
  text : s.text = "~"
  gone : e.gone? = some s.location

namespace Span

/-- Only markup may be taken out. -/
def Spared (e : Edit) (s : Span) : Prop := s.kind = .metaCode ∨ e.Spares s.location

variable {e : Edit} {kind : SpanKind} {group : List Symbol}

theorem spares_of_spared (hkind : kind ≠ .metaCode)
    (h : ∀ s ∈ (cover? kind group).toList, s.Spared e) :
    ∀ s ∈ (cover? kind group).toList, e.Spares s.location := by
  intro s hs
  refine (h s hs).resolve_left ?_
  rwa [kind_of_mem_cover? hs]

/-- No symbol is taken out of a span that is spared. -/
theorem not_takenOut_of_spares (h : ∀ s ∈ (cover? kind group).toList, e.Spares s.location) :
    ∀ x ∈ group, ¬ x.TakenOut e := by
  intro x hx htaken
  have hlt := (e.empty x.location htaken.gone).1
  obtain ⟨s, hs, hstart, hstop⟩ :=
    exists_cover?_of_mem kind hx (by rw [htaken.text]; simp)
  have hspared := h s (by rw [hs]; exact List.mem_singleton_self s)
  exact (hspared.within hstart hlt.le hstop).ne_gone htaken.gone

theorem filterMap_cover?_one {x : Symbol} (h : e.gone? ≠ some x.location) :
    (cover? kind [x]).toList.filterMap (edit? e) = (cover? kind [x.edit e]).toList := by
  refine filterMap_cover? ?_
  intro s hs
  rw [Option.mem_toList, cover?] at hs
  split at hs
  · cases hs
  · obtain ⟨l, hl, rfl⟩ := Option.map_eq_some_iff.1 hs
    cases hl
    exact h

end Span

/-- Symbols that are echoed in the edited source, as far as a tag reads. -/
inductive Echoes (e : Edit) (stop stop' : Nat) : List Symbol → List Symbol → Prop
  | nil (hstop : stop' = e.offset stop) : Echoes e stop stop' [] []
  /-- What is behind a delimiter does not matter. -/
  | delimiter {s : Symbol} (rest rest' : List Symbol) (hkind : s.kind.isDelimiter = true)
      (hkept : e.gone? ≠ some s.location) : Echoes e stop stop' (s :: rest) (s.edit e :: rest')
  /-- Behind a `~` that is kept no other one is taken out, since only one of them would
  be read as markup. -/
  | inside {s : Symbol} {rest rest' : List Symbol} (hkind : s.kind.isDelimiter = false)
      (hkept : e.gone? ≠ some s.location)
      (hnext : s.kind = .tilde → rest'.head?.map Symbol.kind = rest.head?.map Symbol.kind)
      (h : Echoes e stop stop' rest rest') : Echoes e stop stop' (s :: rest) (s.edit e :: rest')
  /-- A `~` is taken out in front of a closing delimiter. -/
  | trailing {tilde s : Symbol} (rest rest' : List Symbol) (htilde : tilde.TakenOut e)
      (hkind : s.kind.isCloseDelimiter = true) (hkept : e.gone? ≠ some s.location)
      (hstart : s.location.start = tilde.location.stop) :
      Echoes e stop stop' (tilde :: s :: rest) (s.edit e :: rest')

/-- Symbols behind an opening delimiter that are echoed, perhaps without a `~` in
front. -/
inductive EchoesBehind (e : Edit) (stop stop' : Nat) : List Symbol → List Symbol → Prop
  | same {rest rest' : List Symbol} (h : Echoes e stop stop' rest rest') :
      EchoesBehind e stop stop' rest rest'
  | leading {tilde : Symbol} {rest rest' : List Symbol} (htilde : tilde.TakenOut e)
      (hnext : ∀ s ∈ rest.head?, s.kind ≠ .tilde) (h : Echoes e stop stop' rest rest') :
      EchoesBehind e stop stop' (tilde :: rest) rest'

section Kept
variable {e : Edit} {stop stop' : Nat} {front rest rest' : List Symbol}
  (hkept : ∀ s ∈ front, e.gone? ≠ some s.location)
include hkept

/-- Symbols that are all kept are echoed, whatever is behind them, if a delimiter
is among them. -/
theorem echoes_of_delimiter (h : ∃ s ∈ front, s.kind.isDelimiter = true) :
    Echoes e stop stop' (front ++ rest) (front.map (Symbol.edit e) ++ rest') := by
  obtain ⟨delimiter, hmem, hdelimiter⟩ := h
  induction front with
  | nil => cases hmem
  | cons s front ih =>
    rw [List.forall_mem_cons] at hkept
    cases hkind : s.kind.isDelimiter with
    | true => exact .delimiter _ _ hkind hkept.1
    | false =>
      rcases List.mem_cons.1 hmem with rfl | hmem
      · rw [hkind] at hdelimiter
        cases hdelimiter
      · have hlater := ih hkept.2 hmem
        obtain ⟨x, others, rfl⟩ := List.exists_cons_of_ne_nil (List.ne_nil_of_mem hmem)
        exact .inside hkind hkept.1 (fun _ => rfl) hlater

/-- Symbols that are all kept are echoed in front of others that are. -/
theorem Echoes.append (h : Echoes e stop stop' rest rest')
    (hlast : ∀ s ∈ front.getLast?, s.kind = .tilde →
      rest'.head?.map Symbol.kind = rest.head?.map Symbol.kind) :
    Echoes e stop stop' (front ++ rest) (front.map (Symbol.edit e) ++ rest') := by
  induction front with
  | nil => exact h
  | cons s front ih =>
    rw [List.forall_mem_cons] at hkept
    cases hkind : s.kind.isDelimiter with
    | true => exact .delimiter _ _ hkind hkept.1
    | false =>
      refine .inside hkind hkept.1 ?_ (ih hkept.2 fun x hx => hlast x ?_)
      · intro htilde
        cases front with
        | nil => exact hlast s rfl htilde
        | cons x others => rfl
      · rw [List.getLast?_cons, Option.mem_def.1 hx]
        rfl

/-- Symbols that are all kept are echoed up to a delimiter or the end. -/
theorem echoes_of_kept
    (h : (∃ s ∈ front, s.kind.isDelimiter = true) ∨ rest' = [] ∧ stop' = e.offset stop) :
    Echoes e stop stop' front (front.map (Symbol.edit e) ++ rest') := by
  have hechoes : Echoes e stop stop' (front ++ []) (front.map (Symbol.edit e) ++ rest') := by
    rcases h with hdelimiter | ⟨rfl, hstop⟩
    · exact echoes_of_delimiter hkept hdelimiter
    · exact Echoes.append hkept (.nil hstop) fun _ _ _ => rfl
  rwa [List.append_nil] at hechoes

end Kept

namespace SymbolStream

/-- What is ahead of a stream is echoed ahead of another, and both know the end
of their source. -/
structure Echo (e : Edit) (stop stop' : Nat) (s t : SymbolStream) : Prop where
  ahead : Echoes e stop stop' s.upcoming t.upcoming
  ends : s.EndsAt stop
  ends' : t.EndsAt stop'

/-- The current symbol of a stream is that of another, edited. -/
structure Level (e : Edit) (s t : SymbolStream) : Prop where
  kind : t.current.kind = s.current.kind
  location : t.current.location = s.current.location.edit e
  kept : ¬ s.current.isEnd → t.current = s.current.edit e ∧ e.gone? ≠ some s.current.location

/-- The first stream is at a `~` that is taken out, and the second one at the
closing delimiter behind it. -/
structure Lags (e : Edit) (stop stop' : Nat) (s t : SymbolStream) : Prop where
  taken : s.current.TakenOut e
  close : t.current.kind.isCloseDelimiter = true
  start : t.current.location.start = e.offset s.current.location.start
  echo : Echo e stop stop' s.advance t
  level : Level e s.advance t

variable {e : Edit} {stop stop' : Nat} {s t : SymbolStream}

theorem Lags.kind_ne (h : Lags e stop stop' s t) {kind : SymbolKind}
    (hkind : kind.isCloseDelimiter = false) : t.current.kind ≠ kind := by
  intro heq
  have hclose := h.close
  rw [heq, hkind] at hclose
  cases hclose

theorem level_of_current {x : Symbol} (hs : s.current = x) (ht : t.current = x.edit e)
    (hkept : e.gone? ≠ some x.location) : Level e s t := by
  subst hs
  exact ⟨by rw [ht]; rfl, by rw [ht]; rfl, fun _ => ⟨ht, hkept⟩⟩

/-- A `~` that is taken out is read, but its span is not kept. -/
theorem readTilde_of_takenOut (h : s.current.TakenOut e) :
    (s.readMark .tilde).1.filterMap (Span.edit? e) = [] ∧ (s.readMark .tilde).2 = s.advance := by
  have hcover := Span.cover?_singleton .metaCode (s := s.current) (by rw [h.text]; simp)
  rw [readMark, if_pos h.kind, hcover]
  refine ⟨?_, rfl⟩
  rw [Option.toList_some, List.filterMap_cons_none (Span.edit?_of_eq h.gone)]
  rfl

namespace Echo

theorem level_or_lags (h : Echo e stop stop' s t) : Level e s t ∨ Lags e stop stop' s t := by
  have hahead := h.ahead
  generalize hx : s.upcoming = xs at hahead
  generalize hy : t.upcoming = ys at hahead
  cases hahead with
  | nil hstop =>
    have hsend := isEnd_of_upcoming hx
    have htend := isEnd_of_upcoming hy
    have hs := h.ends.location_current hsend
    have ht := h.ends'.location_current htend
    refine .inl ⟨?_, ?_, fun hnot => absurd hsend hnot⟩
    · simp only [Symbol.isEnd, beq_iff_eq] at hsend htend
      rw [hsend, htend]
    · rw [hs, ht, hstop]
      rfl
  | delimiter rest rest' hkind hkept =>
    exact .inl (level_of_current (current_of_upcoming hx).2.1 (current_of_upcoming hy).2.1 hkept)
  | inside hkind hkept hnext hrest =>
    exact .inl (level_of_current (current_of_upcoming hx).2.1 (current_of_upcoming hy).2.1 hkept)
  | @trailing tilde c rest rest' htilde hkind hkept hstart =>
    obtain ⟨-, hs, hadvance⟩ := current_of_upcoming hx
    obtain ⟨-, ht, -⟩ := current_of_upcoming hy
    have hnext := (current_of_upcoming hadvance).2.1
    refine .inr ⟨by rwa [hs], by rwa [ht], ?_, ⟨?_, h.ends.advance, h.ends'⟩,
      level_of_current hnext ht hkept⟩
    · rw [hs, ht]
      change e.offset c.location.start = _
      rw [hstart, (e.empty tilde.location htilde.gone).2]
    · rw [hadvance, hy]
      exact .delimiter _ _ (by rw [SymbolKind.isDelimiter, hkind, Bool.or_true]) hkept

theorem level (h : Echo e stop stop' s t) (hkind : s.current.kind ≠ .tilde) : Level e s t :=
  h.level_or_lags.resolve_right fun hlags => hkind hlags.taken.kind

/-- What is current starts where it did. -/
theorem start (h : Echo e stop stop' s t) :
    t.current.location.start = e.offset s.current.location.start := by
  rcases h.level_or_lags with hlevel | hlags
  · rw [hlevel.location]
    rfl
  · exact hlags.start

/-- Level streams go on, and stay level behind a `~`. -/
theorem advance (h : Echo e stop stop' s t) (hlevel : Level e s t) (hend : ¬ s.current.isEnd)
    (hkind : s.current.kind.isDelimiter = false) :
    Echo e stop stop' s.advance t.advance ∧
      (s.current.kind = .tilde → Level e s.advance t.advance) := by
  have hahead := h.ahead
  generalize hx : s.upcoming = xs at hahead
  generalize hy : t.upcoming = ys at hahead
  cases hahead with
  | nil => exact absurd (isEnd_of_upcoming hx) hend
  | delimiter rest rest' hdelimiter =>
    rw [(current_of_upcoming hx).2.1, hdelimiter] at hkind
    cases hkind
  | inside _ _ hnext hrest =>
    obtain ⟨-, hs, hadvance⟩ := current_of_upcoming hx
    obtain ⟨-, -, hadvance'⟩ := current_of_upcoming hy
    have hbehind : Echo e stop stop' s.advance t.advance :=
      ⟨by rwa [hadvance, hadvance'], h.ends.advance, h.ends'.advance⟩
    refine ⟨hbehind, fun htilde => ?_⟩
    have hheads := hnext (by rw [← hs]; exact htilde)
    rw [← hadvance, ← hadvance'] at hheads
    rcases hbehind.level_or_lags with hlevel | hlags
    · exact hlevel
    · have hkinds : t.advance.current.kind = s.advance.current.kind := by
        rw [kind_current, hheads, ← kind_current]
      exact absurd (hkinds.trans hlags.taken.kind) (hlags.kind_ne rfl)
  | @trailing tilde c rest rest' htilde hclose =>
    have hkinds : c.kind = tilde.kind := by
      have hkinds := hlevel.kind
      rwa [(current_of_upcoming hx).2.1, (current_of_upcoming hy).2.1] at hkinds
    rw [hkinds, htilde.kind] at hclose
    cases hclose

/-- A mark is read off level streams or off none, and behind a `~` they are level
again. -/
theorem readMark_of_level {kind : SymbolKind} (h : Echo e stop stop' s t) (hlevel : Level e s t)
    (hend : kind ≠ .eof) (hkind : kind.isDelimiter = false) :
    (t.readMark kind).1 = (s.readMark kind).1.filterMap (Span.edit? e) ∧
      Echo e stop stop' (s.readMark kind).2 (t.readMark kind).2 ∧
      (kind = .tilde → Level e (s.readMark kind).2 (t.readMark kind).2) := by
  by_cases hmark : s.current.kind = kind
  · have hnot : ¬ s.current.isEnd := by simpa [Symbol.isEnd, hmark] using hend
    obtain ⟨hcurrent, hkept⟩ := hlevel.kept hnot
    obtain ⟨hbehind, hnext⟩ := h.advance hlevel hnot (by rwa [hmark])
    rw [hmark] at hnext
    rw [SymbolStream.readMark, SymbolStream.readMark, hlevel.kind, if_pos hmark, if_pos hmark]
    refine ⟨?_, hbehind, hnext⟩
    rw [Span.filterMap_cover?_one hkept, hcurrent]
  · rw [readMark_of_ne hmark, readMark_of_ne (by rwa [hlevel.kind])]
    exact ⟨rfl, h, fun _ => hlevel⟩

/-- A `~` is read off both streams or off none, unless it is taken out, and then
they are level. -/
theorem readTilde (h : Echo e stop stop' s t) :
    (t.readMark .tilde).1 = (s.readMark .tilde).1.filterMap (Span.edit? e) ∧
      Echo e stop stop' (s.readMark .tilde).2 (t.readMark .tilde).2 ∧
      Level e (s.readMark .tilde).2 (t.readMark .tilde).2 := by
  rcases h.level_or_lags with hlevel | hlags
  · have hend : SymbolKind.tilde ≠ .eof := by simp
    obtain ⟨hspans, hrest, hnext⟩ := h.readMark_of_level hlevel hend rfl
    exact ⟨hspans, hrest, hnext rfl⟩
  · obtain ⟨hspans, hbehind⟩ := readTilde_of_takenOut hlags.taken
    rw [readMark_of_ne (hlags.kind_ne rfl), hspans, hbehind]
    exact ⟨rfl, hlags.echo, hlags.level⟩

/-- Any other mark is kept. -/
theorem readMark {kind : SymbolKind} (h : Echo e stop stop' s t) (htilde : kind ≠ .tilde)
    (hend : kind ≠ .eof) (hkind : kind.isDelimiter = false) :
    (t.readMark kind).1 = (s.readMark kind).1.filterMap (Span.edit? e) ∧
      Echo e stop stop' (s.readMark kind).2 (t.readMark kind).2 := by
  rcases h.level_or_lags with hlevel | hlags
  · obtain ⟨hspans, hrest, -⟩ := h.readMark_of_level hlevel hend hkind
    exact ⟨hspans, hrest⟩
  · have hclose : kind.isCloseDelimiter = false := (SymbolKind.isDelimiter_eq_false.1 hkind).2
    rw [readMark_of_ne (hlags.kind_ne hclose),
      readMark_of_ne (by rw [hlags.taken.kind]; exact htilde.symm)]
    exact ⟨rfl, h⟩

end Echo

/-! ### Taking several symbols -/

section CutBy
variable {σ : Type} {step : σ → Symbol → Option σ}
  (hedit : ∀ state x, step state (Symbol.edit e x) = step state x)
  (hstops : ∀ state x, x.kind.isDelimiter = true → step state x = none)
include hedit hstops

/-- Symbols are cut where they were, as long as no `~` that is taken out is in
front of the cut. -/
theorem cutBy_echoes {symbols others : List Symbol} (state : σ)
    (h : Echoes e stop stop' symbols others)
    (hkept : ∀ x ∈ (cutBy step state symbols).1, ¬ x.TakenOut e) :
    (cutBy step state others).1 = (cutBy step state symbols).1.map (Symbol.edit e) ∧
      Echoes e stop stop' (cutBy step state symbols).2 (cutBy step state others).2 := by
  induction h generalizing state with
  | nil hstop => exact ⟨rfl, .nil hstop⟩
  | delimiter rest rest' hkind hmember =>
    have hstop := hstops state _ hkind
    rw [cutBy, cutBy, hedit, hstop]
    exact ⟨rfl, .delimiter rest rest' hkind hmember⟩
  | @inside s rest rest' hkind hmember hnext hrest ih =>
    cases hstep : step state s with
    | none =>
      rw [cutBy, cutBy, hedit, hstep]
      exact ⟨rfl, .inside hkind hmember hnext hrest⟩
    | some state' =>
      rw [cutBy, hstep, List.forall_mem_cons] at hkept
      obtain ⟨htaken, hcut⟩ := ih state' hkept.2
      rw [cutBy, cutBy, hedit, hstep]
      exact ⟨congrArg (Symbol.edit e s :: ·) htaken, hcut⟩
  | @trailing tilde c rest rest' htilde hkind hmember hstart =>
    have hdelimiter : c.kind.isDelimiter = true := by
      rw [SymbolKind.isDelimiter, hkind, Bool.or_true]
    cases hstep : step state tilde with
    | none =>
      rw [cutBy, cutBy, hedit, hstep, hstops state c hdelimiter]
      exact ⟨rfl, .trailing rest rest' htilde hkind hmember hstart⟩
    | some state' =>
      rw [cutBy, hstep, List.forall_mem_cons] at hkept
      exact absurd htilde hkept.1

theorem Echo.takeBy (h : Echo e stop stop' s t) (state : σ)
    (hkept : ∀ x ∈ (s.takeBy step state).1, ¬ x.TakenOut e) :
    (t.takeBy step state).1 = (s.takeBy step state).1.map (Symbol.edit e) ∧
      Echo e stop stop' (s.takeBy step state).2 (t.takeBy step state).2 := by
  rw [takeBy_fst] at hkept
  obtain ⟨htaken, hcut⟩ := cutBy_echoes hedit hstops state h.ahead hkept
  refine ⟨by rw [takeBy_fst, takeBy_fst, htaken], ?_, h.ends.takes (takeBy_takes step state s),
    h.ends'.takes (takeBy_takes step state t)⟩
  rwa [upcoming_takeBy, upcoming_takeBy]

end CutBy

namespace Echo

theorem takeWhile (h : Echo e stop stop' s t) {p : SymbolKind → Bool}
    (hp : ∀ kind, kind.isDelimiter = true → p kind = false) (htilde : p .tilde = false) :
    (t.takeWhile p).1 = (s.takeWhile p).1.map (Symbol.edit e) ∧
      Echo e stop stop' (s.takeWhile p).2 (t.takeWhile p).2 := by
  refine h.takeBy (fun _ _ => rfl) ?_ () ?_
  · intro _ x hx
    exact if_neg (by rw [hp x.kind hx]; exact Bool.false_ne_true)
  · intro x hx htaken
    have hkind := takeWhile_all hx
    rw [htaken.kind, htilde] at hkind
    cases hkind

/-- Blanks are read as they were. -/
theorem takeBlanks (h : Echo e stop stop' s t) :
    t.takeBlanks.1 = s.takeBlanks.1.map (Symbol.edit e) ∧
      Echo e stop stop' s.takeBlanks.2 t.takeBlanks.2 := by
  refine h.takeWhile ?_ rfl
  rintro kind hkind
  cases kind <;> first | rfl | cases hkind

/-- A run is taken as it was, unless a `~` inside it is taken out. -/
theorem takeRun (h : Echo e stop stop' s t) (hkept : ∀ x ∈ s.takeRun.1, ¬ x.TakenOut e) :
    t.takeRun.1 = s.takeRun.1.map (Symbol.edit e) ∧
      Echo e stop stop' s.takeRun.2 t.takeRun.2 := by
  have hedit (n : Nesting) (x : Symbol) : n.step (x.edit e) = n.step x := rfl
  have hstops (n : Nesting) (x : Symbol) (hx : x.kind.isDelimiter = true) : n.step x = none := by
    rw [SymbolKind.isDelimiter] at hx
    rw [Nesting.step, Nesting.stopsAt, hx, Bool.true_or, if_pos rfl]
  exact takeBy hedit hstops h {} hkept

end Echo

/-! ### Arguments and the end of a tag -/

theorem isKeyed_edit (run : List Symbol) : isKeyed (run.map (Symbol.edit e)) = isKeyed run := by
  match run with
  | [] => rfl
  | [_] => rfl
  | _ :: _ :: _ => rfl

theorem filterMap_argument? {run : List Symbol}
    (h : ∀ span ∈ (argument? run).toList, e.Spares span.location) :
    (argument? run).toList.filterMap (Span.edit? e) =
      (argument? (run.map (Symbol.edit e))).toList := by
  rw [argument?, argument?, isKeyed_edit]
  exact Span.filterMap_cover? fun span hspan => (h span hspan).ne_gone

theorem spares_of_argument? {run : List Symbol}
    (h : ∀ span ∈ (argument? run).toList, span.Spared e) :
    ∀ span ∈ (argument? run).toList, e.Spares span.location :=
  Span.spares_of_spared (by split <;> simp) h

namespace Echo

theorem endsArguments_iff (h : Echo e stop stop' s t) :
    endsArguments t.current.kind = endsArguments s.current.kind := by
  rcases h.level_or_lags with hlevel | hlags
  · rw [hlevel.kind]
  · rw [endsArguments, endsArguments, hlags.taken.kind, hlags.close, Bool.or_true]
    rfl

theorem readArguments (h : Echo e stop stop' s t)
    (hspared : ∀ span ∈ s.readArguments.1, span.Spared e) :
    t.readArguments.1 = s.readArguments.1.filterMap (Span.edit? e) ∧
      Echo e stop stop' s.readArguments.2 t.readArguments.2 := by
  induction s using readArguments_induct generalizing t with
  | ends s hends =>
    obtain ⟨hblanks, hrest⟩ := h.takeBlanks
    rw [readArguments_of_ends hends] at hspared ⊢
    rw [readArguments_of_ends (by rw [hrest.endsArguments_iff]; exact hends), hblanks]
    have hspares := Span.spares_of_spared (by simp) hspared
    exact ⟨(Span.filterMap_cover? fun span hspan => (hspares span hspan).ne_gone).symm, hrest⟩
  | run s hends ih =>
    rw [readArguments_of_not_ends hends] at hspared ⊢
    rw [List.forall_mem_append, List.forall_mem_append] at hspared
    obtain ⟨⟨hblank, hargument⟩, hlater⟩ := hspared
    replace hblank := Span.spares_of_spared (by simp) hblank
    replace hargument := spares_of_argument? hargument
    obtain ⟨hblanks, hbehind⟩ := h.takeBlanks
    obtain ⟨hrun, hrest⟩ := hbehind.takeRun (Span.not_takenOut_of_spares hargument)
    obtain ⟨hmore, hlast⟩ := ih hrest hlater
    rw [readArguments_of_not_ends (by rw [hbehind.endsArguments_iff]; exact hends)]
    refine ⟨?_, hlast⟩
    simp only [hblanks, hrun, hmore]
    rw [List.filterMap_append, List.filterMap_append, filterMap_argument? hargument,
      Span.filterMap_cover? fun span hspan => (hblank span hspan).ne_gone]

end Echo

section Ending
variable {raw reported : Bool}

theorem readEnding_of_close (h : (s.readMark .tilde).2.current.kind.isCloseDelimiter = true) :
    s.readEnding raw reported =
      ⟨(s.readMark .tilde).1 ++ (readDelimiter raw (s.readMark .tilde).2).spans,
        (readDelimiter raw (s.readMark .tilde).2).problems,
        (readDelimiter raw (s.readMark .tilde).2).rest⟩ := by
  rw [readEnding]
  simp only [h, dite_true]

theorem readEnding_of_unclosed
    (hclose : ¬ (s.readMark .tilde).2.current.kind.isCloseDelimiter = true)
    (hunclosed : leavesUnclosed (s.readMark .tilde).2.current.kind = true) :
    s.readEnding raw reported =
      ⟨(s.readMark .tilde).1, [⟨.unclosedTag, (s.readMark .tilde).2.current.location⟩],
        (s.readMark .tilde).2⟩ := by
  rw [readEnding]
  simp only [dif_neg hclose, dif_pos hunclosed]

theorem readEnding_of_more
    (hclose : ¬ (s.readMark .tilde).2.current.kind.isCloseDelimiter = true)
    (hunclosed : ¬ leavesUnclosed (s.readMark .tilde).2.current.kind = true) :
    s.readEnding raw reported =
      ⟨(s.readMark .tilde).1 ++ (s.readMark .tilde).2.readArguments.1 ++
          ((s.readMark .tilde).2.readArguments.2.readEnding raw true).spans,
        (if reported then [] else [⟨.unexpectedSymbol, (s.readMark .tilde).2.current.location⟩]) ++
          ((s.readMark .tilde).2.readArguments.2.readEnding raw true).problems,
        ((s.readMark .tilde).2.readArguments.2.readEnding raw true).rest⟩ := by
  rw [readEnding]
  simp only [dif_neg hclose, dif_neg hunclosed]

end Ending

/-- The closing delimiter is the last symbol that the streams need to share. -/
theorem Level.readDelimiter (h : Level e s t) (raw : Bool) (hend : ¬ s.current.isEnd) :
    (t.readDelimiter raw).spans = (s.readDelimiter raw).spans.filterMap (Span.edit? e) ∧
      (t.readDelimiter raw).problems = (s.readDelimiter raw).problems.map (.edit e) := by
  obtain ⟨hcurrent, hkept⟩ := h.kept hend
  refine ⟨?_, ?_⟩
  · change (Span.cover? .metaCode [t.current]).toList = _
    rw [hcurrent]
    exact (Span.filterMap_cover?_one hkept).symm
  · simp only [SymbolStream.readDelimiter, h.kind, h.location]
    split <;> rfl

/-- What is found on the way to the end of a tag. -/
theorem Echo.readEnding {raw reported : Bool} (h : Echo e stop stop' s t)
    (hspared : ∀ span ∈ (s.readEnding raw reported).spans, span.Spared e) :
    (t.readEnding raw reported).spans =
        (s.readEnding raw reported).spans.filterMap (Span.edit? e) ∧
      (t.readEnding raw reported).problems =
        (s.readEnding raw reported).problems.map (.edit e) := by
  fun_induction SymbolStream.readEnding raw reported s generalizing t with
  | case1 reported s tilde symbol hclose =>
    obtain ⟨htilde, -, hlevel⟩ := h.readTilde
    have hend : ¬ tilde.2.current.isEnd := Symbol.not_isEnd_of_isCloseDelimiter hclose
    obtain ⟨hspans, hproblems⟩ := hlevel.readDelimiter raw hend
    rw [readEnding_of_close (by rw [hlevel.kind]; exact hclose), htilde, hspans, hproblems,
      ← List.filterMap_append]
    exact ⟨rfl, rfl⟩
  | case2 reported s tilde symbol hclose =>
    rename_i hunclosed
    obtain ⟨htilde, -, hlevel⟩ := h.readTilde
    rw [readEnding_of_unclosed (by rw [hlevel.kind]; exact hclose)
      (by rw [hlevel.kind]; exact hunclosed), hlevel.location]
    exact ⟨htilde, rfl⟩
  | case3 reported s tilde symbol hclose hunclosed stray arguments more =>
    rename_i ih
    rw [List.forall_mem_append, List.forall_mem_append] at hspared
    obtain ⟨htilde, hmark, hlevel⟩ := h.readTilde
    obtain ⟨harguments, hrest⟩ := hmark.readArguments hspared.1.2
    obtain ⟨hspans, hproblems⟩ := ih hrest hspared.2
    rw [readEnding_of_more (by rw [hlevel.kind]; exact hclose)
      (by rw [hlevel.kind]; exact hunclosed), hlevel.location]
    simp only [htilde, harguments, hspans, hproblems, List.filterMap_append, List.map_append]
    refine ⟨rfl, congrArg (· ++ _) ?_⟩
    cases reported <;> rfl

/-- Behind an opening delimiter one `~` is read, and from there on streams are
alike. -/
theorem readTilde_of_echoesBehind (h : EchoesBehind e stop stop' s.upcoming t.upcoming)
    (hends : s.EndsAt stop) (hends' : t.EndsAt stop') :
    (t.readMark .tilde).1 = (s.readMark .tilde).1.filterMap (Span.edit? e) ∧
      Echo e stop stop' (s.readMark .tilde).2 (t.readMark .tilde).2 ∧
      Level e (s.readMark .tilde).2 (t.readMark .tilde).2 := by
  generalize hx : s.upcoming = xs at h
  generalize hy : t.upcoming = ys at h
  cases h with
  | same h => exact Echo.readTilde ⟨by rwa [hx, hy], hends, hends'⟩
  | @leading tilde rest _ htilde hnext h =>
    obtain ⟨-, hs, hadvance⟩ := current_of_upcoming hx
    obtain ⟨hspans, hbehind⟩ := readTilde_of_takenOut (s := s) (by rwa [hs])
    have hecho : Echo e stop stop' s.advance t := ⟨by rwa [hadvance, hy], hends.advance, hends'⟩
    have hkind : s.advance.current.kind ≠ .tilde := by
      rw [kind_current, hadvance]
      cases rest with
      | nil => simp
      | cons x rest => exact hnext x rfl
    have hlevel := hecho.level hkind
    rw [readMark_of_ne (by rwa [hlevel.kind]), hspans, hbehind]
    exact ⟨rfl, hecho, hlevel⟩

end SymbolStream

end BraceTemplate
