import Mathlib.Order.MinMax
import BraceTemplate.Builder
import BraceTemplate.Piece
import BraceTemplate.Proofs.Tag.Cover
import BraceTemplate.Proofs.Tree.Preorder

/-!
# Editing

When a source is changed in one place, offsets behind it are others, and what
stood at a place that is taken out is gone. Everything that stands elsewhere is
edited by its offsets alone: texts, kinds, names and nesting stay. Hulls and
covering spans are edited with what they are taken of.
-/

namespace BraceTemplate

/-- Where the offsets of a source go when it is changed, and the location that is
taken out, if one is. -/
structure Edit where
  offset : Nat → Nat
  gone? : Option Location
  mono : Monotone offset
  /-- No text is put in between two others. -/
  short : ∀ p n, offset (p + n) ≤ offset p + n
  empty : ∀ l ∈ gone?, l.start < l.stop ∧ offset l.stop = offset l.start

namespace Edit

/-- More text is put in front. -/
def shift (d : Nat) : Edit where
  offset p := p + d
  gone? := none
  mono := fun p q h => Nat.add_le_add_right h d
  short := fun p n => by omega
  empty := by rintro l ⟨⟩

/-- The byte at an offset is taken out. -/
def takeOut (place : Nat) : Edit where
  offset p := if place < p then p - 1 else p
  gone? := some ⟨place, place + 1⟩
  mono := fun p q h => by dsimp only; split <;> split <;> omega
  short := fun p n => by split <;> split <;> omega
  empty := fun l hl => by
    cases Option.some.inj hl
    exact ⟨Nat.lt_succ_self _, by simp⟩

variable (e : Edit)

/-- The length of a location stays as it is. -/
def Spares (l : Location) : Prop := e.offset l.stop + l.start = e.offset l.start + l.stop

variable {e}

/-- What is within a location that is spared is spared too. -/
theorem Spares.within {l m : Location} (h : e.Spares l) (hstart : l.start ≤ m.start)
    (hle : m.start ≤ m.stop) (hstop : m.stop ≤ l.stop) : e.Spares m := by
  have hfront := e.short l.start (m.start - l.start)
  have hinner := e.short m.start (m.stop - m.start)
  have hback := e.short m.stop (l.stop - m.stop)
  rw [Nat.add_sub_cancel' hstart] at hfront
  rw [Nat.add_sub_cancel' hle] at hinner
  rw [Nat.add_sub_cancel' hstop] at hback
  rw [Spares] at h ⊢
  omega

theorem Spares.ne_gone {l : Location} (h : e.Spares l) : e.gone? ≠ some l := by
  intro hgone
  obtain ⟨hlt, heq⟩ := e.empty l hgone
  rw [Spares] at h
  omega

theorem spares_point (p : Nat) : e.Spares (.point p) := rfl

/-- What is put in front takes nothing out. -/
theorem gone?_shift (d : Nat) (l : Location) : (shift d).gone? ≠ some l :=
  (Option.some_ne_none l).symm

theorem spares_shift (d : Nat) (l : Location) : (shift d).Spares l := by
  change l.stop + d + l.start = l.start + d + l.stop
  omega

theorem offset_takeOut_of_le {place p : Nat} (h : p ≤ place) : (takeOut place).offset p = p :=
  if_neg (Nat.not_lt.2 h)

theorem spares_takeOut {place : Nat} {l : Location} (h : l.stop ≤ place ∨ place < l.start)
    (hle : l.start ≤ l.stop) : (takeOut place).Spares l := by
  change (if place < l.stop then _ else _) + _ = (if place < l.start then _ else _) + _
  split <;> split <;> omega

end Edit

variable (e : Edit)

def Location.edit (l : Location) : Location := ⟨e.offset l.start, e.offset l.stop⟩

/-- None where the location is taken out. -/
def Location.edit? (l : Location) : Option Location :=
  if e.gone? = some l then none else some (l.edit e)

def Symbol.edit (s : Symbol) : Symbol := { s with location := s.location.edit e }

def Symbol.edit? (s : Symbol) : Option Symbol :=
  (s.location.edit? e).map fun l => { s with location := l }

def Span.edit (s : Span) : Span := { s with location := s.location.edit e }

def Span.edit? (s : Span) : Option Span :=
  (s.location.edit? e).map fun l => { s with location := l }

def Stretch.edit? (s : Stretch) : Option Stretch :=
  (s.location.edit? e).map fun l => { s with location := l }

/-- A problem with the place that it tells of. -/
def Problem.edit : Problem → Problem
  | unbalancedTag expected actual openedAt => unbalancedTag expected actual (openedAt.map (.edit e))
  | problem => problem

def Diagnostic.edit (x : Diagnostic) : Diagnostic := ⟨x.problem.edit e, x.location.edit e⟩

def Tag.edit (t : Tag) : Tag :=
  { t with
    nameAt := t.nameAt.edit e
    spans := t.spans.filterMap (Span.edit? e)
    problems := t.problems.map (.edit e) }

def Piece.edit : Piece → Piece
  | text span => text (span.edit e)
  | tag t => tag (t.edit e)

/-- Nodes with everything below them, but without the span that is taken out. -/
def Node.editAll : List Node → List Node
  | [] => []
  | span s :: nodes => (s.edit? e).toList.map span ++ editAll nodes
  | block kind name inner :: nodes => block kind name (editAll inner) :: editAll nodes

def Block.edit (b : Block) : Block := { b with children := Node.editAll e b.children }

def Parse.edit (p : Parse) : Parse := ⟨p.root.edit e, p.diagnostics.map (.edit e)⟩

variable {e}

namespace Location

theorem edit?_of_ne {l : Location} (h : e.gone? ≠ some l) : l.edit? e = some (l.edit e) :=
  if_neg h

theorem edit?_of_eq {l : Location} (h : e.gone? = some l) : l.edit? e = none := if_pos h

theorem hull_edit (l m : Location) : (l.edit e).hull (m.edit e) = (l.hull m).edit e := by
  rw [hull, hull, edit, edit, edit, e.mono.map_min, e.mono.map_max]

theorem hullAll_edit (ls : List Location) :
    hullAll (ls.map (edit e)) = (hullAll ls).map (edit e) := by
  cases ls with
  | nil => rfl
  | cons l ls =>
    rw [List.map_cons, hullAll, hullAll, Option.map_some, Option.some.injEq]
    induction ls generalizing l with
    | nil => rfl
    | cons m ls ih =>
      rw [List.map_cons, List.foldl_cons, List.foldl_cons, hull_edit]
      exact ih (l.hull m)

/-- A hull includes what it is taken of. -/
theorem le_of_hullAll {ls : List Location} {l m : Location} (h : hullAll ls = some l)
    (hm : m ∈ ls) : l.start ≤ m.start ∧ m.stop ≤ l.stop := by
  have hstart := map_start_hullAll ls
  have hstop := map_stop_hullAll ls
  rw [h, Option.map_some, eq_comm, List.min?_eq_some_iff] at hstart
  rw [h, Option.map_some, eq_comm, List.max?_eq_some_iff] at hstop
  exact ⟨hstart.2 _ (List.mem_map_of_mem hm), hstop.2 _ (List.mem_map_of_mem hm)⟩

end Location

namespace Symbol

theorem edit?_of_ne {s : Symbol} (h : e.gone? ≠ some s.location) : s.edit? e = some (s.edit e) := by
  rw [edit?, Location.edit?_of_ne h]
  rfl

theorem edit?_of_eq {s : Symbol} (h : e.gone? = some s.location) : s.edit? e = none := by
  rw [edit?, Location.edit?_of_eq h]
  rfl

theorem joinTexts_edit (group : List Symbol) :
    joinTexts (group.map (edit e)) = joinTexts group := by
  rw [joinTexts, List.map_map]
  rfl

theorem filterMap_edit? {symbols : List Symbol} (h : ∀ s ∈ symbols, e.gone? ≠ some s.location) :
    symbols.filterMap (edit? e) = symbols.map (edit e) := by
  induction symbols with
  | nil => rfl
  | cons s symbols ih =>
    rw [List.forall_mem_cons] at h
    rw [List.filterMap_cons_some (edit?_of_ne h.1), ih h.2, List.map_cons]

theorem stretch_edit? (symbols : List Symbol) :
    (symbols.filterMap (edit? e)).map stretch =
      (symbols.map stretch).filterMap (Stretch.edit? e) := by
  rw [List.map_filterMap, List.filterMap_map]
  congr 1
  funext s
  exact Option.map_map _ _ _

end Symbol

namespace Span

theorem edit?_of_ne {s : Span} (h : e.gone? ≠ some s.location) : s.edit? e = some (s.edit e) := by
  rw [edit?, Location.edit?_of_ne h]
  rfl

theorem edit?_of_eq {s : Span} (h : e.gone? = some s.location) : s.edit? e = none := by
  rw [edit?, Location.edit?_of_eq h]
  rfl

theorem stretch_edit? (spans : List Span) :
    (spans.filterMap (edit? e)).map stretch =
      (spans.map stretch).filterMap (Stretch.edit? e) := by
  rw [List.map_filterMap, List.filterMap_map]
  congr 1
  funext s
  exact Option.map_map _ _ _

theorem cover?_edit (kind : SpanKind) (group : List Symbol) :
    cover? kind (group.map (Symbol.edit e)) = (cover? kind group).map (edit e) := by
  have hhull := @Location.hullAll_edit e (group.map Symbol.location)
  rw [List.map_map] at hhull
  rw [cover?, cover?, Symbol.joinTexts_edit, List.map_map]
  change (if _ then none else
    (Location.hullAll (group.map (Location.edit e ∘ Symbol.location))).map _) = _
  rw [hhull]
  split
  · rfl
  · cases Location.hullAll (group.map Symbol.location) <;> rfl

/-- A covering span is edited with its symbols, unless it is taken out. -/
theorem filterMap_cover? {kind : SpanKind} {group : List Symbol}
    (h : ∀ s ∈ (cover? kind group).toList, e.gone? ≠ some s.location) :
    (cover? kind group).toList.filterMap (edit? e) =
      (cover? kind (group.map (Symbol.edit e))).toList := by
  rw [cover?_edit]
  cases hcover : cover? kind group with
  | none => rfl
  | some s =>
    rw [hcover] at h
    exact List.filterMap_cons_some (edit?_of_ne (h s (List.mem_singleton_self s)))

/-- The symbols of a covering span stand within it. -/
theorem exists_cover?_of_mem {group : List Symbol} {x : Symbol} (kind : SpanKind) (hx : x ∈ group)
    (htext : x.text ≠ "") :
    ∃ s, cover? kind group = some s ∧ s.location.start ≤ x.location.start ∧
      x.location.stop ≤ s.location.stop := by
  have hcontent : (Symbol.joinTexts group).isEmpty = false := by
    rw [String.isEmpty_eq_false_iff, Ne, ← String.toList_eq_nil_iff, Symbol.toList_joinTexts]
    intro hnil
    have hmem := List.flatMap_eq_nil_iff.1 hnil x.stretch (List.mem_map_of_mem hx)
    exact htext (String.toList_eq_nil_iff.1 hmem)
  have hlocation : x.location ∈ group.map Symbol.location := List.mem_map_of_mem hx
  cases hhull : Location.hullAll (group.map Symbol.location) with
  | none =>
    cases hlocations : group.map Symbol.location with
    | nil =>
      rw [hlocations] at hlocation
      cases hlocation
    | cons l ls =>
      rw [hlocations] at hhull
      cases hhull
  | some l =>
    refine ⟨⟨kind, Symbol.joinTexts group, l⟩, ?_, Location.le_of_hullAll hhull hlocation⟩
    rw [cover?, hhull, if_neg (by simp [hcontent])]
    rfl

end Span

/-- Stretches that follow each other do so in the edited source, where all are
spared but the one that is taken out. -/
theorem Stretch.Follow.edit {first last : Nat} {stretches : List Stretch}
    (h : Follow first stretches last)
    (hspares : ∀ s ∈ stretches, e.Spares s.location ∨ e.gone? = some s.location) :
    Follow (e.offset first) (stretches.filterMap (Stretch.edit? e)) (e.offset last) := by
  induction stretches generalizing first with
  | nil => exact congrArg e.offset h
  | cons s stretches ih =>
    obtain ⟨hne, hlocation, hrest⟩ := h
    rw [List.forall_mem_cons] at hspares
    have hlater := ih hrest hspares.2
    by_cases hgone : e.gone? = some s.location
    · have hnone : s.edit? e = none := by rw [edit?, Location.edit?_of_eq hgone]; rfl
      rw [List.filterMap_cons_none hnone]
      rw [(e.empty s.location hgone).2, hlocation] at hlater
      exact hlater
    · have hkept : s.edit? e = some { s with location := s.location.edit e } := by
        rw [edit?, Location.edit?_of_ne hgone]
        rfl
      have hspared := hspares.1.resolve_right hgone
      have hlength : e.offset s.location.stop =
          e.offset first + Text.byteLength s.text.toList := by
        rw [Edit.Spares, hlocation] at hspared
        rw [hlocation]
        dsimp only at hspared ⊢
        omega
      rw [List.filterMap_cons_some hkept]
      refine ⟨hne, ?_, hlater⟩
      change Location.edit e s.location = _
      rw [Location.edit, hlength, hlocation]

/-- Of stretches that follow each other, all others are spared where one of a
single byte is taken out. -/
theorem Stretch.Follow.spares_takeOut {first last place : Nat} {before after : List Stretch}
    {s : Stretch} (h : Follow first (before ++ s :: after) last)
    (hlocation : s.location = ⟨place, place + 1⟩) :
    ∀ t ∈ before ++ after, (Edit.takeOut place).Spares t.location := by
  obtain ⟨middle, hbefore, -, hplace, hafter⟩ := h.split
  rw [hlocation] at hplace hafter
  have hmiddle : place = middle := congrArg Location.start hplace
  intro t ht
  rcases List.mem_append.1 ht with ht | ht
  · obtain ⟨-, hlt, hle⟩ := hbefore.bounds ht
    exact Edit.spares_takeOut (.inl (hmiddle ▸ hle)) hlt.le
  · obtain ⟨hle, hlt, -⟩ := hafter.bounds ht
    exact Edit.spares_takeOut (.inr hle) hlt.le

/-- Symbols that follow each other from one place on have their places by their
texts. -/
theorem Symbol.eq_of_follow {first last last' : Nat} {symbols others : List Symbol}
    (h : Stretch.Follow first (symbols.map stretch) last)
    (h' : Stretch.Follow first (others.map stretch) last')
    (hsame : symbols.map (fun s => (s.kind, s.text)) = others.map fun s => (s.kind, s.text)) :
    symbols = others := by
  induction symbols generalizing first others with
  | nil => rw [List.map_eq_nil_iff.1 hsame.symm]
  | cons s symbols ih =>
    cases others with
    | nil => cases hsame
    | cons t others =>
      rw [List.map_cons, List.map_cons, List.cons.injEq, Prod.mk.injEq] at hsame
      obtain ⟨⟨hkind, htext⟩, hrest⟩ := hsame
      obtain ⟨-, hlocation, hfollow⟩ := h
      obtain ⟨-, hlocation', hfollow'⟩ := h'
      have hplaces : s.location = t.location := by
        change s.stretch.location = t.stretch.location
        rw [hlocation, hlocation']
        change Location.mk first (first + Text.byteLength s.text.toList) = _
        rw [htext]
        rfl
      have hst : s = t := by
        cases s
        cases t
        cases hkind
        cases htext
        cases hplaces
        rfl
      subst hst
      rw [ih hfollow hfollow' hrest]

/-! ### Trees -/

namespace Node

@[simp] theorem editAll_nil : editAll e [] = [] := by rw [editAll]

theorem editAll_append (nodes more : List Node) :
    editAll e (nodes ++ more) = editAll e nodes ++ editAll e more := by
  induction nodes with
  | nil => rw [editAll_nil, List.nil_append, List.nil_append]
  | cons node nodes ih =>
    cases node with
    | span s => rw [List.cons_append, editAll, editAll, ih, List.append_assoc]
    | block kind name inner => rw [List.cons_append, editAll, editAll, ih, List.cons_append]

theorem editAll_map_span (spans : List Span) :
    editAll e (spans.map span) = (spans.filterMap (Span.edit? e)).map span := by
  induction spans with
  | nil => rw [List.map_nil, editAll_nil]; rfl
  | cons s spans ih =>
    rw [List.map_cons, editAll, ih]
    cases hedit : s.edit? e with
    | none => rw [List.filterMap_cons_none hedit]; rfl
    | some t => rw [List.filterMap_cons_some hedit]; rfl

theorem editAll_block (kind : BlockKind) (name : String) (inner : List Node) :
    editAll e [block kind name inner] = [block kind name (editAll e inner)] := by
  rw [editAll, editAll_nil]

theorem spansOf_editAll (nodes : List Node) :
    spansOf (editAll e nodes) = (spansOf nodes).filterMap (Span.edit? e) := by
  fun_induction editAll e nodes with
  | case1 => rw [spansOf_nil]; rfl
  | case2 s nodes ih =>
    rw [spansOf_append, spansOf_map_span, spansOf_span, ih]
    cases hedit : s.edit? e with
    | none => rw [List.filterMap_cons_none hedit]; rfl
    | some t => rw [List.filterMap_cons_some hedit]; rfl
  | case3 kind name inner nodes ihInner ihNodes =>
    rw [spansOf_block, spansOf_block, ihInner, ihNodes, List.filterMap_append]

end Node

end BraceTemplate
