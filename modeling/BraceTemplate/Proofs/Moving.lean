import BraceTemplate.Proofs.Editing

/-!
# Moving

What stands in a source stands further back when more text is put in front: all
locations move by the same number of bytes, and nothing else changes. This is an
edit that takes nothing out.
-/

namespace BraceTemplate

variable (d : Nat)

def Location.move (l : Location) : Location := ⟨l.start + d, l.stop + d⟩

def Symbol.move (s : Symbol) : Symbol := { s with location := s.location.move d }

def Span.move (s : Span) : Span := { s with location := s.location.move d }

/-- A problem with the place that it tells of. -/
def Problem.move : Problem → Problem
  | unbalancedTag expected actual openedAt => unbalancedTag expected actual (openedAt.map (.move d))
  | problem => problem

def Diagnostic.move (x : Diagnostic) : Diagnostic := ⟨x.problem.move d, x.location.move d⟩

def Tag.move (t : Tag) : Tag :=
  { t with
    nameAt := t.nameAt.move d
    spans := t.spans.map (.move d)
    problems := t.problems.map (.move d) }

def Piece.move : Piece → Piece
  | text span => text (span.move d)
  | tag t => tag (t.move d)

namespace Node

mutual

/-- A node with everything below it. -/
def move : Node → Node
  | span s => span (s.move d)
  | block kind name nodes => block kind name (moveAll nodes)

def moveAll : List Node → List Node
  | [] => []
  | node :: nodes => move node :: moveAll nodes

end

theorem moveAll_eq_map (nodes : List Node) : moveAll d nodes = nodes.map (move d) := by
  induction nodes with
  | nil => rfl
  | cons node nodes ih => rw [moveAll, ih, List.map_cons]

@[simp] theorem move_span (s : Span) : (span s).move d = span (s.move d) := by rw [move]

@[simp] theorem move_block (kind : BlockKind) (name : String) (nodes : List Node) :
    (block kind name nodes).move d = block kind name (nodes.map (move d)) := by
  rw [move, moveAll_eq_map]

end Node

/-! ### Moving is an edit -/

theorem Symbol.filterMap_shift (symbols : List Symbol) :
    symbols.filterMap (edit? (.shift d)) = symbols.map (move d) :=
  filterMap_edit? fun _ _ => Edit.gone?_shift d _

theorem Span.edit?_shift (s : Span) : s.edit? (.shift d) = some (s.move d) :=
  edit?_of_ne (Edit.gone?_shift d _)

theorem Span.filterMap_shift (spans : List Span) :
    spans.filterMap (edit? (.shift d)) = spans.map (move d) := by
  rw [funext (edit?_shift d), List.filterMap_eq_map']

theorem Problem.edit_shift (p : Problem) : p.edit (.shift d) = p.move d := by
  cases p <;> rfl

theorem Diagnostic.edit_shift : edit (.shift d) = move d := by
  funext x
  rw [edit, Problem.edit_shift]
  rfl

theorem Tag.edit_shift (t : Tag) : t.edit (.shift d) = t.move d := by
  rw [edit, Span.filterMap_shift, Diagnostic.edit_shift]
  rfl

theorem Piece.edit_shift : edit (.shift d) = move d := by
  funext piece
  cases piece with
  | text span => rfl
  | tag t => rw [edit, Tag.edit_shift, move]

theorem Node.editAll_shift (nodes : List Node) : editAll (.shift d) nodes = nodes.map (move d) := by
  fun_induction editAll (.shift d) nodes with
  | case1 => rfl
  | case2 s nodes ih => rw [Span.edit?_shift, ih, List.map_cons, move_span]; rfl
  | case3 kind name inner nodes ihInner ihNodes =>
    rw [ihInner, ihNodes, List.map_cons, move_block]

/-! ### By no byte -/

theorem Symbol.move_zero : move 0 = id := rfl

theorem Span.move_zero : move 0 = id := rfl

theorem Problem.move_zero (p : Problem) : p.move 0 = p := by
  cases p with
  | unbalancedTag expected actual openedAt => cases openedAt <;> rfl
  | _ => rfl

theorem Tag.move_zero (t : Tag) : t.move 0 = t := by
  have hproblems : t.problems.map (Diagnostic.move 0) = t.problems := by
    apply List.map_id''
    intro x
    rw [Diagnostic.move, Problem.move_zero]
    rfl
  rw [move, hproblems, Span.move_zero, List.map_id]
  rfl

theorem Piece.move_zero (p : Piece) : p.move 0 = p := by
  cases p with
  | text span => rfl
  | tag t => rw [move, Tag.move_zero]

/-- A block stands where its spans do. -/
theorem Node.location?_move (node : Node) :
    (node.move d).location? = node.location?.map (.move d) := by
  cases node with
  | span s => rfl
  | block kind name nodes =>
    have hhull := @Location.hullAll_edit (.shift d) ((spansOf nodes).map Span.location)
    rw [List.map_map] at hhull
    rw [move_block, location?, location?, Block.location?, Block.location?,
      Block.descendantSpans_eq, Block.descendantSpans_eq, ← editAll_shift, spansOf_editAll,
      Span.filterMap_shift, List.map_map]
    exact hhull

end BraceTemplate
