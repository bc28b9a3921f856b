import BraceTemplate.Proofs.Builder.Editing
import BraceTemplate.Proofs.Moving
import BraceTemplate.Proofs.Nesting.Tracking

/-!
# Builders further back

A builder that is given pieces from further back does the same with them, and
its blocks and diagnostics stand further back too. What the root has in front of
its children is kept and changes nothing else.
-/

namespace BraceTemplate

variable {options : Options} (d : Nat) (nodes : List Node)

namespace OpenBlock

/-- A block from further back, with nodes in front of its children. -/
def behind (b : OpenBlock) : OpenBlock :=
  ⟨b.kind, b.name, (nodes ++ b.children.toList.map (Node.move d)).toArray⟩

theorem edit_shift (b : OpenBlock) : b.edit (.shift d) nodes = b.behind d nodes := by
  rw [edit, Node.editAll_shift, behind]

theorem openedAt?_behind (b : OpenBlock) :
    (b.behind d []).openedAt? = b.openedAt?.map (Location.move d) := by
  rw [openedAt?, openedAt?, ← Array.getElem?_toList, ← Array.getElem?_toList, behind,
    List.nil_append, List.getElem?_map]
  cases b.children.toList[0]? with
  | none => rfl
  | some node => exact node.location?_move d

end OpenBlock

/-- A result from further back, with nodes in front of the children of the
root. -/
def Parse.behind (p : Parse) : Parse :=
  ⟨⟨p.root.kind, p.root.name, nodes ++ p.root.children.map (Node.move d)⟩,
    p.diagnostics.map (Diagnostic.move d)⟩

theorem Parse.editBehind_shift (p : Parse) : p.editBehind (.shift d) nodes = p.behind d nodes := by
  rw [editBehind, Node.editAll_shift, Diagnostic.edit_shift, behind]

namespace Builder

/-- A stack from further back, with nodes in front of the children of the
root. -/
def behindAll : List OpenBlock → List OpenBlock
  | [] => []
  | block :: outer => block.behind d (inFront nodes outer) :: behindAll outer

theorem editAll_shift (stack : List OpenBlock) :
    editAll (.shift d) nodes stack = behindAll d nodes stack := by
  induction stack with
  | nil => rfl
  | cons block outer ih => rw [editAll, OpenBlock.edit_shift, ih, behindAll]

/-- A builder that has done all it did further back. -/
def behind (b : Builder) : Builder :=
  ⟨behindAll d nodes b.stack, b.diagnostics.map (Diagnostic.move d)⟩

theorem edit_shift (b : Builder) : b.edit (.shift d) nodes = b.behind d nodes := by
  rw [edit, editAll_shift, Diagnostic.edit_shift, behind]

/-- What pieces do, they do further back. -/
theorem PlacedAll.behind {b c : Builder} {pieces : List Piece}
    (h : PlacedAll options b pieces c) :
    PlacedAll options (b.behind d nodes) (pieces.map (Piece.move d)) (c.behind d nodes) := by
  induction h with
  | nil b => exact .nil _
  | cons hfirst _ ih =>
    have hopened (block : OpenBlock) : (block.edit (.shift d) []).openedAt? =
        block.openedAt?.map (Location.move d) := by
      rw [OpenBlock.edit_shift, OpenBlock.openedAt?_behind]
    have hmoved := hfirst.edit (.shift d) nodes (fun _ _ => Edit.gone?_shift d _)
      fun block _ _ _ => hopened block
    rw [edit_shift, edit_shift, Piece.edit_shift] at hmoved
    exact .cons hmoved ih

/-- Wherever a block was opened, it was opened further back. -/
theorem opened_shift {stack : List OpenBlock} {es : List Entry} (h : Tracks stack es) :
    Opened (.shift d) stack := by
  induction h with
  | root => trivial
  | @block block outer e es _ hentry htracks ih =>
    cases outer with
    | nil => trivial
    | cons parent outer =>
      have hopened := OpenBlock.openedAt?_of_opening? hentry
      have hmoved := block.openedAt?_behind d
      rw [hopened, ← OpenBlock.edit_shift] at hmoved
      exact ⟨⟨_, hopened, hmoved⟩, ih⟩

/-- Closing what is left does so further back. -/
theorem closeAll_behind (report : Bool) {block : OpenBlock} {outer : List OpenBlock}
    {es : List Entry} (ds : Array Diagnostic) (h : Tracks (block :: outer) es) :
    closeAll report (block.behind d (inFront nodes outer)) (behindAll d nodes outer)
        (ds.map (Diagnostic.move d)) =
      (closeAll report block outer ds).behind d nodes := by
  have hclose := closeAll_edit nodes report ds (opened_shift d h)
  rw [OpenBlock.edit_shift, editAll_shift, Diagnostic.edit_shift, Parse.editBehind_shift] at hclose
  exact hclose

end Builder

end BraceTemplate
