import BraceTemplate.Proofs.Builder.Located
import BraceTemplate.Proofs.Editing

/-!
# Builders in an edited source

A builder that is given edited pieces does the same with them, and its blocks and
diagnostics are edited too, as long as it can be told where its blocks were
opened. What the root has in front of its children is kept and changes nothing
else.
-/

namespace BraceTemplate

variable {options : Options} (e : Edit) (nodes : List Node)

namespace OpenBlock

/-- A block in an edited source, with nodes in front of its children. -/
def edit (b : OpenBlock) : OpenBlock :=
  ⟨b.kind, b.name, (nodes ++ Node.editAll e b.children.toList).toArray⟩

theorem edit_append (b : OpenBlock) (more : List Node) :
    (b.append more).edit e nodes = (b.edit e nodes).append (Node.editAll e more) := by
  simp [edit, append, Node.editAll_append]

theorem toNode_edit (b : OpenBlock) : Node.editAll e [b.toNode] = [(b.edit e []).toNode] := by
  rw [toNode_eq, Node.editAll_block]
  rfl

end OpenBlock

namespace Tag

variable (tag : Tag)

theorem spans_edit :
    Node.editAll e (tag.spans.map .span) = (tag.edit e).spans.map .span :=
  Node.editAll_map_span tag.spans

theorem element_edit : Node.editAll e [tag.element] = [(tag.edit e).element] := by
  rw [element, Node.editAll_block, spans_edit]
  rfl

theorem expressionUnder_edit (parent : String) :
    Node.editAll e [tag.expressionUnder options parent] =
      [(tag.edit e).expressionUnder options parent] := by
  rw [expressionUnder, Node.editAll_block, spans_edit]
  rfl

theorem closingProblems_edit {block edited : OpenBlock}
    (hopened : edited.openedAt? = block.openedAt?.map (.edit e))
    (hname : edited.name = block.name) :
    (tag.edit e).closingProblems edited = (tag.closingProblems block).map (.edit e) := by
  rw [closingProblems, closingProblems, hopened, hname]
  change (if tag.name != block.name then _ else _) = _
  split <;> rfl

end Tag

/-- A result in an edited source, with nodes in front of the children of the
root. -/
def Parse.editBehind (p : Parse) : Parse :=
  ⟨⟨p.root.kind, p.root.name, nodes ++ Node.editAll e p.root.children⟩,
    p.diagnostics.map (.edit e)⟩

namespace Builder

/-- Only the root takes nodes in front of its children. -/
def inFront (outer : List OpenBlock) : List Node := if outer.isEmpty then nodes else []

theorem inFront_cons (parent : OpenBlock) (outer : List OpenBlock) :
    inFront nodes (parent :: outer) = [] := rfl

/-- A stack in an edited source, with nodes in front of the children of the
root. -/
def editAll : List OpenBlock → List OpenBlock
  | [] => []
  | block :: outer => block.edit e (inFront nodes outer) :: editAll outer

/-- A builder that has done all it did in an edited source. -/
def edit (b : Builder) : Builder := ⟨editAll e nodes b.stack, b.diagnostics.map (.edit e)⟩

theorem map_edit_append (ds : Array Diagnostic) (more : List Diagnostic) :
    (ds ++ more).map (Diagnostic.edit e) =
      ds.map (Diagnostic.edit e) ++ more.map (Diagnostic.edit e) := by
  apply Array.toList_inj.1
  rw [Array.toList_map, Array.toList_appendList, List.map_append, Array.toList_appendList,
    Array.toList_map]

theorem editAll_append (block : OpenBlock) (outer : List OpenBlock) (more : List Node) :
    editAll e nodes (block.append more :: outer) =
      (block.edit e (inFront nodes outer)).append (Node.editAll e more) ::
        editAll e nodes outer := by
  rw [editAll, OpenBlock.edit_append]

/-- A block that joins its parent does so in the edited source. -/
theorem editAll_close (block parent : OpenBlock) (outer : List OpenBlock) :
    editAll e nodes (parent.append [block.toNode] :: outer) =
      (parent.edit e (inFront nodes outer)).append [(block.edit e []).toNode] ::
        editAll e nodes outer := by
  rw [editAll_append, OpenBlock.toNode_edit]

/-- What a piece does, it does in an edited source. -/
theorem Placed.edit {b c : Builder} {piece : Piece} (h : Placed options b piece c)
    (htext : ∀ span, piece = .text span → e.gone? ≠ some span.location)
    (hopened : ∀ block parent outer, b.stack = block :: parent :: outer →
      (block.edit e []).openedAt? = block.openedAt?.map (.edit e)) :
    Placed options (b.edit e nodes) (piece.edit e) (c.edit e nodes) := by
  cases h with
  | text block outer ds span =>
    have hspan : Node.editAll e [.span span] = [.span (span.edit e)] := by
      rw [Node.editAll, Span.edit?_of_ne (htext span rfl), Node.editAll_nil]
      rfl
    rw [Builder.edit, Builder.edit, editAll_append, hspan]
    exact .text _ _ _ _
  | inline block outer ds tag hkind =>
    rw [Builder.edit, Builder.edit, editAll_append, map_edit_append, Tag.spans_edit]
    exact .inline _ _ _ (tag.edit e) hkind
  | expression block outer ds tag hkind hnew =>
    rw [Builder.edit, Builder.edit, editAll_append, map_edit_append, Tag.expressionUnder_edit]
    exact .expression _ _ _ (tag.edit e) hkind hnew
  | continued block outer ds tag hkind hold =>
    rw [Builder.edit, Builder.edit, editAll_append, map_edit_append, Tag.element_edit]
    exact .continued _ _ _ (tag.edit e) hkind hold
  | opened block outer ds tag hkind hnew =>
    have hblock : OpenBlock.edit e [] ⟨.tag, tag.name, #[tag.element]⟩ =
        ⟨.tag, tag.name, #[(tag.edit e).element]⟩ := by
      rw [OpenBlock.edit, Tag.element_edit]
      rfl
    rw [Builder.edit, Builder.edit, map_edit_append]
    change Placed options _ _ ⟨OpenBlock.edit e [] ⟨.tag, tag.name, #[tag.element]⟩ :: _, _⟩
    rw [hblock]
    exact .opened _ _ _ (tag.edit e) hkind hnew
  | stray root ds tag hkind =>
    rw [Builder.edit, Builder.edit, editAll_append, map_edit_append, map_edit_append,
      Tag.element_edit]
    exact .stray _ _ (tag.edit e) hkind
  | closed block parent outer ds tag hkind =>
    rw [Builder.edit, Builder.edit, editAll_close, map_edit_append, map_edit_append,
      OpenBlock.edit_append, Tag.element_edit,
      ← tag.closingProblems_edit e (hopened block parent outer rfl) rfl]
    exact .closed _ _ _ _ (tag.edit e) hkind

/-! ### Where blocks were opened -/

/-- Blocks but the root were opened at places that are edited with them. -/
def Opened : List OpenBlock → Prop
  | block :: parent :: outer =>
    (∃ l, block.openedAt? = some l ∧ (block.edit e []).openedAt? = some (l.edit e)) ∧
      Opened (parent :: outer)
  | _ => True

section Opened
variable {e} {block parent : OpenBlock} {outer : List OpenBlock}

theorem Opened.append (h : Opened e (block :: outer)) (more : List Node) :
    Opened e (block.append more :: outer) := by
  cases outer with
  | nil => trivial
  | cons parent outer =>
    obtain ⟨⟨l, hl, hedited⟩, houter⟩ := h
    refine ⟨⟨l, openedAt?_append hl more, ?_⟩, houter⟩
    rw [OpenBlock.edit_append]
    exact openedAt?_append hedited _

theorem Placed.keepsOpened {b c : Builder} {piece : Piece} (h : Placed options b piece c)
    (hpiece : ∀ tag, piece = .tag tag →
      ∃ l, tag.markup? = some l ∧ (tag.edit e).markup? = some (l.edit e))
    (hopened : Opened e b.stack) : Opened e c.stack := by
  cases h with
  | text | inline | expression | continued | stray => exact hopened.append _
  | closed => exact hopened.2.append _
  | opened block outer ds tag =>
    obtain ⟨l, hl, hedited⟩ := hpiece tag rfl
    rw [← Tag.location?_element] at hl hedited
    refine ⟨⟨l, hl, ?_⟩, hopened⟩
    rw [OpenBlock.edit, Tag.element_edit]
    exact hedited

/-- Several pieces do what they did. -/
theorem PlacedAll.edit {b c : Builder} {pieces : List Piece} (h : PlacedAll options b pieces c)
    (htexts : ∀ span, .text span ∈ pieces → e.gone? ≠ some span.location)
    (htags : ∀ tag, .tag tag ∈ pieces →
      ∃ l, tag.markup? = some l ∧ (tag.edit e).markup? = some (l.edit e))
    (hopened : Opened e b.stack) :
    PlacedAll options (b.edit e nodes) (pieces.map (.edit e)) (c.edit e nodes) ∧
      Opened e c.stack := by
  induction h with
  | nil b => exact ⟨.nil _, hopened⟩
  | @cons b c d piece pieces hfirst _ ih =>
    obtain ⟨hrest, hlast⟩ := ih (fun span hspan => htexts span (List.mem_cons_of_mem _ hspan))
      (fun tag htag => htags tag (List.mem_cons_of_mem _ htag))
      (hfirst.keepsOpened (fun tag htag => htags tag (htag ▸ List.mem_cons_self)) hopened)
    refine ⟨.cons (hfirst.edit e nodes ?_ ?_) hrest, hlast⟩
    · rintro span rfl
      exact htexts span List.mem_cons_self
    · intro block parent outer hstack
      rw [hstack] at hopened
      obtain ⟨⟨l, hl, hedited⟩, -⟩ := hopened
      rw [hl, hedited]
      rfl

theorem unclosed_edit (h : Opened e (block :: parent :: outer)) :
    unclosed (block.edit e []) = (unclosed block).map (.edit e) := by
  obtain ⟨⟨l, hl, hedited⟩, -⟩ := h
  rw [unclosed, unclosed, hl, hedited]
  change (if block.kind = .tag then _ else _) = _
  split <;> rfl

/-- Closing what is left does so in an edited source. -/
theorem closeAll_edit (report : Bool) (ds : Array Diagnostic) (h : Opened e (block :: outer)) :
    closeAll report (block.edit e (inFront nodes outer)) (editAll e nodes outer)
        (ds.map (Diagnostic.edit e)) =
      (closeAll report block outer ds).editBehind e nodes := by
  induction outer generalizing block ds with
  | nil =>
    rw [editAll, closeAll, closeAll, Array.toList_map]
    rfl
  | cons parent outer ih =>
    have hreport : (if report then ds.map (Diagnostic.edit e) ++ unclosed (block.edit e [])
          else ds.map (Diagnostic.edit e)) =
        (if report then ds ++ unclosed block else ds).map (Diagnostic.edit e) := by
      cases report with
      | true => rw [if_pos rfl, if_pos rfl, map_edit_append, unclosed_edit h]
      | false => rfl
    rw [editAll, closeAll, closeAll, OpenBlock.push_eq_append, OpenBlock.push_eq_append,
      inFront_cons, hreport, ← OpenBlock.toNode_edit, ← OpenBlock.edit_append]
    exact ih _ (h.2.append _)

end Opened

end Builder

end BraceTemplate
