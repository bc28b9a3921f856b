import BraceTemplate.Proofs.Builder.Placing
import BraceTemplate.Proofs.Tree.Preorder

/-!
# What a builder holds

The spans that open blocks hold, read from the root to the current block, grow
by the spans of each piece that is placed. Closing blocks moves spans into the
parent and changes nothing in this order, so the tree holds the spans of all
pieces. No block but the root is ever without spans.
-/

namespace BraceTemplate

/-- There are spans in or below a block. -/
def Block.Filled (b : Block) : Prop := Node.spansOf b.children ≠ []

theorem Tag.location?_element (tag : Tag) : tag.element.location? = tag.markup? := by
  rw [element, Node.location?, Block.location?, Block.descendantSpans_eq, Node.spansOf_map_span]
  rfl

namespace Builder

variable {options : Options}

/-- The spans in and below open blocks, the root's first. -/
def held : List OpenBlock → List Span
  | [] => []
  | block :: outer => held outer ++ Node.spansOf block.children.toList

/-- All blocks but the root have spans, open or not. -/
def Filled : List OpenBlock → Prop
  | [] => True
  | [root] => Node.AllBlocks Block.Filled root.children.toList
  | block :: parent :: outer =>
    block.toBlock.Filled ∧ Node.AllBlocks Block.Filled block.children.toList ∧
      Filled (parent :: outer)

/-- Nodes without empty blocks may be added to the current block. -/
theorem Filled.append {block : OpenBlock} {outer : List OpenBlock} {nodes : List Node}
    (h : Filled (block :: outer)) (hnodes : Node.AllBlocks Block.Filled nodes) :
    Filled (block.append nodes :: outer) := by
  cases outer with
  | nil =>
    change Node.AllBlocks Block.Filled (block.append nodes).children.toList
    rw [OpenBlock.children_append]
    exact Node.AllBlocks.append h hnodes
  | cons parent outer =>
    obtain ⟨hne, hall, houter⟩ := h
    refine ⟨?_, ?_, houter⟩
    · change Node.spansOf (block.append nodes).children.toList ≠ []
      rw [OpenBlock.children_append, Node.spansOf_append]
      intro hnil
      exact hne (List.append_eq_nil_iff.1 hnil).1
    · rw [OpenBlock.children_append]
      exact hall.append hnodes

theorem held_append (block : OpenBlock) (outer : List OpenBlock) (nodes : List Node) :
    held (block.append nodes :: outer) = held (block :: outer) ++ Node.spansOf nodes := by
  rw [held, held, OpenBlock.children_append, Node.spansOf_append, List.append_assoc]

/-- A block that joins its parent keeps its spans. -/
theorem held_close (block parent : OpenBlock) (outer : List OpenBlock) :
    held (parent.append [block.toNode] :: outer) = held (block :: parent :: outer) := by
  rw [held_append, OpenBlock.toNode_eq, Node.spansOf_block, Node.spansOf_nil, List.append_nil]
  rfl

theorem Filled.close {block parent : OpenBlock} {outer : List OpenBlock}
    (h : Filled (block :: parent :: outer)) : Filled (parent.append [block.toNode] :: outer) :=
  h.2.2.append (Node.allBlocks_block h.1 h.2.1)

theorem spansOf_element (tag : Tag) : Node.spansOf [tag.element] = tag.spans := by
  rw [Tag.element, Node.spansOf_block, Node.spansOf_map_span, Node.spansOf_nil, List.append_nil]

theorem spansOf_expressionUnder (tag : Tag) (parent : String) :
    Node.spansOf [tag.expressionUnder options parent] = tag.spans := by
  rw [Tag.expressionUnder, Node.spansOf_block, Node.spansOf_map_span, Node.spansOf_nil,
    List.append_nil]

theorem allFilled_markup {kind : BlockKind} {name : String} {spans : List Span}
    (hne : spans ≠ []) : Node.AllBlocks Block.Filled [.block kind name (spans.map .span)] :=
  Node.allBlocks_block (by rwa [Block.Filled, Node.spansOf_map_span])
    (Node.allBlocks_spans spans)

/-- A piece adds its spans behind those held before. -/
theorem Placed.held {b c : Builder} {piece : Piece} (h : Placed options b piece c) :
    held c.stack = held b.stack ++ piece.spans := by
  cases h with
  | text block outer ds span =>
    rw [held_append, Node.spansOf_span, Node.spansOf_nil]
    rfl
  | inline block outer ds tag => rw [held_append, Node.spansOf_map_span]; rfl
  | expression block outer ds tag => rw [held_append, spansOf_expressionUnder]; rfl
  | continued block outer ds tag => rw [held_append, spansOf_element]; rfl
  | opened block outer ds tag =>
    change Builder.held (block :: outer) ++ Node.spansOf [tag.element] = _
    rw [spansOf_element]
    rfl
  | stray root ds tag => rw [held_append, spansOf_element]; rfl
  | closed block parent outer ds tag =>
    rw [held_close, held_append, spansOf_element]
    rfl

theorem Placed.filled {b c : Builder} {piece : Piece} (h : Placed options b piece c)
    (hpiece : piece.spans ≠ []) (hfilled : Filled b.stack) : Filled c.stack := by
  cases h with
  | text block outer ds span => exact hfilled.append (Node.allBlocks_spans [span])
  | inline block outer ds tag => exact hfilled.append (Node.allBlocks_spans tag.spans)
  | expression block outer ds tag => exact hfilled.append (allFilled_markup hpiece)
  | continued block outer ds tag => exact hfilled.append (allFilled_markup hpiece)
  | opened block outer ds tag =>
    refine ⟨?_, allFilled_markup hpiece, hfilled⟩
    change Node.spansOf [tag.element] ≠ []
    rwa [spansOf_element]
  | stray root ds tag => exact hfilled.append (allFilled_markup hpiece)
  | closed block parent outer ds tag => exact (hfilled.append (allFilled_markup hpiece)).close

theorem PlacedAll.held {b c : Builder} {pieces : List Piece} (h : PlacedAll options b pieces c) :
    held c.stack = held b.stack ++ pieces.flatMap Piece.spans := by
  induction h with
  | nil b => rw [List.flatMap_nil, List.append_nil]
  | cons hfirst _ ih => rw [ih, hfirst.held, List.flatMap_cons, List.append_assoc]

theorem PlacedAll.filled {b c : Builder} {pieces : List Piece} (h : PlacedAll options b pieces c)
    (hpieces : ∀ piece ∈ pieces, piece.spans ≠ []) (hfilled : Filled b.stack) :
    Filled c.stack := by
  induction h with
  | nil b => exact hfilled
  | cons hfirst _ ih =>
    refine ih (fun piece hpiece => hpieces piece (List.mem_cons_of_mem _ hpiece)) ?_
    exact hfirst.filled (hpieces _ List.mem_cons_self) hfilled

/-- The tree that is left when all blocks are closed holds what was held. -/
theorem held_closeAll (report : Bool) (block : OpenBlock) (outer : List OpenBlock)
    (ds : Array Diagnostic) :
    Node.spansOf (closeAll report block outer ds).root.children = held (block :: outer) := by
  induction outer generalizing block ds with
  | nil => rw [held, held, List.nil_append]; rfl
  | cons parent outer ih => rw [closeAll, ih, OpenBlock.push_eq_append, held_close]

/-- A tree that starts with nothing holds the spans of what was placed. -/
theorem PlacedAll.descendantSpans {block : OpenBlock} {outer : List OpenBlock}
    {ds : Array Diagnostic} {pieces : List Piece}
    (h : PlacedAll options ⟨[.empty .text], #[]⟩ pieces ⟨block :: outer, ds⟩) (report : Bool) :
    (closeAll report block outer ds).root.descendantSpans = pieces.flatMap Piece.spans := by
  have hheld := h.held
  rw [show Builder.held [.empty .text] = [] from Node.spansOf_nil, List.nil_append] at hheld
  rw [Block.descendantSpans_eq, held_closeAll, hheld]

theorem Filled.closeAll {block : OpenBlock} {outer : List OpenBlock} (report : Bool)
    (ds : Array Diagnostic) (h : Filled (block :: outer)) :
    Node.AllBlocks Block.Filled (closeAll report block outer ds).root.children := by
  induction outer generalizing block ds with
  | nil => exact h
  | cons parent outer ih =>
    rw [Builder.closeAll]
    refine ih _ ?_
    rw [OpenBlock.push_eq_append]
    exact h.close

end Builder

end BraceTemplate
