import BraceTemplate.Proofs.Builder.Placing
import BraceTemplate.Proofs.Tree.Preorder

/-!
# Builders only grow

Pieces change a block by adding children behind the others, and a block joins
its parent as it is. So every block that was open once is in the tree, with the
children that it had then before all others.
-/

namespace BraceTemplate

/-- The one block is the other with further children behind its own. -/
structure Block.Extends (b c : Block) : Prop where
  kind : c.kind = b.kind
  name : c.name = b.name
  children : b.children <+: c.children

theorem Block.Extends.refl (b : Block) : b.Extends b := ⟨rfl, rfl, List.prefix_refl _⟩

theorem Block.Extends.trans {a b c : Block} (h : a.Extends b) (h' : b.Extends c) : a.Extends c :=
  ⟨h'.kind.trans h.kind, h'.name.trans h.name, h.children.trans h'.children⟩

theorem OpenBlock.extends_append (b : OpenBlock) (nodes : List Node) :
    b.toBlock.Extends (b.append nodes).toBlock := by
  rw [toBlock_append]
  exact ⟨rfl, rfl, List.prefix_append _ _⟩

namespace Builder

variable {options : Options}

/-- The open blocks with all blocks in them. -/
def blocksIn (stack : List OpenBlock) : List Block :=
  stack.flatMap fun b => b.toBlock :: Node.blocksOf b.children.toList

/-- Every block is still there and has kept its children. -/
def Grows (stack after : List OpenBlock) : Prop :=
  ∀ b ∈ blocksIn stack, ∃ c ∈ blocksIn after, b.Extends c

section Grows
variable {b : Block} {block parent : OpenBlock} {stack after outer : List OpenBlock}

theorem mem_blocksIn_cons : b ∈ blocksIn (block :: outer) ↔
    b = block.toBlock ∨ b ∈ Node.blocksOf block.children.toList ∨ b ∈ blocksIn outer := by
  rw [blocksIn, List.flatMap_cons, List.mem_append, List.mem_cons, or_assoc]
  rfl

theorem toBlock_mem_blocksIn (block : OpenBlock) (outer : List OpenBlock) :
    block.toBlock ∈ blocksIn (block :: outer) := mem_blocksIn_cons.2 (.inl rfl)

theorem Grows.of_subset (h : blocksIn stack ⊆ blocksIn after) : Grows stack after :=
  fun b hb => ⟨b, h hb, .refl b⟩

theorem Grows.trans {final : List OpenBlock} (h : Grows stack after) (h' : Grows after final) :
    Grows stack final := by
  intro b hb
  obtain ⟨c, hc, hbc⟩ := h b hb
  obtain ⟨d, hd, hcd⟩ := h' c hc
  exact ⟨d, hd, hbc.trans hcd⟩

theorem grows_append (block : OpenBlock) (outer : List OpenBlock) (nodes : List Node) :
    Grows (block :: outer) (block.append nodes :: outer) := by
  intro b hb
  rcases mem_blocksIn_cons.1 hb with rfl | hb | hb
  · exact ⟨_, toBlock_mem_blocksIn _ _, block.extends_append nodes⟩
  · refine ⟨b, mem_blocksIn_cons.2 (.inr (.inl ?_)), .refl b⟩
    rw [OpenBlock.children_append, Node.blocksOf_append]
    exact List.mem_append_left _ hb
  · exact ⟨b, mem_blocksIn_cons.2 (.inr (.inr hb)), .refl b⟩

theorem grows_push (block : OpenBlock) (outer : List OpenBlock) : Grows outer (block :: outer) :=
  .of_subset fun _ hb => mem_blocksIn_cons.2 (.inr (.inr hb))

theorem grows_close (block parent : OpenBlock) (outer : List OpenBlock) :
    Grows (block :: parent :: outer) (parent.append [block.toNode] :: outer) := by
  have hinner : ∀ c, c = block.toBlock ∨ c ∈ Node.blocksOf block.children.toList →
      c ∈ blocksIn (parent.append [block.toNode] :: outer) := by
    intro c hc
    refine mem_blocksIn_cons.2 (.inr (.inl ?_))
    rw [OpenBlock.children_append, Node.blocksOf_append, OpenBlock.toNode_eq, Node.blocksOf_block,
      Node.blocksOf_nil, List.append_nil]
    exact List.mem_append_right _ (List.mem_cons.2 hc)
  intro b hb
  rcases mem_blocksIn_cons.1 hb with hb | hb | hb
  · exact ⟨b, hinner b (.inl hb), .refl b⟩
  · exact ⟨b, hinner b (.inr hb), .refl b⟩
  · exact grows_append parent outer [block.toNode] b hb

end Grows

theorem Placed.grows {b c : Builder} {piece : Piece} (h : Placed options b piece c) :
    Grows b.stack c.stack := by
  cases h with
  | text block outer | inline block outer | expression block outer | continued block outer =>
    exact grows_append block outer _
  | opened block outer => exact grows_push _ (block :: outer)
  | stray root => exact grows_append root [] _
  | closed block parent outer => exact (grows_append block _ _).trans (grows_close _ parent outer)

theorem PlacedAll.grows {b c : Builder} {pieces : List Piece} (h : PlacedAll options b pieces c) :
    Grows b.stack c.stack := by
  induction h with
  | nil b => exact .of_subset fun _ hb => hb
  | cons hfirst _ ih => exact hfirst.grows.trans ih

/-- Every block that is open is in the tree in the end. -/
theorem closeAll_extends (report : Bool) (block : OpenBlock) (outer : List OpenBlock)
    (ds : Array Diagnostic) {b : Block} (hb : b ∈ blocksIn (block :: outer)) :
    let root := (closeAll report block outer ds).root
    ∃ c ∈ root :: root.descendantBlocks, b.Extends c := by
  induction outer generalizing block ds b with
  | nil =>
    refine ⟨b, ?_, .refl b⟩
    rw [Block.descendantBlocks_eq, List.mem_cons]
    exact (mem_blocksIn_cons.1 hb).imp_right fun h => h.resolve_right (nomatch ·)
  | cons parent outer ih =>
    obtain ⟨c, hc, hbc⟩ := grows_close block parent outer b hb
    rw [closeAll, OpenBlock.push_eq_append]
    obtain ⟨d, hd, hcd⟩ := ih _ _ hc
    exact ⟨d, hd, hbc.trans hcd⟩

end Builder

end BraceTemplate
