import Mathlib.Data.List.Chain
import BraceTemplate.Proofs.Nesting.Tracking

/-!
# Shapes of blocks

What a block looks like once nothing is added to it any more. A block for the
markup of a tag holds spans only. A block for a pair of tags starts with the
markup of the one and, if it was closed, ends with the markup of the other; in
between there is no further markup of its own, unless it is a branch block.
-/

namespace BraceTemplate

variable {options : Options}

def Node.isElement : Node → Bool
  | .span _ => false
  | .block kind _ _ => kind == .tagElement

namespace Block

/-- A block that holds the markup of a single tag. -/
structure Markup (b : Block) : Prop where
  kind : b.kind = .tagElement ∨ b.kind = .expression
  spans : ∃ delimiter rest, b.children = (delimiter :: rest).map .span ∧ delimiter.IsOpening
  named : b.kind = .expression ∨ b.name ≠ "" → Span.Name b.name b.spans

/-- A `tag` block that starts with the markup of its opening tag and ends with
the given nodes. -/
structure Ends (options : Options) (closing : List Node) (b : Block) : Prop where
  kind : b.kind = .tag
  children : ∃ spans inner, b.children =
      .block .tagElement "" (spans.map .span) :: (inner ++ closing) ∧
    Span.BeginWith "#" spans ∧ Span.Name b.name spans ∧
    (options.isBranchBlock b.name = false → ∀ node ∈ inner, node.isElement = false)

/-- A `tag` block that ends with the markup of a closing tag. -/
def Closed (options : Options) (b : Block) : Prop :=
  ∃ spans, Span.BeginWith "/" spans ∧
    b.Ends options [.block .tagElement "" (spans.map .span)]

/-- A block that is finished, by a closing tag if it is a `tag` block. -/
def Settled (options : Options) (b : Block) : Prop := b.Markup ∨ b.Closed options

theorem spans_map_span (kind : BlockKind) (name : String) (spans : List Span) :
    (Block.mk kind name (spans.map .span)).spans = spans := by
  rw [Block.spans, List.filterMap_map]
  exact List.filterMap_some

theorem Settled.kind_ne_text {b : Block} (h : b.Settled options) : b.kind ≠ .text := by
  rcases h with h | ⟨spans, -, h⟩
  · rcases h.kind with hkind | hkind <;> simp [hkind]
  · simp [h.kind]

theorem Settled.markup {b : Block} (h : b.Settled options)
    (hkind : b.kind = .tagElement ∨ b.kind = .expression) : b.Markup := by
  rcases h with h | ⟨spans, -, h⟩
  · exact h
  · rcases hkind with hkind | hkind <;> simp [h.kind] at hkind

theorem Settled.closed {b : Block} (h : b.Settled options) (hkind : b.kind = .tag) :
    b.Closed options := by
  rcases h with h | h
  · rcases h.kind with hother | hother <;> simp [hkind] at hother
  · exact h

/-- Nodes may be added behind the markup of the opening tag. -/
theorem Ends.append {kind : BlockKind} {name : String} {children nodes : List Node}
    (h : (Block.mk kind name children).Ends options [])
    (hnodes : options.isBranchBlock name = false → ∀ node ∈ nodes, node.isElement = false) :
    (Block.mk kind name (children ++ nodes)).Ends options [] := by
  obtain ⟨hkind, spans, inner, hchildren, hbegin, hname, hinner⟩ := h
  refine ⟨hkind, spans, inner ++ nodes, ?_, hbegin, hname, ?_⟩
  · rw [List.append_nil] at hchildren
    rw [List.append_nil, ← List.cons_append, ← hchildren]
  · intro hbranch node hnode
    exact (List.mem_append.1 hnode).elim (hinner hbranch node) (hnodes hbranch node)

/-- The markup of a closing tag closes a block. -/
theorem Ends.closed {kind : BlockKind} {name : String} {children : List Node} {spans : List Span}
    (h : (Block.mk kind name children).Ends options []) (hspans : Span.BeginWith "/" spans) :
    (Block.mk kind name
      (children ++ [.block .tagElement "" (spans.map .span)])).Closed options := by
  obtain ⟨hkind, opening, inner, hchildren, hbegin, hname, hinner⟩ := h
  refine ⟨spans, hspans, hkind, opening, inner, ?_, hbegin, hname, hinner⟩
  rw [List.append_nil] at hchildren
  rw [← List.cons_append, ← hchildren]

theorem tagElements_cons_block (kind name : _) (name' : String) (inner nodes : List Node)
    (kind' : BlockKind) :
    (Block.mk kind name (.block kind' name' inner :: nodes)).tagElements =
      (if kind' = .tagElement then [⟨kind', name', inner⟩] else []) ++
        (Block.mk kind name nodes).tagElements := by
  simp only [tagElements, Block.blocks, List.filterMap_cons, Node.block?, List.filter_cons]
  by_cases h : kind' = .tagElement <;> simp [h]

theorem tagElements_append (kind : BlockKind) (name : String) (nodes more : List Node) :
    (Block.mk kind name (nodes ++ more)).tagElements =
      (Block.mk kind name nodes).tagElements ++ (Block.mk kind name more).tagElements := by
  simp only [tagElements, Block.blocks, List.filterMap_append, List.filter_append]

theorem tagElements_eq_nil {kind : BlockKind} {name : String} {nodes : List Node}
    (h : ∀ node ∈ nodes, node.isElement = false) : (Block.mk kind name nodes).tagElements = [] := by
  rw [tagElements, Block.blocks, List.filter_eq_nil_iff]
  intro c hc
  obtain ⟨node, hnode, hblock⟩ := List.mem_filterMap.1 hc
  have hother := h node hnode
  cases node with
  | span s => cases hblock
  | block kind' name' inner =>
    cases Option.some.inj hblock
    exact Bool.not_eq_true _ ▸ hother

/-- Between its ends a block has no markup of its own, unless it is a branch
block. -/
theorem Ends.tagElements {closing : List Node} {b : Block} (h : b.Ends options closing)
    (hbranch : options.isBranchBlock b.name = false) :
    ∃ first, b.children.head? = some first.toNode ∧
      b.tagElements = first :: (Block.mk .tag b.name closing).tagElements := by
  obtain ⟨kind, name, children⟩ := b
  obtain ⟨hkind, spans, inner, hchildren, -, -, hinner⟩ := h
  change children = _ at hchildren
  refine ⟨⟨.tagElement, "", spans.map .span⟩, by rw [hchildren]; rfl, ?_⟩
  rw [hchildren, tagElements_cons_block, tagElements_append, tagElements_eq_nil (hinner hbranch)]
  rfl

end Block

namespace Tag

variable {tag : Tag}

theorem markup_element (h : tag.Formed) :
    (Block.mk .tagElement "" (tag.spans.map .span)).Markup := by
  obtain ⟨delimiter, rest, hspans, hopening⟩ := h.opening
  refine ⟨.inl rfl, ⟨delimiter, rest, by rw [hspans], hopening⟩, ?_⟩
  rintro (hkind | hname)
  · cases hkind
  · exact absurd rfl hname

theorem markup_named (h : tag.Formed) {kind : BlockKind}
    (hkind : kind = .tagElement ∨ kind = .expression) :
    (Block.mk kind tag.name (tag.spans.map .span)).Markup := by
  obtain ⟨delimiter, rest, hspans, hopening⟩ := h.opening
  refine ⟨hkind, ⟨delimiter, rest, by rw [hspans], hopening⟩, fun _ => ?_⟩
  rw [Block.spans_map_span]
  exact h.named

end Tag

namespace Builder

/-- Everything in and below a list of nodes is finished. -/
def AllSettled (options : Options) (nodes : List Node) : Prop :=
  Node.AllBlocks (Block.Settled options) nodes

theorem allSettled_markup {kind : BlockKind} {name : String} {spans : List Span}
    (h : (Block.mk kind name (spans.map .span)).Markup) :
    AllSettled options [.block kind name (spans.map .span)] :=
  Node.allBlocks_block (.inl h) (Node.allBlocks_spans spans)

/-- Open blocks but the root have all but their ends, and what is in them is
finished. -/
def Shaped (options : Options) : List OpenBlock → Prop
  | [] => True
  | block :: outer =>
    (outer ≠ [] → block.toBlock.Ends options []) ∧
      AllSettled options block.children.toList ∧ Shaped options outer

/-- Finished nodes may be added to the current block, markup of its own only to
branch blocks and to the root. -/
theorem Shaped.append {block : OpenBlock} {outer : List OpenBlock} {nodes : List Node}
    (h : Shaped options (block :: outer)) (hnodes : AllSettled options nodes)
    (helement : outer ≠ [] → options.isBranchBlock block.name = false →
      ∀ node ∈ nodes, node.isElement = false) :
    Shaped options (block.append nodes :: outer) := by
  obtain ⟨hends, hsettled, houter⟩ := h
  refine ⟨?_, ?_, houter⟩
  · intro hne
    rw [OpenBlock.toBlock_append]
    exact (hends hne).append (helement hne)
  · rw [OpenBlock.children_append]
    exact hsettled.append hnodes

theorem isElement_toNode {block : OpenBlock} (hkind : block.kind = .tag) :
    block.toNode.isElement = false := by
  rw [OpenBlock.toNode_eq, hkind]
  rfl

/-- A block that is closed joins its parent as a finished one. -/
theorem Shaped.close {block parent : OpenBlock} {outer : List OpenBlock} {tag : Tag}
    (h : Shaped options (block :: parent :: outer)) (hformed : tag.Formed)
    (hkind : tag.kind = .blockClose) :
    Shaped options (parent.append [(block.append [tag.element]).toNode] :: outer) := by
  obtain ⟨hends, hsettled, houter⟩ := h
  have hopen := hends (List.cons_ne_nil parent outer)
  refine houter.append ?_ ?_
  · rw [OpenBlock.toNode_eq, OpenBlock.children_append]
    refine Node.allBlocks_block (.inr ?_) ?_
    · exact hopen.closed (hformed.blockClose hkind)
    · exact hsettled.append (allSettled_markup (Tag.markup_element hformed))
  · intro _ _ node hnode
    rw [List.mem_singleton.1 hnode]
    exact isElement_toNode hopen.kind

/-- A piece leaves everything in shape. -/
theorem Placed.shaped {b c : Builder} {piece : Piece} (h : Placed options b piece c)
    (hpiece : ∀ tag, piece = .tag tag → tag.Formed) (hshaped : Shaped options b.stack) :
    Shaped options c.stack := by
  have hspans : ∀ spans : List Span, ∀ node ∈ spans.map Node.span, node.isElement = false := by
    intro spans node hnode
    obtain ⟨span, -, rfl⟩ := List.mem_map.1 hnode
    rfl
  cases h with
  | text block outer ds span =>
    exact hshaped.append (Node.allBlocks_spans [span]) fun _ _ => hspans [span]
  | inline block outer ds tag =>
    exact hshaped.append (Node.allBlocks_spans tag.spans) fun _ _ => hspans tag.spans
  | expression block outer ds tag hkind hnew =>
    refine hshaped.append (allSettled_markup ?_) ?_
    · refine Tag.markup_named (hpiece tag rfl) ?_
      split
      · exact .inl rfl
      · exact .inr rfl
    · intro _ hbranch node hnode
      rw [List.mem_singleton.1 hnode, Tag.expressionUnder, hbranch, Bool.and_false]
      rfl
  | continued block outer ds tag hkind hold =>
    refine hshaped.append (allSettled_markup (Tag.markup_element (hpiece tag rfl))) ?_
    intro _ hbranch
    rw [(continues_iff.1 hold).2] at hbranch
    cases hbranch
  | opened block outer ds tag hkind hnew =>
    have hformed := hpiece tag rfl
    refine ⟨fun _ => ⟨rfl, tag.spans, [], rfl, hformed.blockOpen hkind, hformed.named, ?_⟩,
      allSettled_markup (Tag.markup_element hformed), hshaped⟩
    intro _ node hnode
    cases hnode
  | stray root ds tag hkind =>
    refine hshaped.append (allSettled_markup (Tag.markup_element (hpiece tag rfl))) ?_
    intro hne
    exact absurd rfl hne
  | closed block parent outer ds tag hkind => exact hshaped.close (hpiece tag rfl) hkind

theorem PlacedAll.shaped {b c : Builder} {pieces : List Piece} (h : PlacedAll options b pieces c)
    (hpieces : ∀ tag, .tag tag ∈ pieces → tag.Formed) (hshaped : Shaped options b.stack) :
    Shaped options c.stack := by
  induction h with
  | nil b => exact hshaped
  | cons hfirst _ ih =>
    refine ih (fun tag htag => hpieces tag (List.mem_cons_of_mem _ htag)) ?_
    refine hfirst.shaped ?_ hshaped
    rintro tag rfl
    exact hpieces tag List.mem_cons_self

end Builder

/-- The one block is the last thing in the other. -/
def Block.EndsIn (b c : Block) : Prop := b.children.getLast? = some c.toNode

/-- Blocks that are closed without a closing tag, from the outermost one that
was closed in this way. Each is the last thing in the one before. -/
structure Unwound (options : Options) (block : OpenBlock) (outer : List OpenBlock)
    (unclosed : List Block) : Prop where
  ends : outer ≠ [] → block.toBlock.Ends options []
  below : Node.AllBlocks (fun b => b.Settled options ∨ b ∈ unclosed) block.children.toList
  outer : Builder.Shaped options outer
  chain : (block.toBlock :: unclosed).IsChain Block.EndsIn
  unclosed : ∀ c ∈ unclosed,
    c ∈ Node.blocksOf block.children.toList ∧ c.Ends options []

namespace Unwound

variable {block parent : OpenBlock} {outer : List OpenBlock} {unclosed : List Block}

theorem start (h : Builder.Shaped options (block :: outer)) : Unwound options block outer [] where
  ends := h.1
  below := h.2.1.imp fun _ => Or.inl
  outer := h.2.2
  chain := .singleton _
  unclosed _ hc := nomatch hc

theorem close (h : Unwound options block (parent :: outer) unclosed) :
    Unwound options (parent.append [block.toNode]) outer (block.toBlock :: unclosed) := by
  obtain ⟨hends, hbelow, ⟨hparent, hsettled, houter⟩, hchain, hunclosed⟩ := h
  have hopen := hends (List.cons_ne_nil parent outer)
  have hblocks : Node.blocksOf (parent.append [block.toNode]).children.toList =
      Node.blocksOf parent.children.toList ++
        block.toBlock :: Node.blocksOf block.children.toList := by
    rw [OpenBlock.children_append, Node.blocksOf_append, OpenBlock.toNode_eq,
      Node.blocksOf_block, Node.blocksOf_nil, List.append_nil]
    rfl
  refine ⟨?_, ?_, houter, ?_, ?_⟩
  · intro hne
    rw [OpenBlock.toBlock_append]
    refine (hparent hne).append fun _ node hnode => ?_
    rw [List.mem_singleton.1 hnode]
    exact Builder.isElement_toNode hopen.kind
  · intro b hb
    rw [hblocks, List.mem_append, List.mem_cons] at hb
    rcases hb with hb | rfl | hb
    · exact .inl (hsettled b hb)
    · exact .inr List.mem_cons_self
    · exact (hbelow b hb).imp_right (List.mem_cons_of_mem _)
  · refine .cons_cons ?_ hchain
    rw [Block.EndsIn, OpenBlock.toBlock_append]
    exact List.getLast?_concat
  · intro c hc
    rw [hblocks]
    rcases List.mem_cons.1 hc with rfl | hc
    · exact ⟨List.mem_append_right _ List.mem_cons_self, hopen⟩
    · obtain ⟨hmem, hend⟩ := hunclosed c hc
      exact ⟨List.mem_append_right _ (List.mem_cons_of_mem _ hmem), hend⟩

end Unwound

/-- Closing everything leaves the open blocks as a chain of last children, which
stand for the entries of the stack. -/
theorem Builder.closeAll_unwound {block : OpenBlock} {outer : List OpenBlock} {es : List Entry}
    {unclosed : List Block} (report : Bool) (ds : Array Diagnostic)
    (h : Unwound options block outer unclosed) (htracks : Tracks (block :: outer) es) :
    ∃ root all, (closeAll report block outer ds).root = root.toBlock ∧ root.kind = .text ∧
      root.name = "" ∧ Unwound options root [] all ∧
      all.map Block.opening? = es.reverse.map some ++ unclosed.map Block.opening? := by
  induction outer generalizing block es unclosed ds with
  | nil =>
    cases htracks with
    | root hkind hname => exact ⟨block, unclosed, rfl, hkind, hname, h, rfl⟩
    | block _ _ h => cases h
  | cons parent outer ih =>
    cases es with
    | nil => cases htracks
    | cons e es =>
      obtain ⟨root, all, hroot, hkind, hname, hall, hentries⟩ :=
        ih (if report then ds ++ Builder.unclosed block else ds) h.close htracks.close
      rw [closeAll, OpenBlock.push_eq_append]
      refine ⟨root, all, hroot, hkind, hname, hall, ?_⟩
      rw [hentries, List.map_cons, htracks.opening?_eq, List.reverse_cons, List.map_append,
        List.append_assoc]
      rfl

end BraceTemplate
