import BraceTemplate.Proofs.Builder.Placing
import BraceTemplate.Proofs.Tree.Preorder

/-!
# Branches

Under a branch block `else` is markup of the block and `elseif` adds to it
without a block of its own. The open block whose name is looked at when a tag is
placed is its parent in the tree, and its name is given before anything is placed
in it, so the tree tells of every block whether it was placed under a branch.
-/

namespace BraceTemplate

variable {options : Options}

/-- What a tag that may continue a branch adds to the block that is current,
given the name of that block. -/
def Tag.branchNodes? (options : Options) (parent : String) (tag : Tag) : Option (List Node) :=
  match tag.kind with
  | .expression =>
    if tag.name = "else" then
      let kind := if options.isBranchBlock parent then .tagElement else .expression
      some [.block kind "else" (tag.spans.map .span)]
    else if tag.name = "elseif" ∧ options.isBranchBlock parent = true then
      some (tag.spans.map .span)
    else none
  | .blockOpen =>
    if tag.name = "elseif" ∧ options.isBranchBlock parent = true then
      some [.block .tagElement "" (tag.spans.map .span)]
    else none
  | .blockClose | .comment => none

namespace Block

/-- The block may stand in a block with a name. -/
structure FitsIn (options : Options) (parent : String) (b : Block) : Prop where
  no_elseif : options.isBranchBlock parent = true → b.kind = .tag ∨ b.kind = .expression →
    b.name ≠ "elseif"
  no_else : options.isBranchBlock parent = true → b.kind = .expression → b.name ≠ "else"
  named : b.kind = .tagElement → b.name ≠ "" →
    b.name = "else" ∧ options.isBranchBlock parent = true

/-- Every child block may stand where it does. -/
def Branches (options : Options) (b : Block) : Prop := ∀ c ∈ b.blocks, c.FitsIn options b.name

end Block

namespace Builder

/-- Nodes that may stand in a block with a name, with everything below them. -/
structure FitIn (options : Options) (parent : String) (nodes : List Node) : Prop where
  fit : ∀ c ∈ nodes.filterMap Node.block?, c.FitsIn options parent
  below : Node.AllBlocks (Block.Branches options) nodes

/-- Open blocks may stand where they do, and so may all blocks in them. -/
def Branched (options : Options) : List OpenBlock → Prop
  | [] => True
  | [root] => FitIn options root.name root.children.toList
  | block :: parent :: outer =>
    FitIn options block.name block.children.toList ∧ block.kind = .tag ∧
      block.toBlock.FitsIn options parent.name ∧ Branched options (parent :: outer)

section Steps
variable {block parent : OpenBlock} {outer : List OpenBlock} {name : String}
  {nodes more : List Node} {tag : Tag}

theorem FitIn.append (h : FitIn options name nodes) (hmore : FitIn options name more) :
    FitIn options name (nodes ++ more) where
  fit c hc := by
    rw [List.filterMap_append, List.mem_append] at hc
    exact hc.elim (h.fit c) (hmore.fit c)
  below := h.below.append hmore.below

theorem fitIn_spans (name : String) (spans : List Span) :
    FitIn options name (spans.map .span) where
  fit c hc := by
    obtain ⟨node, hnode, hblock⟩ := List.mem_filterMap.1 hc
    obtain ⟨span, -, rfl⟩ := List.mem_map.1 hnode
    cases hblock
  below := Node.allBlocks_spans spans

theorem fitIn_block {kind : BlockKind} {inner : String}
    (hfits : (Block.mk kind inner nodes).FitsIn options name) (h : FitIn options inner nodes) :
    FitIn options name [.block kind inner nodes] where
  fit c hc := by
    have heq : c = ⟨kind, inner, nodes⟩ := List.mem_singleton.1 hc
    rw [heq]
    exact hfits
  below := Node.allBlocks_block h.fit h.below

theorem fitIn_element (name : String) (tag : Tag) : FitIn options name [tag.element] :=
  fitIn_block ⟨fun _ h => (nomatch h), fun _ h => (nomatch h), fun _ hne => absurd rfl hne⟩
    (fitIn_spans "" tag.spans)

/-- An expression stands under a branch by its name. -/
theorem fitIn_expressionUnder (hnew : continues options name tag = false) :
    FitIn options name [tag.expressionUnder options name] := by
  refine fitIn_block ⟨?_, ?_, ?_⟩ (fitIn_spans _ _)
  · intro hbranch _ helseif
    rw [continues_iff.2 ⟨helseif, hbranch⟩] at hnew
    cases hnew
  · intro hbranch hkind helse
    have helse' : tag.name = "else" := helse
    simp [helse', hbranch] at hkind
  · intro hkind _
    by_cases h : (tag.name == "else" && options.isBranchBlock name) = true
    · rwa [Bool.and_eq_true, beq_iff_eq] at h
    · rw [if_neg h] at hkind
      cases hkind

theorem Branched.children (h : Branched options (block :: outer)) :
    FitIn options block.name block.children.toList := by
  cases outer with
  | nil => exact h
  | cons parent outer => exact h.1

theorem Branched.kind (h : Branched options (block :: outer)) : outer = [] ∨ block.kind = .tag := by
  cases outer with
  | nil => exact .inl rfl
  | cons parent outer => exact .inr h.2.1

theorem Branched.append (h : Branched options (block :: outer))
    (hnodes : FitIn options block.name nodes) : Branched options (block.append nodes :: outer) := by
  have hchildren := h.children.append hnodes
  rw [← OpenBlock.children_append] at hchildren
  cases outer with
  | nil => exact hchildren
  | cons parent outer => exact ⟨hchildren, h.2.1, ⟨h.2.2.1.1, h.2.2.1.2, h.2.2.1.3⟩, h.2.2.2⟩

theorem Branched.close (h : Branched options (block :: parent :: outer)) :
    Branched options (parent.append [block.toNode] :: outer) := by
  obtain ⟨hchildren, -, hfits, houter⟩ := h
  exact houter.append (fitIn_block hfits hchildren)

/-- A block that is opened under a branch is no continuation of it. -/
theorem Branched.push (h : Branched options (block :: outer))
    (hnew : continues options block.name tag = false) :
    Branched options (⟨.tag, tag.name, #[tag.element]⟩ :: block :: outer) := by
  refine ⟨fitIn_element tag.name tag, rfl, ⟨?_, ?_, ?_⟩, h⟩
  · intro hbranch _ helseif
    rw [continues_iff.2 ⟨helseif, hbranch⟩] at hnew
    cases hnew
  · intro _ hkind
    cases hkind
  · intro hkind
    cases hkind

end Steps

theorem Placed.branched {b c : Builder} {piece : Piece} (h : Placed options b piece c)
    (hbranched : Branched options b.stack) : Branched options c.stack := by
  cases h with
  | text block outer ds span => exact hbranched.append (fitIn_spans _ [span])
  | inline block outer ds tag => exact hbranched.append (fitIn_spans _ tag.spans)
  | expression block outer ds tag hkind hnew =>
    exact hbranched.append (fitIn_expressionUnder hnew)
  | continued block outer ds tag => exact hbranched.append (fitIn_element _ tag)
  | opened block outer ds tag hkind hnew => exact hbranched.push hnew
  | stray root ds tag => exact hbranched.append (fitIn_element _ tag)
  | closed block parent outer ds tag => exact (hbranched.append (fitIn_element _ tag)).close

theorem PlacedAll.branched {b c : Builder} {pieces : List Piece} (h : PlacedAll options b pieces c)
    (hbranched : Branched options b.stack) : Branched options c.stack := by
  induction h with
  | nil b => exact hbranched
  | cons hfirst _ ih => exact ih (hfirst.branched hbranched)

theorem Branched.closeAll {block : OpenBlock} {outer : List OpenBlock} (report : Bool)
    (ds : Array Diagnostic) (h : Branched options (block :: outer)) :
    let root := (closeAll report block outer ds).root
    ∀ b ∈ root :: root.descendantBlocks, b.Branches options := by
  induction outer generalizing block ds with
  | nil =>
    intro root b hb
    rw [Block.descendantBlocks_eq, List.mem_cons] at hb
    rcases hb with rfl | hb
    · exact h.fit
    · exact h.below b hb
  | cons parent outer ih =>
    rw [Builder.closeAll, OpenBlock.push_eq_append]
    exact ih _ h.close

/-- What a tag adds to the current block, which stays current, where it is `else`
or continues a branch. -/
theorem Placed.stack_of_branchNodes? {block : OpenBlock} {outer : List OpenBlock}
    {ds : Array Diagnostic} {tag : Tag} {c : Builder} {nodes : List Node}
    (h : Placed options ⟨block :: outer, ds⟩ (.tag tag) c)
    (hnodes : tag.branchNodes? options block.name = some nodes) :
    c.stack = block.append nodes :: outer := by
  rw [Tag.branchNodes?] at hnodes
  cases hkind : tag.kind with
  | blockClose => rw [hkind] at hnodes; cases hnodes
  | comment => rw [hkind] at hnodes; cases hnodes
  | blockOpen =>
    simp only [hkind] at hnodes
    split at hnodes
    · rename_i hold
      cases hnodes
      rw [h.of_blockOpen hkind, if_pos (continues_iff.2 hold)]
      rfl
    · cases hnodes
  | expression =>
    simp only [hkind] at hnodes
    rw [h.of_expression hkind]
    split at hnodes
    · rename_i helse
      cases hnodes
      have hnew : continues options block.name tag = false := by
        rw [continues, helse]
        rfl
      rw [hnew, Tag.expressionUnder, helse]
      rfl
    · split at hnodes
      · rename_i hold
        cases hnodes
        rw [continues_iff.2 hold]
        rfl
      · cases hnodes

end Builder

end BraceTemplate
