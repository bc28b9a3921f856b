import BraceTemplate.Proofs.Builder.Growing
import BraceTemplate.Proofs.Nesting.Branching
import BraceTemplate.Proofs.Nesting.Pairing

/-!
# Parses and branches

Each tag of a source is placed into the block that is current then, which the
tree has in the end with everything that it had. What the tag adds to it is told
by the name of the block. So `else` and `elseif` never stand under a branch block
as tags of their own, and no markup is named but an `else` under a branch.
-/

namespace BraceTemplate

/-- How a tag is placed into the current block, with what the tree keeps of it. -/
structure Tag.PlacedIn (options : Options) (root : Block) (tag : Tag) (block : OpenBlock)
    (outer : List OpenBlock) (after : Builder) : Prop where
  current : outer = [] ∨ block.kind = .tag
  stack : ∀ nodes, tag.branchNodes? options block.name = some nodes →
    after.stack = block.append nodes :: outer
  kept : ∀ nodes, tag.branchNodes? options block.name = some nodes →
    ∃ b ∈ root :: root.descendantBlocks, b.kind = block.kind ∧ b.name = block.name ∧
      block.children.toList ++ nodes <+: b.children

/-- Every tag is placed under a branch as its name says, and the tree has nothing
else under branches. -/
theorem parse_branches (source : String) (options : Options) :
    ∃ pieces rest p, Piece.readAll (.ofSource source) = .ok (pieces, rest) ∧
      parse source options = .ok p ∧
      (pieces.filterMap Piece.tag?).map Tag.heading = headings (symbols source) ∧
      (∀ before tag after, pieces = before ++ .tag tag :: after →
        ∃ block outer ds c,
          Builder.addPieces options ⟨[.empty .text], #[]⟩ before = .ok ⟨block :: outer, ds⟩ ∧
          Builder.addTag options ⟨block :: outer, ds⟩ tag = .ok c ∧
          tag.PlacedIn options p.root block outer c) ∧
      ∀ b ∈ p.root :: p.root.descendantBlocks, b.Branches options := by
  obtain ⟨pieces, rest, hread, hcut, -⟩ :=
    Piece.readAll_cut (s := .ofSource source) (Nat.zero_le _)
  obtain ⟨last, others, found, hadd, hplaced, hparse⟩ := parse_of_readAll hread options
  have hstart : Builder.Branched options [.empty .text] := Builder.fitIn_spans "" []
  have hheadings : (pieces.filterMap Piece.tag?).map Tag.heading = headings (symbols source) := by
    have hfollow := symbols_follow source
    rw [← SymbolStream.upcoming_ofSource] at hfollow ⊢
    exact hcut.headings hfollow
  refine ⟨pieces, rest, _, hread, hparse, hheadings, ?_, (hplaced.branched hstart).closeAll _ _⟩
  intro before tag after hpieces
  obtain ⟨block, outer, ds, hbefore, hplacedBefore⟩ :=
    Builder.addPieces_placed options (.empty .text) [] #[] before
  obtain ⟨c, htag, hplacedTag⟩ := Builder.addPiece_placed options block outer ds (.tag tag)
  refine ⟨block, outer, ds, c, hbefore, htag, (hplacedBefore.branched hstart).kind,
    fun nodes => hplacedTag.stack_of_branchNodes?, ?_⟩
  intro nodes hnodes
  have hstack := hplacedTag.stack_of_branchNodes? hnodes
  -- placing the pieces behind the tag ends in the same stack as placing all of them
  have hafter : Builder.Grows c.stack (last :: others) := by
    obtain ⟨block', outer', ds', rfl⟩ := hplacedTag.exists_current
    obtain ⟨last', others', found', hafter, hplacedAfter⟩ :=
      Builder.addPieces_placed options block' outer' ds' after
    have hwhole : Builder.addPieces options ⟨[.empty .text], #[]⟩ pieces =
        .ok ⟨last' :: others', found'⟩ := by
      rw [hpieces, Builder.addPieces_append hbefore, Builder.addPieces_cons htag, hafter]
    rw [hadd] at hwhole
    cases hwhole
    exact hplacedAfter.grows
  rw [hstack] at hafter
  obtain ⟨b, hb, hextends⟩ := hafter _ (Builder.toBlock_mem_blocksIn _ _)
  obtain ⟨b', hb', hextends'⟩ :=
    Builder.closeAll_extends options.reportUnclosed last others found hb
  have hkept := hextends.trans hextends'
  refine ⟨b', hb', hkept.kind, hkept.name, ?_⟩
  have hchildren := hkept.children
  rwa [OpenBlock.toBlock_append] at hchildren

end BraceTemplate
