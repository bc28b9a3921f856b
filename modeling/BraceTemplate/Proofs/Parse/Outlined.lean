import BraceTemplate.Proofs.Parse.Lossless
import BraceTemplate.Proofs.Tree.Outlining

/-!
# Outlines of parses

The tree of a source has no empty blocks, so its outline tells all of it but
the locations, and with the contents of the spans it tells the source. Nothing
can change in a source without its outline.
-/

namespace BraceTemplate

theorem Block.Filled.children_ne_nil {b : Block} (h : b.Filled) : b.children ≠ [] := by
  intro hnil
  rw [Filled, hnil, Node.spansOf_nil] at h
  exact h rfl

/-- The tree of a source has no empty block below the root, and all of its text. -/
theorem parse_populated (source : String) (options : Options) :
    ∃ p, parse source options = .ok p ∧ p.root.Populated ∧ p.root.render = source := by
  obtain ⟨p, hparse, -, hchars, hfilled⟩ := parse_holds source options
  refine ⟨p, hparse, hfilled.imp fun b hb => hb.children_ne_nil, ?_⟩
  rw [← String.toList_inj, Block.toList_render, hchars]

/-- Outlines tell trees without empty blocks up to locations, and every source
has such a tree. So they tell sources, whatever the options. -/
theorem outline_identifies :
    (∀ a b : Block, a.Populated → b.Populated → (a.outline = b.outline ↔ a.Alike b)) ∧
    ∀ (source other : String) (options chosen : Options), ∃ p q,
      parse source options = .ok p ∧ parse other chosen = .ok q ∧
      p.root.Populated ∧ q.root.Populated ∧
      (p.root.outline = q.root.outline → source = other) := by
  refine ⟨fun a b ha hb => Block.outline_eq_iff ha hb, ?_⟩
  intro source other options chosen
  obtain ⟨p, hp, hpopulated, hsource⟩ := parse_populated source options
  obtain ⟨q, hq, hqpopulated, hother⟩ := parse_populated other chosen
  refine ⟨p, q, hp, hq, hpopulated, hqpopulated, ?_⟩
  intro houtline
  rw [← hsource, ← hother]
  exact ((Block.outline_eq_iff hpopulated hqpopulated).1 houtline).render

/-- A span and a block of the same kind and text are told apart by the depth of
the line below. -/
theorem outline_identifies_nested :
    let inner : Node := .span ⟨.text, "b", ⟨1, 2⟩⟩
    let flat : Block := ⟨.text, "", [.span ⟨.text, "a", ⟨0, 1⟩⟩, inner]⟩
    let nested : Block := ⟨.text, "", [.block .text "a" [inner]]⟩
    flat.Populated ∧ nested.Populated ∧ flat.outline ≠ nested.outline := by
  intro inner flat nested
  have hflat : flat.Populated := by simp [flat, inner, Block.Populated, Node.AllBlocks]
  have hnested : nested.Populated := by simp [nested, inner, Block.Populated, Node.AllBlocks]
  refine ⟨hflat, hnested, ?_⟩
  intro houtline
  obtain ⟨-, -, hchildren⟩ := (outline_identifies.1 flat nested hflat hnested).1 houtline
  cases hchildren

/-- Where a block is empty, a span may look like it. -/
example :
    Block.outline ⟨.text, "", [.span ⟨.text, "a", ⟨0, 1⟩⟩]⟩ =
      Block.outline ⟨.text, "", [.block .text "a" []]⟩ := by
  decide +kernel

end BraceTemplate
