import BraceTemplate.Proofs.Template.Building

/-!
# Parsing written templates

A template that is written out and parsed is there again: the tree has the nodes
of its items, each where it was written, and nothing is wrong. Whether items may
stand where they do depends on the options only through the names of branch
blocks.
-/

namespace BraceTemplate

open Template

/-- Parsing undoes printing. -/
theorem parse_print (options : Options) (items : List Item)
    (h : Item.fit options false items = true) :
    parse (print items) options = .ok ⟨⟨.text, "", nodesAt 0 items⟩, []⟩ := by
  obtain ⟨pieces, rest, block, outer, ds, hcut, hplaced, hparse⟩ :=
    parse_eq_closeAll (print items) options
  have hahead : (SymbolStream.ofSource (print items)).upcoming =
      symbolsAt 0 (Fragment.tokens (fragments items)) := by
    rw [SymbolStream.upcoming_ofSource, symbols_print h]
    rfl
  have hread := readAll_of_cut hcut (apart_fragments items h) hahead
  have hbuilt := placed_items items h nofun hread hplaced
  obtain ⟨⟨rfl, rfl⟩, rfl⟩ : (block = (OpenBlock.empty .text).append (nodesAt 0 items) ∧
      outer = []) ∧ ds = #[] := by
    simpa only [Builder.mk.injEq, List.cons.injEq] using hbuilt
  rw [hparse, Builder.closeAll, OpenBlock.toBlock, OpenBlock.children_append]
  rfl

/-- A conditional with a branch, an expression and a comment:
`a }} {{#if (eq⏎x.1)}}{{{y "}}"}}}{{else}}{{!--{{--}}{{/if}}`. -/
def conditional : List Item :=
  [.text ⟨"a \x7d\x7d ".toList, by decide, by simp⟩,
    .block ⟨⟨"if".toList, by decide, List.all_eq_true.mp rfl⟩, by decide, by decide⟩
      [(⟨[' '], by decide, List.all_eq_true.mp rfl⟩,
        .group ⟨"eq".toList, by decide, List.all_eq_true.mp rfl⟩
          [(⟨['\n'], by decide, List.all_eq_true.mp rfl⟩,
            ⟨"x.1".toList, by decide, List.all_eq_true.mp rfl⟩)])]
      [.single (.expression true
          ⟨⟨"y".toList, by decide, List.all_eq_true.mp rfl⟩, by decide, by decide⟩
          [(⟨[' '], by decide, List.all_eq_true.mp rfl⟩,
            .quoted "\x7d\x7d".toList (by simp))]),
        .single (.else []),
        .single (.comment (.long "\x7b\x7b".toList (by simp)))]]

/-- A template with a branch inside a block is parsed back. -/
theorem parse_print_conditional :
    Item.fit {} false conditional = true ∧
      print conditional = "a \x7d\x7d \x7b\x7b#if (eq\nx.1)\x7d\x7d" ++
        "\x7b\x7b\x7by \"\x7d\x7d\"\x7d\x7d\x7d" ++ "\x7b\x7belse\x7d\x7d" ++
        "\x7b\x7b!--\x7b\x7b--\x7d\x7d" ++ "\x7b\x7b/if\x7d\x7d" ∧
      parse (print conditional) {} = .ok ⟨⟨.text, "", nodesAt 0 conditional⟩, []⟩ :=
  ⟨by decide, by decide, parse_print {} conditional (by decide)⟩

end BraceTemplate
