import BraceTemplate.Proofs.Nesting.Distinct
import BraceTemplate.Proofs.Nesting.Shape

/-!
# The shape of trees

Blocks of one kind look alike in the tree of every source: the root is the only
block of text, the markup of a tag is a block of spans, and a pair of tags is a
block between the markup of both. The closing tag is missing from the blocks
that were never closed, which are the entries left by the pairing and lie each
at the end of the one around it.
-/

namespace BraceTemplate

/-- The shape of a tree, given its blocks that were never closed. -/
structure TreeShape (options : Options) (root : Block) (unclosed : List Block) : Prop where
  root_kind : root.kind = .text
  root_name : root.name = ""
  text : ∀ b ∈ root.descendantBlocks, b.kind ≠ .text
  markup : ∀ b ∈ root.descendantBlocks, b.kind = .tagElement ∨ b.kind = .expression →
    ∃ delimiter spans, b.children = (delimiter :: spans).map .span ∧ delimiter.IsOpening
  opening : ∀ b ∈ root.descendantBlocks, b.kind = .tag →
    ∃ spans rest, b.children = .block .tagElement "" (spans.map .span) :: rest ∧
      Span.BeginWith "#" spans ∧ Span.Name b.name spans
  named : ∀ b ∈ root.descendantBlocks,
    b.kind = .expression ∨ b.kind = .tagElement ∧ b.name ≠ "" → Span.Name b.name b.spans
  closed : ∀ b ∈ root.descendantBlocks, b.kind = .tag → b ∉ unclosed →
    options.isBranchBlock b.name = false →
    ∃ first last, b.tagElements = [first, last] ∧ b.children.head? = some first.toNode ∧
      b.children.getLast? = some last.toNode ∧ Span.BeginWith "/" last.spans
  leftOpen : ∀ b ∈ unclosed, b ∈ root.descendantBlocks ∧ b.kind = .tag ∧
    (options.isBranchBlock b.name = false →
      ∃ first, b.tagElements = [first] ∧ b.children.head? = some first.toNode)
  chain : (root :: unclosed).IsChain Block.EndsIn

namespace Block

variable {options : Options} {closing : List Node} {b : Block}

theorem Ends.opening (h : b.Ends options closing) :
    ∃ spans rest, b.children = .block .tagElement "" (spans.map .span) :: rest ∧
      Span.BeginWith "#" spans ∧ Span.Name b.name spans := by
  obtain ⟨-, spans, inner, hchildren, hbegin, hname, -⟩ := h
  exact ⟨spans, inner ++ closing, hchildren, hbegin, hname⟩

theorem Ends.tagElements_open (h : b.Ends options [])
    (hbranch : options.isBranchBlock b.name = false) :
    ∃ first, b.tagElements = [first] ∧ b.children.head? = some first.toNode := by
  obtain ⟨first, hfirst, helements⟩ := h.tagElements hbranch
  exact ⟨first, helements, hfirst⟩

theorem Closed.tagElements (h : b.Closed options)
    (hbranch : options.isBranchBlock b.name = false) :
    ∃ first last, b.tagElements = [first, last] ∧ b.children.head? = some first.toNode ∧
      b.children.getLast? = some last.toNode ∧ Span.BeginWith "/" last.spans := by
  obtain ⟨spans, hslash, hends⟩ := h
  obtain ⟨first, hfirst, helements⟩ := hends.tagElements hbranch
  obtain ⟨-, opening, inner, hchildren, -⟩ := hends
  refine ⟨first, ⟨.tagElement, "", spans.map .span⟩, helements, hfirst, ?_, ?_⟩
  · rw [hchildren, ← List.cons_append]
    exact List.getLast?_concat
  · rw [spans_map_span]
    exact hslash

end Block

/-- What is unwound down to the root is a tree in shape. -/
theorem Unwound.treeShape {options : Options} {root : OpenBlock} {unclosed : List Block}
    (h : Unwound options root [] unclosed) (hkind : root.kind = .text) (hname : root.name = "") :
    TreeShape options root.toBlock unclosed := by
  have hbelow : ∀ b ∈ root.toBlock.descendantBlocks, b.Settled options ∨ b ∈ unclosed := by
    intro b hb
    rw [Block.descendantBlocks_eq] at hb
    exact h.below b hb
  have hmarkup : ∀ b ∈ root.toBlock.descendantBlocks,
      b.kind = .tagElement ∨ b.kind = .expression → b.Markup := by
    intro b hb hbkind
    rcases hbelow b hb with hsettled | hopen
    · exact hsettled.markup hbkind
    · have htag := (h.unclosed b hopen).2.kind
      rcases hbkind with hother | hother <;> rw [htag] at hother <;> cases hother
  refine ⟨hkind, hname, ?_, ?_, ?_, ?_, ?_, ?_, h.chain⟩
  · intro b hb htext
    rcases hbelow b hb with hsettled | hopen
    · exact hsettled.kind_ne_text htext
    · have htag := (h.unclosed b hopen).2.kind
      rw [htag] at htext
      cases htext
  · intro b hb hbkind
    exact (hmarkup b hb hbkind).spans
  · intro b hb htag
    rcases hbelow b hb with hsettled | hopen
    · obtain ⟨_, _, hends⟩ := hsettled.closed htag
      exact hends.opening
    · exact (h.unclosed b hopen).2.opening
  · rintro b hb (hexpression | ⟨helement, hne⟩)
    · exact (hmarkup b hb (.inr hexpression)).named (.inl hexpression)
    · exact (hmarkup b hb (.inl helement)).named (.inr hne)
  · intro b hb htag hclosed hbranch
    exact (((hbelow b hb).resolve_right hclosed).closed htag).tagElements hbranch
  · intro b hb
    obtain ⟨hmem, hends⟩ := h.unclosed b hb
    rw [Block.descendantBlocks_eq]
    exact ⟨hmem, hends.kind, hends.tagElements_open⟩

/-- The tree of a source is in shape. Its blocks that were never closed are
those whose entries the pairing of the tags leaves open. -/
theorem parse_shape (source : String) (options : Options) :
    ∃ p unclosed, parse source options = .ok p ∧ TreeShape options p.root unclosed ∧
      unclosed.map Block.opening? = (pairing source options).stack.reverse.map some ∧
      ∀ b ∈ p.root.descendantBlocks, b.kind = .tag →
        (b ∈ unclosed ↔ b.opening? ∈ (pairing source options).stack.map some) := by
  obtain ⟨pieces, block, outer, ds, hformed, hplaced, hfollows, hparse⟩ :=
    parse_follows source options
  have hshaped : Builder.Shaped options (block :: outer) :=
    hplaced.shaped hformed ⟨fun hne => absurd rfl hne, Node.allBlocks_spans [], trivial⟩
  obtain ⟨root, unclosed, hroot, hkind, hname, hunwound, hentries⟩ :=
    Builder.closeAll_unwound options.reportUnclosed ds (.start hshaped) hfollows.stack
  rw [List.map_nil, List.append_nil] at hentries
  have hshape := hunwound.treeShape hkind hname
  have htrails : Node.tagTrails [] root.toBlock.children =
      (pairing source options).opened.map (·.map some) := by
    rw [← hroot]
    exact (Builder.closeAll_tracks _ ds hfollows.stack).1.trans hfollows.opened
  have hmem : ∀ e : Option Entry, e ∈ unclosed.map Block.opening? ↔
      e ∈ (pairing source options).stack.map some := by
    intro e
    rw [hentries, List.map_reverse, List.mem_reverse]
  refine ⟨_, unclosed, hparse, by rwa [hroot], hentries, ?_⟩
  rw [hroot]
  intro b hb htag
  rw [← hmem]
  constructor
  · exact List.mem_map_of_mem
  · intro hentry
    obtain ⟨c, hc, heq⟩ := List.mem_map.1 hentry
    obtain ⟨hcmem, hckind, -⟩ := hshape.leftOpen c hc
    rw [Block.descendantBlocks_eq] at hb hcmem
    rwa [eq_of_opening?_eq htrails hb htag hcmem hckind heq.symm]

end BraceTemplate
