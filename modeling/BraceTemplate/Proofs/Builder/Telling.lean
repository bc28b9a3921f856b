import BraceTemplate.Proofs.Nesting.Shape
import BraceTemplate.Proofs.Tag.Names

/-!
# What diagnostics tell of

A closing tag with the wrong name is told of together with the block that it
closes: the block is in the tree, starts with the tag that the diagnostic says
opened it and ends with the closing tag itself. Diagnostics come in the order of
the tags, and within a tag in the order of the source.
-/

namespace BraceTemplate

/-- Spans of a closing tag whose name stands at a place, right behind the `/`. -/
structure Span.Closing (name : String) (l : Location) (spans : List Span) : Prop where
  begins : BeginWith "/" spans
  named : Name name spans
  slash : ∃ slash ∈ spans, slash.IsMarkup "/" ∧ slash.location.stop = l.start

/-- A block from the tag at a place to the closing tag whose name stands at
another. -/
structure Block.Between (opened : Location) (name : String) (l : Location) (b : Block) :
    Prop where
  kind : b.kind = .tag
  first : ∃ spans, b.children.head? = some (.block .tagElement "" (spans.map .span)) ∧
    Span.BeginWith "#" spans ∧
    (Node.block .tagElement "" (spans.map .span)).location? = some opened
  last : ∃ spans, b.children.getLast? = some (.block .tagElement "" (spans.map .span)) ∧
    Span.Closing name l spans

/-- What is told of a closing tag is found in the source and among blocks. -/
def Diagnostic.Told (source : String) (blocks : List Block) (d : Diagnostic) : Prop :=
  match d.problem with
  | .unbalancedTag expected actual openedAt =>
    d.location.slice? source = some actual ∧ ∃ opened, openedAt = some opened ∧
      ∃ b ∈ blocks, b.name = expected ∧ b.Between opened actual d.location
  | .unexpectedCloseTag name =>
    d.location.slice? source = some name ∧ ∃ spans : List Span,
      ⟨.tagElement, "", spans.map .span⟩ ∈ blocks ∧ Span.Closing name d.location spans
  | _ => True

variable {source : String} {options : Options} {tag : Tag}

theorem Diagnostic.Told.mono {blocks more : List Block} {d : Diagnostic} (h : d.Told source blocks)
    (hmore : blocks ⊆ more) : d.Told source more := by
  obtain ⟨problem, location⟩ := d
  cases problem with
  | unbalancedTag expected actual openedAt =>
    obtain ⟨hslice, opened, hopened, b, hb, htold⟩ := h
    exact ⟨hslice, opened, hopened, b, hmore hb, htold⟩
  | unexpectedCloseTag name =>
    obtain ⟨hslice, spans, hspans, hclosing⟩ := h
    exact ⟨hslice, spans, hmore hspans, hclosing⟩
  | _ => trivial

theorem Diagnostic.told_of_isTagLevel {d : Diagnostic} (h : d.problem.isTagLevel = true)
    (blocks : List Block) : d.Told source blocks := by
  obtain ⟨problem, location⟩ := d
  cases problem <;> trivial

theorem Tag.Written.closing (h : tag.Written source) (hformed : tag.Formed)
    (hkind : tag.kind = .blockClose) : Span.Closing tag.name tag.nameAt tag.spans :=
  ⟨hformed.blockClose hkind, hformed.named, h.slash hkind⟩

/-- A block that has all but its end is told of by where its first child
stands. -/
theorem Block.Ends.openedAt {block : OpenBlock} (h : block.toBlock.Ends options []) :
    ∃ spans inner opened, block.children.toList =
        .block .tagElement "" (spans.map .span) :: inner ∧ Span.BeginWith "#" spans ∧
      (Node.block .tagElement "" (spans.map .span)).location? = some opened ∧
      block.openedAt? = some opened := by
  obtain ⟨-, spans, inner, hchildren, hbegin, -, -⟩ := h
  have hlocation : ∃ l, (Node.block .tagElement "" (spans.map .span)).location? = some l := by
    obtain ⟨delimiter, tilde, marker, rest, hspans, -⟩ := hbegin
    rw [Node.location?, Block.location?, Block.descendantSpans_eq, Node.spansOf_map_span, hspans]
    exact ⟨_, rfl⟩
  obtain ⟨opened, hopened⟩ := hlocation
  refine ⟨spans, _, opened, hchildren, hbegin, hopened, ?_⟩
  rw [OpenBlock.openedAt?, ← Array.getElem?_toList,
    show block.children.toList = _ from hchildren]
  exact hopened

namespace Builder

/-- The finished blocks in open ones, at any depth. -/
def innerBlocks (stack : List OpenBlock) : List Block :=
  stack.flatMap fun block => Node.blocksOf block.children.toList

section Blocks
variable (block parent : OpenBlock) (outer : List OpenBlock) (nodes : List Node)

theorem innerBlocks_append : innerBlocks (block.append nodes :: outer) =
    Node.blocksOf block.children.toList ++ Node.blocksOf nodes ++ innerBlocks outer := by
  rw [innerBlocks, List.flatMap_cons, OpenBlock.children_append, Node.blocksOf_append]
  rfl

theorem innerBlocks_close : innerBlocks (parent.append [block.toNode] :: outer) =
    Node.blocksOf parent.children.toList ++
      (block.toBlock :: Node.blocksOf block.children.toList) ++ innerBlocks outer := by
  rw [innerBlocks_append, OpenBlock.toNode_eq, Node.blocksOf_block, Node.blocksOf_nil,
    List.append_nil]
  rfl

theorem innerBlocks_subset_append :
    innerBlocks (block :: outer) ⊆ innerBlocks (block.append nodes :: outer) := by
  intro b hb
  rw [innerBlocks_append]
  rw [innerBlocks, List.flatMap_cons, List.mem_append] at hb
  rcases hb with hb | hb
  · exact List.mem_append_left _ (List.mem_append_left _ hb)
  · exact List.mem_append_right _ hb

theorem innerBlocks_subset_close :
    innerBlocks (block :: parent :: outer) ⊆
      innerBlocks (parent.append [block.toNode] :: outer) := by
  intro b hb
  rw [innerBlocks_close]
  simp only [innerBlocks, List.flatMap_cons, List.mem_append, List.mem_cons] at hb ⊢
  tauto

end Blocks

/-- All that a builder tells of is found. -/
def Tells (source : String) (b : Builder) : Prop :=
  ∀ d ∈ b.diagnostics.toList, d.Told source (innerBlocks b.stack)

theorem Tells.mono {stack more : List OpenBlock} {ds : Array Diagnostic}
    (h : Tells source ⟨stack, ds⟩) (hmore : innerBlocks stack ⊆ innerBlocks more) :
    Tells source ⟨more, ds⟩ := fun d hd => (h d hd).mono hmore

theorem Tells.report {stack : List OpenBlock} {ds : Array Diagnostic}
    (h : Tells source ⟨stack, ds⟩) {more : List Diagnostic}
    (hmore : ∀ d ∈ more, d.Told source (innerBlocks stack)) :
    Tells source ⟨stack, ds ++ more⟩ := by
  intro d hd
  rw [Array.toList_appendList] at hd
  exact (List.mem_append.1 hd).elim (h d) (hmore d)

/-- What is needed of a piece for telling of it. -/
structure Tellable (source : String) (tag : Tag) : Prop where
  formed : tag.Formed
  written : tag.Written source
  problems : ∀ d ∈ tag.problems, d.problem.isTagLevel = true

theorem Tells.reportTag {stack : List OpenBlock} {ds : Array Diagnostic}
    (h : Tells source ⟨stack, ds⟩) (htag : Tellable source tag) :
    Tells source ⟨stack, ds ++ tag.problems⟩ :=
  h.report fun d hd => Diagnostic.told_of_isTagLevel (htag.problems d hd) _

/-- A closing tag is told of by the block that it closes, which it ends. -/
theorem told_closingProblems {block parent : OpenBlock} {outer : List OpenBlock}
    (hends : block.toBlock.Ends options []) (htag : Tellable source tag)
    (hkind : tag.kind = .blockClose) {d : Diagnostic} (hd : d ∈ tag.closingProblems block) :
    d.Told source
      (innerBlocks (parent.append [(block.append [tag.element]).toNode] :: outer)) := by
  rw [Tag.closingProblems] at hd
  split at hd
  · obtain ⟨spans, inner, opened, hchildren, hbegin, hlocation, hopened⟩ := hends.openedAt
    have hclosing := htag.written.closing htag.formed hkind
    rw [List.mem_singleton.1 hd]
    refine ⟨htag.written.slice, opened, hopened, (block.append [tag.element]).toBlock, ?_, rfl,
      hends.kind, ⟨spans, ?_, hbegin, hlocation⟩, ⟨tag.spans, ?_, hclosing⟩⟩
    · rw [innerBlocks_close]
      simp
    · rw [OpenBlock.toBlock_append, hchildren]
      rfl
    · rw [OpenBlock.toBlock_append]
      exact List.getLast?_concat
  · cases hd

theorem Placed.tells {b c : Builder} {piece : Piece} (h : Placed options b piece c)
    (hpiece : ∀ tag, piece = .tag tag → Tellable source tag) (hshaped : Shaped options b.stack)
    (htells : Tells source b) : Tells source c := by
  cases h with
  | text block outer ds span => exact htells.mono (innerBlocks_subset_append _ _ _)
  | inline block outer ds tag | expression block outer ds tag | continued block outer ds tag =>
    exact (htells.mono (innerBlocks_subset_append _ _ _)).reportTag (hpiece tag rfl)
  | opened block outer ds tag =>
    have hmore : innerBlocks (block :: outer) ⊆
        innerBlocks (⟨.tag, tag.name, #[tag.element]⟩ :: block :: outer) := by
      intro b hb
      rw [innerBlocks, List.flatMap_cons]
      exact List.mem_append_right _ hb
    exact (htells.mono hmore).reportTag (hpiece tag rfl)
  | stray root ds tag hkind =>
    have htag := hpiece tag rfl
    refine ((htells.mono (innerBlocks_subset_append _ _ _)).report ?_).reportTag htag
    intro d hd
    rw [List.mem_singleton.1 hd]
    refine ⟨htag.written.slice, tag.spans, ?_, htag.written.closing htag.formed hkind⟩
    rw [innerBlocks_append, Tag.element, Node.blocksOf_block]
    simp
  | closed block parent outer ds tag hkind =>
    have hmore := List.Subset.trans
      (innerBlocks_subset_append block (parent :: outer) [tag.element])
      (innerBlocks_subset_close (block.append [tag.element]) parent outer)
    refine ((htells.mono hmore).report ?_).reportTag (hpiece tag rfl)
    exact fun d => told_closingProblems (hshaped.1 (List.cons_ne_nil _ _)) (hpiece tag rfl) hkind

theorem PlacedAll.tells {b c : Builder} {pieces : List Piece} (h : PlacedAll options b pieces c)
    (hpieces : ∀ tag, .tag tag ∈ pieces → Tellable source tag) (hshaped : Shaped options b.stack)
    (htells : Tells source b) : Tells source c := by
  induction h with
  | nil b => exact htells
  | @cons b c d piece pieces hfirst _ ih =>
    have hpiece : ∀ tag, piece = .tag tag → Tellable source tag := by
      rintro tag rfl
      exact hpieces tag List.mem_cons_self
    exact ih (fun tag htag => hpieces tag (List.mem_cons_of_mem _ htag))
      (hfirst.shaped (fun tag htag => (hpiece tag htag).formed) hshaped)
      (hfirst.tells hpiece hshaped htells)

/-- Closing what is left keeps all blocks. -/
theorem innerBlocks_subset_closeAll (report : Bool) (block : OpenBlock) (outer : List OpenBlock)
    (ds : Array Diagnostic) : innerBlocks (block :: outer) ⊆
      Node.blocksOf (closeAll report block outer ds).root.children := by
  induction outer generalizing block ds with
  | nil =>
    rw [innerBlocks, List.flatMap_singleton]
    exact List.Subset.refl _
  | cons parent outer ih =>
    rw [closeAll, OpenBlock.push_eq_append]
    exact List.Subset.trans (innerBlocks_subset_close block parent outer) (ih _ _)

/-! ### The order of diagnostics -/

/-- Where diagnostics start. -/
def starts (ds : List Diagnostic) : List Nat := ds.map (·.location.start)

theorem starts_append (ds more : List Diagnostic) :
    starts (ds ++ more) = starts ds ++ starts more := List.map_append

/-- What is reported for a piece is some of what the piece may report, in
order. -/
theorem Placed.starts_sublist {b c : Builder} {piece : Piece} (h : Placed options b piece c) :
    (starts c.diagnostics.toList).Sublist
      (starts b.diagnostics.toList ++ piece.tag?.toList.flatMap Tag.points) := by
  have hpoints : ∀ (tag : Tag) (told : List Nat), told.Sublist [tag.nameAt.start] →
      (told ++ starts tag.problems).Sublist ((Piece.tag tag).tag?.toList.flatMap Tag.points) := by
    intro tag told htold
    change (told ++ starts tag.problems).Sublist (tag.points ++ [])
    rw [List.append_nil]
    exact htold.append (List.Sublist.refl _)
  cases h with
  | text block outer ds span => exact List.sublist_append_left _ _
  | inline block outer ds tag | expression block outer ds tag | continued block outer ds tag
  | opened block outer ds tag =>
    rw [Array.toList_appendList, starts_append]
    exact (List.Sublist.refl _).append (hpoints tag [] (List.nil_sublist _))
  | stray root ds tag =>
    rw [Array.toList_appendList, Array.toList_appendList, starts_append, starts_append,
      List.append_assoc]
    exact (List.Sublist.refl _).append (hpoints tag _ (List.Sublist.refl _))
  | closed block parent outer ds tag =>
    rw [Array.toList_appendList, Array.toList_appendList, starts_append, starts_append,
      List.append_assoc]
    refine (List.Sublist.refl _).append (hpoints tag _ ?_)
    rw [Tag.closingProblems]
    split
    · exact List.Sublist.refl _
    · exact List.nil_sublist _

theorem PlacedAll.starts_sublist {b c : Builder} {pieces : List Piece}
    (h : PlacedAll options b pieces c) :
    (starts c.diagnostics.toList).Sublist
      (starts b.diagnostics.toList ++ (pieces.filterMap Piece.tag?).flatMap Tag.points) := by
  induction h with
  | nil b => exact List.sublist_append_left _ _
  | @cons b c d piece pieces hfirst _ ih =>
    have hsplit : ((piece :: pieces).filterMap Piece.tag?).flatMap Tag.points =
        piece.tag?.toList.flatMap Tag.points ++
          (pieces.filterMap Piece.tag?).flatMap Tag.points := by
      cases piece with
      | text span => rfl
      | tag tag => simp [Piece.tag?]
    rw [hsplit, ← List.append_assoc]
    exact ih.trans (hfirst.starts_sublist.append_right _)

end Builder

end BraceTemplate
