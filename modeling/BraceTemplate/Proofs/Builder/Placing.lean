import BraceTemplate.Parser
import BraceTemplate.Proofs.Pieces

/-!
# Placing pieces

What a piece does to a builder with an open block, case by case: it adds nodes
to the current block, opens a block in it, or closes it. No piece is refused.
A parse cuts its source into pieces, places them one after the other behind the
root, and closes what is left open.
-/

namespace BraceTemplate

namespace OpenBlock

/-- The block with further children behind the others. -/
def append (b : OpenBlock) (nodes : List Node) : OpenBlock :=
  { b with children := b.children ++ nodes.toArray }

@[simp] theorem kind_append (b : OpenBlock) (nodes : List Node) :
    (b.append nodes).kind = b.kind := rfl

@[simp] theorem name_append (b : OpenBlock) (nodes : List Node) :
    (b.append nodes).name = b.name := rfl

@[simp] theorem children_append (b : OpenBlock) (nodes : List Node) :
    (b.append nodes).children.toList = b.children.toList ++ nodes := by
  simp [append]

theorem toBlock_append (b : OpenBlock) (nodes : List Node) :
    (b.append nodes).toBlock = ⟨b.kind, b.name, b.children.toList ++ nodes⟩ := by
  rw [toBlock, children_append]
  rfl

theorem push_eq_append (b : OpenBlock) (node : Node) : b.push node = b.append [node] := by
  simp [push, append]

theorem append_append (b : OpenBlock) (nodes more : List Node) :
    (b.append nodes).append more = b.append (nodes ++ more) := by
  simp [append]

theorem append_nil (b : OpenBlock) : b.append [] = b := by
  simp [append]

theorem foldl_push_span (b : OpenBlock) (spans : List Span) :
    spans.foldl (fun block span => block.push (.span span)) b = b.append (spans.map .span) := by
  induction spans generalizing b with
  | nil => exact b.append_nil.symm
  | cons span spans ih =>
    rw [List.foldl_cons, ih, push_eq_append, append_append]
    rfl

theorem toNode_eq (b : OpenBlock) : b.toNode = .block b.kind b.name b.children.toList := rfl

end OpenBlock

namespace Tag

/-- The markup of a tag as a block of its own. -/
def element (tag : Tag) : Node := .block .tagElement "" (tag.spans.map .span)

/-- An expression tag as a child of a block with a name. -/
def expressionUnder (options : Options) (parent : String) (tag : Tag) : Node :=
  .block (if tag.name == "else" && options.isBranchBlock parent then .tagElement else .expression)
    tag.name (tag.spans.map .span)

/-- What is told of a closing tag where no block is open. -/
def strayProblem (tag : Tag) : Diagnostic := ⟨.unexpectedCloseTag tag.name, tag.nameAt⟩

/-- What is told of a closing tag by the block that it closes. -/
def closingProblems (block : OpenBlock) (tag : Tag) : List Diagnostic :=
  if tag.name != block.name then
    [⟨.unbalancedTag block.name tag.name block.openedAt?, tag.nameAt⟩]
  else []

end Tag

namespace Builder

variable {options : Options}

theorem continues_iff {parent : String} {tag : Tag} :
    continues options parent tag = true ↔
      tag.name = "elseif" ∧ options.isBranchBlock parent = true := by
  rw [continues, Bool.and_eq_true, beq_iff_eq]

/-- What placing a piece does to a builder whose current block is given. -/
inductive Placed (options : Options) : Builder → Piece → Builder → Prop
  | text (block : OpenBlock) (outer : List OpenBlock) (ds : Array Diagnostic) (span : Span) :
      Placed options ⟨block :: outer, ds⟩ (.text span) ⟨block.append [.span span] :: outer, ds⟩
  | inline (block : OpenBlock) (outer : List OpenBlock) (ds : Array Diagnostic) (tag : Tag)
      (hkind : tag.kind = .comment ∨
        tag.kind = .expression ∧ continues options block.name tag = true) :
      Placed options ⟨block :: outer, ds⟩ (.tag tag)
        ⟨block.append (tag.spans.map .span) :: outer, ds ++ tag.problems⟩
  | expression (block : OpenBlock) (outer : List OpenBlock) (ds : Array Diagnostic) (tag : Tag)
      (hkind : tag.kind = .expression) (hnew : continues options block.name tag = false) :
      Placed options ⟨block :: outer, ds⟩ (.tag tag)
        ⟨block.append [tag.expressionUnder options block.name] :: outer, ds ++ tag.problems⟩
  | continued (block : OpenBlock) (outer : List OpenBlock) (ds : Array Diagnostic) (tag : Tag)
      (hkind : tag.kind = .blockOpen) (hold : continues options block.name tag = true) :
      Placed options ⟨block :: outer, ds⟩ (.tag tag)
        ⟨block.append [tag.element] :: outer, ds ++ tag.problems⟩
  | opened (block : OpenBlock) (outer : List OpenBlock) (ds : Array Diagnostic) (tag : Tag)
      (hkind : tag.kind = .blockOpen) (hnew : continues options block.name tag = false) :
      Placed options ⟨block :: outer, ds⟩ (.tag tag)
        ⟨⟨.tag, tag.name, #[tag.element]⟩ :: block :: outer, ds ++ tag.problems⟩
  | stray (root : OpenBlock) (ds : Array Diagnostic) (tag : Tag)
      (hkind : tag.kind = .blockClose) :
      Placed options ⟨[root], ds⟩ (.tag tag)
        ⟨[root.append [tag.element]],
          ds ++ [tag.strayProblem] ++ tag.problems⟩
  | closed (block parent : OpenBlock) (outer : List OpenBlock) (ds : Array Diagnostic) (tag : Tag)
      (hkind : tag.kind = .blockClose) :
      Placed options ⟨block :: parent :: outer, ds⟩ (.tag tag)
        ⟨parent.append [(block.append [tag.element]).toNode] :: outer,
          ds ++ tag.closingProblems block ++ tag.problems⟩

theorem reportAll_eq (b : Builder) (ds : List Diagnostic) :
    b.reportAll ds = ⟨b.stack, b.diagnostics ++ ds⟩ := by
  induction ds generalizing b with
  | nil => simp [reportAll]
  | cons d ds ih =>
    rw [reportAll, List.foldl_cons]
    change (b.report d).reportAll ds = _
    rw [ih]
    simp [report]

theorem pushSpans_eq (block : OpenBlock) (outer : List OpenBlock) (ds : Array Diagnostic)
    (spans : List Span) :
    pushSpans ⟨block :: outer, ds⟩ spans =
      .ok ⟨block.append (spans.map .span) :: outer, ds⟩ := by
  rw [← OpenBlock.foldl_push_span]
  rfl

theorem addElement_eq (block : OpenBlock) (outer : List OpenBlock) (ds : Array Diagnostic)
    (tag : Tag) :
    addElement ⟨block :: outer, ds⟩ tag.spans = .ok ⟨block.append [tag.element] :: outer, ds⟩ := by
  change (pushSpans ⟨.empty .tagElement :: block :: outer, ds⟩ tag.spans).bind endBlock = _
  rw [pushSpans_eq, ← OpenBlock.push_eq_append]
  simp [Except.bind, endBlock, OpenBlock.toNode_eq, Tag.element, OpenBlock.empty]

theorem addBlockOpen_eq (block : OpenBlock) (outer : List OpenBlock) (ds : Array Diagnostic)
    (tag : Tag) :
    addBlockOpen options ⟨block :: outer, ds⟩ tag =
      .ok (if continues options block.name tag then
          ⟨block.append [tag.element] :: outer, ds ++ tag.problems⟩
        else ⟨⟨.tag, tag.name, #[tag.element]⟩ :: block :: outer, ds ++ tag.problems⟩) := by
  change ((addElement ⟨.empty .tag :: block :: outer, ds⟩ tag.spans).bind fun b =>
    if continues options block.name tag then (b.reportAll tag.problems).mergeWithParent
    else (b.reportAll tag.problems).setName tag.name) = _
  rw [addElement_eq]
  simp only [Except.bind, reportAll_eq]
  split
  · simp [mergeWithParent, OpenBlock.append, OpenBlock.empty]
  · simp [setName, modifyCurrent, OpenBlock.append, OpenBlock.empty]

theorem addClosingElement_eq (block : OpenBlock) (outer : List OpenBlock)
    (ds : Array Diagnostic) (problems : List Diagnostic) (tag : Tag) :
    addClosingElement ⟨block :: outer, ds⟩ problems tag =
      .ok ⟨block.append [tag.element] :: outer, ds ++ problems ++ tag.problems⟩ := by
  change ((reportAll ⟨block :: outer, ds⟩ problems).addElement tag.spans).bind
    (fun b => .ok (b.reportAll tag.problems)) = _
  rw [reportAll_eq, addElement_eq]
  simp only [Except.bind, reportAll_eq]

theorem addBlockClose_root (root : OpenBlock) (ds : Array Diagnostic) (tag : Tag) :
    addBlockClose ⟨[root], ds⟩ tag =
      .ok ⟨[root.append [tag.element]], ds ++ [tag.strayProblem] ++ tag.problems⟩ :=
  addClosingElement_eq root [] ds [tag.strayProblem] tag

theorem addBlockClose_inner (block parent : OpenBlock) (outer : List OpenBlock)
    (ds : Array Diagnostic) (tag : Tag) :
    addBlockClose ⟨block :: parent :: outer, ds⟩ tag =
      .ok ⟨parent.append [(block.append [tag.element]).toNode] :: outer,
        ds ++ tag.closingProblems block ++ tag.problems⟩ := by
  have hproblems : closingProblems ⟨block :: parent :: outer, ds⟩ tag =
      .ok (tag.closingProblems block) := by
    change (if tag.name != block.name then Except.ok [_] else Except.ok []) = _
    rw [Tag.closingProblems]
    split <;> rfl
  change (closingProblems ⟨block :: parent :: outer, ds⟩ tag).bind
    (fun problems => (addClosingElement _ problems tag).bind endBlock) = _
  rw [hproblems]
  simp only [Except.bind, addClosingElement_eq, endBlock, OpenBlock.push_eq_append]

theorem addComment_eq (block : OpenBlock) (outer : List OpenBlock) (ds : Array Diagnostic)
    (tag : Tag) :
    addComment ⟨block :: outer, ds⟩ tag =
      .ok ⟨block.append (tag.spans.map .span) :: outer, ds ++ tag.problems⟩ := by
  change (pushSpans ⟨block :: outer, ds⟩ tag.spans).bind
    (fun b => .ok (b.reportAll tag.problems)) = _
  rw [pushSpans_eq]
  simp only [Except.bind, reportAll_eq]

theorem addExpression_eq (block : OpenBlock) (outer : List OpenBlock) (ds : Array Diagnostic)
    (tag : Tag) :
    addExpression options ⟨block :: outer, ds⟩ tag =
      .ok (if continues options block.name tag then
          ⟨block.append (tag.spans.map .span) :: outer, ds ++ tag.problems⟩
        else ⟨block.append [tag.expressionUnder options block.name] :: outer,
          ds ++ tag.problems⟩) := by
  change ((pushSpans ⟨⟨_, tag.name, #[]⟩ :: block :: outer, ds⟩ tag.spans).bind fun b =>
    if continues options block.name tag then (b.reportAll tag.problems).mergeWithParent
    else (b.reportAll tag.problems).endBlock) = _
  rw [pushSpans_eq]
  simp only [Except.bind, reportAll_eq]
  split
  · simp [mergeWithParent, OpenBlock.append]
  · simp [endBlock, OpenBlock.push_eq_append, OpenBlock.toNode_eq, OpenBlock.empty,
      Tag.expressionUnder, currentName]

/-- A piece is placed in one way only. -/
theorem Placed.addPiece {b c : Builder} {piece : Piece} (h : Placed options b piece c) :
    addPiece options b piece = .ok c := by
  cases h with
  | text block outer ds span =>
    rw [← OpenBlock.push_eq_append]
    rfl
  | inline block outer ds tag hkind =>
    rw [Builder.addPiece, addTag]
    rcases hkind with hkind | ⟨hkind, hold⟩
    · rw [hkind]
      exact addComment_eq block outer ds tag
    · rw [hkind]
      exact (addExpression_eq block outer ds tag).trans (by rw [if_pos hold])
  | expression block outer ds tag hkind hnew =>
    rw [Builder.addPiece, addTag, hkind]
    exact (addExpression_eq block outer ds tag).trans (by rw [hnew, if_neg Bool.false_ne_true])
  | continued block outer ds tag hkind hold =>
    rw [Builder.addPiece, addTag, hkind]
    exact (addBlockOpen_eq block outer ds tag).trans (by rw [if_pos hold])
  | opened block outer ds tag hkind hnew =>
    rw [Builder.addPiece, addTag, hkind]
    exact (addBlockOpen_eq block outer ds tag).trans (by rw [hnew, if_neg Bool.false_ne_true])
  | stray root ds tag hkind =>
    rw [Builder.addPiece, addTag, hkind]
    exact addBlockClose_root root ds tag
  | closed block parent outer ds tag hkind =>
    rw [Builder.addPiece, addTag, hkind]
    exact addBlockClose_inner block parent outer ds tag

/-- Nothing is refused once the root is open. -/
theorem addPiece_placed (options : Options) (block : OpenBlock) (outer : List OpenBlock)
    (ds : Array Diagnostic) (piece : Piece) :
    ∃ c, addPiece options ⟨block :: outer, ds⟩ piece = .ok c ∧
      Placed options ⟨block :: outer, ds⟩ piece c := by
  suffices hplaced : ∃ c, Placed options ⟨block :: outer, ds⟩ piece c by
    obtain ⟨c, hc⟩ := hplaced
    exact ⟨c, hc.addPiece, hc⟩
  cases piece with
  | text span => exact ⟨_, .text block outer ds span⟩
  | tag tag =>
    cases hkind : tag.kind with
    | blockOpen =>
      cases hold : continues options block.name tag with
      | true => exact ⟨_, .continued block outer ds tag hkind hold⟩
      | false => exact ⟨_, .opened block outer ds tag hkind hold⟩
    | blockClose =>
      cases outer with
      | nil => exact ⟨_, .stray block ds tag hkind⟩
      | cons parent outer => exact ⟨_, .closed block parent outer ds tag hkind⟩
    | comment => exact ⟨_, .inline block outer ds tag (.inl hkind)⟩
    | expression =>
      cases hold : continues options block.name tag with
      | true => exact ⟨_, .inline block outer ds tag (.inr ⟨hkind, hold⟩)⟩
      | false => exact ⟨_, .expression block outer ds tag hkind hold⟩

/-- Placing several pieces one after the other. -/
inductive PlacedAll (options : Options) : Builder → List Piece → Builder → Prop
  | nil (b : Builder) : PlacedAll options b [] b
  | cons {b c d : Builder} {piece : Piece} {pieces : List Piece}
      (hfirst : Placed options b piece c) (hrest : PlacedAll options c pieces d) :
      PlacedAll options b (piece :: pieces) d

theorem PlacedAll.split {b d : Builder} {pieces more : List Piece}
    (h : PlacedAll options b (pieces ++ more) d) :
    ∃ c, PlacedAll options b pieces c ∧ PlacedAll options c more d := by
  induction pieces generalizing b with
  | nil => exact ⟨b, .nil b, h⟩
  | cons piece pieces ih =>
    cases h with
    | cons hfirst hrest =>
      obtain ⟨c, hleft, hright⟩ := ih hrest
      exact ⟨c, .cons hfirst hleft, hright⟩

theorem PlacedAll.of_one {b c : Builder} {piece : Piece} (h : PlacedAll options b [piece] c) :
    Placed options b piece c := by
  cases h with
  | cons hfirst hrest =>
    cases hrest
    exact hfirst

section Inversion
variable {block : OpenBlock} {outer : List OpenBlock} {ds : Array Diagnostic} {tag : Tag}
  {c : Builder}

theorem Placed.of_text {span : Span} (h : Placed options ⟨block :: outer, ds⟩ (.text span) c) :
    c = ⟨block.append [.span span] :: outer, ds⟩ := by
  cases h
  rfl

theorem Placed.of_comment (h : Placed options ⟨block :: outer, ds⟩ (.tag tag) c)
    (hkind : tag.kind = .comment) :
    c = ⟨block.append (tag.spans.map .span) :: outer, ds ++ tag.problems⟩ := by
  cases h with
  | inline => rfl
  | expression _ _ _ _ hother => cases hkind.symm.trans hother
  | continued _ _ _ _ hother => cases hkind.symm.trans hother
  | opened _ _ _ _ hother => cases hkind.symm.trans hother
  | stray _ _ _ hother => cases hkind.symm.trans hother
  | closed _ _ _ _ _ hother => cases hkind.symm.trans hother

theorem Placed.of_expression (h : Placed options ⟨block :: outer, ds⟩ (.tag tag) c)
    (hkind : tag.kind = .expression) :
    c = ⟨block.append (if continues options block.name tag then tag.spans.map .span
      else [tag.expressionUnder options block.name]) :: outer, ds ++ tag.problems⟩ := by
  cases h with
  | inline _ _ _ _ hother =>
    rcases hother with hother | ⟨-, hold⟩
    · cases hkind.symm.trans hother
    · rw [if_pos hold]
  | expression _ _ _ _ _ hnew => rw [hnew, if_neg Bool.false_ne_true]
  | continued _ _ _ _ hother => cases hkind.symm.trans hother
  | opened _ _ _ _ hother => cases hkind.symm.trans hother
  | stray _ _ _ hother => cases hkind.symm.trans hother
  | closed _ _ _ _ _ hother => cases hkind.symm.trans hother

theorem Placed.of_blockOpen (h : Placed options ⟨block :: outer, ds⟩ (.tag tag) c)
    (hkind : tag.kind = .blockOpen) :
    c = if continues options block.name tag then
        ⟨block.append [tag.element] :: outer, ds ++ tag.problems⟩
      else ⟨⟨.tag, tag.name, #[tag.element]⟩ :: block :: outer, ds ++ tag.problems⟩ := by
  cases h with
  | inline _ _ _ _ hother =>
    rcases hother with hother | ⟨hother, -⟩ <;> cases hkind.symm.trans hother
  | expression _ _ _ _ hother => cases hkind.symm.trans hother
  | continued _ _ _ _ _ hold => rw [if_pos hold]
  | opened _ _ _ _ _ hnew => rw [hnew, if_neg Bool.false_ne_true]
  | stray _ _ _ hother => cases hkind.symm.trans hother
  | closed _ _ _ _ _ hother => cases hkind.symm.trans hother

theorem Placed.of_blockClose {parent : OpenBlock}
    (h : Placed options ⟨block :: parent :: outer, ds⟩ (.tag tag) c)
    (hkind : tag.kind = .blockClose) :
    c = ⟨parent.append [(block.append [tag.element]).toNode] :: outer,
      ds ++ tag.closingProblems block ++ tag.problems⟩ := by
  cases h with
  | inline _ _ _ _ hother =>
    rcases hother with hother | ⟨hother, -⟩ <;> cases hkind.symm.trans hother
  | expression _ _ _ _ hother => cases hkind.symm.trans hother
  | continued _ _ _ _ hother => cases hkind.symm.trans hother
  | opened _ _ _ _ hother => cases hkind.symm.trans hother
  | closed => rfl

end Inversion

theorem Placed.exists_current {b c : Builder} {piece : Piece} (h : Placed options b piece c) :
    ∃ block outer ds, c = ⟨block :: outer, ds⟩ := by
  cases h <;> exact ⟨_, _, _, rfl⟩

theorem addPieces_append {b c : Builder} {pieces : List Piece}
    (h : addPieces options b pieces = .ok c) (more : List Piece) :
    addPieces options b (pieces ++ more) = addPieces options c more := by
  rw [addPieces] at h
  rw [addPieces, List.foldlM_append, h]
  rfl

theorem addPieces_cons {b c : Builder} {piece : Piece} (h : addPiece options b piece = .ok c)
    (more : List Piece) : addPieces options b (piece :: more) = addPieces options c more := by
  rw [addPieces, List.foldlM_cons, h]
  rfl

theorem addPieces_unappend {b d : Builder} {pieces more : List Piece}
    (h : addPieces options b (pieces ++ more) = .ok d) :
    ∃ c, addPieces options b pieces = .ok c ∧ addPieces options c more = .ok d := by
  match hfront : addPieces options b pieces with
  | .ok c => exact ⟨c, rfl, (addPieces_append hfront more).symm.trans h⟩
  | .error fault =>
    rw [addPieces] at hfront
    rw [addPieces, List.foldlM_append, hfront] at h
    cases h

theorem addPieces_uncons {b d : Builder} {piece : Piece} {more : List Piece}
    (h : addPieces options b (piece :: more) = .ok d) :
    ∃ c, addPiece options b piece = .ok c ∧ addPieces options c more = .ok d := by
  match hfirst : addPiece options b piece with
  | .ok c => exact ⟨c, rfl, (addPieces_cons hfirst more).symm.trans h⟩
  | .error fault =>
    rw [addPieces, List.foldlM_cons, hfirst] at h
    cases h

theorem addPieces_placed (options : Options) (block : OpenBlock) (outer : List OpenBlock)
    (ds : Array Diagnostic) (pieces : List Piece) :
    ∃ last others found, addPieces options ⟨block :: outer, ds⟩ pieces =
        .ok ⟨last :: others, found⟩ ∧
      PlacedAll options ⟨block :: outer, ds⟩ pieces ⟨last :: others, found⟩ := by
  induction pieces generalizing block outer ds with
  | nil => exact ⟨block, outer, ds, rfl, .nil _⟩
  | cons piece pieces ih =>
    obtain ⟨c, hadd, hplaced⟩ := addPiece_placed options block outer ds piece
    obtain ⟨block', outer', ds', rfl⟩ := hplaced.exists_current
    obtain ⟨last, others, found, hall, hplacedAll⟩ := ih block' outer' ds'
    exact ⟨last, others, found, (addPieces_cons hadd pieces).trans hall, .cons hplaced hplacedAll⟩

theorem exists_addPiece (options : Options) {b : Builder} (hopen : b.stack ≠ []) (piece : Piece) :
    ∃ c, b.addPiece options piece = .ok c ∧ c.stack ≠ [] := by
  obtain ⟨stack, ds⟩ := b
  cases stack with
  | nil => exact absurd rfl hopen
  | cons block outer =>
    obtain ⟨c, hadd, hplaced⟩ := addPiece_placed options block outer ds piece
    obtain ⟨last, others, found, rfl⟩ := hplaced.exists_current
    exact ⟨_, hadd, List.cons_ne_nil _ _⟩

theorem exists_addPieces (options : Options) {b : Builder} (hopen : b.stack ≠ [])
    (pieces : List Piece) : ∃ c, b.addPieces options pieces = .ok c ∧ c.stack ≠ [] := by
  obtain ⟨stack, ds⟩ := b
  cases stack with
  | nil => exact absurd rfl hopen
  | cons block outer =>
    obtain ⟨last, others, found, hadd, -⟩ := addPieces_placed options block outer ds pieces
    exact ⟨_, hadd, List.cons_ne_nil _ _⟩

theorem PlacedAll.addPieces {b c : Builder} {pieces : List Piece}
    (h : PlacedAll options b pieces c) : addPieces options b pieces = .ok c := by
  induction h with
  | nil b => rfl
  | cons hfirst _ ih => exact (addPieces_cons hfirst.addPiece _).trans ih

end Builder

/-- A parse places the pieces of its source behind the root and closes what is
left. -/
theorem parse_of_readAll {source : String} {pieces : List Piece} {rest : SymbolStream}
    (hread : Piece.readAll (.ofSource source) = .ok (pieces, rest)) (options : Options) :
    ∃ block outer ds,
      Builder.addPieces options ⟨[.empty .text], #[]⟩ pieces = .ok ⟨block :: outer, ds⟩ ∧
      Builder.PlacedAll options ⟨[.empty .text], #[]⟩ pieces ⟨block :: outer, ds⟩ ∧
      parse source options =
        .ok (Builder.closeAll options.reportUnclosed block outer ds) := by
  obtain ⟨block, outer, ds, hadd, hplaced⟩ :=
    Builder.addPieces_placed options (.empty .text) [] #[] pieces
  refine ⟨block, outer, ds, hadd, hplaced, ?_⟩
  have hroot : (Parser.ofSource source options).openRoot =
      .ok ⟨.ofSource source, ⟨[.empty .text], #[]⟩, options⟩ := rfl
  have hcontent : Parser.readContent ⟨.ofSource source, ⟨[.empty .text], #[]⟩, options⟩ =
      .ok ⟨rest, ⟨block :: outer, ds⟩, options⟩ := by
    simp only [Parser.readContent, Builder.currentBlock, hread, hadd, bind, Except.bind, pure,
      Except.pure]
  simp only [parse, Parser.run, hroot, hcontent, bind, Except.bind]
  rfl

/-- A parse cuts the source into pieces, places them behind the root and closes
what is left. -/
theorem parse_eq_closeAll (source : String) (options : Options) :
    ∃ pieces rest block outer ds, Piece.Cut (.ofSource source) pieces rest ∧
      Builder.PlacedAll options ⟨[.empty .text], #[]⟩ pieces ⟨block :: outer, ds⟩ ∧
      parse source options =
        .ok (Builder.closeAll options.reportUnclosed block outer ds) := by
  obtain ⟨pieces, rest, hread, hcut, -⟩ :=
    Piece.readAll_cut (s := .ofSource source) (Nat.zero_le _)
  obtain ⟨block, outer, ds, -, hplaced, hparse⟩ := parse_of_readAll hread options
  exact ⟨pieces, rest, block, outer, ds, hcut, hplaced, hparse⟩

end BraceTemplate
