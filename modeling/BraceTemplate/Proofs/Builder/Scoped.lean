import BraceTemplate.Proofs.Builder.Placing
import BraceTemplate.Proofs.Builder.Refusing

/-!
# Blocks released behind their work

A tag works inside a block of its own. Behind the work all is released down to
the depth at which the block was started, so the block is closed into the one
around it unless the work has merged it there; what was refused is told only
then. To place a tag so, with its markup added as it comes up and its name told
in the middle, is to place it at once.
-/

namespace BraceTemplate

namespace Builder

namespace Steps

variable {α : Type}

def readCurrent : Steps OpenBlock := do
  match (← get).stack with
  | [] => throw (.invalidState .currentBlock)
  | block :: _ => return block

def report (d : Diagnostic) : Steps Unit := modify (·.report d)

/-- Works inside a new block, which is released whether or not the work is
refused. -/
def inBlock (kind : BlockKind) (work : Steps α) : Steps α := do
  startBlock kind
  let index := (← get).depth - 1
  let result ← ExceptT.lift work.run
  let released ← ExceptT.lift (release index).run
  let value ← MonadExcept.ofExcept result
  MonadExcept.ofExcept released
  return value

/-- The markup of a tag is an element of the block that the tag opens. -/
def addBlockOpen (options : Options) (name : String) (markup : Steps Unit) : Steps Unit := do
  let parent := (← get).currentName
  startBlock .tag
  inBlock .tagElement markup
  if name == "elseif" && options.isBranchBlock parent then mergeWithParent
  else changeCurrent ({ · with name := name })

/-- Tells what is wrong with closing a block under a name. -/
def tellClosing (atRoot : Bool) (expected name : String) (openedAt : Option Location)
    (nameAt : Location) : Steps Unit :=
  if atRoot then report ⟨.unexpectedCloseTag name, nameAt⟩
  else if name != expected then report ⟨.unbalancedTag expected name openedAt, nameAt⟩
  else pure ()

/-- The name is compared between the markup up to it and the rest. -/
def addBlockClose (name : String) (nameAt : Location) (front back : Steps Unit) :
    Steps Unit := do
  let expected := (← get).currentName
  let atRoot := (← get).isAtRoot
  let openedAt := (← readCurrent).openedAt?
  inBlock .tagElement do
    front
    tellClosing atRoot expected name openedAt nameAt
    back
  unless atRoot do endBlock

/-- The block gets its kind and its name in the middle of its markup. -/
def addExpression (options : Options) (name : String) (front back : Steps Unit) :
    Steps Unit := do
  let branch := options.isBranchBlock (← get).currentName
  inBlock .expression do
    front
    if name == "else" && branch then changeCurrent ({ · with kind := .tagElement })
    changeCurrent ({ · with name := name })
    back
    if name == "elseif" && branch then mergeWithParent

/-- Adds a tag whose markup is added in two parts, the name between them. A comment
has no block of its own. -/
def addTag (options : Options) (kind : TagKind) (name : String) (nameAt : Location)
    (front back : Steps Unit) : Steps Unit :=
  match kind with
  | .blockOpen => addBlockOpen options name (do front; back)
  | .blockClose => addBlockClose name nameAt front back
  | .comment => do front; back
  | .expression => addExpression options name front back

/-- The steps add spans to the current block and report problems, if a block is
open, and do nothing else. -/
def Writes (steps : Steps Unit) (spans : List Span) (problems : List Diagnostic) : Prop :=
  ∀ block outer ds, steps.on ⟨block :: outer, ds⟩ =
    (⟨block.append (spans.map .span) :: outer, ds ++ problems⟩, .ok ())

theorem on_lift (work : Steps α) (b : Builder) :
    Steps.on (ExceptT.lift work.run) b = ((work.on b).1, .ok (work.on b).2) := rfl

theorem on_ofExcept (result : Except Fault α) (b : Builder) :
    Steps.on (MonadExcept.ofExcept result) b = (b, result) := by
  cases result <;> rfl

/-- What the work leaves is released. It is refused before the release is. -/
theorem inBlock_on (kind : BlockKind) (work : Steps α) (block : OpenBlock)
    (outer : List OpenBlock) (ds : Array Diagnostic) :
    (inBlock kind work).on ⟨block :: outer, ds⟩ =
      let left := work.on ⟨.empty kind :: block :: outer, ds⟩
      let released := left.1.release (outer.length + 1)
      (released.1, do let value ← left.2; released.2; return value) := by
  have hstart : (startBlock kind).on ⟨block :: outer, ds⟩ =
      (⟨.empty kind :: block :: outer, ds⟩, .ok ()) := rfl
  have hindex : (get : Steps Builder).on ⟨.empty kind :: block :: outer, ds⟩ =
      (⟨.empty kind :: block :: outer, ds⟩, .ok ⟨.empty kind :: block :: outer, ds⟩) := rfl
  have hdepth : depth ⟨.empty kind :: block :: outer, ds⟩ - 1 = outer.length + 1 := rfl
  rw [inBlock, on_bind, hstart]
  simp only [on_bind, hindex, on_lift, on_ofExcept, release_on, hdepth]
  rcases work.on ⟨.empty kind :: block :: outer, ds⟩ with ⟨b, result⟩
  rcases b.release (outer.length + 1) with ⟨c, released⟩
  cases result <;> cases released <;> rfl

section closed
variable {kind : BlockKind} {work : Steps α} {block parent : OpenBlock} {outer : List OpenBlock}
  {ds found : Array Diagnostic} {a : α}

/-- A block that is still open behind the work is closed into the one around it. -/
theorem inBlock_on_of_open
    (hwork : work.on ⟨.empty kind :: parent :: outer, ds⟩ =
      (⟨block :: parent :: outer, found⟩, .ok a)) :
    (inBlock kind work).on ⟨parent :: outer, ds⟩ =
      (⟨parent.append [block.toNode] :: outer, found⟩, .ok a) := by
  have hrelease : Builder.release ⟨block :: parent :: outer, found⟩ (outer.length + 1) =
      (⟨parent.push block.toNode :: outer, found⟩, .ok ()) := by
    rw [release_of_lt (Nat.lt_succ_self _)]
    exact release_of_depth_le (Nat.le_refl _)
  rw [inBlock_on, hwork]
  simp only [hrelease]
  rw [OpenBlock.push_eq_append]
  rfl

/-- A block that the work has dropped is left alone. -/
theorem inBlock_on_of_dropped
    (hwork : work.on ⟨.empty kind :: parent :: outer, ds⟩ = (⟨block :: outer, found⟩, .ok a)) :
    (inBlock kind work).on ⟨parent :: outer, ds⟩ = (⟨block :: outer, found⟩, .ok a) := by
  have hrelease : Builder.release ⟨block :: outer, found⟩ (outer.length + 1) =
      (⟨block :: outer, found⟩, .ok ()) := release_of_depth_le (Nat.le_refl _)
  rw [inBlock_on, hwork]
  simp only [hrelease]
  rfl

end closed

variable {steps more : Steps Unit} {spans spans' : List Span} {problems problems' : List Diagnostic}

theorem writes_nothing : Writes (pure ()) [] [] := by
  intro block outer ds
  rw [List.map_nil, OpenBlock.append_nil, Array.appendList_nil]
  rfl

theorem writes_span (span : Span) : Writes (changeCurrent (·.push (.span span))) [span] [] := by
  intro block outer ds
  rw [List.map_singleton, ← OpenBlock.push_eq_append, Array.appendList_nil]
  rfl

theorem writes_report (d : Diagnostic) : Writes (report d) [] [d] := by
  intro block outer ds
  rw [List.map_nil, OpenBlock.append_nil]
  rfl

theorem writes_tellClosing (block : OpenBlock) (tag : Tag) :
    Writes (tellClosing false block.name tag.name block.openedAt? tag.nameAt) []
      (tag.closingProblems block) := by
  rw [Tag.closingProblems]
  by_cases hname : (tag.name != block.name) = true
  · rw [tellClosing, if_neg Bool.false_ne_true, if_pos hname, if_pos hname]
    exact writes_report _
  · rw [tellClosing, if_neg Bool.false_ne_true, if_neg hname, if_neg hname]
    exact writes_nothing

theorem diagnostics_append (ds : Array Diagnostic) (problems more : List Diagnostic) :
    ds ++ problems ++ more = ds ++ (problems ++ more) :=
  Array.toList_inj.1 (by simp)

theorem Writes.then (h : Writes steps spans problems) (h' : Writes more spans' problems') :
    Writes (do steps; more) (spans ++ spans') (problems ++ problems') := by
  intro block outer ds
  rw [on_bind, h]
  simp only
  rw [h', OpenBlock.append_append, List.map_append, diagnostics_append]

/-- Markup in a block of its own is an element. -/
theorem inBlock_on_of_writes (h : Writes steps spans problems) (kind : BlockKind)
    (block : OpenBlock) (outer : List OpenBlock) (ds : Array Diagnostic) :
    (inBlock kind steps).on ⟨block :: outer, ds⟩ =
      (⟨block.append [.block kind "" (spans.map .span)] :: outer, ds ++ problems⟩, .ok ()) := by
  rw [inBlock_on_of_open (h _ _ _), OpenBlock.toNode_eq, OpenBlock.children_append]
  rfl

/-! ### Tags -/

section tags
variable {options : Options} {tag : Tag} {markup front back : Steps Unit}

theorem addElement_on (h : Writes markup tag.spans []) (b : Builder) :
    (inBlock .tagElement markup).on b = settle b () (b.addElement tag.spans) := by
  obtain ⟨stack, ds⟩ := b
  cases stack with
  | nil => rfl
  | cons block outer =>
    rw [inBlock_on_of_writes h, addElement_eq, Array.appendList_nil]
    rfl

/-- Nodes of a block that is dropped are those of the block around it. -/
theorem mergeWithParent_on_append (kind : BlockKind) (name : String) (nodes : List Node)
    (block : OpenBlock) (outer : List OpenBlock) (ds : Array Diagnostic) :
    mergeWithParent.on ⟨OpenBlock.append ⟨kind, name, #[]⟩ nodes :: block :: outer, ds⟩ =
      (⟨block.append nodes :: outer, ds⟩, .ok ()) := by
  rw [mergeWithParent_on, Builder.mergeWithParent]
  simp only [OpenBlock.append, Array.empty_append]
  rfl

theorem addBlockOpen_on (h : Writes markup tag.spans tag.problems) (b : Builder) :
    (addBlockOpen options tag.name markup).on b = settle b () (b.addBlockOpen options tag) := by
  obtain ⟨stack, ds⟩ := b
  cases stack with
  | nil => rfl
  | cons block outer =>
    have helement := inBlock_on_of_writes h .tagElement (.empty .tag) (block :: outer) ds
    rw [addBlockOpen_eq]
    change (do
      inBlock .tagElement markup
      if continues options block.name tag then mergeWithParent
      else changeCurrent ({ · with name := tag.name }) : Steps Unit).on
        ⟨.empty .tag :: block :: outer, ds⟩ = _
    rw [on_bind, helement]
    simp only
    cases continues options block.name tag with
    | true => exact mergeWithParent_on_append _ _ _ _ _ _
    | false => rfl

theorem addBlockClose_on (hfront : Writes front spans []) (hback : Writes back spans' tag.problems)
    (hspans : tag.spans = spans ++ spans') (b : Builder) :
    (addBlockClose tag.name tag.nameAt front back).on b = settle b () (b.addBlockClose tag) := by
  obtain ⟨stack, ds⟩ := b
  match stack with
  | [] => rfl
  | [root] =>
    have hmarkup := hfront.then ((writes_report tag.strayProblem).then hback)
    rw [List.nil_append, List.nil_append, ← hspans] at hmarkup
    have helement := inBlock_on_of_writes hmarkup .tagElement root [] ds
    rw [addBlockClose_root]
    change (do
      inBlock .tagElement (do front; report tag.strayProblem; back)
      pure () : Steps Unit).on ⟨[root], ds⟩ = _
    rw [on_bind, helement, ← diagnostics_append]
    rfl
  | block :: parent :: outer =>
    have hmarkup := hfront.then ((writes_tellClosing block tag).then hback)
    rw [List.nil_append, List.nil_append, ← hspans] at hmarkup
    have helement := inBlock_on_of_writes hmarkup .tagElement block (parent :: outer) ds
    rw [addBlockClose_inner]
    change (do
      inBlock .tagElement (do
        front
        tellClosing false block.name tag.name block.openedAt? tag.nameAt
        back)
      endBlock : Steps Unit).on ⟨block :: parent :: outer, ds⟩ = _
    rw [on_bind, helement, ← diagnostics_append]
    simp only
    rw [endBlock_on, Builder.endBlock, OpenBlock.push_eq_append]
    rfl

/-- The block has its kind, its name and its markup when it is closed or dropped. -/
theorem expression_on (hfront : Writes front spans []) (hback : Writes back spans' problems)
    (branch : Bool) (name : String) (last : Steps Unit) (outer : List OpenBlock)
    (ds : Array Diagnostic) :
    (do
      front
      if name == "else" && branch then changeCurrent ({ · with kind := .tagElement })
      changeCurrent ({ · with name := name })
      back
      last : Steps Unit).on ⟨.empty .expression :: outer, ds⟩ =
    last.on ⟨OpenBlock.append
        ⟨if name == "else" && branch then .tagElement else .expression, name, #[]⟩
        ((spans ++ spans').map .span) :: outer, ds ++ problems⟩ := by
  have hnamed : ∀ kind, (do
      changeCurrent ({ · with name := name })
      back
      last : Steps Unit).on ⟨OpenBlock.append (.empty kind) (spans.map .span) :: outer, ds⟩ =
      last.on ⟨OpenBlock.append ⟨kind, name, #[]⟩ ((spans ++ spans').map .span) :: outer,
        ds ++ problems⟩ := by
    intro kind
    change (do back; last : Steps Unit).on
      ⟨OpenBlock.append ⟨kind, name, #[]⟩ (spans.map .span) :: outer, ds⟩ = _
    rw [on_bind, hback, OpenBlock.append_append, ← List.map_append]
  rw [on_bind, hfront, Array.appendList_nil]
  cases (name == "else" && branch) with
  | true => exact hnamed .tagElement
  | false => exact hnamed .expression

theorem addExpression_on (hfront : Writes front spans []) (hback : Writes back spans' tag.problems)
    (hspans : tag.spans = spans ++ spans') (b : Builder) :
    (addExpression options tag.name front back).on b =
      settle b () (b.addExpression options tag) := by
  obtain ⟨stack, ds⟩ := b
  cases stack with
  | nil => rfl
  | cons block outer =>
    have hmarkup := fun last => expression_on hfront hback (options.isBranchBlock block.name)
      tag.name last (block :: outer) ds
    rw [← hspans] at hmarkup
    rw [addExpression_eq]
    change (inBlock .expression (do
      front
      if tag.name == "else" && options.isBranchBlock block.name then
        changeCurrent ({ · with kind := .tagElement })
      changeCurrent ({ · with name := tag.name })
      back
      if continues options block.name tag then mergeWithParent)).on ⟨block :: outer, ds⟩ = _
    cases continues options block.name tag with
    | true =>
      have hmerged := (hmarkup mergeWithParent).trans (mergeWithParent_on_append _ _ _ _ _ _)
      rw [if_pos rfl, if_pos rfl]
      exact inBlock_on_of_dropped hmerged
    | false =>
      rw [if_neg Bool.false_ne_true, if_neg Bool.false_ne_true]
      rw [inBlock_on_of_open (hmarkup (pure ())), OpenBlock.toNode_eq, OpenBlock.children_append]
      rfl

/-- To add a tag part by part inside its blocks is to add it at once. -/
theorem addTag_on (hfront : Writes front spans []) (hback : Writes back spans' tag.problems)
    (hspans : tag.spans = spans ++ spans') {b : Builder} (hopen : b.stack ≠ []) :
    (addTag options tag.kind tag.name tag.nameAt front back).on b =
      settle b () (b.addTag options tag) := by
  have hmarkup := hfront.then hback
  rw [← hspans, List.nil_append] at hmarkup
  rw [Builder.addTag]
  cases tag.kind with
  | blockOpen => exact addBlockOpen_on hmarkup b
  | blockClose => exact addBlockClose_on hfront hback hspans b
  | expression => exact addExpression_on hfront hback hspans b
  | comment =>
    obtain ⟨stack, ds⟩ := b
    cases stack with
    | nil => exact absurd rfl hopen
    | cons block outer =>
      change (do front; back : Steps Unit).on ⟨block :: outer, ds⟩ = _
      rw [hmarkup]
      simp only [addComment_eq]
      rfl

end tags

end Steps

end Builder

end BraceTemplate
