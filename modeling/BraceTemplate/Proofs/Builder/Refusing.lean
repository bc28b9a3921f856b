import BraceTemplate.Proofs.Builder.Answered

/-!
# Refused requests

A request to a builder takes several steps, and a step that is refused does not
undo those in front of it. Step by step, every request but one looks before it
does anything, so what it is refused for leaves the builder as it was. To release
blocks is to close them one after the other, each into its parent; it is refused
when only the root is left, with all others closed into it. No request closes the
root.
-/

namespace BraceTemplate

namespace Builder

/-! ### Requests step by step -/

/-- Steps on a builder. What is done in front of a step that is refused stays
done. -/
abbrev Steps := ExceptT Fault (StateM Builder)

namespace Steps

/-- What steps leave of a builder, and whether they were refused. -/
def on {α : Type} (steps : Steps α) (b : Builder) : Builder × Except Fault α :=
  ((steps.run.run b).2, (steps.run.run b).1)

/-- The next steps are taken unless a step is refused. -/
theorem on_bind {α β : Type} (steps : Steps α) (next : α → Steps β) (b : Builder) :
    (steps >>= next).on b = match steps.on b with
      | (c, .ok a) => (next a).on c
      | (c, .error fault) => (c, .error fault) := by
  rcases hrun : steps.run.run b with ⟨result, c⟩
  simp only [on, ExceptT.run_bind, StateT.run_bind, hrun]
  cases result <;> rfl

def pushBlock (block : OpenBlock) : Steps Unit :=
  modify fun b => { b with stack := block :: b.stack }

/-- Takes the current block off the stack, if there is one. -/
def popBlock : Steps (Option OpenBlock) := do
  match (← get).stack with
  | [] => return none
  | block :: outer =>
    modify fun b => { b with stack := outer }
    return some block

def changeCurrent (f : OpenBlock → OpenBlock) : Steps Unit := do
  match (← get).stack with
  | [] => throw (.invalidState .currentBlock)
  | block :: outer => modify fun b => { b with stack := f block :: outer }

def openRoot : Steps Unit := do
  if (← get).isInitialized then throw (.invalidState .openRoot)
  pushBlock (.empty .text)

def startBlock (kind : BlockKind) : Steps Unit := do
  unless (← get).isInitialized do throw (.invalidState .startBlock)
  pushBlock (.empty kind)

/-- The block is off the stack before its parent is asked for. -/
def endBlock : Steps Unit := do
  if (← get).depth < 2 then throw (.invalidState .endBlock)
  if let some block ← popBlock then
    changeCurrent fun parent => parent.push block.toNode

/-- The block is off the stack before its parent is asked for. -/
def mergeWithParent : Steps Unit := do
  if (← get).depth < 2 then throw (.invalidState .mergeWithParent)
  if let some block ← popBlock then
    changeCurrent fun parent => { parent with children := parent.children ++ block.children }

/-- Closes so many blocks, each told of before it is closed if that is asked for. -/
def closeBlocks (reportUnclosed : Bool) : Nat → Steps Unit
  | 0 => pure ()
  | n + 1 => do
    if let block :: _ := (← get).stack then
      if reportUnclosed then
        modify fun b => { b with diagnostics := b.diagnostics ++ unclosed block }
    endBlock
    closeBlocks reportUnclosed n

/-- The root counts as one of the blocks to close if there is no limit. -/
def release (limit : Nat) : Steps Unit := do
  closeBlocks false ((← get).depth - limit)

def handOut : Steps Parse := do
  match ← popBlock with
  | none => throw (.invalidState .finish)
  | some root => return ⟨root.toBlock, (← get).diagnostics.toList⟩

/-- All but the root are closed before a root is asked for. -/
def finish (reportUnclosed : Bool) : Steps Parse := do
  closeBlocks reportUnclosed ((← get).depth - 1)
  handOut

end Steps

/-- What can be done to a builder. The current block may be changed at will. -/
inductive Deed where
  | request (r : Request)
  | change (f : OpenBlock → OpenBlock)

def Deed.steps : Deed → Steps Unit
  | .request .openRoot => Steps.openRoot
  | .request (.startBlock kind) => Steps.startBlock kind
  | .request .endBlock => Steps.endBlock
  | .request (.release limit) => Steps.release limit
  | .request .mergeWithParent => Steps.mergeWithParent
  | .request (.pushSpan span) => Steps.changeCurrent (·.push (.span span))
  | .request (.setName name) => Steps.changeCurrent ({ · with name := name })
  | .request (.setKind kind) => Steps.changeCurrent ({ · with kind := kind })
  | .request (.report d) => modify (·.report d)
  | .change f => Steps.changeCurrent f

/-- What a deed leaves of a builder when it is done step by step. -/
def perform (b : Builder) (deed : Deed) : Builder × Except Fault Unit := deed.steps.on b

/-- What a deed leaves of a builder when it is done at once. -/
def outcome (b : Builder) : Deed → Builder × Except Fault Unit
  | .request r => b.answer r
  | .change f => settle b () (b.modifyCurrent f)

/-- The operation that a deed is refused for, if it is. -/
def refusal? (b : Builder) : Deed → Option Operation
  | .request .openRoot => if b.isInitialized then some .openRoot else none
  | .request (.startBlock _) => if b.isInitialized then none else some .startBlock
  | .request .endBlock => if b.depth < 2 then some .endBlock else none
  | .request (.release limit) => if limit = 0 ∧ b.isInitialized then some .endBlock else none
  | .request .mergeWithParent => if b.depth < 2 then some .mergeWithParent else none
  | .request (.report _) => none
  | .request (.pushSpan _) | .request (.setName _) | .request (.setKind _) | .change _ =>
    if b.isInitialized then none else some .currentBlock

theorem endBlock_on (b : Builder) : Steps.endBlock.on b = settle b () b.endBlock :=
  match b with
  | ⟨[], _⟩ => rfl
  | ⟨[_], _⟩ => rfl
  | ⟨_ :: _ :: _, _⟩ => rfl

theorem mergeWithParent_on (b : Builder) :
    Steps.mergeWithParent.on b = settle b () b.mergeWithParent :=
  match b with
  | ⟨[], _⟩ => rfl
  | ⟨[_], _⟩ => rfl
  | ⟨_ :: _ :: _, _⟩ => rfl

theorem closeBlocks_succ (b : Builder) (n : Nat) :
    (Steps.closeBlocks false (n + 1)).on b = match b.endBlock with
      | .ok c => (Steps.closeBlocks false n).on c
      | .error fault => (b, .error fault) := by
  have hpeek : (Steps.closeBlocks false (n + 1)).on b =
      (Steps.endBlock >>= fun _ => Steps.closeBlocks false n).on b := by
    rcases b with ⟨_ | ⟨block, outer⟩, ds⟩ <;> rfl
  rw [hpeek, Steps.on_bind, endBlock_on]
  cases b.endBlock <;> rfl

theorem release_on (b : Builder) (limit : Nat) : (Steps.release limit).on b = b.release limit := by
  change (Steps.closeBlocks false (b.depth - limit)).on b = b.release limit
  fun_induction release b limit with
  | case1 b hdeep c hend ih =>
    have hdepth : b.depth - limit = (c.depth - limit) + 1 := by
      have hone := depth_endBlock hend
      omega
    rw [hdepth, closeBlocks_succ, hend]
    exact ih
  | case2 b hdeep fault hend =>
    have hdepth : b.depth - limit = (b.depth - limit - 1) + 1 := by omega
    rw [hdepth, closeBlocks_succ, hend]
  | case3 b hdeep =>
    rw [Nat.sub_eq_zero_of_le (Nat.le_of_not_lt hdeep)]
    rfl

/-- No step is refused behind one that did anything, save where blocks are
released down to none. -/
theorem perform_eq_outcome (b : Builder) (deed : Deed) : b.perform deed = b.outcome deed := by
  cases deed with
  | change f => rcases b with ⟨_ | ⟨block, outer⟩, ds⟩ <;> rfl
  | request r => cases r with
    | endBlock => exact endBlock_on b
    | mergeWithParent => exact mergeWithParent_on b
    | release limit => exact release_on b limit
    | _ => rcases b with ⟨_ | ⟨block, outer⟩, ds⟩ <;> rfl

/-- The blocks inside the root are closed into it, the root stays. -/
theorem closeBlocks_on (reportUnclosed : Bool) (block : OpenBlock) (outer : List OpenBlock)
    (ds : Array Diagnostic) :
    ∃ root found, (Steps.closeBlocks reportUnclosed outer.length).on ⟨block :: outer, ds⟩ =
        (⟨[root], found⟩, .ok ()) ∧
      closeAll reportUnclosed block outer ds = ⟨root.toBlock, found.toList⟩ := by
  induction outer generalizing block ds with
  | nil => exact ⟨block, ds, rfl, rfl⟩
  | cons parent outer ih =>
    cases reportUnclosed with
    | false => exact ih (parent.push block.toNode) ds
    | true => exact ih (parent.push block.toNode) (ds ++ unclosed block)

theorem finish_on (b : Builder) (reportUnclosed : Bool) :
    ((Steps.finish reportUnclosed).on b).2 = b.finish reportUnclosed ∧
      if b.isInitialized then ∃ parse, b.finish reportUnclosed = .ok parse
      else (Steps.finish reportUnclosed).on b = (b, .error (.invalidState .finish)) := by
  obtain ⟨stack, ds⟩ := b
  cases stack with
  | nil => exact ⟨rfl, rfl⟩
  | cons block outer =>
    obtain ⟨root, found, hclose, hall⟩ := closeBlocks_on reportUnclosed block outer ds
    constructor
    · have hsteps := Steps.on_bind (Steps.closeBlocks reportUnclosed outer.length)
        (fun _ => Steps.handOut) ⟨block :: outer, ds⟩
      rw [hclose] at hsteps
      rw [finish, hall]
      exact congrArg Prod.snd hsteps
    · exact ⟨_, rfl⟩

/-! ### Blocks closed into each other -/

end Builder

/-- A block with further ones closed into it, each the last child of the one in
front of it. -/
def OpenBlock.adopt (block : OpenBlock) : List OpenBlock → OpenBlock
  | [] => block
  | child :: inner => block.push (child.adopt inner).toNode

/-- The innermost block may be closed first. -/
theorem OpenBlock.adopt_concat (block last inmost : OpenBlock) (inner : List OpenBlock) :
    block.adopt (inner ++ [last, inmost]) = block.adopt (inner ++ [last.push inmost.toNode]) := by
  induction inner generalizing block with
  | nil => rfl
  | cons child inner ih =>
    simp only [List.cons_append, adopt]
    rw [ih]

namespace Builder

variable {b : Builder} {limit : Nat}

theorem release_of_lt (hdeep : limit < b.depth) :
    b.release limit = match b.endBlock with
      | .ok c => c.release limit
      | .error fault => (b, .error fault) := by
  rw [release, if_pos hdeep]
  split
  · rename_i heq
    rw [heq]
  · rename_i heq
    rw [heq]

theorem release_of_depth_le (h : b.depth ≤ limit) : b.release limit = (b, .ok ()) := by
  rw [release, if_neg (Nat.not_lt.2 h)]

/-- Blocks above one that stays are closed into it. -/
theorem release_append (inner : List OpenBlock) (block : OpenBlock) {outer : List OpenBlock}
    (ds : Array Diagnostic) (hlimit : limit ≤ outer.length + 1) :
    release ⟨inner ++ block :: outer, ds⟩ limit =
      release ⟨block.adopt inner.reverse :: outer, ds⟩ limit := by
  induction hlength : inner.length generalizing inner block with
  | zero =>
    obtain rfl := List.eq_nil_of_length_eq_zero hlength
    rfl
  | succ n ih =>
    have hdeep : limit < depth ⟨inner ++ block :: outer, ds⟩ := by
      simp only [depth, List.length_append, List.length_cons]
      omega
    match inner with
    | [child] => exact release_of_lt hdeep
    | child :: parent :: inner =>
      have hstep := ih (parent.push child.toNode :: inner) block (by simpa using hlength)
      rw [List.reverse_cons, ← OpenBlock.adopt_concat] at hstep
      rw [release_of_lt hdeep]
      simpa [endBlock] using hstep

theorem release_outer (b : Builder) {outer closed : List OpenBlock} {target : OpenBlock}
    (hstack : b.stack.reverse = outer ++ target :: closed) :
    b.release (outer.length + 1) =
      (⟨(outer ++ [target.adopt closed]).reverse, b.diagnostics⟩, .ok ()) := by
  obtain ⟨stack, ds⟩ := b
  obtain rfl : stack = closed.reverse ++ target :: outer.reverse := by
    rw [← stack.reverse_reverse, hstack]
    simp
  rw [release_append _ _ _ (by simp), release_of_depth_le (by simp [depth])]
  simp

/-- Without a limit the root is asked to be closed too, after everything else. -/
theorem release_zero (b : Builder) {root : OpenBlock} {inner : List OpenBlock}
    (hstack : b.stack.reverse = root :: inner) :
    b.release 0 = (⟨[root.adopt inner], b.diagnostics⟩, .error (.invalidState .endBlock)) := by
  obtain ⟨stack, ds⟩ := b
  obtain rfl : stack = inner.reverse ++ [root] := by
    rw [← stack.reverse_reverse, hstack]
    simp
  rw [release_append _ _ _ (by simp), release_of_lt Nat.zero_lt_one]
  simp [endBlock]

theorem isInitialized_iff : b.isInitialized ↔ 0 < b.depth := by
  obtain ⟨stack, ds⟩ := b
  cases stack <;> simp [isInitialized, depth]

/-- The block at a limit that is not reached takes the others. -/
theorem exists_target (hpos : 0 < limit) (hdeep : limit < b.depth) :
    ∃ outer target closed, b.stack.reverse = outer ++ target :: closed ∧
      outer.length + 1 = limit := by
  have hlt : limit - 1 < b.stack.reverse.length := by
    rw [List.length_reverse]
    change limit < b.stack.length at hdeep
    omega
  have hsplit := (List.take_append_drop (limit - 1) b.stack.reverse).symm
  rw [List.drop_eq_getElem_cons hlt] at hsplit
  refine ⟨_, _, _, hsplit, ?_⟩
  rw [List.length_take]
  omega

theorem release_granted (hgranted : b.refusal? (.request (.release limit)) = none) :
    (b.release limit).2 = .ok () ∧ (b.release limit).1.depth = min b.depth limit := by
  have hlimit : limit = 0 → ¬ 0 < b.depth := by
    rw [← isInitialized_iff]
    simpa [refusal?] using hgranted
  by_cases hdepth : b.depth ≤ limit
  · rw [release_of_depth_le hdepth]
    exact ⟨rfl, (Nat.min_eq_left hdepth).symm⟩
  · obtain ⟨outer, target, closed, hstack, rfl⟩ :=
      @exists_target b limit (by omega) (Nat.lt_of_not_le hdepth)
    rw [release_outer b hstack, Nat.min_eq_right (Nat.le_of_not_le hdepth)]
    exact ⟨rfl, by simp [depth]⟩

theorem release_refused {operation : Operation}
    (hrefused : b.refusal? (.request (.release limit)) = some operation) :
    limit = 0 ∧ ∃ root inner, b.stack.reverse = root :: inner ∧ operation = .endBlock := by
  rw [refusal?] at hrefused
  split at hrefused
  · rename_i hnone
    obtain ⟨root, inner, hstack⟩ : ∃ root inner, b.stack.reverse = root :: inner :=
      List.exists_cons_of_length_pos (by
        rw [List.length_reverse]
        exact isInitialized_iff.1 hnone.2)
    cases hrefused
    exact ⟨hnone.1, root, inner, hstack, rfl⟩
  · cases hrefused

/-- What is refused, and for which operation. -/
theorem outcome_answer (b : Builder) (deed : Deed) :
    (b.outcome deed).2 = match b.refusal? deed with
      | some operation => .error (.invalidState operation)
      | none => .ok () := by
  cases deed with
  | change f => rcases b with ⟨_ | ⟨block, outer⟩, ds⟩ <;> rfl
  | request r => cases r with
    | release limit =>
      match hdeed : b.refusal? (.request (.release limit)) with
      | none => exact (release_granted hdeed).1
      | some operation =>
        obtain ⟨rfl, root, inner, hstack, rfl⟩ := release_refused hdeed
        exact congrArg Prod.snd (release_zero b hstack)
    | endBlock => rcases b with ⟨_ | ⟨block, _ | ⟨parent, outer⟩⟩, ds⟩ <;> rfl
    | mergeWithParent => rcases b with ⟨_ | ⟨block, _ | ⟨parent, outer⟩⟩, ds⟩ <;> rfl
    | _ => rcases b with ⟨_ | ⟨block, outer⟩, ds⟩ <;> rfl

/-- Only what a release without a limit closed stays closed. -/
theorem outcome_unchanged (b : Builder) {deed : Deed} {operation : Operation}
    (hrefused : b.refusal? deed = some operation) (hrelease : deed ≠ .request (.release 0)) :
    (b.outcome deed).1 = b := by
  have hanswer := outcome_answer b deed
  rw [hrefused] at hanswer
  cases deed with
  | change f => exact settle_of_error hanswer
  | request r => cases r with
    | release limit =>
      obtain ⟨rfl, -⟩ := release_refused hrefused
      exact absurd rfl hrelease
    | report d => cases hrefused
    | _ => exact settle_of_error hanswer

/-- No deed closes the root. -/
theorem outcome_depth (b : Builder) (deed : Deed) (hopen : 0 < b.depth) :
    0 < (b.outcome deed).1.depth := by
  cases deed with
  | change f => match b, hopen with
    | ⟨_ :: _, _⟩, _ => exact Nat.succ_pos _
  | request r => cases r with
    | release limit =>
      match hdeed : b.refusal? (.request (.release limit)) with
      | none =>
        rw [outcome, answer, (release_granted hdeed).2]
        refine Nat.lt_min.2 ⟨hopen, Nat.pos_of_ne_zero fun hzero => ?_⟩
        rw [refusal?, if_pos ⟨hzero, isInitialized_iff.2 hopen⟩] at hdeed
        cases hdeed
      | some operation =>
        obtain ⟨rfl, root, inner, hstack, -⟩ := release_refused hdeed
        rw [outcome, answer, release_zero b hstack]
        exact Nat.one_pos
    | _ => match b, hopen with
      | ⟨[_], _⟩, _ => exact Nat.succ_pos _
      | ⟨_ :: _ :: _, _⟩, _ => exact Nat.succ_pos _

/-- What each request to a builder is refused for and what it leaves, step by
step and in any state. -/
theorem deeds_refused (b : Builder) :
    (∀ deed, b.perform deed = b.outcome deed ∧
      (b.perform deed).2 = match b.refusal? deed with
        | some operation => .error (.invalidState operation)
        | none => .ok ()) ∧
    (∀ deed operation, b.refusal? deed = some operation → deed ≠ .request (.release 0) →
      (b.perform deed).1 = b) ∧
    (∀ reportUnclosed, ((Steps.finish reportUnclosed).on b).2 = b.finish reportUnclosed ∧
      if b.isInitialized then ∃ parse, b.finish reportUnclosed = .ok parse
      else (Steps.finish reportUnclosed).on b = (b, .error (.invalidState .finish))) ∧
    (∀ limit, b.depth ≤ limit → b.release limit = (b, .ok ())) ∧
    (∀ outer target closed, b.stack.reverse = outer ++ target :: closed →
      b.release (outer.length + 1) =
        (⟨(outer ++ [target.adopt closed]).reverse, b.diagnostics⟩, .ok ())) ∧
    (∀ limit, b.refusal? (.request (.release limit)) = none →
      (b.release limit).1.depth = min b.depth limit) ∧
    (∀ root inner, b.stack.reverse = root :: inner →
      b.release 0 = (⟨[root.adopt inner], b.diagnostics⟩, .error (.invalidState .endBlock))) ∧
    ∀ deeds, b.isInitialized → 0 < (answerAll perform b deeds).1.depth := by
  have hstep (c : Builder) (deed : Deed) (hopen : 0 < c.depth) :
      0 < (c.perform deed).1.depth ∧ True := by
    rw [perform_eq_outcome]
    exact ⟨outcome_depth c deed hopen, trivial⟩
  refine ⟨fun deed => ⟨perform_eq_outcome b deed, ?_⟩, fun deed operation hrefused hrelease => ?_,
    finish_on b, fun limit => release_of_depth_le,
    fun outer target closed => release_outer b, fun limit hgranted => ?_,
    fun root inner => release_zero b, fun deeds hopen => ?_⟩
  · rw [perform_eq_outcome]
    exact outcome_answer b deed
  · rw [perform_eq_outcome]
    exact outcome_unchanged b hrefused hrelease
  · exact (release_granted hgranted).2
  · exact (answerAll_keeps (fun c : Builder => 0 < c.depth) (fun _ => True) hstep
      (isInitialized_iff.1 hopen) deeds).1

end Builder

end BraceTemplate
