import BraceTemplate.Diagnostic
import BraceTemplate.Tree.Path

/-!
# Builders

A builder holds the blocks that are being filled, from the current one out to
the root, and the diagnostics so far. A block joins its parent when it is
closed. Every request that needs an open block is refused without one, and a
refused request leaves the builder as it was; closing blocks down to none is
the one request that is refused only after its other work is done.
-/

namespace BraceTemplate

/-- The result of reading a template: its tree, and what is wrong with it in the
order in which it was found. -/
structure Parse where
  root : Block
  diagnostics : List Diagnostic
deriving DecidableEq

namespace Parse

/-- Whether nothing is wrong with the template. -/
def isOk (p : Parse) : Bool := p.diagnostics.isEmpty

end Parse

/-- A block that still takes children. -/
structure OpenBlock where
  kind : BlockKind
  name : String
  children : Array Node

namespace OpenBlock

def empty (kind : BlockKind) : OpenBlock := ⟨kind, "", #[]⟩

def push (b : OpenBlock) (node : Node) : OpenBlock := { b with children := b.children.push node }

def toBlock (b : OpenBlock) : Block := ⟨b.kind, b.name, b.children.toList⟩

def toNode (b : OpenBlock) : Node := b.toBlock.toNode

/-- The location of the first child. -/
def openedAt? (b : OpenBlock) : Option Location := b.children[0]? >>= Node.location?

end OpenBlock

structure Builder where
  /-- The open blocks, the current one first and the root last. -/
  stack : List OpenBlock
  diagnostics : Array Diagnostic

namespace Builder

/-- A builder without a root. -/
def empty : Builder := ⟨[], #[]⟩

def isInitialized (b : Builder) : Bool := !b.stack.isEmpty

/-- Number of open blocks, the root included. -/
def depth (b : Builder) : Nat := b.stack.length

/-- Whether no block is open inside the root. -/
def isAtRoot (b : Builder) : Bool :=
  match b.stack with
  | _ :: _ :: _ => false
  | _ => true

/-- The name of the current block, empty without one. -/
def currentName (b : Builder) : String :=
  match b.stack with
  | block :: _ => block.name
  | [] => ""

/-- Opens the root. -/
def openRoot (b : Builder) : Except Fault Builder :=
  match b.stack with
  | [] => .ok { b with stack := [.empty .text] }
  | _ :: _ => .error (.invalidState .openRoot)

/-- Opens a block inside the current one. -/
def startBlock (b : Builder) (kind : BlockKind) : Except Fault Builder :=
  match b.stack with
  | [] => .error (.invalidState .startBlock)
  | stack => .ok { b with stack := .empty kind :: stack }

def currentBlock (b : Builder) : Except Fault OpenBlock :=
  match b.stack with
  | [] => .error (.invalidState .currentBlock)
  | block :: _ => .ok block

/-- Changes the current block. -/
def modifyCurrent (b : Builder) (f : OpenBlock → OpenBlock) : Except Fault Builder :=
  match b with
  | ⟨[], _⟩ => .error (.invalidState .currentBlock)
  | ⟨block :: outer, diagnostics⟩ => .ok ⟨f block :: outer, diagnostics⟩

def setName (b : Builder) (name : String) : Except Fault Builder :=
  b.modifyCurrent fun block => { block with name := name }

def setKind (b : Builder) (kind : BlockKind) : Except Fault Builder :=
  b.modifyCurrent fun block => { block with kind := kind }

def pushSpan (b : Builder) (span : Span) : Except Fault Builder :=
  b.modifyCurrent (·.push (.span span))

/-- Adds spans to the current block, in order. -/
def pushSpans (b : Builder) (spans : List Span) : Except Fault Builder :=
  b.modifyCurrent fun block => spans.foldl (fun block span => block.push (.span span)) block

/-- Closes the current block, which becomes the last child of its parent. -/
def endBlock (b : Builder) : Except Fault Builder :=
  match b with
  | ⟨block :: parent :: outer, diagnostics⟩ =>
    .ok ⟨parent.push block.toNode :: outer, diagnostics⟩
  | _ => .error (.invalidState .endBlock)

/-- Drops the current block after moving its children to the end of its
parent. -/
def mergeWithParent (b : Builder) : Except Fault Builder :=
  match b with
  | ⟨block :: parent :: outer, diagnostics⟩ =>
    .ok ⟨{ parent with children := parent.children ++ block.children } :: outer, diagnostics⟩
  | _ => .error (.invalidState .mergeWithParent)

def report (b : Builder) (d : Diagnostic) : Builder :=
  { b with diagnostics := b.diagnostics.push d }

def reportAll (b : Builder) (ds : List Diagnostic) : Builder := ds.foldl report b

theorem depth_endBlock {b c : Builder} (h : b.endBlock = .ok c) : c.depth + 1 = b.depth := by
  unfold endBlock at h
  split at h
  · simp only [Except.ok.injEq] at h
    subst h
    rfl
  · simp at h

/-- Closes blocks until at most `limit` are open. The root cannot be closed, so
a limit of none is refused, with the root alone left open. -/
def release (b : Builder) (limit : Nat) : Builder × Except Fault Unit :=
  if limit < b.depth then
    match _h : b.endBlock with
    | .ok c => c.release limit
    | .error fault => (b, .error fault)
  else (b, .ok ())
termination_by b.depth
decreasing_by have := depth_endBlock _h; omega

/-- What is reported of a block that is never closed. Only tag blocks count. -/
def unclosed (block : OpenBlock) : List Diagnostic :=
  if block.kind = .tag then
    [⟨.unclosedBlock block.name,
      (block.openedAt? <|> block.toBlock.location?).getD (.point 0)⟩]
  else []

/-- Closes the current block, then its parent and so on to the root. -/
def closeAll (reportUnclosed : Bool) :
    OpenBlock → List OpenBlock → Array Diagnostic → Parse
  | root, [], diagnostics => ⟨root.toBlock, diagnostics.toList⟩
  | block, parent :: outer, diagnostics =>
    closeAll reportUnclosed (parent.push block.toNode) outer
      (if reportUnclosed then diagnostics ++ unclosed block else diagnostics)

/-- Closes everything and hands out the root. -/
def finish (b : Builder) (reportUnclosed : Bool) : Except Fault Parse :=
  match b with
  | ⟨[], _⟩ => .error (.invalidState .finish)
  | ⟨block :: outer, diagnostics⟩ => .ok (closeAll reportUnclosed block outer diagnostics)

end Builder

end BraceTemplate
