import BraceTemplate.Tree.Span

/-!
# Trees

A template is a block whose children are spans and further blocks, in document
order. A block tag and everything up to its closing tag make a `tag` block, the
markup of a single tag makes a `tagElement` block, and an expression tag makes
an `expression` block. The root has kind `text`.
-/

namespace BraceTemplate

inductive BlockKind where
  | text
  | tag
  | tagElement
  | expression
deriving DecidableEq, Repr

namespace BlockKind

def all : List BlockKind := [text, tag, tagElement, expression]

def name : BlockKind → String
  | text => "Text"
  | tag => "Tag"
  | tagElement => "TagElement"
  | expression => "Expression"

theorem name_inj {k l : BlockKind} : k.name = l.name → k = l := by
  cases k <;> cases l <;> decide

end BlockKind

inductive Node where
  | span (span : Span)
  | block (kind : BlockKind) (name : String) (children : List Node)

/-- A node that is known to be a block. -/
structure Block where
  kind : BlockKind
  /-- Empty for blocks without a name. -/
  name : String
  children : List Node

namespace Node

def children : Node → List Node
  | span _ => []
  | block _ _ nodes => nodes

def span? : Node → Option Span
  | span s => some s
  | block .. => none

def block? : Node → Option Block
  | span _ => none
  | block kind name nodes => some ⟨kind, name, nodes⟩

mutual

/-- Decides equality of kind, name, content and locations, here and below. -/
def decEq : (a b : Node) → Decidable (a = b)
  | span s, span t => decidable_of_iff (s = t) (by simp)
  | block kind name nodes, block kind' name' nodes' =>
    match decEqAll nodes nodes' with
    | .isTrue h => decidable_of_iff (kind = kind' ∧ name = name') (by simp [h])
    | .isFalse h => .isFalse (by simp [h])
  | span _, block .. => .isFalse (by simp)
  | block .., span _ => .isFalse (by simp)

def decEqAll : (as bs : List Node) → Decidable (as = bs)
  | [], [] => .isTrue rfl
  | a :: as, b :: bs =>
    match decEq a b, decEqAll as bs with
    | .isTrue h, .isTrue h' => .isTrue (by rw [h, h'])
    | .isFalse h, _ => .isFalse (by simp [h])
    | _, .isFalse h => .isFalse (by simp [h])
  | [], _ :: _ => .isFalse (by simp)
  | _ :: _, [] => .isFalse (by simp)

end

instance : DecidableEq Node := decEq

mutual

/-- Number of nodes, this one included. -/
def size : Node → Nat
  | span _ => 1
  | block _ _ nodes => sizeAll nodes + 1

def sizeAll : List Node → Nat
  | [] => 0
  | node :: nodes => size node + sizeAll nodes

end

theorem size_eq (node : Node) : node.size = sizeAll node.children + 1 := by
  cases node <;> rfl

theorem sizeAll_append (as bs : List Node) : sizeAll (as ++ bs) = sizeAll as + sizeAll bs := by
  induction as with
  | nil => simp [sizeAll]
  | cons a as ih => simp only [List.cons_append, sizeAll, ih, Nat.add_assoc]

end Node

deriving instance DecidableEq for Block

namespace Block

/-- A block without a name and children. -/
def empty (kind : BlockKind) : Block := ⟨kind, "", []⟩

def toNode (b : Block) : Node := .block b.kind b.name b.children

def isNamed (b : Block) (name : String) : Bool := b.name == name

/-- The block with a further child behind the others. -/
def push (b : Block) (node : Node) : Block := { b with children := b.children ++ [node] }

/-- Child blocks. -/
def blocks (b : Block) : List Block := b.children.filterMap Node.block?

/-- Child spans. -/
def spans (b : Block) : List Span := b.children.filterMap Node.span?

/-- Child blocks that hold the markup of a tag. -/
def tagElements (b : Block) : List Block := b.blocks.filter (·.kind == .tagElement)

/-- The first child span of a kind. -/
def firstSpan? (b : Block) (kind : SpanKind) : Option Span := b.spans.find? (·.kind == kind)

end Block

end BraceTemplate
