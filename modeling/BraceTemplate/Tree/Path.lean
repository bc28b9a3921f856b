import BraceTemplate.Tree.Basic

/-!
# Walks and paths

A walk goes through the nodes below a block in document order, a block before
its children. Its state is the stack of child lists that it has not finished,
so it needs no recursion into the tree and may stop anywhere. Text, location
and search of a block are read off the walk. A path names one node below a block
by the indices of children to go through, and the empty path the block itself.
-/

namespace BraceTemplate

structure Walk where
  /-- What is left of each open list of children, innermost first. -/
  pending : List (List Node)

namespace Walk

/-- The next node of the pending lists and what is pending after it. -/
def step? : List (List Node) → Option (Node × List (List Node))
  | [] => none
  | [] :: outer => step? outer
  | (node :: nodes) :: outer => some (node, node.children :: nodes :: outer)

/-- The next node and the walk after it. -/
def next? (w : Walk) : Option (Node × Walk) :=
  (step? w.pending).map fun (node, pending) => (node, ⟨pending⟩)

/-- Number of nodes that the walk has before it. -/
def remaining (w : Walk) : Nat := Node.sizeAll w.pending.flatten

theorem remaining_of_step? {pending after : List (List Node)} {node : Node}
    (h : step? pending = some (node, after)) :
    Node.sizeAll pending.flatten = Node.sizeAll after.flatten + 1 := by
  fun_induction step? pending with
  | case1 => simp at h
  | case2 outer ih => simpa using ih h
  | case3 node nodes outer =>
    simp only [Option.some.injEq, Prod.mk.injEq] at h
    obtain ⟨rfl, rfl⟩ := h
    simp only [List.flatten_cons, List.cons_append, Node.sizeAll, Node.sizeAll_append,
      Node.size_eq]
    omega

theorem remaining_of_next? {w v : Walk} {node : Node} (h : w.next? = some (node, v)) :
    w.remaining = v.remaining + 1 := by
  obtain ⟨⟨node', pending⟩, hstep, heq⟩ := Option.map_eq_some_iff.1 h
  simp only [Prod.mk.injEq] at heq
  obtain ⟨rfl, rfl⟩ := heq
  exact remaining_of_step? hstep

/-- All nodes to come. -/
def toList (w : Walk) : List Node :=
  match _h : w.next? with
  | none => []
  | some (node, v) => node :: v.toList
termination_by w.remaining
decreasing_by have := remaining_of_next? _h; omega

end Walk

namespace Block

/-- The walk below a block. -/
def walk (b : Block) : Walk := ⟨[b.children]⟩

/-- All nodes below, in document order. -/
def descendants (b : Block) : List Node := b.walk.toList

/-- All spans below, in document order. -/
def descendantSpans (b : Block) : List Span := b.descendants.filterMap Node.span?

/-- The first block below with a name. -/
def find? (b : Block) (name : String) : Option Block :=
  (b.descendants.filterMap Node.block?).find? (·.isNamed name)

/-- The source text that the spans below hold. -/
def render (b : Block) : String := String.join (b.descendantSpans.map Span.content)

/-- The smallest location that includes all spans below, if there is any. -/
def location? (b : Block) : Option Location :=
  Location.hullAll (b.descendantSpans.map Span.location)

end Block

/-- Where the text of a node stands, if it has any spans. -/
def Node.location? : Node → Option Location
  | .span s => some s.location
  | .block kind name nodes => (Block.mk kind name nodes).location?

/-! ### Paths -/

namespace Node

/-- The node at a path. -/
def get? : Node → List Nat → Option Node
  | node, [] => some node
  | node, i :: path => node.children[i]? >>= (get? · path)

/-- Changes the blocks at a path; a path to nowhere or to a span changes
nothing. -/
def modifyBlock (f : Block → Block) : List Nat → Node → Node
  | _, span s => span s
  | [], block kind name nodes => (f ⟨kind, name, nodes⟩).toNode
  | i :: path, block kind name nodes => block kind name (nodes.modify i (modifyBlock f path))

end Node

end BraceTemplate
