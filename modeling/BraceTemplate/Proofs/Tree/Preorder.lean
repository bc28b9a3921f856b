import BraceTemplate.Tree.Path

/-!
# Document order

The walk below a block against recursion on its children: a node comes first,
then what is below it, then its right siblings. Spans and blocks below a list
of nodes are read off that order, one equation for each shape of list.
-/

namespace BraceTemplate

namespace Node

/-- Induction on a list of nodes goes below the first node and on to the others. -/
theorem list_induct {motive : List Node → Prop} (nil : motive [])
    (cons : ∀ node nodes, motive node.children → motive nodes → motive (node :: nodes)) :
    ∀ nodes, motive nodes
  | [] => nil
  | span _ :: nodes => cons _ _ nil (list_induct nil cons nodes)
  | block _ _ inner :: nodes =>
    cons _ _ (list_induct nil cons inner) (list_induct nil cons nodes)

/-- The nodes of a list with everything below them, in document order. -/
def preorder : List Node → List Node
  | [] => []
  | span s :: nodes => span s :: preorder nodes
  | block kind name inner :: nodes =>
    block kind name inner :: (preorder inner ++ preorder nodes)

@[simp] theorem preorder_nil : preorder [] = [] := by rw [preorder]

theorem preorder_cons (node : Node) (nodes : List Node) :
    preorder (node :: nodes) = node :: (preorder node.children ++ preorder nodes) := by
  cases node with
  | span s => rw [preorder, children, preorder_nil, List.nil_append]
  | block kind name inner => rw [preorder, children]

theorem preorder_append (as bs : List Node) :
    preorder (as ++ bs) = preorder as ++ preorder bs := by
  induction as with
  | nil => rw [preorder_nil, List.nil_append, List.nil_append]
  | cons a as ih =>
    rw [List.cons_append, preorder_cons, preorder_cons, ih, List.cons_append,
      List.append_assoc]

/-- The spans in and below a list of nodes. -/
def spansOf (nodes : List Node) : List Span := (preorder nodes).filterMap span?

/-- The blocks in and below a list of nodes. -/
def blocksOf (nodes : List Node) : List Block := (preorder nodes).filterMap block?

@[simp] theorem spansOf_nil : spansOf [] = [] := by simp [spansOf]

@[simp] theorem blocksOf_nil : blocksOf [] = [] := by simp [blocksOf]

@[simp] theorem spansOf_append (as bs : List Node) :
    spansOf (as ++ bs) = spansOf as ++ spansOf bs := by
  simp [spansOf, preorder_append]

@[simp] theorem blocksOf_append (as bs : List Node) :
    blocksOf (as ++ bs) = blocksOf as ++ blocksOf bs := by
  simp [blocksOf, preorder_append]

@[simp] theorem spansOf_span (s : Span) (nodes : List Node) :
    spansOf (span s :: nodes) = s :: spansOf nodes := by
  simp [spansOf, preorder_cons, children, span?]

@[simp] theorem blocksOf_span (s : Span) (nodes : List Node) :
    blocksOf (span s :: nodes) = blocksOf nodes := by
  rw [blocksOf, preorder, List.filterMap_cons_none rfl, blocksOf]

@[simp] theorem spansOf_block (kind : BlockKind) (name : String) (inner nodes : List Node) :
    spansOf (block kind name inner :: nodes) = spansOf inner ++ spansOf nodes := by
  rw [spansOf, preorder, List.filterMap_cons_none rfl, List.filterMap_append, spansOf, spansOf]

@[simp] theorem blocksOf_block (kind : BlockKind) (name : String) (inner nodes : List Node) :
    blocksOf (block kind name inner :: nodes) =
      ⟨kind, name, inner⟩ :: (blocksOf inner ++ blocksOf nodes) := by
  simp [blocksOf, preorder_cons, children, block?]

@[simp] theorem spansOf_map_span (spans : List Span) : spansOf (spans.map span) = spans := by
  induction spans with
  | nil => exact spansOf_nil
  | cons s spans ih => rw [List.map_cons, spansOf_span, ih]

@[simp] theorem blocksOf_map_span (spans : List Span) : blocksOf (spans.map span) = [] := by
  induction spans with
  | nil => exact blocksOf_nil
  | cons s spans ih => rw [List.map_cons, blocksOf_span, ih]

/-- What is below a block of a list stands in one stretch among the spans. -/
theorem spansOf_infix {nodes : List Node} {b : Block} (h : b ∈ blocksOf nodes) :
    spansOf b.children <:+: spansOf nodes := by
  fun_induction preorder nodes with
  | case1 => simp at h
  | case2 s nodes ih =>
    rw [blocksOf_span] at h
    rw [spansOf_span]
    exact (ih h).trans (List.suffix_cons s _).isInfix
  | case3 kind name inner nodes ihInner ihNodes =>
    rw [blocksOf_block, List.mem_cons, List.mem_append] at h
    rw [spansOf_block]
    rcases h with rfl | h | h
    · exact (List.prefix_append _ _).isInfix
    · exact (ihInner h).trans (List.prefix_append _ _).isInfix
    · exact (ihNodes h).trans (List.suffix_append _ _).isInfix

/-- Every block in or below a list of nodes satisfies a predicate. -/
def AllBlocks (p : Block → Prop) (nodes : List Node) : Prop := ∀ b ∈ blocksOf nodes, p b

section AllBlocks
variable {p : Block → Prop} {nodes more : List Node}

theorem allBlocks_cons {node : Node} : AllBlocks p (node :: nodes) ↔
    (∀ b ∈ node.block?, p b) ∧ AllBlocks p node.children ∧ AllBlocks p nodes := by
  cases node with
  | span s => simp [AllBlocks, block?, children]
  | block kind name inner =>
    simp only [AllBlocks, blocksOf_block, List.forall_mem_cons, List.forall_mem_append, children]
    simp [block?]

theorem AllBlocks.append (h : AllBlocks p nodes) (hmore : AllBlocks p more) :
    AllBlocks p (nodes ++ more) := by
  intro b hb
  rw [blocksOf_append, List.mem_append] at hb
  exact hb.elim (h b) (hmore b)

theorem allBlocks_spans (spans : List Span) : AllBlocks p (spans.map span) := by
  intro b hb
  rw [blocksOf_map_span] at hb
  cases hb

theorem allBlocks_block {kind : BlockKind} {name : String} (hblock : p ⟨kind, name, nodes⟩)
    (h : AllBlocks p nodes) : AllBlocks p [block kind name nodes] := by
  intro b hb
  rw [blocksOf_block, List.mem_cons, blocksOf_nil, List.append_nil] at hb
  rcases hb with rfl | hb
  · exact hblock
  · exact h b hb

theorem AllBlocks.imp {q : Block → Prop} (h : AllBlocks p nodes) (himp : ∀ b, p b → q b) :
    AllBlocks q nodes := fun b hb => himp b (h b hb)

end AllBlocks

end Node

namespace Walk

/-- One step of the walk takes the first node in document order off what is
pending. -/
theorem preorder_of_next? {w v : Walk} {node : Node} (h : w.next? = some (node, v)) :
    Node.preorder w.pending.flatten = node :: Node.preorder v.pending.flatten := by
  obtain ⟨⟨first, after⟩, hstep, heq⟩ := Option.map_eq_some_iff.1 h
  obtain ⟨rfl, rfl⟩ := Prod.mk.inj heq
  obtain ⟨pending⟩ := w
  change step? pending = some (first, after) at hstep
  change Node.preorder pending.flatten = first :: Node.preorder after.flatten
  fun_induction step? pending with
  | case1 => simp at hstep
  | case2 outer ih => exact ih h hstep
  | case3 node nodes outer =>
    obtain ⟨rfl, rfl⟩ := Prod.mk.inj (Option.some.inj hstep)
    simp only [List.flatten_cons, List.cons_append, Node.preorder_cons, Node.preorder_append]

theorem flatten_of_next?_eq_none {w : Walk} (h : w.next? = none) : w.pending.flatten = [] := by
  obtain ⟨pending⟩ := w
  have hstep : step? pending = none := Option.map_eq_none_iff.1 h
  change pending.flatten = []
  clear h
  fun_induction step? pending with
  | case1 => rfl
  | case2 outer ih => exact ih hstep
  | case3 => simp at hstep

theorem toList_eq_preorder (w : Walk) : w.toList = Node.preorder w.pending.flatten := by
  fun_induction toList w with
  | case1 w h => rw [flatten_of_next?_eq_none h, Node.preorder_nil]
  | case2 w node v h ih => rw [preorder_of_next? h, ih]

end Walk

namespace Block

theorem descendants_eq_preorder (b : Block) : b.descendants = Node.preorder b.children := by
  rw [descendants, Walk.toList_eq_preorder]
  simp [walk]

theorem descendantSpans_eq (b : Block) : b.descendantSpans = Node.spansOf b.children := by
  rw [descendantSpans, descendants_eq_preorder, Node.spansOf]

/-- The blocks below a block, in document order. -/
def descendantBlocks (b : Block) : List Block := b.descendants.filterMap Node.block?

theorem descendantBlocks_eq (b : Block) : b.descendantBlocks = Node.blocksOf b.children := by
  rw [descendantBlocks, descendants_eq_preorder, Node.blocksOf]

end Block

end BraceTemplate
