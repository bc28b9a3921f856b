import Mathlib.Data.List.Nodup
import BraceTemplate.Proofs.Answering
import BraceTemplate.Proofs.Tree.Preorder
import BraceTemplate.Tree.Path

/-!
# Walks against recursion

A walk may be asked for the next node as often as its caller likes. It answers
with the nodes in document order and with none from then on. Each node comes
once: the paths to the nodes, listed by recursion on the tree, ascend in
lexicographic order, where a path comes before all that go on from it. Text,
search and location of a block are what recursion on its children gives.
-/

namespace BraceTemplate

namespace Node

/-! ### Paths -/

/-- The paths to the nodes of a list and to all below them, in document order.
The first node of the list is the child with index `i`. -/
def pathsFrom (i : Nat) : List Node → List (List Nat)
  | [] => []
  | span _ :: nodes => [i] :: pathsFrom (i + 1) nodes
  | block _ _ inner :: nodes =>
    [i] :: ((pathsFrom 0 inner).map (i :: ·) ++ pathsFrom (i + 1) nodes)

@[simp] theorem pathsFrom_nil (i : Nat) : pathsFrom i [] = [] := by rw [pathsFrom]

theorem pathsFrom_cons (i : Nat) (node : Node) (nodes : List Node) :
    pathsFrom i (node :: nodes) =
      [i] :: ((pathsFrom 0 node.children).map (i :: ·) ++ pathsFrom (i + 1) nodes) := by
  cases node with
  | span s => rw [pathsFrom, children, pathsFrom_nil, List.map_nil, List.nil_append]
  | block kind name inner => rw [pathsFrom, children]

theorem isSome_get?_cons {node : Node} {i : Nat} {path : List Nat} :
    (node.get? (i :: path)).isSome ↔
      ∃ child, node.children[i]? = some child ∧ (child.get? path).isSome := by
  change (node.children[i]?.bind (get? · path)).isSome ↔ _
  cases node.children[i]? with
  | none => simp
  | some child => simp

/-- All paths into the nodes of a list are listed, and no others. -/
theorem mem_pathsFrom {i : Nat} {nodes : List Node} {path : List Nat} :
    path ∈ pathsFrom i nodes ↔
      ∃ j node rest, nodes[j]? = some node ∧ path = (i + j) :: rest ∧ (node.get? rest).isSome := by
  induction nodes using list_induct generalizing i path with
  | nil => simp
  | cons first nodes ihInner ihNodes =>
    rw [pathsFrom_cons, List.mem_cons, List.mem_append, List.mem_map]
    constructor
    · rintro (rfl | ⟨inner, hinner, rfl⟩ | hpath)
      · exact ⟨0, first, [], rfl, rfl, rfl⟩
      · obtain ⟨k, child, rest, hchild, rfl, hrest⟩ := ihInner.1 hinner
        rw [Nat.zero_add]
        exact ⟨0, first, k :: rest, rfl, rfl, isSome_get?_cons.2 ⟨child, hchild, hrest⟩⟩
      · obtain ⟨j, node, rest, hnode, rfl, hrest⟩ := ihNodes.1 hpath
        exact ⟨j + 1, node, rest, hnode, by rw [Nat.add_right_comm, Nat.add_assoc], hrest⟩
    · rintro ⟨_ | j, node, rest, hnode, rfl, hrest⟩
      · cases Option.some.inj hnode
        cases rest with
        | nil => exact .inl rfl
        | cons k rest =>
          obtain ⟨child, hchild, hrest⟩ := isSome_get?_cons.1 hrest
          refine .inr (.inl ⟨k :: rest, ihInner.2 ⟨k, child, rest, hchild, ?_, hrest⟩, rfl⟩)
          rw [Nat.zero_add]
      · refine .inr (.inr (ihNodes.2 ⟨j, node, rest, hnode, ?_, hrest⟩))
        rw [Nat.add_right_comm, Nat.add_assoc]

/-- Paths are listed in ascending order. -/
theorem pairwise_pathsFrom (i : Nat) (nodes : List Node) :
    (pathsFrom i nodes).Pairwise (· < ·) := by
  induction nodes using list_induct generalizing i with
  | nil =>
    rw [pathsFrom_nil]
    exact .nil
  | cons first nodes ihInner ihNodes =>
    rw [pathsFrom_cons, List.pairwise_cons, List.pairwise_append, List.pairwise_map]
    -- siblings to the right differ in the first index, which is larger there
    have hright : ∀ p, ∀ path ∈ pathsFrom (i + 1) nodes, i :: p < path := by
      intro p path hpath
      obtain ⟨j, _, rest, -, rfl, -⟩ := mem_pathsFrom.1 hpath
      exact List.cons_lt_cons_iff.2 (.inl (by omega))
    refine ⟨?_, ?_, ihNodes (i + 1), ?_⟩
    · intro path hpath
      rcases List.mem_append.1 hpath with hinner | hpath
      · obtain ⟨inner, hmem, rfl⟩ := List.mem_map.1 hinner
        obtain ⟨j, _, rest, -, rfl, -⟩ := mem_pathsFrom.1 hmem
        exact List.cons_lt_cons_iff.2 (.inr ⟨rfl, List.nil_lt_cons _ _⟩)
      · exact hright [] path hpath
    · exact (ihInner 0).imp fun h => List.cons_lt_cons_iff.2 (.inr ⟨rfl, h⟩)
    · intro path hpath
      obtain ⟨inner, -, rfl⟩ := List.mem_map.1 hpath
      exact hright inner

/-- The paths lead to the nodes in document order. -/
theorem map_get?_pathsFrom {node : Node} {before nodes : List Node}
    (h : node.children = before ++ nodes) :
    (pathsFrom before.length nodes).map node.get? = (preorder nodes).map some := by
  induction nodes using list_induct generalizing node before with
  | nil => rw [pathsFrom_nil, preorder_nil, List.map_nil, List.map_nil]
  | cons first nodes ihInner ihNodes =>
    have hfirst : node.children[before.length]? = some first := by simp [h]
    have hget : ∀ path, node.get? (before.length :: path) = first.get? path := by
      intro path
      change node.children[before.length]?.bind (get? · path) = _
      rw [hfirst, Option.bind_some]
    have hinner := @ihInner first [] rfl
    have hnodes := @ihNodes node (before ++ [first]) (by simp [h])
    rw [List.length_append, List.length_singleton] at hnodes
    rw [pathsFrom_cons, preorder_cons, List.map_cons, List.map_cons, List.map_append,
      List.map_append, List.map_map, hnodes, ← hinner, hget]
    congr 2
    exact List.map_congr_left fun path _ => hget path

/-! ### Texts -/

/-- The texts of spans put together by recursion. -/
def textOf : List Node → String
  | [] => ""
  | span s :: nodes => s.content ++ textOf nodes
  | block _ _ inner :: nodes => textOf inner ++ textOf nodes

theorem join_spansOf (nodes : List Node) :
    String.join ((spansOf nodes).map Span.content) = textOf nodes := by
  fun_induction textOf nodes with
  | case1 => rw [spansOf_nil, List.map_nil, String.join_nil]
  | case2 s nodes ih => rw [spansOf_span, List.map_cons, String.join_cons, ih]
  | case3 kind name inner nodes ihInner ihNodes =>
    rw [spansOf_block, List.map_append, String.join_append, ihInner, ihNodes]

end Node

namespace Walk

/-- The answer to a call for the next node, and the walk after it. A walk that
has come to its end stays there. -/
def answer (w : Walk) (_ : Unit) : Walk × Option Node :=
  match w.next? with
  | none => (w, none)
  | some (node, v) => (v, some node)

/-- However often a walk is asked, its answers are the nodes that are pending,
in document order, and none behind them. -/
theorem answerAll_eq (w : Walk) (n : Nat) :
    (answerAll answer w (List.replicate n ())).2 =
      (List.range n).map fun k => (Node.preorder w.pending.flatten)[k]? := by
  induction n generalizing w with
  | zero => rfl
  | succ n ih =>
    rw [List.range_succ_eq_map, List.map_cons, List.map_map, List.replicate_succ]
    change (w.answer ()).2 :: (answerAll answer (w.answer ()).1 (List.replicate n ())).2 = _
    rw [ih]
    cases hnext : w.next? with
    | none =>
      simp only [answer, hnext, flatten_of_next?_eq_none hnext, Node.preorder_nil]
      rfl
    | some next =>
      obtain ⟨node, v⟩ := next
      simp only [answer, hnext, preorder_of_next? hnext]
      rfl

end Walk

namespace Block

theorem render_eq_textOf (b : Block) : b.render = Node.textOf b.children := by
  rw [render, descendantSpans_eq, Node.join_spansOf]

/-- The paths to what is below a block are those that lead anywhere but to the
block itself. -/
theorem mem_pathsFrom_children (b : Block) {path : List Nat} :
    path ∈ Node.pathsFrom 0 b.children ↔ path ≠ [] ∧ (b.toNode.get? path).isSome := by
  rw [Node.mem_pathsFrom]
  constructor
  · rintro ⟨j, node, rest, hnode, rfl, hrest⟩
    rw [Nat.zero_add]
    exact ⟨List.cons_ne_nil _ _, Node.isSome_get?_cons.2 ⟨node, hnode, hrest⟩⟩
  · rintro ⟨hne, hsome⟩
    obtain ⟨j, rest, rfl⟩ := List.exists_cons_of_ne_nil hne
    obtain ⟨node, hnode, hrest⟩ := Node.isSome_get?_cons.1 hsome
    exact ⟨j, node, rest, hnode, by rw [Nat.zero_add], hrest⟩

/-- A search finds the first block with the name. -/
theorem find?_eq_some_iff {b c : Block} {name : String} :
    b.find? name = some c ↔ ∃ before after, Node.blocksOf b.children = before ++ c :: after ∧
      c.name = name ∧ ∀ d ∈ before, d.name ≠ name := by
  rw [find?, descendants_eq_preorder, List.find?_eq_some_iff_append]
  constructor
  · rintro ⟨hname, before, after, hsplit, hbefore⟩
    refine ⟨before, after, hsplit, by simpa [isNamed] using hname, ?_⟩
    intro d hd
    simpa [isNamed] using hbefore d hd
  · rintro ⟨before, after, hsplit, hname, hbefore⟩
    refine ⟨by simpa [isNamed] using hname, before, after, hsplit, ?_⟩
    intro d hd
    simpa [isNamed] using hbefore d hd

theorem find?_eq_none_iff {b : Block} {name : String} :
    b.find? name = none ↔ ∀ d ∈ Node.blocksOf b.children, d.name ≠ name := by
  rw [find?, descendants_eq_preorder, List.find?_eq_none]
  simp [isNamed, Node.blocksOf]

/-- A walk yields what recursion on the tree does: every node below a block
once, in document order, and then nothing. So text, search and location are
those of the nodes, blocks and spans in this order. -/
theorem walk_ordered (b : Block) :
    (∀ n, (answerAll Walk.answer b.walk (List.replicate n ())).2 =
      (List.range n).map fun k => (Node.preorder b.children)[k]?) ∧
    b.descendants = Node.preorder b.children ∧
    ((Node.pathsFrom 0 b.children).map b.toNode.get? = b.descendants.map some ∧
      (Node.pathsFrom 0 b.children).Pairwise (· < ·) ∧
      (Node.pathsFrom 0 b.children).Nodup ∧
      ∀ path, path ∈ Node.pathsFrom 0 b.children ↔
        path ≠ [] ∧ (b.toNode.get? path).isSome) ∧
    b.render = Node.textOf b.children ∧
    (∀ name c, b.find? name = some c ↔
      ∃ before after, Node.blocksOf b.children = before ++ c :: after ∧
        c.name = name ∧ ∀ d ∈ before, d.name ≠ name) ∧
    (∀ name, b.find? name = none ↔ ∀ d ∈ Node.blocksOf b.children, d.name ≠ name) ∧
    (b.location? = none ↔ Node.spansOf b.children = []) ∧
    b.location?.map Location.start =
      ((Node.spansOf b.children).map (·.location.start)).min? ∧
    b.location?.map Location.stop =
      ((Node.spansOf b.children).map (·.location.stop)).max? := by
  have hwalk : b.walk.pending.flatten = b.children := by simp [walk]
  have hpaths := Node.pairwise_pathsFrom 0 b.children
  refine ⟨fun n => hwalk ▸ b.walk.answerAll_eq n, b.descendants_eq_preorder,
    ⟨?_, hpaths, hpaths.nodup, fun path => b.mem_pathsFrom_children⟩, b.render_eq_textOf,
    fun name c => find?_eq_some_iff, fun name => find?_eq_none_iff, ?_, ?_, ?_⟩
  · rw [descendants_eq_preorder]
    exact @Node.map_get?_pathsFrom b.toNode [] b.children rfl
  · rw [location?, descendantSpans_eq]
    cases Node.spansOf b.children with
    | nil => simp [Location.hullAll]
    | cons s spans => simp [Location.hullAll]
  · rw [location?, descendantSpans_eq, Location.map_start_hullAll, List.map_map]
    rfl
  · rw [location?, descendantSpans_eq, Location.map_stop_hullAll, List.map_map]
    rfl

end Block

end BraceTemplate
