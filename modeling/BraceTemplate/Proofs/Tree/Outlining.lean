import BraceTemplate.Proofs.Text.Quoting
import BraceTemplate.Proofs.Tree.Walking
import BraceTemplate.Tree.Outline

/-!
# What outlines tell

A line of an outline tells its depth, the name of a kind and the text behind it,
if there is one. It does not tell a span from a block: both may have the same
kind and text. What tells them apart is the line below, which is deeper behind a
block with children and never behind a span. So an outline tells the whole tree
but for locations, if no block below the root is without children.
-/

namespace BraceTemplate

/-! ### Trees up to locations -/

/-- Nodes with the same kinds, names, contents and nesting. -/
inductive Node.Alike : List Node → List Node → Prop
  | nil : Alike [] []
  | span {s t : Span} {nodes others : List Node} (kind : s.kind = t.kind)
      (content : s.content = t.content) (behind : Alike nodes others) :
      Alike (.span s :: nodes) (.span t :: others)
  | block {kind : BlockKind} {name : String} {inner inner' nodes others : List Node}
      (inside : Alike inner inner') (behind : Alike nodes others) :
      Alike (.block kind name inner :: nodes) (.block kind name inner' :: others)

/-- Blocks that differ in locations alone. -/
structure Block.Alike (a b : Block) : Prop where
  kind : a.kind = b.kind
  name : a.name = b.name
  children : Node.Alike a.children b.children

/-- No block below is without children. -/
def Block.Populated (b : Block) : Prop := Node.AllBlocks (fun c => c.children ≠ []) b.children

theorem Node.Alike.textOf {nodes others : List Node} (h : Alike nodes others) :
    Node.textOf nodes = Node.textOf others := by
  induction h with
  | nil => rfl
  | span kind content behind ih => rw [Node.textOf, Node.textOf, content, ih]
  | block inside behind ihInside ih => rw [Node.textOf, Node.textOf, ihInside, ih]

theorem Block.Alike.render {a b : Block} (h : a.Alike b) : a.render = b.render := by
  rw [render_eq_textOf, render_eq_textOf, h.children.textOf]

/-! ### Lines -/

/-- What a line of an outline tells. -/
structure Sign where
  depth : Nat
  kind : String
  text? : Option String

namespace Sign

/-- The sign of a node with a number of blocks around it. -/
def ofNode (depth : Nat) : Node → Sign
  | .span s => ⟨depth, s.kind.name, some s.content⟩
  | .block kind name _ => ⟨depth, kind.name, if name.isEmpty then none else some name⟩

@[simp] theorem depth_ofNode (depth : Nat) (node : Node) : (ofNode depth node).depth = depth := by
  cases node <;> rfl

theorem ofNode_block_inj {depth : Nat} {kind kind' : BlockKind} {name name' : String}
    {inner inner' : List Node}
    (h : ofNode depth (.block kind name inner) = ofNode depth (.block kind' name' inner')) :
    kind = kind' ∧ name = name' := by
  simp only [ofNode, mk.injEq, true_and] at h
  refine ⟨BlockKind.name_inj h.1, ?_⟩
  by_cases hname : name.isEmpty <;> by_cases hname' : name'.isEmpty <;> simp_all

/-- What stands behind the name of the kind. -/
def tail (s : Sign) : String :=
  match s.text? with
  | none => ""
  | some text => " " ++ Text.quote text

def line (s : Sign) : String :=
  String.ofList (List.replicate (2 * s.depth) ' ') ++ (s.kind ++ s.tail)

theorem line_ofNode (depth : Nat) (node : Node) :
    (ofNode depth node).line = Row.line ⟨depth, node⟩ := by
  cases node with
  | span s => rw [line, Row.line, Row.label, String.append_assoc]; rfl
  | block kind name inner =>
    rw [line, Row.line, Row.label, ofNode, tail]
    by_cases hname : name.isEmpty
    · simp [hname]
    · simp [hname, String.append_assoc]

/-- The name of the kind is a word. -/
structure Named (s : Sign) : Prop where
  nonempty : s.kind.toList ≠ []
  word : ∀ c ∈ s.kind.toList, c ≠ ' ' ∧ c ≠ '\n'

theorem named_ofNode (depth : Nat) (node : Node) : (ofNode depth node).Named := by
  cases node with
  | span s =>
    constructor
    · change s.kind.name.toList ≠ []
      cases s.kind <;> simp [SpanKind.name]
    · change ∀ c ∈ s.kind.name.toList, c ≠ ' ' ∧ c ≠ '\n'
      cases s.kind <;> simp [SpanKind.name]
  | block kind name inner =>
    constructor
    · change kind.name.toList ≠ []
      cases kind <;> simp [BlockKind.name]
    · change ∀ c ∈ kind.name.toList, c ≠ ' ' ∧ c ≠ '\n'
      cases kind <;> simp [BlockKind.name]

theorem head?_tail (s : Sign) : ∀ c ∈ s.tail.toList.head?, c = ' ' := by
  intro c hc
  cases htext : s.text? with
  | none =>
    rw [tail, htext] at hc
    cases hc
  | some text =>
    rw [tail, htext, String.toList_append] at hc
    exact (Option.some.inj hc).symm

theorem tail_inj {s t : Sign} (h : s.tail = t.tail) : s.text? = t.text? := by
  rw [tail, tail] at h
  rw [← String.toList_inj] at h
  cases hs : s.text? with
  | none =>
    cases ht : t.text? with
    | none => rfl
    | some text =>
      rw [hs, ht, String.toList_append] at h
      cases h
  | some text =>
    cases ht : t.text? with
    | none =>
      rw [hs, ht, String.toList_append] at h
      cases h
    | some other =>
      rw [hs, ht, String.toList_append, String.toList_append] at h
      rw [Text.quote_inj (String.toList_inj.1 (List.append_cancel_left h))]

theorem toList_line (s : Sign) :
    s.line.toList = List.replicate (2 * s.depth) ' ' ++ (s.kind.toList ++ s.tail.toList) := by
  rw [line, String.toList_append, String.toList_append, String.toList_ofList]

theorem Named.head?_label {s : Sign} (hs : s.Named) :
    ∀ c ∈ (s.kind.toList ++ s.tail.toList).head?, c ≠ ' ' := by
  intro c hc
  rw [List.head?_append_of_ne_nil _ hs.nonempty] at hc
  exact (hs.word c (List.mem_of_mem_head? hc)).1

/-- What stands behind the indent is cut at its first blank. -/
theorem label_inj {s t : Sign} (hs : s.Named) (ht : t.Named)
    (h : s.kind.toList ++ s.tail.toList = t.kind.toList ++ t.tail.toList) :
    s.kind = t.kind ∧ s.text? = t.text? := by
  have hword : ∀ {s : Sign}, s.Named → ∀ c ∈ s.kind.toList, (c != ' ') = true :=
    fun hs c hc => bne_iff_ne.2 (hs.word c hc).1
  have htail : ∀ s : Sign, ∀ c ∈ s.tail.toList.head?, (c != ' ') = false := by
    intro s c hc
    rw [head?_tail s c hc]
    rfl
  obtain ⟨hkind, hbehind⟩ :=
    Text.append_inj_of_head (hword hs) (hword ht) (htail s) (htail t) h
  exact ⟨String.toList_inj.1 hkind, tail_inj (String.toList_inj.1 hbehind)⟩

/-- A line tells its sign. -/
theorem line_inj {s t : Sign} (hs : s.Named) (ht : t.Named) (h : s.line = t.line) : s = t := by
  have hspaces : ∀ n, ∀ c ∈ List.replicate n ' ', (c == ' ') = true := by
    intro n c hc
    exact beq_iff_eq.2 (List.eq_of_mem_replicate hc)
  have hhead : ∀ {s : Sign}, s.Named →
      ∀ c ∈ (s.kind.toList ++ s.tail.toList).head?, (c == ' ') = false :=
    fun hs c hc => beq_eq_false_iff_ne.2 (hs.head?_label c hc)
  rw [← String.toList_inj, toList_line, toList_line] at h
  obtain ⟨hindent, hlabel⟩ :=
    Text.append_inj_of_head (hspaces _) (hspaces _) (hhead hs) (hhead ht) h
  obtain ⟨hkind, htext⟩ := label_inj hs ht hlabel
  have hdepth := congrArg List.length hindent
  rw [List.length_replicate, List.length_replicate] at hdepth
  obtain ⟨depth, kind, text⟩ := s
  obtain ⟨depth', kind', text'⟩ := t
  cases hkind
  cases htext
  cases Nat.eq_of_mul_eq_mul_left (by decide) hdepth
  rfl

theorem not_break_line {s : Sign} (hs : s.Named) : '\n' ∉ s.line.toList := by
  rw [toList_line, List.mem_append, List.mem_append]
  rintro (hindent | hkind | htail)
  · exact absurd (List.eq_of_mem_replicate hindent) (by decide)
  · exact (hs.word _ hkind).2 rfl
  · cases htext : s.text? with
    | none =>
      rw [tail, htext] at htail
      cases htail
    | some text =>
      rw [tail, htext, String.toList_append, List.mem_append] at htail
      rcases htail with hspace | hquote
      · exact absurd hspace (by decide)
      · exact Text.not_break_quote text hquote

/-- Lines put together are cut again at the line breaks. -/
theorem splitOn_lines {signs : List Sign} (hsigns : ∀ s ∈ signs, s.Named) (hne : signs ≠ []) :
    ("\n".intercalate (signs.map line)).toList.splitOn '\n' = signs.map fun s => s.line.toList := by
  rw [String.toList_intercalate, List.map_map]
  refine List.splitOn_intercalate '\n' ?_ (by simpa using hne)
  intro text htext
  obtain ⟨s, hs, rfl⟩ := List.mem_map.1 htext
  exact not_break_line (hsigns s hs)

theorem map_line_inj {signs others : List Sign} (hsigns : ∀ s ∈ signs, s.Named)
    (hothers : ∀ s ∈ others, s.Named)
    (h : (signs.map fun s => s.line.toList) = others.map fun s => s.line.toList) :
    signs = others := by
  induction signs generalizing others with
  | nil => exact (List.map_eq_nil_iff.1 h.symm).symm
  | cons s signs ih =>
    cases others with
    | nil => cases h
    | cons t others =>
      rw [List.forall_mem_cons] at hsigns hothers
      obtain ⟨hline, hlines⟩ := List.cons.inj h
      rw [line_inj hsigns.1 hothers.1 (String.toList_inj.1 hline), ih hsigns.2 hothers.2 hlines]

/-- Lines put together tell their signs. -/
theorem lines_inj {signs others : List Sign} (hsigns : ∀ s ∈ signs, s.Named)
    (hothers : ∀ s ∈ others, s.Named) (hne : signs ≠ []) (hne' : others ≠ [])
    (h : "\n".intercalate (signs.map line) = "\n".intercalate (others.map line)) :
    signs = others := by
  apply map_line_inj hsigns hothers
  rw [← splitOn_lines hsigns hne, h, splitOn_lines hothers hne']

end Sign

/-! ### Outlines -/

namespace Node

/-- The signs of a list of nodes and of everything below, in document order. -/
def signs (depth : Nat) : List Node → List Sign
  | [] => []
  | span s :: nodes => Sign.ofNode depth (span s) :: signs depth nodes
  | block kind name inner :: nodes =>
    Sign.ofNode depth (block kind name inner) :: (signs (depth + 1) inner ++ signs depth nodes)

@[simp] theorem signs_nil (depth : Nat) : signs depth [] = [] := by rw [signs]

theorem signs_cons (depth : Nat) (node : Node) (nodes : List Node) :
    signs depth (node :: nodes) =
      Sign.ofNode depth node :: (signs (depth + 1) node.children ++ signs depth nodes) := by
  cases node with
  | span s => rw [signs, children, signs_nil, List.nil_append]
  | block kind name inner => rw [signs, children]

theorem named_signs {depth : Nat} {nodes : List Node} : ∀ s ∈ signs depth nodes, s.Named := by
  induction nodes using list_induct generalizing depth with
  | nil => simp
  | cons node nodes ihInner ihNodes =>
    intro s hs
    rw [signs_cons, List.mem_cons, List.mem_append] at hs
    rcases hs with rfl | hs | hs
    · exact Sign.named_ofNode depth node
    · exact ihInner s hs
    · exact ihNodes s hs

theorem map_line_allRowsBefore (depth : Nat) (nodes : List Node) (rows : List Row) :
    (allRowsBefore depth nodes rows).map Row.line =
      (signs depth nodes).map Sign.line ++ rows.map Row.line := by
  induction nodes using list_induct generalizing depth rows with
  | nil => rw [allRowsBefore, signs_nil, List.map_nil, List.nil_append]
  | cons node nodes ihInner ihNodes =>
    rw [allRowsBefore, signs_cons, List.map_cons, List.map_append, List.cons_append,
      List.append_assoc, ← ihNodes, Sign.line_ofNode]
    cases node with
    | span s => rw [rowsBefore, children, signs_nil, List.map_nil, List.nil_append, List.map_cons]
    | block kind name inner =>
      rw [rowsBefore, List.map_cons, List.cons.injEq]
      exact ⟨rfl, ihInner (depth + 1) _⟩

/-- Signs of what is around: none of them is as deep. -/
def Shallow (depth : Nat) (signs : List Sign) : Prop := ∀ s ∈ signs.head?, s.depth < depth

theorem shallow_nil (depth : Nat) : Shallow depth [] := fun _ hs => nomatch hs

theorem Shallow.behind {depth : Nat} {rest : List Sign} (h : Shallow depth rest)
    (nodes : List Node) : Shallow (depth + 1) (signs depth nodes ++ rest) := by
  intro s hs
  cases nodes with
  | nil =>
    rw [signs_nil, List.nil_append] at hs
    exact Nat.lt_succ_of_lt (h s hs)
  | cons node nodes =>
    rw [signs_cons, List.cons_append] at hs
    cases Option.some.inj hs
    rw [Sign.depth_ofNode]
    exact Nat.lt_succ_self depth

theorem Shallow.ne_signs {depth : Nat} {rest others : List Sign} (h : Shallow depth rest)
    (node : Node) (nodes : List Node) : rest ≠ signs depth (node :: nodes) ++ others := by
  rintro rfl
  rw [signs_cons, List.cons_append] at h
  have hlt := h _ rfl
  rw [Sign.depth_ofNode] at hlt
  exact Nat.lt_irrefl _ hlt

/-- Nodes with the same sign are alike if what is below them is. -/
theorem alike_cons {depth : Nat} {node other : Node} {nodes others : List Node}
    (hsign : Sign.ofNode depth node = Sign.ofNode depth other)
    (hnode : ∀ b ∈ node.block?, b.children ≠ []) (hother : ∀ b ∈ other.block?, b.children ≠ [])
    (hinside : Alike node.children other.children) (hbehind : Alike nodes others) :
    Alike (node :: nodes) (other :: others) := by
  cases node with
  | span s =>
    cases other with
    | span t =>
      simp only [Sign.ofNode, Sign.mk.injEq, Option.some.injEq, true_and] at hsign
      exact .span (SpanKind.name_inj hsign.1) hsign.2 hbehind
    | block kind name inner =>
      cases hinside
      exact absurd rfl (hother ⟨kind, name, []⟩ rfl)
  | block kind name inner =>
    cases other with
    | span t =>
      have hinner : inner = [] := by cases hinside; rfl
      exact absurd hinner (hnode _ rfl)
    | block kind' name' inner' =>
      obtain ⟨rfl, rfl⟩ := Sign.ofNode_block_inj hsign
      exact .block hinside hbehind

/-- Signs tell the nodes up to locations, and where the nodes end. -/
theorem alike_of_signs {depth : Nat} {nodes others : List Node} {rest behind : List Sign}
    (hnodes : AllBlocks (fun b => b.children ≠ []) nodes)
    (hothers : AllBlocks (fun b => b.children ≠ []) others)
    (hrest : Shallow depth rest) (hbehind : Shallow depth behind)
    (h : signs depth nodes ++ rest = signs depth others ++ behind) :
    Alike nodes others ∧ rest = behind := by
  induction nodes using list_induct generalizing depth others rest behind with
  | nil =>
    rw [signs_nil, List.nil_append] at h
    cases others with
    | nil => exact ⟨.nil, by rw [h, signs_nil, List.nil_append]⟩
    | cons other others => exact absurd h (hrest.ne_signs other others)
  | cons node nodes ihInner ihNodes =>
    cases others with
    | nil =>
      rw [signs_nil, List.nil_append] at h
      exact absurd h.symm (hbehind.ne_signs node nodes)
    | cons other others =>
      obtain ⟨hnode, hinner, hnodes⟩ := allBlocks_cons.1 hnodes
      obtain ⟨hother, hinner', hothers⟩ := allBlocks_cons.1 hothers
      rw [signs_cons, signs_cons, List.cons_append, List.cons_append, List.append_assoc,
        List.append_assoc, List.cons.injEq] at h
      obtain ⟨hinside, hlater⟩ := ihInner hinner hinner' (hrest.behind nodes)
        (hbehind.behind others) h.2
      obtain ⟨halike, hend⟩ := ihNodes hnodes hothers hrest hbehind hlater
      exact ⟨alike_cons h.1 hnode hother hinside halike, hend⟩

theorem Alike.signs {nodes others : List Node} (h : Alike nodes others) (depth : Nat) :
    Node.signs depth nodes = Node.signs depth others := by
  induction h generalizing depth with
  | nil => rfl
  | span kind content behind ih =>
    rw [Node.signs, Node.signs, Sign.ofNode, Sign.ofNode, kind, content, ih]
  | block inside behind ihInside ih =>
    rw [Node.signs, Node.signs, ihInside, ih]
    rfl

end Node

namespace Block

theorem outline_eq (b : Block) :
    b.outline = "\n".intercalate ((Node.signs 0 [b.toNode]).map Sign.line) := by
  have hrows : b.rows = Node.allRowsBefore 0 [b.toNode] [] := rfl
  rw [outline, hrows, Node.map_line_allRowsBefore, List.map_nil, List.append_nil]

theorem outline_eq_iff {a b : Block} (ha : a.Populated) (hb : b.Populated) :
    a.outline = b.outline ↔ a.Alike b := by
  rw [outline_eq, outline_eq]
  constructor
  · intro h
    have hsigns := Sign.lines_inj Node.named_signs Node.named_signs (by simp [Node.signs_cons])
      (by simp [Node.signs_cons]) h
    rw [Node.signs_cons, Node.signs_cons, Node.signs_nil, List.cons.injEq] at hsigns
    obtain ⟨hkind, hname⟩ := Sign.ofNode_block_inj hsigns.1
    obtain ⟨hchildren, -⟩ :=
      Node.alike_of_signs ha hb (Node.shallow_nil 1) (Node.shallow_nil 1) hsigns.2
    exact ⟨hkind, hname, hchildren⟩
  · rintro ⟨hkind, hname, hchildren⟩
    rw [toNode, toNode, hkind, hname, (Node.Alike.block hchildren .nil).signs]

end Block

end BraceTemplate
