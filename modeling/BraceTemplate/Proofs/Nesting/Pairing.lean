import BraceTemplate.Parser
import BraceTemplate.Proofs.Tag.Heading
import BraceTemplate.Proofs.Tree.Preorder

/-!
# Pairing tags

Opening and closing tags are paired by a stack, with nothing but the headings of
tags in view. The stack holds the name of each open block and the place of its
opening tag. A closing tag always closes the innermost block, whatever its name.
On the side of trees, the same is told by the blocks around each block.
-/

namespace BraceTemplate

namespace Problem

/-- Whether a problem is about a closing tag and the block that it closes. -/
def isPairing : Problem → Bool
  | unbalancedTag .. | unexpectedCloseTag _ => true
  | _ => false

def isUnclosedBlock : Problem → Bool
  | unclosedBlock _ => true
  | _ => false

end Problem

/-- A block by its name and the place of the tag that opens it. -/
structure Entry where
  name : String
  markup : Location
deriving DecidableEq, Repr

/-- What is told of a block that is never closed. -/
def Entry.unclosed (e : Entry) : Diagnostic := ⟨.unclosedBlock e.name, e.markup⟩

theorem Entry.unclosed_injective : Function.Injective Entry.unclosed := by
  rintro ⟨name, markup⟩ ⟨name', markup'⟩ h
  rw [unclosed, unclosed, Diagnostic.mk.injEq, Problem.unclosedBlock.injEq] at h
  obtain ⟨rfl, rfl⟩ := h
  rfl

structure Pairing where
  /-- The open blocks, the innermost first. -/
  stack : List Entry
  problems : List Problem
  /-- Each block that was opened, with the blocks open around it behind it. -/
  opened : List (List Entry)
deriving DecidableEq, Repr

namespace Pairing

def empty : Pairing := ⟨[], [], []⟩

/-- The name of the innermost open block, empty without one. -/
def topName (m : Pairing) : String :=
  match m.stack with
  | [] => ""
  | e :: _ => e.name

def push (m : Pairing) (e : Entry) : Pairing :=
  ⟨e :: m.stack, m.problems, m.opened ++ [e :: m.stack]⟩

def pop (m : Pairing) (name : String) : Pairing :=
  match m.stack with
  | [] => { m with problems := m.problems ++ [.unexpectedCloseTag name] }
  | e :: outer =>
    { m with
      stack := outer
      problems := m.problems ++
        if name = e.name then [] else [.unbalancedTag e.name name (some e.markup)] }

def step (options : Options) (m : Pairing) (tag : Heading) : Pairing :=
  match tag.kind with
  | .blockOpen =>
    if tag.name = "elseif" ∧ options.isBranchBlock m.topName then m
    else m.push ⟨tag.name, tag.markup⟩
  | .blockClose => m.pop tag.name
  | .comment | .expression => m

section

variable (options : Options) (m : Pairing) {tag : Heading}

theorem step_blockOpen (h : tag.kind = .blockOpen) : step options m tag =
    if tag.name = "elseif" ∧ options.isBranchBlock m.topName then m
    else m.push ⟨tag.name, tag.markup⟩ := by
  rw [step, h]

theorem step_blockClose (h : tag.kind = .blockClose) : step options m tag = m.pop tag.name := by
  rw [step, h]

theorem step_single (h : tag.kind = .comment ∨ tag.kind = .expression) :
    step options m tag = m := by
  rcases h with h | h <;> rw [step, h]

end

def run (options : Options) (tags : List Heading) : Pairing := tags.foldl (step options) empty

example : (run {} [⟨.blockOpen, "if", ⟨0, 7⟩⟩, ⟨.blockOpen, "each", ⟨7, 16⟩⟩,
    ⟨.blockClose, "if", ⟨16, 23⟩⟩]).problems =
      [.unbalancedTag "each" "if" (some ⟨7, 16⟩)] := by decide

end Pairing

/-- The pairing of the tags of a source. -/
def pairing (source : String) (options : Options) : Pairing :=
  .run options (headings (symbols source))

/-- A block by its name and the place of its first child. -/
def Block.opening? (b : Block) : Option Entry :=
  (b.children.head?.bind Node.location?).map (Entry.mk b.name)

namespace Node

/-- Each `tag` block in or below a list of nodes, in document order, with the
`tag` blocks around it behind it. -/
def tagTrails (around : List (Option Entry)) : List Node → List (List (Option Entry))
  | [] => []
  | span _ :: nodes => tagTrails around nodes
  | block kind name inner :: nodes =>
    (if kind = .tag then
      ((Block.mk kind name inner).opening? :: around) ::
        tagTrails ((Block.mk kind name inner).opening? :: around) inner
    else tagTrails around inner) ++ tagTrails around nodes

variable (around : List (Option Entry))

@[simp] theorem tagTrails_nil : tagTrails around [] = [] := by rw [tagTrails]

theorem tagTrails_append (as bs : List Node) :
    tagTrails around (as ++ bs) = tagTrails around as ++ tagTrails around bs := by
  induction as with
  | nil => rw [tagTrails_nil, List.nil_append, List.nil_append]
  | cons a as ih =>
    cases a with
    | span s => rw [List.cons_append, tagTrails, tagTrails, ih]
    | block kind name inner =>
      rw [List.cons_append, tagTrails, tagTrails, ih, List.append_assoc]

@[simp] theorem tagTrails_map_span (spans : List Span) :
    tagTrails around (spans.map span) = [] := by
  induction spans with
  | nil => exact tagTrails_nil around
  | cons s spans ih => rw [List.map_cons, tagTrails, ih]

/-- A block of another kind that holds nothing but spans adds no trail. -/
theorem tagTrails_markup {kind : BlockKind} (hkind : kind ≠ .tag) (name : String)
    (spans : List Span) : tagTrails around [.block kind name (spans.map .span)] = [] := by
  rw [tagTrails, if_neg hkind, tagTrails_map_span, tagTrails_nil, List.append_nil]

theorem tagTrails_tag (name : String) (inner : List Node) :
    tagTrails around [.block .tag name inner] =
      ((Block.mk .tag name inner).opening? :: around) ::
        tagTrails ((Block.mk .tag name inner).opening? :: around) inner := by
  rw [tagTrails, if_pos rfl, tagTrails_nil, List.append_nil]

end Node

end BraceTemplate
