import BraceTemplate.Text.Quoted
import BraceTemplate.Tree.Basic

/-!
# Outlines

A tree as lines of text, one node a line in document order, indented by two
spaces a level. A line has the kind of the node and the quoted content of a
span or name of a block; blocks without a name have the kind alone. Locations
are left out.
-/

namespace BraceTemplate

/-- A node with the number of blocks around it. -/
structure Row where
  depth : Nat
  node : Node
deriving DecidableEq

mutual

/-- The rows of a node and all below, in front of `rows`. -/
def Node.rowsBefore (depth : Nat) : Node → List Row → List Row
  | .span s, rows => ⟨depth, .span s⟩ :: rows
  | .block kind name nodes, rows =>
    ⟨depth, .block kind name nodes⟩ :: Node.allRowsBefore (depth + 1) nodes rows

def Node.allRowsBefore (depth : Nat) : List Node → List Row → List Row
  | [], rows => rows
  | node :: nodes, rows => Node.rowsBefore depth node (Node.allRowsBefore depth nodes rows)

end

/-- The rows of a block and all below, the block itself at depth 0. -/
def Block.rows (b : Block) : List Row := b.toNode.rowsBefore 0 []

namespace Row

def label : Node → String
  | .span s => s.kind.name ++ " " ++ Text.quote s.content
  | .block kind name _ => if name.isEmpty then kind.name else kind.name ++ " " ++ Text.quote name

def line (r : Row) : String := String.ofList (List.replicate (2 * r.depth) ' ') ++ label r.node

end Row

def Block.outline (b : Block) : String := "\n".intercalate (b.rows.map Row.line)

end BraceTemplate
