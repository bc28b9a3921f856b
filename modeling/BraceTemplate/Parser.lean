import BraceTemplate.Builder
import BraceTemplate.Piece

/-!
# Reading templates

Tags open and close blocks in a builder. A closing tag closes the current block
whatever its name, and none at the root. Under a branch block, `else` stands as
markup of that block, and `elseif` adds to it without a block of its own. A
parser opens the root, reads content into it, which may be asked for again, and
is then finished.
-/

namespace BraceTemplate

/-- What may be chosen about reading templates. Options change how tags nest and
which problems are told, but not how a source is cut into symbols and tags. -/
structure Options where
  /-- Names of the blocks that `else` and `elseif` continue. -/
  branchBlocks : List String := ["if"]
  /-- Whether blocks that are open at the end of the source are diagnosed. -/
  reportUnclosed : Bool := true
deriving DecidableEq, Repr

namespace Options

def isBranchBlock (options : Options) (name : String) : Bool :=
  options.branchBlocks.contains name

/-- Makes a name one of a branch block, which changes nothing if it is. -/
def withBranchBlock (options : Options) (name : String) : Options :=
  if options.isBranchBlock name then options
  else { options with branchBlocks := options.branchBlocks ++ [name] }

end Options

namespace Builder

/-- Whether a tag continues a branch block of the given name. -/
def continues (options : Options) (parent : String) (tag : Tag) : Bool :=
  tag.name == "elseif" && options.isBranchBlock parent

/-- The markup of a tag becomes an element of the current block. -/
def addElement (b : Builder) (spans : List Span) : Except Fault Builder := do
  let b ← b.startBlock .tagElement
  let b ← b.pushSpans spans
  b.endBlock

/-- A tag that opens a block leaves it current, unless it continues one. -/
def addBlockOpen (options : Options) (b : Builder) (tag : Tag) : Except Fault Builder := do
  let parent := b.currentName
  let b ← b.startBlock .tag
  let b ← b.addElement tag.spans
  let b := b.reportAll tag.problems
  if continues options parent tag then b.mergeWithParent else b.setName tag.name

/-- What is wrong with closing the current block under a name. -/
def closingProblems (b : Builder) (tag : Tag) : Except Fault (List Diagnostic) := do
  let block ← b.currentBlock
  if b.isAtRoot then
    return [⟨.unexpectedCloseTag tag.name, tag.nameAt⟩]
  else if tag.name != block.name then
    return [⟨.unbalancedTag block.name tag.name block.openedAt?, tag.nameAt⟩]
  else
    return []

/-- Adds the markup of a closing tag, with what is wrong with it. Problems of
the name come before those of the tag. -/
def addClosingElement (b : Builder) (problems : List Diagnostic) (tag : Tag) :
    Except Fault Builder := do
  let b ← (b.reportAll problems).addElement tag.spans
  return b.reportAll tag.problems

/-- A closing tag is the last child of the block that it closes. -/
def addBlockClose (b : Builder) (tag : Tag) : Except Fault Builder := do
  let problems ← b.closingProblems tag
  if b.isAtRoot then b.addClosingElement problems tag
  else
    let b ← b.addClosingElement problems tag
    b.endBlock

/-- Comments are no markup of the block around them. -/
def addComment (b : Builder) (tag : Tag) : Except Fault Builder := do
  let b ← b.pushSpans tag.spans
  return b.reportAll tag.problems

def addExpression (options : Options) (b : Builder) (tag : Tag) : Except Fault Builder := do
  let parent := b.currentName
  let isElse := tag.name == "else" && options.isBranchBlock parent
  let b ← b.startBlock (if isElse then .tagElement else .expression)
  let b ← b.setName tag.name
  let b ← b.pushSpans tag.spans
  let b := b.reportAll tag.problems
  if continues options parent tag then b.mergeWithParent else b.endBlock

def addTag (options : Options) (b : Builder) (tag : Tag) : Except Fault Builder :=
  match tag.kind with
  | .blockOpen => b.addBlockOpen options tag
  | .blockClose => b.addBlockClose tag
  | .comment => b.addComment tag
  | .expression => b.addExpression options tag

def addPiece (options : Options) (b : Builder) : Piece → Except Fault Builder
  | .text span => b.pushSpan span
  | .tag tag => b.addTag options tag

def addPieces (options : Options) (b : Builder) (pieces : List Piece) : Except Fault Builder :=
  pieces.foldlM (addPiece options) b

end Builder

structure Parser where
  stream : SymbolStream
  builder : Builder
  options : Options

namespace Parser

def ofSource (source : String) (options : Options) : Parser :=
  ⟨.ofSource source, .empty, options⟩

/-- Opens the root. -/
def openRoot (p : Parser) : Except Fault Parser := do
  let builder ← p.builder.openRoot
  return { p with builder := builder }

/-- Reads text and tags into the current block and those inside it, up to the
end of the source. -/
def readContent (p : Parser) : Except Fault Parser := do
  let _ ← p.builder.currentBlock
  let (pieces, stream) ← Piece.readAll p.stream
  let builder ← p.builder.addPieces p.options pieces
  return { p with stream := stream, builder := builder }

/-- Closes all blocks and hands out the tree. -/
def finish (p : Parser) : Except Fault Parse :=
  p.builder.finish p.options.reportUnclosed

/-- Does all at once. -/
def run (p : Parser) : Except Fault Parse := do
  let p ← p.openRoot
  let p ← p.readContent
  p.finish

end Parser

/-- Reads a template. -/
def parse (source : String) (options : Options := {}) : Except Fault Parse :=
  (Parser.ofSource source options).run

end BraceTemplate
