import BraceTemplate.Location

/-!
# Diagnostics and faults

What can be wrong with a template, and why a request to the library is refused.
A diagnostic stops nothing: every template has a tree. A fault is a mistake of
the caller.
-/

namespace BraceTemplate

inductive Problem where
  /-- A closing tag with another name than the block that it closes. -/
  | unbalancedTag (expected actual : String) (openedAt : Option Location)
  /-- A closing tag where no block is open. -/
  | unexpectedCloseTag (name : String)
  /-- A block that is open at the end of the source. -/
  | unclosedBlock (name : String)
  /-- A tag without its closing delimiter. -/
  | unclosedTag
  /-- A raw tag with a plain closing delimiter, or the reverse. -/
  | mismatchedDelimiter
  /-- Something else than the closing delimiter after a `~`. -/
  | unexpectedSymbol
deriving DecidableEq, Repr

namespace Problem

/-- The problem in words, without its place. -/
def message : Problem → String
  | unbalancedTag expected actual _ =>
    "closing tag `" ++ actual ++ "` does not match open block `" ++ expected ++ "`"
  | unexpectedCloseTag name => "closing tag `" ++ name ++ "` has no open block"
  | unclosedBlock name => "block `" ++ name ++ "` is never closed"
  | unclosedTag => "tag is not closed"
  | mismatchedDelimiter => "tag opened and closed with different delimiters"
  | unexpectedSymbol => "unexpected content after `~`"

end Problem

structure Diagnostic where
  problem : Problem
  location : Location
deriving DecidableEq, Repr

namespace Diagnostic

/-- The diagnostic in one line. -/
def display (d : Diagnostic) : String :=
  d.problem.message ++ " at offset " ++ toString d.location.start

end Diagnostic

/-! ### Faults -/

/-- The requests that need an open block, or for `openRoot` none. -/
inductive Operation where
  | openRoot
  | startBlock
  | currentBlock
  | endBlock
  | mergeWithParent
  | finish
deriving DecidableEq, Repr

namespace Operation

/-- The name under which a refused request is reported. -/
def name : Operation → String
  | openRoot => "begin"
  | startBlock => "start_block"
  | currentBlock => "current_block"
  | endBlock => "end_block"
  | mergeWithParent => "merge_current_with_parent"
  | finish => "finish"

end Operation

inductive Fault where
  | invalidState (operation : Operation)
  | pushBackOverflow
deriving DecidableEq, Repr

namespace Fault

def message : Fault → String
  | invalidState operation => "invalid parser state: `" ++ operation.name ++ "` needs an open block"
  | pushBackOverflow => "push-back buffer overflow - this is a bug"

end Fault

end BraceTemplate
