import EcmaSyntax.Syntax.Size

/-!
# Walks over a syntax tree

**Rows.**  `Node.rows` lists the nodes of a tree, each before its children and with its
depth.

**Dump.**  `Program.dump` writes one line for each row: two spaces for each level, then the
label.

**Visitors.**  A visitor takes over statements, expressions or all nodes.  What it takes
over it logs, and then it goes on to the children unless it prunes nodes of that kind;
every other node is only passed on the way to its children.  A visitor of all nodes that
starts at a program starts with the children of the program.
-/

namespace EcmaSyntax

namespace Node

/-- The nodes of a tree with their depths, each before its children. -/
def rows (n : Node) (depth : Nat) : List (Nat × Node) :=
  (depth, n) :: n.children.attach.flatMap fun child => rows child.val (depth + 1)
termination_by n.size
decreasing_by exact size_lt_of_mem_children child.property

/-- The line of a node in a dump. -/
def dumpLine (row : Nat × Node) : Text :=
  Text.fill (2 * row.1) ' ' ++ row.2.label ++ ['\n']

/-- The node reached by taking the child with each index in turn. -/
def descend? : List Nat → Node → Option Node
  | [], n => some n
  | i :: path, n => n.children[i]?.bind (descend? path)

end Node

/-- A tree in indented lines, without white space at its end. -/
def Program.dump (p : Program) : Text :=
  Text.trimEnd (((Node.program p).rows 0).flatMap Node.dumpLine)

/-! ## Visitors -/

/-- The part of a visitor that takes a node over. -/
inductive Visit where
  | statement
  | expression
  | node
deriving DecidableEq, Repr

/-- The name of a part of a visitor. -/
def Visit.name : Visit → Text
  | .statement => "stmt".toList
  | .expression => "expr".toList
  | .node => "node".toList

/-- What a visitor takes over, and the kinds whose children it leaves out. -/
structure Visitor where
  takesStatements : Bool
  takesExpressions : Bool
  takesNodes : Bool
  prunes : NodeKind → Bool

namespace Visitor

/-- The part of a visitor that takes over a node, if any does. -/
def visit? (v : Visitor) (n : Node) : Option Visit :=
  if v.takesNodes then some .node
  else
    match n with
    | .statement _ => if v.takesStatements then some .statement else none
    | .expression _ => if v.takesExpressions then some .expression else none
    | _ => none

/-- The log of a visit that starts at a node. -/
def log (v : Visitor) (n : Node) : List (Visit × Node) :=
  let below := n.children.attach.flatMap fun child => log v child.val
  match v.visit? n with
  | some visit => (visit, n) :: if v.prunes n.kind then [] else below
  | none => below
termination_by n.size
decreasing_by exact Node.size_lt_of_mem_children child.property

/-- The log of a visit that starts at a program. -/
def logProgram (v : Visitor) (p : Program) : List (Visit × Node) :=
  (Node.program p).children.flatMap v.log

/-- The line of a log entry. -/
def logLine (entry : Visit × Node) : Text :=
  entry.1.name ++ ' ' :: entry.2.label

end Visitor

end EcmaSyntax
