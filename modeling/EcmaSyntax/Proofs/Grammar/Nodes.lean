import EcmaSyntax.Proofs.Grammar
import EcmaSyntax.Syntax.Walk

/-!
# The nodes of what the grammar derives

A part of the grammar may start from trees that were derived before, and yields trees in which
these are found again.  `Nonterminal.leadNodes` and `Nonterminal.nodes` give both as nodes of a
walk, so that a property of the whole tree can be followed through a derivation.
-/

namespace EcmaSyntax

theorem forall_mem_none {α : Type} {p : α → Prop} : ∀ x ∈ (none : Option α), p x := by
  rintro x ⟨⟩

theorem forall_mem_some {α : Type} {p : α → Prop} {a : α} (h : p a) : ∀ x ∈ some a, p x := by
  rintro x ⟨⟩
  exact h

namespace Parser

/-- The nodes of a loop's initial part. -/
def initNodes : Option ForInit → List Node
  | some (.declared ds) => ds.map .declarator
  | some (.expression e) => [.expression e]
  | none => []

/-- The node of an enumerating loop's target. -/
def targetNode : ForTarget → Node
  | .declared d => .declarator d
  | .expression e => .expression e

/-- The nodes that a part of the grammar starts from. -/
def Nonterminal.leadNodes : Nonterminal → List Node
  | .sequenceRest first _ => [.expression first]
  | .memberTail base => [.expression base]
  | .callTail base => [.expression base]
  | .postfixed operand => [.expression operand]
  | .binary left _ _ => [.expression left]
  | .conditionalRest test _ => [.expression test]
  | .operatorsRest operand _ => [.expression operand]
  | .assignmentRest left _ => [.expression left]
  | .forRest init => initNodes init
  | .forInRest target => [targetNode target]
  | _ => []

/-- The node that a rule yields. -/
def ruleNode : (r : Rule) → r.Tree → Node
  | .statement, s => .statement s
  | .declaration, s => .statement s
  | .assignment _, e => .expression e
  | .operand _, e => .expression e
  | .construction, e => .expression e

/-- The nodes that a part of the grammar yields. -/
def Nonterminal.nodes : (n : Nonterminal) → n.Tree → List Node
  | .rule r, tree => [ruleNode r tree]
  | .body r, tree => [ruleNode r tree]
  | .sequenceRest _ _, e => [.expression e]
  | .operands _, es => es.map .expression
  | .expression _, e => [.expression e]
  | .parenthesized, e => [.expression e]
  | .arguments, es => es.map .expression
  | .argumentsRest, es => es.map .expression
  | .element, s => [.statement s]
  | .elements _, ss => ss.map .statement
  | .blockBody, ss => ss.map .statement
  | .function _, f => [.statement (.function f)]
  | .parameters, _ => []
  | .parametersRest, _ => []
  | .arrayElements, es => [.expression (.array es)]
  | .property, p => [.property p]
  | .members, ps => ps.map .property
  | .primary _, e => [.expression e]
  | .memberTail _, e => [.expression e]
  | .callTail _, e => [.expression e]
  | .chainHead _, e => [.expression e]
  | .leftHandSide _, e => [.expression e]
  | .postfixed _, e => [.expression e]
  | .binary _ _ _, e => [.expression e]
  | .conditionalRest _ _, e => [.expression e]
  | .operatorsRest _ _, e => [.expression e]
  | .assignmentRest _ _, e => [.expression e]
  | .declarator _, d => [.declarator d]
  | .declarators _, ds => ds.map .declarator
  | .declaratorsRest _, ds => ds.map .declarator
  | .terminator, _ => []
  | .expressionBefore _, e => Node.ofOption e
  | .forHeader, s => [.statement s]
  | .forRest _, s => [.statement s]
  | .forInRest _, s => [.statement s]
  | .clauses _, cs => cs.map .clause
  | .handler, c => (c.map Node.handler).toList
  | .finalizer, s => (s.map Node.statement).toList

end Parser
end EcmaSyntax
