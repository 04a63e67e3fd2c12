import EcmaSyntax.Binary64.Decimal
import EcmaSyntax.Syntax
import EcmaSyntax.Text.Quoted

/-!
# Nodes of a syntax tree

**View.**  `Node` is one type for everything in a tree that is not a name, an operator or
a literal value.  A node has a kind, a label and children, which are enough to walk any
tree without a look at its constructors.

**Order.**  Children come in the order of the source, so a walk that visits a node before
its children visits the nodes of a tree in the order in which they begin.
-/

namespace EcmaSyntax

/-- What a node is. -/
inductive NodeKind where
  | program
  | block | var | empty | exprStmt | ifElse | doWhile | whileDo | forLoop | forIn
  | continueTo | breakTo | returnWith | withObject | switch | labelled | throwWith
  | tryCatch | debugger | fnDeclaration | comment
  | this | identifier | nullLit | boolLit | numberLit | stringLit | regexLit | arrayLit
  | elision | objectLit | function | unary | binary | logical | assign | conditional
  | dotAccess | bracketAccess | call | construct | sequence
  | property | varDeclarator | switchCase | catchClause
deriving DecidableEq, Repr

/-- The name of a kind. -/
def NodeKind.name : NodeKind → Text
  | .program => "Program".toList
  | .block => "Block".toList
  | .var => "Var".toList
  | .empty => "Empty".toList
  | .exprStmt => "ExprStmt".toList
  | .ifElse => "If".toList
  | .doWhile => "DoWhile".toList
  | .whileDo => "While".toList
  | .forLoop => "For".toList
  | .forIn => "ForIn".toList
  | .continueTo => "Continue".toList
  | .breakTo => "Break".toList
  | .returnWith => "Return".toList
  | .withObject => "With".toList
  | .switch => "Switch".toList
  | .labelled => "Labelled".toList
  | .throwWith => "Throw".toList
  | .tryCatch => "Try".toList
  | .debugger => "Debugger".toList
  | .fnDeclaration => "FnDeclaration".toList
  | .comment => "Comment".toList
  | .this => "This".toList
  | .identifier => "Identifier".toList
  | .nullLit => "NullLit".toList
  | .boolLit => "BoolLit".toList
  | .numberLit => "NumberLit".toList
  | .stringLit => "StringLit".toList
  | .regexLit => "RegexLit".toList
  | .arrayLit => "ArrayLit".toList
  | .elision => "Elision".toList
  | .objectLit => "ObjectLit".toList
  | .function => "Function".toList
  | .unary => "Unary".toList
  | .binary => "Binary".toList
  | .logical => "Logical".toList
  | .assign => "Assign".toList
  | .conditional => "Conditional".toList
  | .dotAccess => "DotAccess".toList
  | .bracketAccess => "BracketAccess".toList
  | .call => "Call".toList
  | .construct => "New".toList
  | .sequence => "Sequence".toList
  | .property => "Property".toList
  | .varDeclarator => "VarDeclarator".toList
  | .switchCase => "SwitchCase".toList
  | .catchClause => "CatchClause".toList

/-- A node of a syntax tree.  A hole in an array is a node without content. -/
inductive Node where
  | program (p : Program)
  | statement (s : Statement)
  | expression (e : Expression)
  | elision
  | property (p : Property)
  | declarator (d : Declarator)
  | clause (c : SwitchClause)
  | handler (c : CatchClause)

/-! ## Kinds -/

/-- The kind of a statement. -/
def Statement.kind : Statement → NodeKind
  | block _ => .block
  | declare _ => .var
  | empty => .empty
  | expression _ => .exprStmt
  | ifElse _ _ _ => .ifElse
  | doWhile _ _ => .doWhile
  | whileDo _ _ => .whileDo
  | forLoop _ _ _ _ => .forLoop
  | forIn _ _ _ => .forIn
  | continueTo _ => .continueTo
  | breakTo _ => .breakTo
  | returnWith _ => .returnWith
  | withObject _ _ => .withObject
  | switch _ _ => .switch
  | labelled _ _ => .labelled
  | throwWith _ => .throwWith
  | tryCatch _ _ _ => .tryCatch
  | debugger => .debugger
  | function _ => .fnDeclaration
  | comment _ => .comment

/-- The kind of an expression. -/
def Expression.kind : Expression → NodeKind
  | this => .this
  | identifier _ => .identifier
  | null => .nullLit
  | boolean _ => .boolLit
  | number _ => .numberLit
  | string _ => .stringLit
  | regex _ _ => .regexLit
  | array _ => .arrayLit
  | object _ => .objectLit
  | function _ => .function
  | unary _ _ _ => .unary
  | binary _ _ _ => .binary
  | logical _ _ _ => .logical
  | assign _ _ _ => .assign
  | conditional _ _ _ => .conditional
  | dot _ _ => .dotAccess
  | bracket _ _ => .bracketAccess
  | call _ _ => .call
  | construct _ _ => .construct
  | sequence _ => .sequence

/-- The kind of a node. -/
def Node.kind : Node → NodeKind
  | program _ => .program
  | statement s => s.kind
  | expression e => e.kind
  | elision => .elision
  | property _ => .property
  | declarator _ => .varDeclarator
  | clause _ => .switchCase
  | handler _ => .catchClause

/-! ## Children -/

/-- The nodes of an optional expression. -/
def Node.ofOption (e : Option Expression) : List Node :=
  (e.map Node.expression).toList

/-- The children of a statement. -/
def Statement.children : Statement → List Node
  | block body => body.map .statement
  | declare ds => ds.map .declarator
  | empty => []
  | expression e => [.expression e]
  | ifElse test consequent alternate =>
      .expression test :: .statement consequent :: (alternate.map Node.statement).toList
  | doWhile body test => [.statement body, .expression test]
  | whileDo test body => [.expression test, .statement body]
  | forLoop init test update body =>
      (match init with
        | some (.declared ds) => ds.map .declarator
        | some (.expression e) => [.expression e]
        | none => [])
        ++ Node.ofOption test ++ Node.ofOption update ++ [.statement body]
  | forIn target object body =>
      [match target with
        | .declared d => .declarator d
        | .expression e => .expression e,
        .expression object, .statement body]
  | continueTo _ => []
  | breakTo _ => []
  | returnWith value => Node.ofOption value
  | withObject object body => [.expression object, .statement body]
  | switch discriminant clauses => .expression discriminant :: clauses.map .clause
  | labelled _ body => [.statement body]
  | throwWith value => [.expression value]
  | tryCatch guarded handler finalizer =>
      .statement guarded :: (handler.map Node.handler).toList
        ++ (finalizer.map Node.statement).toList
  | debugger => []
  | function f => f.body.map .statement
  | comment _ => []

/-- The children of an expression. -/
def Expression.children : Expression → List Node
  | this => []
  | identifier _ => []
  | null => []
  | boolean _ => []
  | number _ => []
  | string _ => []
  | regex _ _ => []
  | array elements =>
      elements.map fun element =>
        match element with
        | some e => .expression e
        | none => .elision
  | object properties => properties.map .property
  | function f => f.body.map .statement
  | unary _ operand _ => [.expression operand]
  | binary left _ right => [.expression left, .expression right]
  | logical left _ right => [.expression left, .expression right]
  | assign target _ value => [.expression target, .expression value]
  | conditional test consequent alternate =>
      [.expression test, .expression consequent, .expression alternate]
  | dot base _ => [.expression base]
  | bracket base index => [.expression base, .expression index]
  | call callee args => .expression callee :: args.map .expression
  | construct callee args => .expression callee :: args.map .expression
  | sequence operands => operands.map .expression

/-- The children of a node, in the order of the source. -/
def Node.children : Node → List Node
  | program p => p.body.map .statement
  | statement s => s.children
  | expression e => e.children
  | elision => []
  | property (.init _ value) => [.expression value]
  | property (.getter _ body) => body.map .statement
  | property (.setter _ _ body) => body.map .statement
  | declarator d => ofOption d.initializer
  | clause c => ofOption c.test ++ c.body.map .statement
  | handler c => c.body.map .statement

/-! ## Labels -/

/-- The name of a member of an object literal. -/
def Property.key : Property → PropertyKey
  | init key _ => key
  | getter key _ => key
  | setter key _ _ => key

/-- The written form of a property name. -/
def PropertyKey.text : PropertyKey → Text
  | identifier name => name
  | string value => value.quote
  | number value => value.text

/-- The name and the parameters of a function. -/
def Function.signature (f : Function) : Text :=
  f.name.getD "<anonymous>".toList ++ '(' :: (", ".toList).intercalate f.params ++ [')']

/-- The names and values that belong to a statement itself. -/
def Statement.detail : Statement → Text
  | continueTo label => label.getD []
  | breakTo label => label.getD []
  | labelled label _ => label
  | function f => f.signature
  | comment c => c.kind.name ++ ' ' :: c.text.quote
  | _ => []

/-- The names, operators and values that belong to an expression itself. -/
def Expression.detail : Expression → Text
  | identifier name => name
  | boolean value => if value then "true".toList else "false".toList
  | number value => value.text
  | string value => value.quote
  | regex pattern flags => '/' :: pattern ++ '/' :: flags
  | function f => f.signature
  | unary operator _ isPostfix => operator.text ++ if isPostfix then " (postfix)".toList else []
  | binary _ operator _ => operator.text
  | logical _ operator _ => operator.text
  | assign _ operator _ => operator.text
  | dot _ property => '.' :: property
  | _ => []

/-- The names and values that belong to a node itself. -/
def Node.detail : Node → Text
  | program _ => []
  | statement s => s.detail
  | expression e => e.detail
  | elision => []
  | property (.init key _) => key.text
  | property (.getter key _) => "get ".toList ++ key.text
  | property (.setter key param _) => "set ".toList ++ key.text ++ '(' :: param ++ [')']
  | declarator d => d.name
  | clause c => if c.test.isSome then "case".toList else "default".toList
  | handler c => c.param

/-- The label of a node: its kind, and its detail if there is any. -/
def Node.label (n : Node) : Text :=
  if n.detail = [] then n.kind.name else n.kind.name ++ ' ' :: n.detail

end EcmaSyntax
