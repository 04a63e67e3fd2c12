import EcmaSyntax.Proofs.Grammar

/-!
# Printing programs

**Input.**  A program, and a numeral for each number in it.

**Output.**  `Program.print` writes the tokens of the program with single spaces between them.
Each statement that takes a terminator ends in a semicolon, strings are escaped, and an
expression stands in parentheses only where the grammar asks for them.

**Slots.**  Whether an expression needs parentheses depends on the slot that it stands in: on
how strongly the slot asks it to hold together, on whether `in` is an operator there, and on
whether the slot is the beginning of a statement.

**Items.**  A program is first printed as a list of items, the tokens as a parser takes them, and
the text is made of the words of the items.
-/

namespace EcmaSyntax

open EcmaSyntax.Parser (Item)

/-! ## Slots -/

/-- The slots of the grammar that an expression may stand in. -/
inductive Slot where
  /-- Anything, a sequence too. -/
  | expression
  /-- Anything but a sequence. -/
  | assignment
  /-- An operand of an operator between two operands, held with some power. -/
  | infixOperand (power : Nat)
  /-- The operand of a prefix operator. -/
  | operand
  /-- The target of an assignment, the operand of an increment after it, or a callee. -/
  | leftHandSide
  /-- What `new` constructs: no call outside parentheses. -/
  | member
deriving DecidableEq, Repr

namespace Slot

/-- How strongly an expression has to hold together in a slot. -/
def strength : Slot → Nat
  | expression => 0
  | assignment => 1
  | infixOperand power => power + 2
  | operand => 24
  | leftHandSide => 25
  | member => 26

/-- The slot of the expression that an access starts from. -/
def base : Slot → Slot
  | member => member
  | _ => leftHandSide

end Slot

/-- How strongly an expression holds together. -/
def Expression.strength : Expression → Nat
  | .sequence _ => Slot.expression.strength
  | .assign _ _ _ => Slot.assignment.strength
  | .conditional _ _ _ => Slot.assignment.strength
  | .binary _ op _ => (Slot.infixOperand (InfixOperator.binary op).power).strength
  | .logical _ op _ => (Slot.infixOperand (InfixOperator.logical op).power).strength
  | .unary _ _ _ => Slot.operand.strength
  | .call _ _ => Slot.leftHandSide.strength
  | _ => Slot.member.strength

/-- Whether an expression is a test with the operator `in`. -/
def Expression.isMembership : Expression → Bool
  | .binary _ .isIn _ => true
  | _ => false

/-- Whether an expression starts with a brace or `function` of its own. -/
def Expression.startsLikeStatement : Expression → Bool
  | .object _ => true
  | .function _ => true
  | _ => false

/-- Whether an expression needs parentheses in a slot. -/
def Expression.needsParentheses (g : Grammar) (slot : Slot) (e : Expression) : Bool :=
  e.strength < slot.strength || (g = .noIn && e.isMembership)
    || (g = .noBrace && e.startsLikeStatement)

/-! ## Tokens -/

/-- The kind of the token of an operator before or after its operand. -/
def UnaryOperator.kind : UnaryOperator → TokenKind
  | .delete => .kwDelete
  | .void => .kwVoid
  | .typeof => .kwTypeof
  | .increment => .increment
  | .decrement => .decrement
  | .plus => .plus
  | .minus => .minus
  | .bitNot => .tilde
  | .logicalNot => .logicalNot

/-- The kind of the token of an operator between two operands. -/
def InfixOperator.kind : InfixOperator → TokenKind
  | logical .and => .logicalAnd
  | logical .or => .logicalOr
  | binary .mul => .asterisk
  | binary .div => .slash
  | binary .mod => .percent
  | binary .add => .plus
  | binary .sub => .minus
  | binary .shiftLeft => .shiftLeft
  | binary .shiftRight => .shiftRight
  | binary .unsignedShiftRight => .unsignedShiftRight
  | binary .lessThan => .lessThan
  | binary .greaterThan => .greaterThan
  | binary .lessThanEquals => .lessThanEquals
  | binary .greaterThanEquals => .greaterThanEquals
  | binary .instanceof => .kwInstanceof
  | binary .isIn => .kwIn
  | binary .equals => .equalsEquals
  | binary .notEquals => .notEquals
  | binary .strictEquals => .strictEquals
  | binary .strictNotEquals => .strictNotEquals
  | binary .bitAnd => .ampersand
  | binary .bitXor => .caret
  | binary .bitOr => .pipe

/-- The kind of the token of an assignment. -/
def AssignOperator.kind : AssignOperator → TokenKind
  | .assign => .equals
  | .mul => .asteriskEquals
  | .div => .slashEquals
  | .mod => .percentEquals
  | .add => .plusEquals
  | .sub => .minusEquals
  | .shiftLeft => .shiftLeftEquals
  | .shiftRight => .shiftRightEquals
  | .unsignedShiftRight => .unsignedShiftRightEquals
  | .bitAnd => .ampersandEquals
  | .bitXor => .caretEquals
  | .bitOr => .pipeEquals

/-- A character of a string literal: quotes, backslashes and line terminators are escaped. -/
def escapeCharacter (c : Char) : Text :=
  if c = '"' then "\\\"".toList
  else if c = '\\' then "\\\\".toList
  else if c = '\n' then "\\n".toList
  else if c = '\r' then "\\r".toList
  else if c = '\u2028' then "\\u2028".toList
  else if c = '\u2029' then "\\u2029".toList
  else [c]

/-- The literal of a string. -/
def stringLiteral (value : Text) : Text :=
  '"' :: value.flatMap escapeCharacter ++ ['"']

namespace Printer

/-- A token with one spelling. -/
def sign (k : TokenKind) : Item := .taken k k.display

/-- The name of a variable, a parameter, a function or a label. -/
def name (text : Text) : Item := .taken .identifier text

/-- The semicolon that ends a statement. -/
def ending : Item := .ended .semicolon

/-- The kind of the token that a regular expression starts with, before it is read again. -/
def regexOpener (pattern : Text) : TokenKind :=
  if pattern.head? = some '=' then .slashEquals else .slash

/-- A regular expression. -/
def regex (pattern flags : Text) : Item :=
  .literal (regexOpener pattern) ('/' :: pattern ++ '/' :: flags)

/-- Items in parentheses. -/
def parenthesized (its : List Item) : List Item :=
  sign .openParen :: (its ++ [sign .closeParen])

/-- Items in brackets. -/
def bracketed (its : List Item) : List Item :=
  sign .openBracket :: (its ++ [sign .closeBracket])

/-- Items in braces. -/
def braced (its : List Item) : List Item :=
  sign .openBrace :: (its ++ [sign .closeBrace])

/-- The names of parameters. -/
def parameters : List Text → List Item
  | [] => []
  | p :: ps => name p :: ps.flatMap fun p => [sign .comma, name p]

/-- A comma, unless nothing follows. -/
def commaBefore {α : Type} (rest : List α) : List Item :=
  if rest.isEmpty then [] else [sign .comma]

/-- An expression in a slot, in parentheses if it needs them. -/
def enclose (e : Expression) (g : Grammar) (slot : Slot) (its : Grammar → List Item) : List Item :=
  if e.needsParentheses g slot then parenthesized (its .normal) else its g

/-- Two operands of an operator. -/
def operation (op : InfixOperator) (left right : Grammar → Slot → List Item) (g : Grammar) :
    List Item :=
  left g (.infixOperand op.power) ++ sign op.kind :: right g.operand (.infixOperand op.rightPower)

variable (numeral : Binary64 → Text)

/-- The name of a property in an object literal. -/
def key : PropertyKey → Item
  | .identifier name => .taken (wordKind name) name
  | .string value => .taken .string (stringLiteral value)
  | .number value => .taken .number (numeral value)

mutual

/-- The items of an expression in a slot. -/
def expression : Expression → Grammar → Slot → List Item
  | .this, _, _ => [sign .kwThis]
  | .identifier text, _, _ => [name text]
  | .null, _, _ => [sign .kwNull]
  | .boolean value, _, _ => [sign (if value then .kwTrue else .kwFalse)]
  | .number value, _, _ => [.taken .number (numeral value)]
  | .string value, _, _ => [.taken .string (stringLiteral value)]
  | .regex pattern flags, _, _ => [regex pattern flags]
  | .array es, _, _ => bracketed (elements es)
  | .object ps, g, slot => enclose (.object ps) g slot fun _ => braced (properties ps)
  | .function f, g, slot => enclose (.function f) g slot fun _ => function f
  | .unary op e false, g, slot =>
      enclose (.unary op e false) g slot fun g => sign op.kind :: expression e g.operand .operand
  | .unary op e true, g, slot =>
      enclose (.unary op e true) g slot fun g => expression e g .leftHandSide ++ [sign op.kind]
  | .binary left op right, g, slot =>
      enclose (.binary left op right) g slot
        (operation (.binary op) (expression left) (expression right))
  | .logical left op right, g, slot =>
      enclose (.logical left op right) g slot
        (operation (.logical op) (expression left) (expression right))
  | .assign target op value, g, slot =>
      enclose (.assign target op value) g slot fun g =>
        expression target g .leftHandSide
          ++ sign op.kind :: expression value g.operand .assignment
  | .conditional test consequent alternate, g, slot =>
      enclose (.conditional test consequent alternate) g slot fun g =>
        expression test g (.infixOperand 0)
          ++ sign .question :: (expression consequent .normal .assignment
            ++ sign .colon :: expression alternate g.operand .assignment)
  | .dot e text, g, slot => expression e g slot.base ++ [.member (wordKind text) text]
  | .bracket e index, g, slot =>
      expression e g slot.base ++ bracketed (expression index .normal .expression)
  | .call callee args, g, slot =>
      enclose (.call callee args) g slot fun g =>
        expression callee g .leftHandSide ++ parenthesized (expressions args .normal)
  | .construct callee args, _, _ =>
      sign .kwNew :: (expression callee .normal .member
        ++ parenthesized (expressions args .normal))
  | .sequence es, g, slot => enclose (.sequence es) g slot fun g => expressions es g

/-- The items of expressions with commas between them. -/
def expressions : List Expression → Grammar → List Item
  | [], _ => []
  | e :: es, g => expression e g .assignment ++ moreExpressions es g.operand

/-- The items of expressions, each after a comma. -/
def moreExpressions : List Expression → Grammar → List Item
  | [], _ => []
  | e :: es, g => sign .comma :: (expression e g .assignment ++ moreExpressions es g)

/-- The items of the elements of an array.  A hole is a comma. -/
def elements : List (Option Expression) → List Item
  | [] => []
  | none :: es => sign .comma :: elements es
  | some e :: es => expression e .normal .assignment ++ (commaBefore es ++ elements es)

/-- The items of the members of an object literal. -/
def properties : List Property → List Item
  | [] => []
  | p :: ps => property p ++ (commaBefore ps ++ properties ps)

/-- The items of a member of an object literal. -/
def property : Property → List Item
  | .init k value =>
      key numeral k :: sign .colon :: expression value .normal .assignment
  | .getter k body =>
      name "get".toList :: key numeral k :: (parenthesized [] ++ braced (statements body))
  | .setter k param body =>
      name "set".toList :: key numeral k
        :: (parenthesized [name param] ++ braced (statements body))

/-- The items of a function. -/
def function : Function → List Item
  | ⟨text, params, body⟩ =>
      sign .kwFunction :: (text.toList.map name
        ++ (parenthesized (parameters params) ++ braced (statements body)))

/-- The items of a statement. -/
def statement : Statement → List Item
  | .block body => braced (statements body)
  | .declare ds => sign .kwVar :: (declarators ds .normal ++ [ending])
  | .empty => [sign .semicolon]
  | .expression e => expression e .noBrace .expression ++ [ending]
  | .ifElse test consequent alternate =>
      sign .kwIf :: (parenthesized (expression test .normal .expression)
        ++ (statement consequent ++ statementAfter .kwElse alternate))
  | .doWhile body test =>
      sign .kwDo :: (statement body ++ sign .kwWhile
        :: (parenthesized (expression test .normal .expression) ++ [ending]))
  | .whileDo test body =>
      sign .kwWhile :: (parenthesized (expression test .normal .expression) ++ statement body)
  | .forLoop init test update body =>
      sign .kwFor :: (parenthesized (initial init ++ sign .semicolon
        :: (optional test ++ sign .semicolon :: optional update)) ++ statement body)
  | .forIn target object body =>
      sign .kwFor :: (parenthesized (forTarget target ++ sign .kwIn
        :: expression object .normal .expression) ++ statement body)
  | .continueTo label => sign .kwContinue :: (label.toList.map name ++ [ending])
  | .breakTo label => sign .kwBreak :: (label.toList.map name ++ [ending])
  | .returnWith value => sign .kwReturn :: (optional value ++ [ending])
  | .withObject object body =>
      sign .kwWith :: (parenthesized (expression object .normal .expression) ++ statement body)
  | .switch discriminant cs =>
      sign .kwSwitch :: (parenthesized (expression discriminant .normal .expression)
        ++ braced (clauses cs))
  | .labelled label body => name label :: sign .colon :: statement body
  | .throwWith value => sign .kwThrow :: (expression value .normal .expression ++ [ending])
  | .tryCatch guarded h finalizer =>
      sign .kwTry :: (statement guarded ++ (handler h ++ statementAfter .kwFinally finalizer))
  | .debugger => [sign .kwDebugger, ending]
  | .function f => function f
  | .comment _ => []

/-- The items of a list of statements.  Comments might be claimed in front of each and at the
end, but there are none. -/
def statements : List Statement → List Item
  | [] => [.comments []]
  | s :: body => .comments [] :: (statement s ++ statements body)

/-- The items of declarators with commas between them. -/
def declarators : List Declarator → Grammar → List Item
  | [], _ => []
  | d :: ds, g => declarator d g ++ moreDeclarators ds g

/-- The items of declarators, each after a comma. -/
def moreDeclarators : List Declarator → Grammar → List Item
  | [], _ => []
  | d :: ds, g => sign .comma :: (declarator d g ++ moreDeclarators ds g)

/-- The items of a declarator. -/
def declarator : Declarator → Grammar → List Item
  | ⟨text, none⟩, _ => [name text]
  | ⟨text, some value⟩, g => name text :: sign .equals :: expression value g .assignment

/-- The items of the clauses of a switch. -/
def clauses : List SwitchClause → List Item
  | [] => []
  | c :: cs => clause c ++ clauses cs

/-- The items of a clause. -/
def clause : SwitchClause → List Item
  | ⟨none, body⟩ => sign .kwDefault :: sign .colon :: statements body
  | ⟨some test, body⟩ =>
      sign .kwCase :: (expression test .normal .expression
        ++ sign .colon :: statements body)

/-- The items of an optional handler. -/
def handler : Option CatchClause → List Item
  | none => []
  | some ⟨param, body⟩ =>
      sign .kwCatch :: (parenthesized [name param] ++ braced (statements body))

/-- The items of an optional statement after a keyword. -/
def statementAfter (keyword : TokenKind) : Option Statement → List Item
  | none => []
  | some s => sign keyword :: statement s

/-- The items of an optional expression. -/
def optional : Option Expression → List Item
  | none => []
  | some e => expression e .normal .expression

/-- The items of an optional initial part of a loop. -/
def initial : Option ForInit → List Item
  | none => []
  | some (.declared ds) => sign .kwVar :: declarators ds .noIn
  | some (.expression e) => expression e .noIn .expression

/-- The items of the target of an enumerating loop. -/
def forTarget : ForTarget → List Item
  | .declared d => sign .kwVar :: declarator d .noIn
  | .expression e => expression e .noIn .leftHandSide

end

attribute [simp] expression expressions moreExpressions elements properties property function
  statement statements declarators moreDeclarators declarator clauses clause handler
  statementAfter optional initial forTarget

end Printer

/-! ## Text -/

/-- The words of an item. -/
def Parser.Item.words : Item → List Text
  | .taken _ text => [text]
  | .member _ text => [TokenKind.dot.display, text]
  | .literal _ text => [text]
  | .ended k => [k.display]
  | .inserted _ => []
  | .comments _ => []

/-- The text of a program, with single spaces between its tokens. -/
def Program.print (numeral : Binary64 → Text) (p : Program) : Text :=
  [' '].intercalate ((Printer.statements numeral p.body).flatMap Item.words)

end EcmaSyntax
