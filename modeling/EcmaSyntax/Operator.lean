import EcmaSyntax.Token

/-!
# Operators

**Families.**  Unary operators stand before their operand, and increments also after
it.  Binary and logical operators stand between two operands; `InfixOperator` is
either of them.  Assignment operators follow their target.

**Spelling.**  Each family has one function that gives the spelling of an operator and one
that tells which operator of the family a token stands for, if any.

**Strength.**  `InfixOperator.power` orders the operators between two operands.  It is the
power on the left; the power on the right is one more, so all of them associate to the
left.
-/

namespace EcmaSyntax

/-- Operators with one operand. -/
inductive UnaryOperator where
  | delete | void | typeof | increment | decrement | plus | minus | bitNot | logicalNot
deriving DecidableEq, Repr

/-- Operators with two operands that are both evaluated. -/
inductive BinaryOperator where
  | mul | div | mod | add | sub | shiftLeft | shiftRight | unsignedShiftRight
  | lessThan | greaterThan | lessThanEquals | greaterThanEquals | instanceof | isIn
  | equals | notEquals | strictEquals | strictNotEquals | bitAnd | bitXor | bitOr
deriving DecidableEq, Repr

/-- Operators whose right operand may be left alone. -/
inductive LogicalOperator where
  | and | or
deriving DecidableEq, Repr

/-- Operators of an assignment. -/
inductive AssignOperator where
  | assign | mul | div | mod | add | sub | shiftLeft | shiftRight | unsignedShiftRight
  | bitAnd | bitXor | bitOr
deriving DecidableEq, Repr

/-- Operators between two operands. -/
inductive InfixOperator where
  | binary (operator : BinaryOperator)
  | logical (operator : LogicalOperator)
deriving DecidableEq, Repr

/-! ## Spelling -/

/-- The spelling of a unary operator. -/
def UnaryOperator.text : UnaryOperator → Text
  | .delete => "delete".toList
  | .void => "void".toList
  | .typeof => "typeof".toList
  | .increment => "++".toList
  | .decrement => "--".toList
  | .plus => "+".toList
  | .minus => "-".toList
  | .bitNot => "~".toList
  | .logicalNot => "!".toList

/-- The spelling of a binary operator. -/
def BinaryOperator.text : BinaryOperator → Text
  | .mul => "*".toList
  | .div => "/".toList
  | .mod => "%".toList
  | .add => "+".toList
  | .sub => "-".toList
  | .shiftLeft => "<<".toList
  | .shiftRight => ">>".toList
  | .unsignedShiftRight => ">>>".toList
  | .lessThan => "<".toList
  | .greaterThan => ">".toList
  | .lessThanEquals => "<=".toList
  | .greaterThanEquals => ">=".toList
  | .instanceof => "instanceof".toList
  | .isIn => "in".toList
  | .equals => "==".toList
  | .notEquals => "!=".toList
  | .strictEquals => "===".toList
  | .strictNotEquals => "!==".toList
  | .bitAnd => "&".toList
  | .bitXor => "^".toList
  | .bitOr => "|".toList

/-- The spelling of a logical operator. -/
def LogicalOperator.text : LogicalOperator → Text
  | .and => "&&".toList
  | .or => "||".toList

/-- The spelling of an assignment operator. -/
def AssignOperator.text : AssignOperator → Text
  | .assign => "=".toList
  | .mul => "*=".toList
  | .div => "/=".toList
  | .mod => "%=".toList
  | .add => "+=".toList
  | .sub => "-=".toList
  | .shiftLeft => "<<=".toList
  | .shiftRight => ">>=".toList
  | .unsignedShiftRight => ">>>=".toList
  | .bitAnd => "&=".toList
  | .bitXor => "^=".toList
  | .bitOr => "|=".toList

/-! ## The operators of tokens -/

namespace TokenKind

/-- The operator of a token that stands before an operand. -/
def prefixOperator? : TokenKind → Option UnaryOperator
  | .kwDelete => some .delete
  | .kwVoid => some .void
  | .kwTypeof => some .typeof
  | .increment => some .increment
  | .restrictedIncrement => some .increment
  | .decrement => some .decrement
  | .restrictedDecrement => some .decrement
  | .plus => some .plus
  | .minus => some .minus
  | .tilde => some .bitNot
  | .logicalNot => some .logicalNot
  | _ => none

/-- Whether a token can stand before an operand as its operator. -/
def isPrefixOperator (kind : TokenKind) : Bool :=
  kind.prefixOperator?.isSome

/-- The operator of a token that stands after its operand, on the same line. -/
def postfixOperator? : TokenKind → Option UnaryOperator
  | .increment => some .increment
  | .decrement => some .decrement
  | _ => none

/-- The operator of a token that stands between two operands. -/
def infixOperator? : TokenKind → Option InfixOperator
  | .logicalAnd => some (.logical .and)
  | .logicalOr => some (.logical .or)
  | .asterisk => some (.binary .mul)
  | .slash => some (.binary .div)
  | .percent => some (.binary .mod)
  | .plus => some (.binary .add)
  | .minus => some (.binary .sub)
  | .shiftLeft => some (.binary .shiftLeft)
  | .shiftRight => some (.binary .shiftRight)
  | .unsignedShiftRight => some (.binary .unsignedShiftRight)
  | .lessThan => some (.binary .lessThan)
  | .greaterThan => some (.binary .greaterThan)
  | .lessThanEquals => some (.binary .lessThanEquals)
  | .greaterThanEquals => some (.binary .greaterThanEquals)
  | .kwInstanceof => some (.binary .instanceof)
  | .kwIn => some (.binary .isIn)
  | .equalsEquals => some (.binary .equals)
  | .notEquals => some (.binary .notEquals)
  | .strictEquals => some (.binary .strictEquals)
  | .strictNotEquals => some (.binary .strictNotEquals)
  | .ampersand => some (.binary .bitAnd)
  | .caret => some (.binary .bitXor)
  | .pipe => some (.binary .bitOr)
  | _ => none

/-- The operator of a token that follows the target of an assignment. -/
def assignOperator? : TokenKind → Option AssignOperator
  | .equals => some .assign
  | .asteriskEquals => some .mul
  | .slashEquals => some .div
  | .percentEquals => some .mod
  | .plusEquals => some .add
  | .minusEquals => some .sub
  | .shiftLeftEquals => some .shiftLeft
  | .shiftRightEquals => some .shiftRight
  | .unsignedShiftRightEquals => some .unsignedShiftRight
  | .ampersandEquals => some .bitAnd
  | .caretEquals => some .bitXor
  | .pipeEquals => some .bitOr
  | _ => none

end TokenKind

/-! ## Strength -/

namespace InfixOperator

/-- How strongly an operator holds the operand on its left. -/
def power : InfixOperator → Nat
  | logical .or => 2
  | logical .and => 4
  | binary .bitOr => 6
  | binary .bitXor => 8
  | binary .bitAnd => 10
  | binary .equals => 12
  | binary .notEquals => 12
  | binary .strictEquals => 12
  | binary .strictNotEquals => 12
  | binary .lessThan => 14
  | binary .greaterThan => 14
  | binary .lessThanEquals => 14
  | binary .greaterThanEquals => 14
  | binary .instanceof => 14
  | binary .isIn => 14
  | binary .shiftLeft => 16
  | binary .shiftRight => 16
  | binary .unsignedShiftRight => 16
  | binary .add => 18
  | binary .sub => 18
  | binary .mul => 20
  | binary .div => 20
  | binary .mod => 20

/-- How strongly an operator holds the operand on its right. -/
def rightPower (operator : InfixOperator) : Nat := operator.power + 1

end InfixOperator

end EcmaSyntax
