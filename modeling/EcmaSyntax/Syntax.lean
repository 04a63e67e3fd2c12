import EcmaSyntax.Binary64
import EcmaSyntax.Operator

/-!
# Syntax trees

A program is a list of statements.  Expressions and statements are mutually
recursive, because a function holds a body of statements.  Comments between
statements are members of the statement list they stand in.  Literals hold their
values, not their spelling; parentheses leave no trace.
-/

namespace EcmaSyntax

/-- The name of a property in an object literal. -/
inductive PropertyKey where
  | identifier (name : Text)
  | string (value : Text)
  | number (value : Binary64)
deriving DecidableEq, Repr

mutual

/-- Expressions.  `none` among the elements of an array is a hole. -/
inductive Expression where
  | this
  | identifier (name : Text)
  | null
  | boolean (value : Bool)
  | number (value : Binary64)
  | string (value : Text)
  | regex (pattern flags : Text)
  | array (elements : List (Option Expression))
  | object (properties : List Property)
  | function (definition : Function)
  | unary (operator : UnaryOperator) (operand : Expression) (isPostfix : Bool)
  | binary (left : Expression) (operator : BinaryOperator) (right : Expression)
  | logical (left : Expression) (operator : LogicalOperator) (right : Expression)
  | assign (target : Expression) (operator : AssignOperator) (value : Expression)
  | conditional (test consequent alternate : Expression)
  | dot (base : Expression) (property : Text)
  | bracket (base index : Expression)
  | call (callee : Expression) (arguments : List Expression)
  | construct (callee : Expression) (arguments : List Expression)
  | sequence (operands : List Expression)

/-- Statements, with the comments that stand between them. -/
inductive Statement where
  | block (body : List Statement)
  | declare (declarators : List Declarator)
  | empty
  | expression (value : Expression)
  | ifElse (test : Expression) (consequent : Statement) (alternate : Option Statement)
  | doWhile (body : Statement) (test : Expression)
  | whileDo (test : Expression) (body : Statement)
  | forLoop (init : Option ForInit) (test update : Option Expression) (body : Statement)
  | forIn (target : ForTarget) (object : Expression) (body : Statement)
  | continueTo (label : Option Text)
  | breakTo (label : Option Text)
  | returnWith (value : Option Expression)
  | withObject (object : Expression) (body : Statement)
  | switch (discriminant : Expression) (clauses : List SwitchClause)
  | labelled (label : Text) (body : Statement)
  | throwWith (value : Expression)
  | tryCatch (guarded : Statement) (handler : Option CatchClause) (finalizer : Option Statement)
  | debugger
  | function (definition : Function)
  | comment (content : Comment)

/-- Members of an object literal. -/
inductive Property where
  | init (key : PropertyKey) (value : Expression)
  | getter (key : PropertyKey) (body : List Statement)
  | setter (key : PropertyKey) (param : Text) (body : List Statement)

/-- The variables or the expression that a loop header starts with. -/
inductive ForInit where
  | declared (declarators : List Declarator)
  | expression (value : Expression)

/-- What an enumerating loop assigns to. -/
inductive ForTarget where
  | declared (declarator : Declarator)
  | expression (value : Expression)

/-- A variable and its initial value. -/
structure Declarator where
  name : Text
  initializer : Option Expression

/-- A clause of a switch; the default clause has no test. -/
structure SwitchClause where
  test : Option Expression
  body : List Statement

/-- The part of a statement that handles an exception. -/
structure CatchClause where
  param : Text
  body : List Statement

/-- A function; one that is declared has a name. -/
structure Function where
  name : Option Text
  params : List Text
  body : List Statement

end

/-- A program: its statements, function declarations and comments in the order of the source. -/
structure Program where
  body : List Statement

/-- The node of an operator between two operands. -/
def InfixOperator.apply (operator : InfixOperator) (left right : Expression) : Expression :=
  match operator with
  | .binary op => .binary left op right
  | .logical op => .logical left op right

end EcmaSyntax
