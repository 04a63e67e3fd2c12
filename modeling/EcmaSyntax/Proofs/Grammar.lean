import EcmaSyntax.Proofs.Transcript

/-!
# The grammar

**Input.**  A list of items, the room for open rules, and the kind of the token that
follows the list.

**Derivations.**  `Derives last room n input tree rest` says that the nonterminal `n` takes
the items of `input` before `rest` and yields `tree`.  There is one nonterminal for each
part of the grammar that recurs, and one constructor for each way to expand it.  An
expansion that stops, or that has to be told from another one, looks at the kind of the
next token and never further.

**Levels.**  Only `nested` opens a rule, and it takes one level of the room.
-/

namespace EcmaSyntax
namespace Parser

/-- The parts of the grammar. -/
inductive Nonterminal where
  /-- A rule at which nesting is counted. -/
  | rule (r : Rule)
  /-- The body of such a rule. -/
  | body (r : Rule)
  /-- What follows the first operand of a sequence. -/
  | sequenceRest (first : Expression) (g : Grammar)
  /-- Operands, each after a comma. -/
  | operands (g : Grammar)
  | expression (g : Grammar)
  | parenthesized
  | arguments
  /-- What follows the first argument of a call. -/
  | argumentsRest
  | element
  | elements (stops : List TokenKind)
  | blockBody
  | function (needsName : Bool)
  | parameters
  /-- What follows the first parameter of a function. -/
  | parametersRest
  | arrayElements
  | property
  | members
  | primary (g : Grammar)
  /-- The accesses after an expression. -/
  | memberTail (base : Expression)
  /-- The calls after an expression, with the accesses to their results. -/
  | callTail (base : Expression)
  | chainHead (g : Grammar)
  | leftHandSide (g : Grammar)
  /-- The increment after an operand, if there is one. -/
  | postfixed (operand : Expression)
  /-- The operators after an operand that hold it with at least some power. -/
  | binary (left : Expression) (minPower : Nat) (g : Grammar)
  | conditionalRest (test : Expression) (g : Grammar)
  | operatorsRest (operand : Expression) (g : Grammar)
  | assignmentRest (left : Expression) (g : Grammar)
  | declarator (g : Grammar)
  | declarators (g : Grammar)
  /-- Declarators, each after a comma. -/
  | declaratorsRest (g : Grammar)
  /-- The end of a statement. -/
  | terminator
  | expressionBefore (close : TokenKind)
  /-- What follows `for (`. -/
  | forHeader
  | forRest (init : Option ForInit)
  | forInRest (target : ForTarget)
  | clauses (seenDefault : Bool)
  | handler
  | finalizer

/-- What a part of the grammar yields. -/
abbrev Nonterminal.Tree : Nonterminal → Type
  | .rule r => r.Tree
  | .body r => r.Tree
  | .sequenceRest _ _ => Expression
  | .operands _ => List Expression
  | .expression _ => Expression
  | .parenthesized => Expression
  | .arguments => List Expression
  | .argumentsRest => List Expression
  | .element => Statement
  | .elements _ => List Statement
  | .blockBody => List Statement
  | .function _ => Function
  | .parameters => List Text
  | .parametersRest => List Text
  | .arrayElements => List (Option Expression)
  | .property => Property
  | .members => List Property
  | .primary _ => Expression
  | .memberTail _ => Expression
  | .callTail _ => Expression
  | .chainHead _ => Expression
  | .leftHandSide _ => Expression
  | .postfixed _ => Expression
  | .binary _ _ _ => Expression
  | .conditionalRest _ _ => Expression
  | .operatorsRest _ _ => Expression
  | .assignmentRest _ _ => Expression
  | .declarator _ => Declarator
  | .declarators _ => List Declarator
  | .declaratorsRest _ => List Declarator
  | .terminator => Unit
  | .expressionBefore _ => Option Expression
  | .forHeader => Statement
  | .forRest _ => Statement
  | .forInRest _ => Statement
  | .clauses _ => List SwitchClause
  | .handler => Option CatchClause
  | .finalizer => Option Statement

/-- Kinds of tokens that settle which statement they open. -/
def opensStatement : TokenKind → Bool
  | .openBrace | .kwVar | .semicolon | .kwIf | .kwDo | .kwWhile | .kwFor | .kwContinue
  | .kwBreak | .kwReturn | .kwWith | .kwSwitch | .kwThrow | .kwTry | .kwDebugger => true
  | _ => false

/-- Whether an expression is a name. -/
def isName : Expression → Bool
  | .identifier _ => true
  | _ => false

theorem isName_iff {e : Expression} : isName e ↔ ∃ name, e = .identifier name := by
  cases e <;> simp [isName]

/-- The jump of a keyword. -/
def jumpTo (keyword : TokenKind) (label : Option Text) : Statement :=
  if keyword = .kwContinue then .continueTo label else .breakTo label

/-- The tokens that end the statements of a clause. -/
def clauseStops : List TokenKind := [.kwCase, .kwDefault, .closeBrace]

/-- A part of the grammar takes the items of a list before another one and yields a tree. -/
inductive Derives (last : TokenKind) :
    Nat → (n : Nonterminal) → List Item → n.Tree → List Item → Prop
  | nested {room : Nat} {r : Rule} {i m : List Item} {tree : r.Tree} :
      Derives last room (.body r) i tree m →
      Derives last (room + 1) (.rule r) i tree m
  -- sequences and lists
  | sequenceEnd {room : Nat} {first : Expression} {g : Grammar} {i : List Item} :
      peek last i ≠ .comma →
      Derives last room (.sequenceRest first g) i first i
  | sequenceMore {room : Nat} {first : Expression} {g : Grammar} {i r : List Item}
      {es : List Expression} :
      peek last i = .comma →
      Derives last room (.operands g) i es r →
      Derives last room (.sequenceRest first g) i (.sequence (first :: es)) r
  | operandsEnd {room : Nat} {g : Grammar} {i : List Item} :
      peek last i ≠ .comma →
      Derives last room (.operands g) i [] i
  | operandsMore {room : Nat} {g : Grammar} {t : Text} {i m r : List Item} {e : Expression}
      {es : List Expression} :
      Derives last room (.rule (.assignment g.operand)) i e m →
      Derives last room (.operands g) m es r →
      Derives last room (.operands g) (.taken .comma t :: i) (e :: es) r
  | expression {room : Nat} {g : Grammar} {i m r : List Item} {first e : Expression} :
      Derives last room (.rule (.assignment g)) i first m →
      Derives last room (.sequenceRest first g) m e r →
      Derives last room (.expression g) i e r
  | parenthesized {room : Nat} {t t' : Text} {i r : List Item} {e : Expression} :
      Derives last room (.expression .normal) i e (.taken .closeParen t' :: r) →
      Derives last room .parenthesized (.taken .openParen t :: i) e r
  | argumentsNone {room : Nat} {t t' : Text} {r : List Item} :
      Derives last room .arguments (.taken .openParen t :: .taken .closeParen t' :: r) [] r
  | argumentsSome {room : Nat} {t : Text} {i m r : List Item} {e : Expression}
      {es : List Expression} :
      peek last i ≠ .closeParen →
      Derives last room (.rule (.assignment .normal)) i e m →
      Derives last room .argumentsRest m es r →
      Derives last room .arguments (.taken .openParen t :: i) (e :: es) r
  | argumentsEnd {room : Nat} {t : Text} {r : List Item} :
      Derives last room .argumentsRest (.taken .closeParen t :: r) [] r
  | argumentsMore {room : Nat} {t : Text} {i m r : List Item} {e : Expression}
      {es : List Expression} :
      Derives last room (.rule (.assignment .normal)) i e m →
      Derives last room .argumentsRest m es r →
      Derives last room .argumentsRest (.taken .comma t :: i) (e :: es) r
  -- statement lists and functions
  | elementFunction {room : Nat} {i r : List Item} {s : Statement} :
      peek last i = .kwFunction →
      Derives last room (.rule .declaration) i s r →
      Derives last room .element i s r
  | elementStatement {room : Nat} {i r : List Item} {s : Statement} :
      peek last i ≠ .kwFunction →
      Derives last room (.rule .statement) i s r →
      Derives last room .element i s r
  | elementsEnd {room : Nat} {stops : List TokenKind} {cs : List Comment} {i : List Item} :
      peek last i ∈ stops →
      Derives last room (.elements stops) (.comments cs :: i) (cs.map .comment) i
  | elementsMore {room : Nat} {stops : List TokenKind} {cs : List Comment} {i m r : List Item}
      {s : Statement} {ss : List Statement} :
      peek last i ∉ stops →
      Derives last room .element i s m →
      Derives last room (.elements stops) m ss r →
      Derives last room (.elements stops) (.comments cs :: i)
        (cs.map .comment ++ s :: ss) r
  | blockBody {room : Nat} {t t' : Text} {i r : List Item} {ss : List Statement} :
      Derives last room (.elements [.closeBrace]) i ss (.taken .closeBrace t' :: r) →
      Derives last room .blockBody (.taken .openBrace t :: i) ss r
  | functionNamed {room : Nat} {needsName : Bool} {t name : Text} {i m r : List Item}
      {params : List Text} {ss : List Statement} :
      Derives last room .parameters i params m →
      Derives last room .blockBody m ss r →
      Derives last room (.function needsName)
        (.taken .kwFunction t :: .taken .identifier name :: i) ⟨some name, params, ss⟩ r
  | functionPlain {room : Nat} {t : Text} {i m r : List Item} {params : List Text}
      {ss : List Statement} :
      Derives last room .parameters i params m →
      Derives last room .blockBody m ss r →
      Derives last room (.function false) (.taken .kwFunction t :: i) ⟨none, params, ss⟩ r
  | parametersNone {room : Nat} {t t' : Text} {r : List Item} :
      Derives last room .parameters (.taken .openParen t :: .taken .closeParen t' :: r) [] r
  | parametersSome {room : Nat} {t p : Text} {i r : List Item} {ps : List Text} :
      Derives last room .parametersRest i ps r →
      Derives last room .parameters (.taken .openParen t :: .taken .identifier p :: i)
        (p :: ps) r
  | parametersEnd {room : Nat} {t : Text} {r : List Item} :
      Derives last room .parametersRest (.taken .closeParen t :: r) [] r
  | parametersMore {room : Nat} {t p : Text} {i r : List Item} {ps : List Text} :
      Derives last room .parametersRest i ps r →
      Derives last room .parametersRest (.taken .comma t :: .taken .identifier p :: i)
        (p :: ps) r
  -- literals with parts
  | arrayEnd {room : Nat} {i : List Item} :
      peek last i = .closeBracket →
      Derives last room .arrayElements i [] i
  | arrayHole {room : Nat} {t : Text} {i r : List Item} {es : List (Option Expression)} :
      Derives last room .arrayElements i es r →
      Derives last room .arrayElements (.taken .comma t :: i) (none :: es) r
  | arrayLast {room : Nat} {i m r : List Item} {e : Expression} {es : List (Option Expression)} :
      peek last i ≠ .closeBracket → peek last i ≠ .comma →
      Derives last room (.rule (.assignment .normal)) i e m →
      peek last m = .closeBracket →
      Derives last room .arrayElements m es r →
      Derives last room .arrayElements i (some e :: es) r
  | arrayMore {room : Nat} {t : Text} {i m r : List Item} {e : Expression}
      {es : List (Option Expression)} :
      peek last i ≠ .closeBracket → peek last i ≠ .comma →
      Derives last room (.rule (.assignment .normal)) i e (.taken .comma t :: m) →
      Derives last room .arrayElements m es r →
      Derives last room .arrayElements i (some e :: es) r
  | propertyInit {room : Nat} {k : TokenKind} {t t' : Text} {key : PropertyKey}
      {i r : List Item} {value : Expression} :
      propertyKey? k t = some key →
      Derives last room (.rule (.assignment .normal)) i value r →
      Derives last room .property (.taken k t :: .taken .colon t' :: i) (.init key value) r
  | propertyGetter {room : Nat} {k : TokenKind} {t t' t'' : Text} {key : PropertyKey}
      {i r : List Item} {ss : List Statement} :
      propertyKey? k t = some key →
      Derives last room .blockBody i ss r →
      Derives last room .property
        (.taken .identifier "get".toList :: .taken k t :: .taken .openParen t'
          :: .taken .closeParen t'' :: i)
        (.getter key ss) r
  | propertySetter {room : Nat} {k : TokenKind} {t t' t'' p : Text} {key : PropertyKey}
      {i r : List Item} {ss : List Statement} :
      propertyKey? k t = some key →
      Derives last room .blockBody i ss r →
      Derives last room .property
        (.taken .identifier "set".toList :: .taken k t :: .taken .openParen t'
          :: .taken .identifier p :: .taken .closeParen t'' :: i)
        (.setter key p ss) r
  | membersEnd {room : Nat} {i : List Item} :
      peek last i = .closeBrace →
      Derives last room .members i [] i
  | membersLast {room : Nat} {i m r : List Item} {p : Property} {ps : List Property} :
      peek last i ≠ .closeBrace →
      Derives last room .property i p m →
      peek last m = .closeBrace →
      Derives last room .members m ps r →
      Derives last room .members i (p :: ps) r
  | membersMore {room : Nat} {t : Text} {i m r : List Item} {p : Property}
      {ps : List Property} :
      peek last i ≠ .closeBrace →
      Derives last room .property i p (.taken .comma t :: m) →
      Derives last room .members m ps r →
      Derives last room .members i (p :: ps) r
  -- primary expressions
  | primaryThis {room : Nat} {g : Grammar} {t : Text} {r : List Item} :
      Derives last room (.primary g) (.taken .kwThis t :: r) .this r
  | primaryName {room : Nat} {g : Grammar} {t : Text} {r : List Item} :
      Derives last room (.primary g) (.taken .identifier t :: r) (.identifier t) r
  | primaryNull {room : Nat} {g : Grammar} {t : Text} {r : List Item} :
      Derives last room (.primary g) (.taken .kwNull t :: r) .null r
  | primaryTrue {room : Nat} {g : Grammar} {t : Text} {r : List Item} :
      Derives last room (.primary g) (.taken .kwTrue t :: r) (.boolean true) r
  | primaryFalse {room : Nat} {g : Grammar} {t : Text} {r : List Item} :
      Derives last room (.primary g) (.taken .kwFalse t :: r) (.boolean false) r
  | primaryNumber {room : Nat} {g : Grammar} {t : Text} {value : Binary64} {r : List Item} :
      numberValue? t = some value →
      Derives last room (.primary g) (.taken .number t :: r) (.number value) r
  | primaryString {room : Nat} {g : Grammar} {t : Text} {r : List Item} :
      Derives last room (.primary g) (.taken .string t :: r) (.string (stringValue t)) r
  | primaryRegex {room : Nat} {g : Grammar} {k : TokenKind} {t : Text} {r : List Item} :
      Derives last room (.primary g) (.literal k t :: r)
        (.regex (regexParts t).1 (regexParts t).2) r
  | primaryArray {room : Nat} {g : Grammar} {t t' : Text} {i r : List Item}
      {es : List (Option Expression)} :
      Derives last room .arrayElements i es (.taken .closeBracket t' :: r) →
      Derives last room (.primary g) (.taken .openBracket t :: i) (.array es) r
  | primaryObject {room : Nat} {g : Grammar} {t t' : Text} {i r : List Item}
      {ps : List Property} :
      g ≠ .noBrace →
      Derives last room .members i ps (.taken .closeBrace t' :: r) →
      Derives last room (.primary g) (.taken .openBrace t :: i) (.object ps) r
  | primaryFunction {room : Nat} {g : Grammar} {i r : List Item} {f : Function} :
      g ≠ .noBrace →
      peek last i = .kwFunction →
      Derives last room (.function false) i f r →
      Derives last room (.primary g) i (.function f) r
  | primaryParenthesized {room : Nat} {g : Grammar} {i r : List Item} {e : Expression} :
      peek last i = .openParen →
      Derives last room .parenthesized i e r →
      Derives last room (.primary g) i e r
  -- left-hand sides
  | memberEnd {room : Nat} {base : Expression} {i : List Item} :
      peek last i ≠ .dot → peek last i ≠ .openBracket →
      Derives last room (.memberTail base) i base i
  | memberDot {room : Nat} {base e : Expression} {k : TokenKind} {t : Text} {i r : List Item} :
      Derives last room (.memberTail (.dot base t)) i e r →
      Derives last room (.memberTail base) (.member k t :: i) e r
  | memberBracket {room : Nat} {base index e : Expression} {t t' : Text} {i m r : List Item} :
      Derives last room (.expression .normal) i index (.taken .closeBracket t' :: m) →
      Derives last room (.memberTail (.bracket base index)) m e r →
      Derives last room (.memberTail base) (.taken .openBracket t :: i) e r
  | callEnd {room : Nat} {base : Expression} {i : List Item} :
      peek last i ≠ .openParen →
      Derives last room (.callTail base) i base i
  | callMore {room : Nat} {base result e : Expression} {args : List Expression}
      {i m m' r : List Item} :
      peek last i = .openParen →
      Derives last room .arguments i args m →
      Derives last room (.memberTail (.call base args)) m result m' →
      Derives last room (.callTail result) m' e r →
      Derives last room (.callTail base) i e r
  | headNew {room : Nat} {g : Grammar} {i r : List Item} {e : Expression} :
      peek last i = .kwNew →
      Derives last room (.rule .construction) i e r →
      Derives last room (.chainHead g) i e r
  | headPrimary {room : Nat} {g : Grammar} {i r : List Item} {e : Expression} :
      peek last i ≠ .kwNew →
      Derives last room (.primary g) i e r →
      Derives last room (.chainHead g) i e r
  | leftHandSide {room : Nat} {g : Grammar} {i m m' r : List Item} {head base e : Expression} :
      Derives last room (.chainHead g) i head m →
      Derives last room (.memberTail head) m base m' →
      Derives last room (.callTail base) m' e r →
      Derives last room (.leftHandSide g) i e r
  | constructionApplied {room : Nat} {t : Text} {i m m' r : List Item}
      {head callee : Expression} {args : List Expression} :
      Derives last room (.chainHead .normal) i head m →
      Derives last room (.memberTail head) m callee m' →
      peek last m' = .openParen →
      Derives last room .arguments m' args r →
      Derives last room (.body .construction) (.taken .kwNew t :: i) (.construct callee args) r
  | constructionBare {room : Nat} {t : Text} {i m r : List Item} {head callee : Expression} :
      Derives last room (.chainHead .normal) i head m →
      Derives last room (.memberTail head) m callee r →
      peek last r ≠ .openParen →
      Derives last room (.body .construction) (.taken .kwNew t :: i) (.construct callee []) r
  -- operators
  | postfixEnd {room : Nat} {operand : Expression} {i : List Item} :
      (peek last i).postfixOperator? = none →
      Derives last room (.postfixed operand) i operand i
  | postfixMore {room : Nat} {operand : Expression} {k : TokenKind} {t : Text}
      {op : UnaryOperator} {r : List Item} :
      k.postfixOperator? = some op →
      Derives last room (.postfixed operand) (.taken k t :: r) (.unary op operand true) r
  | unaryPrefix {room : Nat} {g : Grammar} {k : TokenKind} {t : Text} {op : UnaryOperator}
      {operand : Expression} {i r : List Item} :
      k.prefixOperator? = some op →
      Derives last room (.rule (.operand g.operand)) i operand r →
      Derives last room (.body (.operand g)) (.taken k t :: i) (.unary op operand false) r
  | unaryPostfix {room : Nat} {g : Grammar} {operand e : Expression} {i m r : List Item} :
      (peek last i).prefixOperator? = none →
      Derives last room (.leftHandSide g) i operand m →
      Derives last room (.postfixed operand) m e r →
      Derives last room (.body (.operand g)) i e r
  | binaryEnd {room : Nat} {left : Expression} {p : Nat} {g : Grammar} {i : List Item} :
      infixOperator? p g (peek last i) = none →
      Derives last room (.binary left p g) i left i
  | binaryMore {room : Nat} {left operand right e : Expression} {p : Nat} {g : Grammar}
      {k : TokenKind} {t : Text} {op : InfixOperator} {i m m' r : List Item} :
      infixOperator? p g k = some op →
      Derives last room (.body (.operand g.operand)) i operand m →
      Derives last room (.binary operand op.rightPower g.operand) m right m' →
      Derives last room (.binary (op.apply left right) p g) m' e r →
      Derives last room (.binary left p g) (.taken k t :: i) e r
  | conditionalEnd {room : Nat} {test : Expression} {g : Grammar} {i : List Item} :
      peek last i ≠ .question →
      Derives last room (.conditionalRest test g) i test i
  | conditionalMore {room : Nat} {test consequent alternate : Expression} {g : Grammar}
      {t t' : Text} {i m r : List Item} :
      Derives last room (.rule (.assignment .normal)) i consequent (.taken .colon t' :: m) →
      Derives last room (.rule (.assignment g.operand)) m alternate r →
      Derives last room (.conditionalRest test g) (.taken .question t :: i)
        (.conditional test consequent alternate) r
  | operatorsRest {room : Nat} {operand test e : Expression} {g : Grammar}
      {i m r : List Item} :
      Derives last room (.binary operand 0 g) i test m →
      Derives last room (.conditionalRest test g) m e r →
      Derives last room (.operatorsRest operand g) i e r
  | assignMore {room : Nat} {left value : Expression} {g : Grammar} {k : TokenKind} {t : Text}
      {op : AssignOperator} {i r : List Item} :
      k.assignOperator? = some op →
      Derives last room (.rule (.assignment g.operand)) i value r →
      Derives last room (.assignmentRest left g) (.taken k t :: i) (.assign left op value) r
  | assignEnd {room : Nat} {left operand e : Expression} {g : Grammar} {i m r : List Item} :
      (peek last i).assignOperator? = none →
      Derives last room (.postfixed left) i operand m →
      Derives last room (.operatorsRest operand g) m e r →
      Derives last room (.assignmentRest left g) i e r
  | assignmentPrefixed {room : Nat} {operand e : Expression} {g : Grammar}
      {i m r : List Item} :
      (peek last i).isPrefixOperator →
      Derives last room (.body (.operand g)) i operand m →
      Derives last room (.operatorsRest operand g) m e r →
      Derives last room (.body (.assignment g)) i e r
  | assignmentPlain {room : Nat} {left e : Expression} {g : Grammar} {i m r : List Item} :
      (peek last i).isPrefixOperator = false →
      Derives last room (.leftHandSide g) i left m →
      Derives last room (.assignmentRest left g) m e r →
      Derives last room (.body (.assignment g)) i e r
  -- declared variables
  | declaratorPlain {room : Nat} {g : Grammar} {name : Text} {i : List Item} :
      peek last i ≠ .equals →
      Derives last room (.declarator g) (.taken .identifier name :: i) ⟨name, none⟩ i
  | declaratorInit {room : Nat} {g : Grammar} {name t : Text} {value : Expression}
      {i r : List Item} :
      Derives last room (.rule (.assignment g)) i value r →
      Derives last room (.declarator g) (.taken .identifier name :: .taken .equals t :: i)
        ⟨name, some value⟩ r
  | declarators {room : Nat} {g : Grammar} {d : Declarator} {ds : List Declarator}
      {i m r : List Item} :
      Derives last room (.declarator g) i d m →
      Derives last room (.declaratorsRest g) m ds r →
      Derives last room (.declarators g) i (d :: ds) r
  | declaratorsEnd {room : Nat} {g : Grammar} {i : List Item} :
      peek last i ≠ .comma →
      Derives last room (.declaratorsRest g) i [] i
  | declaratorsMore {room : Nat} {g : Grammar} {t : Text} {d : Declarator}
      {ds : List Declarator} {i m r : List Item} :
      Derives last room (.declarator g) i d m →
      Derives last room (.declaratorsRest g) m ds r →
      Derives last room (.declaratorsRest g) (.taken .comma t :: i) (d :: ds) r
  -- statements
  | ended {room : Nat} {k : TokenKind} {r : List Item} :
      Derives last room .terminator (.ended k :: r) () r
  | inserted {room : Nat} {k : TokenKind} {r : List Item} :
      Derives last room .terminator (.inserted k :: r) () r
  | block {room : Nat} {ss : List Statement} {i r : List Item} :
      peek last i = .openBrace →
      Derives last room .blockBody i ss r →
      Derives last room (.body .statement) i (.block ss) r
  | declare {room : Nat} {t : Text} {ds : List Declarator} {i m r : List Item} :
      Derives last room (.declarators .normal) i ds m →
      Derives last room .terminator m () r →
      Derives last room (.body .statement) (.taken .kwVar t :: i) (.declare ds) r
  | empty {room : Nat} {t : Text} {r : List Item} :
      Derives last room (.body .statement) (.taken .semicolon t :: r) .empty r
  | labelled {room : Nat} {label t : Text} {body : Statement} {i r : List Item} :
      Derives last room (.expression .noBrace)
        (.taken .identifier label :: .taken .colon t :: i) (.identifier label)
        (.taken .colon t :: i) →
      Derives last room (.rule .statement) i body r →
      Derives last room (.body .statement)
        (.taken .identifier label :: .taken .colon t :: i) (.labelled label body) r
  | expressionStatement {room : Nat} {e : Expression} {i m r : List Item} :
      opensStatement (peek last i) = false →
      Derives last room (.expression .noBrace) i e m →
      ¬(peek last i = .identifier ∧ isName e ∧ peek last m = .colon) →
      Derives last room .terminator m () r →
      Derives last room (.body .statement) i (.expression e) r
  | debugger {room : Nat} {t : Text} {i r : List Item} :
      Derives last room .terminator i () r →
      Derives last room (.body .statement) (.taken .kwDebugger t :: i) .debugger r
  | ifThen {room : Nat} {t : Text} {test : Expression} {consequent : Statement}
      {i m r : List Item} :
      Derives last room .parenthesized i test m →
      Derives last room (.rule .statement) m consequent r →
      peek last r ≠ .kwElse →
      Derives last room (.body .statement) (.taken .kwIf t :: i)
        (.ifElse test consequent none) r
  | ifElse {room : Nat} {t t' : Text} {test : Expression} {consequent alternate : Statement}
      {i m m' r : List Item} :
      Derives last room .parenthesized i test m →
      Derives last room (.rule .statement) m consequent (.taken .kwElse t' :: m') →
      Derives last room (.rule .statement) m' alternate r →
      Derives last room (.body .statement) (.taken .kwIf t :: i)
        (.ifElse test consequent (some alternate)) r
  | doWhile {room : Nat} {t t' : Text} {test : Expression} {body : Statement}
      {i m m' r : List Item} :
      Derives last room (.rule .statement) i body (.taken .kwWhile t' :: m) →
      Derives last room .parenthesized m test m' →
      Derives last room .terminator m' () r →
      Derives last room (.body .statement) (.taken .kwDo t :: i) (.doWhile body test) r
  | whileDo {room : Nat} {t : Text} {test : Expression} {body : Statement}
      {i m r : List Item} :
      Derives last room .parenthesized i test m →
      Derives last room (.rule .statement) m body r →
      Derives last room (.body .statement) (.taken .kwWhile t :: i) (.whileDo test body) r
  | forLoop {room : Nat} {t t' : Text} {s : Statement} {i r : List Item} :
      Derives last room .forHeader i s r →
      Derives last room (.body .statement) (.taken .kwFor t :: .taken .openParen t' :: i) s r
  | forNothing {room : Nat} {s : Statement} {i r : List Item} :
      peek last i = .semicolon →
      Derives last room (.forRest none) i s r →
      Derives last room .forHeader i s r
  | forVariables {room : Nat} {t : Text} {ds : List Declarator} {s : Statement}
      {i m r : List Item} :
      Derives last room (.declarators .noIn) i ds m →
      ¬(ds.length = 1 ∧ peek last m = .kwIn) →
      Derives last room (.forRest (some (.declared ds))) m s r →
      Derives last room .forHeader (.taken .kwVar t :: i) s r
  | forInVariable {room : Nat} {t t' : Text} {d : Declarator} {s : Statement}
      {i m r : List Item} :
      Derives last room (.declarators .noIn) i [d] (.taken .kwIn t' :: m) →
      Derives last room (.forInRest (.declared d)) m s r →
      Derives last room .forHeader (.taken .kwVar t :: i) s r
  | forPrefixed {room : Nat} {first e : Expression} {s : Statement} {i m m' r : List Item} :
      (peek last i).isPrefixOperator →
      Derives last room (.rule (.assignment .noIn)) i first m →
      Derives last room (.sequenceRest first .noIn) m e m' →
      Derives last room (.forRest (some (.expression e))) m' s r →
      Derives last room .forHeader i s r
  | forExpression {room : Nat} {left first e : Expression} {s : Statement}
      {i m m' m'' r : List Item} :
      peek last i ≠ .semicolon → peek last i ≠ .kwVar →
      (peek last i).isPrefixOperator = false →
      Derives last room (.leftHandSide .noIn) i left m →
      peek last m ≠ .kwIn →
      Derives last room (.assignmentRest left .noIn) m first m' →
      Derives last room (.sequenceRest first .noIn) m' e m'' →
      Derives last room (.forRest (some (.expression e))) m'' s r →
      Derives last room .forHeader i s r
  | forInExpression {room : Nat} {t : Text} {left : Expression} {s : Statement}
      {i m r : List Item} :
      peek last i ≠ .semicolon → peek last i ≠ .kwVar →
      (peek last i).isPrefixOperator = false →
      Derives last room (.leftHandSide .noIn) i left (.taken .kwIn t :: m) →
      Derives last room (.forInRest (.expression left)) m s r →
      Derives last room .forHeader i s r
  | forRest {room : Nat} {t t' t'' : Text} {init : Option ForInit}
      {test update : Option Expression} {body : Statement} {i m m' r : List Item} :
      Derives last room (.expressionBefore .semicolon) i test (.taken .semicolon t' :: m) →
      Derives last room (.expressionBefore .closeParen) m update (.taken .closeParen t'' :: m') →
      Derives last room (.rule .statement) m' body r →
      Derives last room (.forRest init) (.taken .semicolon t :: i)
        (.forLoop init test update body) r
  | forInRest {room : Nat} {t : Text} {target : ForTarget} {object : Expression}
      {body : Statement} {i m r : List Item} :
      Derives last room (.expression .normal) i object (.taken .closeParen t :: m) →
      Derives last room (.rule .statement) m body r →
      Derives last room (.forInRest target) i (.forIn target object body) r
  | expressionAbsent {room : Nat} {close : TokenKind} {i : List Item} :
      peek last i = close →
      Derives last room (.expressionBefore close) i none i
  | expressionPresent {room : Nat} {close : TokenKind} {e : Expression} {i r : List Item} :
      peek last i ≠ close →
      Derives last room (.expression .normal) i e r →
      Derives last room (.expressionBefore close) i (some e) r
  | jumpBare {room : Nat} {k : TokenKind} {t : Text} {i r : List Item} :
      k = .kwContinue ∨ k = .kwBreak →
      peek last i ≠ .identifier →
      Derives last room .terminator i () r →
      Derives last room (.body .statement) (.taken k t :: i) (jumpTo k none) r
  | jumpLabel {room : Nat} {k : TokenKind} {t label : Text} {i r : List Item} :
      k = .kwContinue ∨ k = .kwBreak →
      Derives last room .terminator i () r →
      Derives last room (.body .statement) (.taken k t :: .taken .identifier label :: i)
        (jumpTo k (some label)) r
  | returnNothing {room : Nat} {t : Text} {i r : List Item} :
      endsReturn (peek last i) →
      Derives last room .terminator i () r →
      Derives last room (.body .statement) (.taken .kwReturn t :: i) (.returnWith none) r
  | returnValue {room : Nat} {t : Text} {value : Expression} {i m r : List Item} :
      endsReturn (peek last i) = false →
      Derives last room (.expression .normal) i value m →
      Derives last room .terminator m () r →
      Derives last room (.body .statement) (.taken .kwReturn t :: i)
        (.returnWith (some value)) r
  | throwValue {room : Nat} {t : Text} {value : Expression} {i m r : List Item} :
      Derives last room (.expression .normal) i value m →
      Derives last room .terminator m () r →
      Derives last room (.body .statement) (.taken .kwThrow t :: i) (.throwWith value) r
  | withObject {room : Nat} {t : Text} {object : Expression} {body : Statement}
      {i m r : List Item} :
      Derives last room .parenthesized i object m →
      Derives last room (.rule .statement) m body r →
      Derives last room (.body .statement) (.taken .kwWith t :: i) (.withObject object body) r
  | switch {room : Nat} {t t' : Text} {discriminant : Expression} {cs : List SwitchClause}
      {i m r : List Item} :
      Derives last room .parenthesized i discriminant (.taken .openBrace t' :: m) →
      Derives last room (.clauses false) m cs r →
      Derives last room (.body .statement) (.taken .kwSwitch t :: i)
        (.switch discriminant cs) r
  | clausesEnd {room : Nat} {seen : Bool} {t : Text} {r : List Item} :
      Derives last room (.clauses seen) (.taken .closeBrace t :: r) [] r
  | clausesCase {room : Nat} {seen : Bool} {t t' : Text} {test : Expression}
      {ss : List Statement} {cs : List SwitchClause} {i m m' r : List Item} :
      Derives last room (.expression .normal) i test (.taken .colon t' :: m) →
      Derives last room (.elements clauseStops) m ss m' →
      Derives last room (.clauses seen) m' cs r →
      Derives last room (.clauses seen) (.taken .kwCase t :: i) (⟨some test, ss⟩ :: cs) r
  | clausesDefault {room : Nat} {t t' : Text} {ss : List Statement} {cs : List SwitchClause}
      {m m' r : List Item} :
      Derives last room (.elements clauseStops) m ss m' →
      Derives last room (.clauses true) m' cs r →
      Derives last room (.clauses false) (.taken .kwDefault t :: .taken .colon t' :: m)
        (⟨none, ss⟩ :: cs) r
  | tryCatch {room : Nat} {t : Text} {ss : List Statement} {handler : Option CatchClause}
      {finalizer : Option Statement} {i m m' r : List Item} :
      Derives last room .blockBody i ss m →
      Derives last room .handler m handler m' →
      Derives last room .finalizer m' finalizer r →
      handler.isSome ∨ finalizer.isSome →
      Derives last room (.body .statement) (.taken .kwTry t :: i)
        (.tryCatch (.block ss) handler finalizer) r
  | handlerAbsent {room : Nat} {i : List Item} :
      peek last i ≠ .kwCatch →
      Derives last room .handler i none i
  | handlerPresent {room : Nat} {t t' t'' param : Text} {ss : List Statement}
      {i r : List Item} :
      Derives last room .blockBody i ss r →
      Derives last room .handler
        (.taken .kwCatch t :: .taken .openParen t' :: .taken .identifier param
          :: .taken .closeParen t'' :: i)
        (some ⟨param, ss⟩) r
  | finalizerAbsent {room : Nat} {i : List Item} :
      peek last i ≠ .kwFinally →
      Derives last room .finalizer i none i
  | finalizerPresent {room : Nat} {t : Text} {ss : List Statement} {i r : List Item} :
      Derives last room .blockBody i ss r →
      Derives last room .finalizer (.taken .kwFinally t :: i) (some (.block ss)) r
  | declaration {room : Nat} {f : Function} {i r : List Item} :
      Derives last room (.function true) i f r →
      Derives last room (.body .declaration) i (.function f) r

/-! ## Room -/

/-- What can be derived can be derived with more room. -/
theorem Derives.widen {last : TokenKind} {room : Nat} {n : Nonterminal} {i r : List Item}
    {tree : n.Tree} (h : Derives last room n i tree r) : Derives last (room + 1) n i tree r := by
  induction h with
  | nested _ ih => exact .nested ih
  | elementStatement hk _ ih => exact .elementStatement hk ih
  | arrayMore hk hk' _ _ ih₁ ih₂ => exact .arrayMore hk hk' ih₁ ih₂
  | membersMore hk _ _ ih₁ ih₂ => exact .membersMore hk ih₁ ih₂
  | headPrimary hk _ ih => exact .headPrimary hk ih
  | constructionBare _ _ hk ih₁ ih₂ => exact .constructionBare ih₁ ih₂ hk
  | assignmentPlain hk _ _ ih₁ ih₂ => exact .assignmentPlain hk ih₁ ih₂
  | forVariables _ hk _ ih₁ ih₂ => exact .forVariables ih₁ hk ih₂
  | forInVariable _ _ ih₁ ih₂ => exact .forInVariable ih₁ ih₂
  | forPrefixed hk _ _ _ ih₁ ih₂ ih₃ => exact .forPrefixed hk ih₁ ih₂ ih₃
  | forExpression hk hk' hk'' _ hm _ _ _ ih₁ ih₂ ih₃ ih₄ =>
      exact .forExpression hk hk' hk'' ih₁ hm ih₂ ih₃ ih₄
  | forInExpression hk hk' hk'' _ _ ih₁ ih₂ => exact .forInExpression hk hk' hk'' ih₁ ih₂
  | _ => constructor <;> assumption

namespace Derives

variable {last : TokenKind} {room : Nat} {i m r : List Item}

/-! ## Lone names -/

/-- Parts of the grammar that go on with an expression yield a name only if it is the
expression that they start from, and then they take nothing. -/
def KeepsName : (n : Nonterminal) → List Item → n.Tree → List Item → Prop
  | .sequenceRest first _, i, e, r => isName e → i = r ∧ e = first
  | .memberTail base, i, e, r => isName e → i = r ∧ e = base
  | .callTail base, i, e, r => isName e → i = r ∧ e = base
  | .postfixed operand, i, e, r => isName e → i = r ∧ e = operand
  | .binary left _ _, i, e, r => isName e → i = r ∧ e = left
  | .conditionalRest test _, i, e, r => isName e → i = r ∧ e = test
  | .operatorsRest operand _, i, e, r => isName e → i = r ∧ e = operand
  | .assignmentRest left _, i, e, r => isName e → i = r ∧ e = left
  | _, _, _, _ => True

theorem keepsName {n : Nonterminal} {tree : n.Tree} (h : Derives last room n i tree r) :
    KeepsName n i tree r := by
  induction h with
  | sequenceEnd _ => exact fun _ => ⟨rfl, rfl⟩
  | sequenceMore _ _ _ => exact nofun
  | memberEnd _ _ => exact fun _ => ⟨rfl, rfl⟩
  | memberDot _ ih =>
      intro he
      obtain ⟨-, rfl⟩ := ih he
      cases he
  | memberBracket _ _ _ ih =>
      intro he
      obtain ⟨-, rfl⟩ := ih he
      cases he
  | callEnd _ => exact fun _ => ⟨rfl, rfl⟩
  | callMore _ _ _ _ _ ihm ihc =>
      intro he
      obtain ⟨-, rfl⟩ := ihc he
      obtain ⟨-, rfl⟩ := ihm he
      cases he
  | postfixEnd _ => exact fun _ => ⟨rfl, rfl⟩
  | postfixMore _ => exact nofun
  | binaryEnd _ => exact fun _ => ⟨rfl, rfl⟩
  | @binaryMore _ _ _ _ _ _ _ _ _ op _ _ _ _ _ _ _ _ _ _ ih =>
      intro he
      obtain ⟨-, rfl⟩ := ih he
      cases op <;> cases he
  | conditionalEnd _ => exact fun _ => ⟨rfl, rfl⟩
  | conditionalMore _ _ => exact nofun
  | operatorsRest _ _ ihb ihc =>
      intro he
      obtain ⟨rfl, rfl⟩ := ihc he
      exact ihb he
  | assignMore _ _ => exact nofun
  | assignEnd _ _ _ ihp iho =>
      intro he
      obtain ⟨rfl, rfl⟩ := iho he
      exact ihp he
  | _ => trivial

/-- An expression that starts with a name and yields a name is this name. -/
theorem eq_name {g : Grammar} {name : Text}
    (h : Derives last room (.expression g) i (.identifier name) r)
    (hi : peek last i = .identifier) : i = .taken .identifier name :: r := by
  obtain ⟨first, m, hfirst, hrest⟩ : ∃ first m,
      Derives last room (.rule (.assignment g)) i first m ∧
      Derives last room (.sequenceRest first g) m (.identifier name) r := by
    cases h with
    | expression hfirst hrest => exact ⟨_, _, hfirst, hrest⟩
  obtain ⟨rfl, rfl⟩ := hrest.keepsName rfl
  cases hfirst with
  | nested hbody =>
      cases hbody with
      | assignmentPrefixed hp => rw [hi] at hp; cases hp
      | assignmentPlain _ hl ha =>
          obtain ⟨rfl, rfl⟩ := ha.keepsName rfl
          cases hl with
          | leftHandSide hhead hm hc =>
              obtain ⟨rfl, rfl⟩ := hc.keepsName rfl
              obtain ⟨rfl, rfl⟩ := hm.keepsName rfl
              cases hhead with
              | headNew hk _ => rw [hi] at hk; cases hk
              | headPrimary _ hp =>
                  cases hp with
                  | primaryName => rfl
                  | primaryParenthesized hk _ => rw [hi] at hk; cases hk

end Derives

end Parser
end EcmaSyntax
