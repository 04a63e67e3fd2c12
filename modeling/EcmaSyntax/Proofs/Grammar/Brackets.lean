import EcmaSyntax.Proofs.Grammar

/-!
# Brackets

**Brackets.**  A parenthesis, a bracket or a brace is open up to the one that closes it, and the
question mark of a conditional is open up to its colon.

**Parts.**  A part of the grammar closes what it opens.  Some parts close a bracket that was opened
in front of them.  A colon behind a label, a property or the test of a clause closes nothing, so the
parts with such colons never stand directly behind a question mark.

**Result.**
* `Derives.opened_eq`: behind what a part of the grammar takes, the same brackets are open as in
  front of it, but for the one that the part closes.
-/

namespace EcmaSyntax
namespace Parser

/-- The brackets that are open behind a token, the innermost first. -/
def openAfter (stack : List TokenKind) : TokenKind → List TokenKind
  | .openParen => .openParen :: stack
  | .openBracket => .openBracket :: stack
  | .openBrace => .openBrace :: stack
  | .question => .question :: stack
  | .closeParen | .closeBracket | .closeBrace => stack.tail
  | .colon => if stack.head? = some .question then stack.tail else stack
  | _ => stack

/-- The brackets that are open behind some items. -/
def opened : List TokenKind → List Item → List TokenKind
  | stack, [] => stack
  | stack, .taken k _ :: its => opened (openAfter stack k) its
  | stack, _ :: its => opened stack its

/-- The bracket that a part of the grammar closes and that was opened in front of it. -/
def Nonterminal.pending : Nonterminal → List TokenKind
  | .argumentsRest | .parametersRest | .forHeader | .forRest _ | .forInRest _ => [.openParen]
  | .clauses _ => [.openBrace]
  | _ => []

/-- Parts of the grammar with colons that close nothing. -/
def Nonterminal.hasColons : Nonterminal → Bool
  | .property | .members | .element | .elements _ | .forHeader | .forRest _ | .forInRest _ => true
  | .rule .statement | .body .statement => true
  | _ => false

/-! ## Tokens that are no brackets -/

section Tokens

variable (stack : List TokenKind) {k : TokenKind}

theorem openAfter_of_propertyKey? {t : Text} {key : PropertyKey} (h : propertyKey? k t = some key) :
    openAfter stack k = stack := by
  cases k <;> first | rfl | cases h

theorem openAfter_of_prefixOperator? {op : UnaryOperator} (h : k.prefixOperator? = some op) :
    openAfter stack k = stack := by
  cases k <;> first | rfl | cases h

theorem openAfter_of_postfixOperator? {op : UnaryOperator} (h : k.postfixOperator? = some op) :
    openAfter stack k = stack := by
  cases k <;> first | rfl | cases h

theorem openAfter_of_assignOperator? {op : AssignOperator} (h : k.assignOperator? = some op) :
    openAfter stack k = stack := by
  cases k <;> first | rfl | cases h

theorem openAfter_of_infixOperator? {p : Nat} {g : Grammar} {op : InfixOperator}
    (h : infixOperator? p g k = some op) : openAfter stack k = stack := by
  have hk := (infixOperator?_eq_some_iff.mp h).1
  cases k <;> first | rfl | cases hk

theorem openAfter_colon {stack : List TokenKind} (h : stack.head? ≠ some .question) :
    openAfter stack .colon = stack := if_neg h

end Tokens

/-! ## Derivations -/

/-- A part of the grammar closes what it opens. -/
theorem Derives.opened_eq {last : TokenKind} {room : Nat} {n : Nonterminal} {i r : List Item}
    {tree : n.Tree} (h : Derives last room n i tree r) (stack : List TokenKind)
    (hstack : n.hasColons → stack.head? ≠ some .question) :
    opened (n.pending ++ stack) i = opened stack r := by
  induction h generalizing stack with
  | @nested _ r _ _ _ _ ih => exact ih stack fun hr => hstack (by cases r <;> exact hr)
  -- sequences and lists
  | sequenceEnd _ => rfl
  | sequenceMore _ _ ih => exact ih stack nofun
  | operandsEnd _ => rfl
  | operandsMore _ _ ih₁ ih₂ => exact (ih₁ stack nofun).trans (ih₂ stack nofun)
  | expression _ _ ih₁ ih₂ => exact (ih₁ stack nofun).trans (ih₂ stack nofun)
  | parenthesized _ ih => exact ih (.openParen :: stack) nofun
  | argumentsNone => rfl
  | argumentsSome _ _ _ ih₁ ih₂ =>
      exact (ih₁ (.openParen :: stack) nofun).trans (ih₂ stack nofun)
  | argumentsEnd => rfl
  | argumentsMore _ _ ih₁ ih₂ => exact (ih₁ (.openParen :: stack) nofun).trans (ih₂ stack nofun)
  -- statement lists and functions
  | elementFunction _ _ ih => exact ih stack nofun
  | elementStatement _ _ ih => exact ih stack hstack
  | elementsEnd _ => rfl
  | elementsMore _ _ _ ih₁ ih₂ => exact (ih₁ stack hstack).trans (ih₂ stack hstack)
  | blockBody _ ih => exact ih (.openBrace :: stack) fun _ => nofun
  | functionNamed _ _ ih₁ ih₂ => exact (ih₁ stack nofun).trans (ih₂ stack nofun)
  | functionPlain _ _ ih₁ ih₂ => exact (ih₁ stack nofun).trans (ih₂ stack nofun)
  | parametersNone => rfl
  | parametersSome _ ih => exact ih stack nofun
  | parametersEnd => rfl
  | parametersMore _ ih => exact ih stack nofun
  -- literals with parts
  | arrayEnd _ => rfl
  | arrayHole _ ih => exact ih stack nofun
  | arrayLast _ _ _ _ _ ih₁ ih₂ => exact (ih₁ stack nofun).trans (ih₂ stack nofun)
  | arrayMore _ _ _ _ ih₁ ih₂ => exact (ih₁ stack nofun).trans (ih₂ stack nofun)
  | propertyInit hk _ ih =>
      show opened (openAfter (openAfter stack _) .colon) _ = _
      rw [openAfter_of_propertyKey? stack hk, openAfter_colon (hstack rfl)]
      exact ih stack nofun
  | propertyGetter hk _ ih =>
      show opened (openAfter (openAfter (openAfter stack _) .openParen) .closeParen) _ = _
      rw [openAfter_of_propertyKey? stack hk]
      exact ih stack nofun
  | propertySetter hk _ ih =>
      show opened (openAfter (openAfter (openAfter stack _) .openParen) .closeParen) _ = _
      rw [openAfter_of_propertyKey? stack hk]
      exact ih stack nofun
  | membersEnd _ => rfl
  | membersLast _ _ _ _ ih₁ ih₂ => exact (ih₁ stack hstack).trans (ih₂ stack hstack)
  | membersMore _ _ _ ih₁ ih₂ => exact (ih₁ stack hstack).trans (ih₂ stack hstack)
  -- primary expressions
  | primaryThis => rfl
  | primaryName => rfl
  | primaryNull => rfl
  | primaryTrue => rfl
  | primaryFalse => rfl
  | primaryNumber _ => rfl
  | primaryString => rfl
  | primaryRegex => rfl
  | primaryArray _ ih => exact ih (.openBracket :: stack) nofun
  | primaryObject _ _ ih => exact ih (.openBrace :: stack) fun _ => nofun
  | primaryFunction _ _ _ ih => exact ih stack nofun
  | primaryParenthesized _ _ ih => exact ih stack nofun
  -- left-hand sides
  | memberEnd _ _ => rfl
  | memberDot _ ih => exact ih stack nofun
  | memberBracket _ _ ih₁ ih₂ => exact (ih₁ (.openBracket :: stack) nofun).trans (ih₂ stack nofun)
  | callEnd _ => rfl
  | callMore _ _ _ _ ih₁ ih₂ ih₃ =>
      exact (ih₁ stack nofun).trans ((ih₂ stack nofun).trans (ih₃ stack nofun))
  | headNew _ _ ih => exact ih stack nofun
  | headPrimary _ _ ih => exact ih stack nofun
  | leftHandSide _ _ _ ih₁ ih₂ ih₃ =>
      exact (ih₁ stack nofun).trans ((ih₂ stack nofun).trans (ih₃ stack nofun))
  | constructionApplied _ _ _ _ ih₁ ih₂ ih₃ =>
      exact (ih₁ stack nofun).trans ((ih₂ stack nofun).trans (ih₃ stack nofun))
  | constructionBare _ _ _ ih₁ ih₂ => exact (ih₁ stack nofun).trans (ih₂ stack nofun)
  -- operators
  | postfixEnd _ => rfl
  | postfixMore hk => exact congrArg (opened · _) (openAfter_of_postfixOperator? stack hk)
  | unaryPrefix hk _ ih =>
      show opened (openAfter stack _) _ = _
      rw [openAfter_of_prefixOperator? stack hk]
      exact ih stack nofun
  | unaryPostfix _ _ _ ih₁ ih₂ => exact (ih₁ stack nofun).trans (ih₂ stack nofun)
  | binaryEnd _ => rfl
  | binaryMore hk _ _ _ ih₁ ih₂ ih₃ =>
      show opened (openAfter stack _) _ = _
      rw [openAfter_of_infixOperator? stack hk]
      exact (ih₁ stack nofun).trans ((ih₂ stack nofun).trans (ih₃ stack nofun))
  | conditionalEnd _ => rfl
  | conditionalMore _ _ ih₁ ih₂ => exact (ih₁ (.question :: stack) nofun).trans (ih₂ stack nofun)
  | operatorsRest _ _ ih₁ ih₂ => exact (ih₁ stack nofun).trans (ih₂ stack nofun)
  | assignMore hk _ ih =>
      show opened (openAfter stack _) _ = _
      rw [openAfter_of_assignOperator? stack hk]
      exact ih stack nofun
  | assignEnd _ _ _ ih₁ ih₂ => exact (ih₁ stack nofun).trans (ih₂ stack nofun)
  | assignmentPrefixed _ _ _ ih₁ ih₂ => exact (ih₁ stack nofun).trans (ih₂ stack nofun)
  | assignmentPlain _ _ _ ih₁ ih₂ => exact (ih₁ stack nofun).trans (ih₂ stack nofun)
  -- declared variables
  | declaratorPlain _ => rfl
  | declaratorInit _ ih => exact ih stack nofun
  | declarators _ _ ih₁ ih₂ => exact (ih₁ stack nofun).trans (ih₂ stack nofun)
  | declaratorsEnd _ => rfl
  | declaratorsMore _ _ ih₁ ih₂ => exact (ih₁ stack nofun).trans (ih₂ stack nofun)
  -- statements
  | ended => rfl
  | inserted => rfl
  | block _ _ ih => exact ih stack nofun
  | declare _ _ ih₁ ih₂ => exact (ih₁ stack nofun).trans (ih₂ stack nofun)
  | empty => rfl
  | labelled _ _ _ ih =>
      show opened (openAfter stack .colon) _ = _
      rw [openAfter_colon (hstack rfl)]
      exact ih stack hstack
  | expressionStatement _ _ _ _ ih₁ ih₂ => exact (ih₁ stack nofun).trans (ih₂ stack nofun)
  | debugger _ ih => exact ih stack nofun
  | ifThen _ _ _ ih₁ ih₂ => exact (ih₁ stack nofun).trans (ih₂ stack hstack)
  | ifElse _ _ _ ih₁ ih₂ ih₃ =>
      exact (ih₁ stack nofun).trans ((ih₂ stack hstack).trans (ih₃ stack hstack))
  | doWhile _ _ _ ih₁ ih₂ ih₃ =>
      exact (ih₁ stack hstack).trans ((ih₂ stack nofun).trans (ih₃ stack nofun))
  | whileDo _ _ ih₁ ih₂ => exact (ih₁ stack nofun).trans (ih₂ stack hstack)
  | forLoop _ ih => exact ih stack hstack
  | forNothing _ _ ih => exact ih stack hstack
  | forVariables _ _ _ ih₁ ih₂ =>
      exact (ih₁ (.openParen :: stack) nofun).trans (ih₂ stack hstack)
  | forInVariable _ _ ih₁ ih₂ => exact (ih₁ (.openParen :: stack) nofun).trans (ih₂ stack hstack)
  | forPrefixed _ _ _ _ ih₁ ih₂ ih₃ =>
      exact (ih₁ (.openParen :: stack) nofun).trans
        ((ih₂ (.openParen :: stack) nofun).trans (ih₃ stack hstack))
  | forExpression _ _ _ _ _ _ _ _ ih₁ ih₂ ih₃ ih₄ =>
      exact (ih₁ (.openParen :: stack) nofun).trans ((ih₂ (.openParen :: stack) nofun).trans
        ((ih₃ (.openParen :: stack) nofun).trans (ih₄ stack hstack)))
  | forInExpression _ _ _ _ _ ih₁ ih₂ =>
      exact (ih₁ (.openParen :: stack) nofun).trans (ih₂ stack hstack)
  | forRest _ _ _ ih₁ ih₂ ih₃ =>
      exact (ih₁ (.openParen :: stack) nofun).trans
        ((ih₂ (.openParen :: stack) nofun).trans (ih₃ stack hstack))
  | forInRest _ _ ih₁ ih₂ => exact (ih₁ (.openParen :: stack) nofun).trans (ih₂ stack hstack)
  | expressionAbsent _ => rfl
  | expressionPresent _ _ ih => exact ih stack nofun
  | jumpBare hk _ _ ih => obtain rfl | rfl := hk <;> exact ih stack nofun
  | jumpLabel hk _ ih => obtain rfl | rfl := hk <;> exact ih stack nofun
  | returnNothing _ _ ih => exact ih stack nofun
  | returnValue _ _ _ ih₁ ih₂ => exact (ih₁ stack nofun).trans (ih₂ stack nofun)
  | throwValue _ _ ih₁ ih₂ => exact (ih₁ stack nofun).trans (ih₂ stack nofun)
  | withObject _ _ ih₁ ih₂ => exact (ih₁ stack nofun).trans (ih₂ stack hstack)
  | switch _ _ ih₁ ih₂ => exact (ih₁ stack nofun).trans (ih₂ stack nofun)
  | clausesEnd => rfl
  | clausesCase _ _ _ ih₁ ih₂ ih₃ =>
      exact (ih₁ (.openBrace :: stack) nofun).trans
        ((ih₂ (.openBrace :: stack) fun _ => nofun).trans (ih₃ stack nofun))
  | clausesDefault _ _ ih₁ ih₂ =>
      exact (ih₁ (.openBrace :: stack) fun _ => nofun).trans (ih₂ stack nofun)
  | tryCatch _ _ _ _ ih₁ ih₂ ih₃ =>
      exact (ih₁ stack nofun).trans ((ih₂ stack nofun).trans (ih₃ stack nofun))
  | handlerAbsent _ => rfl
  | handlerPresent _ ih => exact ih stack nofun
  | finalizerAbsent _ => rfl
  | finalizerPresent _ ih => exact ih stack nofun
  | declaration _ ih => exact ih stack nofun

end Parser
end EcmaSyntax
