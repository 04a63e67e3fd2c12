import EcmaSyntax.Proofs.Endings
import EcmaSyntax.Proofs.Grammar.Builds

/-!
# What may follow a part of the grammar

**Grafts.**  `Grafted old new its its'` says that `its'` has the items `new` in the place of the
items `old` at the end of `its`.  A part of the grammar that ends with a token of its own looks at
the token behind it only to see whether it goes on: with an alternative, a handler or a final block.

**Input.**  A derivation, and items that may stand behind what it takes.

**Results.**
* `Derives.grafts`: a part of the grammar takes the same items in front of others, if the token
  behind them is the same, or if the part ends with a token of its own and the token behind it does
  not go on with it.
* `Derives.ends`, `Derives.opens`: how what a part takes ends, and how a source element starts.
* `Derives.splits`: a list of source elements ends with the comments behind its last element, and
  the elements may stand in front of others.
-/

namespace EcmaSyntax
namespace Parser

/-! ## Grafts -/

/-- Kinds of tokens that go on with a statement that is whole without them. -/
def goesOn : TokenKind → Bool
  | .kwElse | .kwCatch | .kwFinally => true
  | _ => false

/-- The same items stand in front of others. -/
inductive Grafted (old new : List Item) : List Item → List Item → Prop
  | here : Grafted old new old new
  | cons (it : Item) {its its' : List Item} :
      Grafted old new its its' → Grafted old new (it :: its) (it :: its')

namespace Grafted

variable {old new its its' : List Item}

theorem append_eq (h : Grafted old new its its') : ∃ own, its = own ++ old ∧ its' = own ++ new := by
  induction h with
  | here => exact ⟨[], rfl, rfl⟩
  | cons it _ ih =>
      obtain ⟨own, rfl, rfl⟩ := ih
      exact ⟨it :: own, rfl, rfl⟩

/-- The token at hand is the same, or it is that of the items at the end. -/
theorem peek_eq_or (last last' : TokenKind) (h : Grafted old new its its') :
    peek last' its' = peek last its ∨ peek last' its' = peek last' new := by
  induction h with
  | here => exact .inr rfl
  | cons it _ ih => cases it <;> first | exact .inl rfl | exact ih

end Grafted

/-- The same items stand in front of others, and the token at hand is the same.  Behind a part that
ends itself it may be any that does not go on with the part. -/
structure Fits (last last' : TokenKind) (old new : List Item) (ends : Bool)
    (its its' : List Item) : Prop where
  grafted : Grafted old new its its'
  peek : peek last' its' = peek last its ∨ ends ∧ goesOn (peek last' new) = false

namespace Fits

variable {last last' : TokenKind} {old new its its' : List Item} {ends : Bool}

theorem peek_eq (h : Fits last last' old new false its its') :
    Parser.peek last' its' = Parser.peek last its := by
  obtain h | ⟨⟨⟩, -⟩ := h.peek
  exact h

theorem peek_ne {k : TokenKind} (h : Fits last last' old new ends its its') (hk : goesOn k)
    (hp : Parser.peek last its ≠ k) : Parser.peek last' its' ≠ k := by
  rintro rfl
  obtain heq | ⟨-, hnew⟩ := h.peek
  · exact hp heq.symm
  · obtain heq | heq := h.grafted.peek_eq_or last last'
    · exact hp heq.symm
    · rw [heq, hnew] at hk
      cases hk

theorem loose (h : Fits last last' old new false its its') :
    Fits last last' old new ends its its' :=
  ⟨h.grafted, .inl h.peek_eq⟩

theorem cons {b : Bool} {it : Item} (hit : it.isClaim = false)
    (h : Fits last last' old new ends its its') :
    Fits last last' old new b (it :: its) (it :: its') := by
  refine ⟨.cons it h.grafted, .inl ?_⟩
  cases it <;> first | rfl | cases hit

theorem comments {cs : List Comment} (h : Fits last last' old new ends its its') :
    Fits last last' old new ends (.comments cs :: its) (.comments cs :: its') :=
  ⟨.cons _ h.grafted, h.peek⟩

end Fits

/-- Parts of the grammar that end with a token of their own, a semicolon or a part that does. -/
def Nonterminal.endsItself : Nonterminal → Bool
  | .rule r => !r.exit
  | .body r => !r.exit
  | .element | .blockBody | .function _ | .terminator => true
  | .forHeader | .forRest _ | .forInRest _ | .clauses _ => true
  | .handler | .finalizer => true
  | _ => false

/-- Parts of the grammar that need not be there. -/
def Nonterminal.isOptional : Nonterminal → Bool
  | .handler | .finalizer => true
  | _ => false

/-- In front of others as well, the same items are taken from one list on to another one, and what
holds of the two lists holds of them there.  Whether what takes them ends itself says what may stand
behind them, and whether it is optional says the same of the token that it starts with. -/
def Grafting (last last' : TokenKind) (old new : List Item) (ends optional : Bool)
    (i r : List Item) (holds : List Item → List Item → Prop) : Prop :=
  ∀ r', Fits last last' old new ends r r' →
    ∃ i', Fits last last' old new optional i i' ∧ holds i' r'

namespace Grafting

variable {last last' : TokenKind} {old new i m n r : List Item} {a b c d : Bool} {k : TokenKind}
  {t : Text} {it : Item} {holds holds' holds₁ holds₂ holds₃ : List Item → List Item → Prop}

theorem here (h : ∀ {r'}, Fits last last' old new a r r' → holds r' r') :
    Grafting last last' old new a a r r holds :=
  fun r' hr => ⟨r', hr, h hr⟩

theorem imp (h : Grafting last last' old new a b i r holds)
    (himp : ∀ {i' r'}, Fits last last' old new b i i' → Fits last last' old new a r r' →
      holds i' r' → holds' i' r') : Grafting last last' old new a b i r holds' := by
  intro r' hr
  obtain ⟨i', hi, hholds⟩ := h r' hr
  exact ⟨i', hi, himp hi hr hholds⟩

theorem comp (h : Grafting last last' old new b c i m holds)
    (h' : Grafting last last' old new a b m r holds') :
    Grafting last last' old new a c i r
      fun i' r' => ∃ m', Fits last last' old new b m m' ∧ holds i' m' ∧ holds' m' r' := by
  intro r' hr
  obtain ⟨m', hm, hholds'⟩ := h' r' hr
  obtain ⟨i', hi, hholds⟩ := h m' hm
  exact ⟨i', hi, m', hm, hholds, hholds'⟩

theorem imp₂ (h : Grafting last last' old new a b i r
      fun i' r' => ∃ m', Fits last last' old new c m m' ∧ holds₁ i' m' ∧ holds₂ m' r')
    (himp : ∀ {i' m' r'}, Fits last last' old new b i i' → Fits last last' old new a r r' →
      Fits last last' old new c m m' → holds₁ i' m' → holds₂ m' r' → holds i' r') :
    Grafting last last' old new a b i r holds := by
  refine h.imp fun hi hr hholds => ?_
  obtain ⟨m', hm, h₁, h₂⟩ := hholds
  exact himp hi hr hm h₁ h₂

theorem imp₃ (h : Grafting last last' old new a b i r
      fun i' r' => ∃ n', Fits last last' old new d n n' ∧
        (∃ m', Fits last last' old new c m m' ∧ holds₁ i' m' ∧ holds₂ m' n') ∧ holds₃ n' r')
    (himp : ∀ {i' m' n' r'}, Fits last last' old new b i i' → Fits last last' old new a r r' →
      Fits last last' old new c m m' → holds₁ i' m' → holds₂ m' n' → holds₃ n' r' → holds i' r') :
    Grafting last last' old new a b i r holds := by
  refine h.imp₂ fun hi hr _ hholds h₃ => ?_
  obtain ⟨m', hm, h₁, h₂⟩ := hholds
  exact himp hi hr hm h₁ h₂ h₃

/-- What may stand behind a part that ends itself includes what may stand behind any. -/
theorem loose (h : Grafting last last' old new a b i r holds) :
    Grafting last last' old new false b i r holds :=
  fun r' hr => h r' hr.loose

theorem item (hit : it.isClaim = false)
    (h : Grafting last last' old new a b i r fun i' r' => holds (it :: i') r') :
    Grafting last last' old new a false (it :: i) r holds := by
  intro r' hr
  obtain ⟨i', hi, hholds⟩ := h r' hr
  exact ⟨it :: i', hi.cons hit, hholds⟩

theorem token (h : Grafting last last' old new a b i r fun i' r' => holds (.taken k t :: i') r') :
    Grafting last last' old new a false (.taken k t :: i) r holds :=
  item rfl h

/-- A part that need not be there may be. -/
theorem optional (h : Grafting last last' old new a false i r holds) :
    Grafting last last' old new a b i r holds := by
  intro r' hr
  obtain ⟨i', hi, hholds⟩ := h r' hr
  exact ⟨i', hi.loose, hholds⟩

/-- The token after the items is taken too. -/
theorem before (h : Grafting last last' old new a b i (.taken k t :: r) holds) :
    Grafting last last' old new c b i r fun i' r' => holds i' (.taken k t :: r') :=
  fun _ hr => h _ (hr.cons rfl)

end Grafting

/-- A part of the grammar takes the same items in front of others, unless the token behind them goes
on with it. -/
theorem Derives.grafts {last last' : TokenKind} {old new : List Item} {room : Nat} {n : Nonterminal}
    {i r : List Item} {tree : n.Tree} (h : Derives last room n i tree r) :
    Grafting last last' old new n.endsItself n.isOptional i r
      fun i' r' => Derives last' room n i' tree r' := by
  induction h with
  | nested _ ih => exact ih.imp fun _ _ d => .nested d
  -- sequences and lists
  | sequenceEnd hi => exact .here fun h => .sequenceEnd (h.peek_eq ▸ hi)
  | sequenceMore hi _ ih => exact ih.imp fun h _ d => .sequenceMore (h.peek_eq ▸ hi) d
  | operandsEnd hi => exact .here fun h => .operandsEnd (h.peek_eq ▸ hi)
  | operandsMore _ _ ih₁ ih₂ =>
      exact .token ((ih₁.comp ih₂).imp₂ fun _ _ _ d₁ d₂ => .operandsMore d₁ d₂)
  | expression _ _ ih₁ ih₂ => exact (ih₁.comp ih₂).imp₂ fun _ _ _ d₁ d₂ => .expression d₁ d₂
  | parenthesized _ ih => exact .token (ih.before.imp fun _ _ d => .parenthesized d)
  | argumentsNone => exact .token (.token (.here fun _ => .argumentsNone))
  | argumentsSome hi _ _ ih₁ ih₂ =>
      exact .token ((ih₁.comp ih₂).imp₂ fun h _ _ d₁ d₂ => .argumentsSome (h.peek_eq ▸ hi) d₁ d₂)
  | argumentsEnd => exact .token (.here fun _ => .argumentsEnd)
  | argumentsMore _ _ ih₁ ih₂ =>
      exact .token ((ih₁.comp ih₂).imp₂ fun _ _ _ d₁ d₂ => .argumentsMore d₁ d₂)
  -- statement lists and functions
  | elementFunction hi _ ih => exact ih.imp fun h _ d => .elementFunction (h.peek_eq ▸ hi) d
  | elementStatement hi _ ih => exact ih.imp fun h _ d => .elementStatement (h.peek_eq ▸ hi) d
  | elementsEnd hi =>
      exact fun _ hr => ⟨_, hr.comments, .elementsEnd (hr.peek_eq ▸ hi)⟩
  | elementsMore hi _ _ ih₁ ih₂ =>
      intro r' hr
      obtain ⟨m', hm, d₂⟩ := ih₂ r' hr
      obtain ⟨i', hi', d₁⟩ := ih₁ m' hm.loose
      exact ⟨_, hi'.comments, .elementsMore (hi'.peek_eq ▸ hi) d₁ d₂⟩
  | blockBody _ ih => exact .token (ih.before.imp fun _ _ d => .blockBody d)
  | functionNamed _ _ ih₁ ih₂ =>
      exact .token (.token ((ih₁.comp ih₂).imp₂ fun _ _ _ d₁ d₂ => .functionNamed d₁ d₂))
  | functionPlain _ _ ih₁ ih₂ =>
      exact .token ((ih₁.comp ih₂).imp₂ fun _ _ _ d₁ d₂ => .functionPlain d₁ d₂)
  | parametersNone => exact .token (.token (.here fun _ => .parametersNone))
  | parametersSome _ ih => exact .token (.token (ih.imp fun _ _ d => .parametersSome d))
  | parametersEnd => exact .token (.here fun _ => .parametersEnd)
  | parametersMore _ ih => exact .token (.token (ih.imp fun _ _ d => .parametersMore d))
  -- literals with parts
  | arrayEnd hi => exact .here fun h => .arrayEnd (h.peek_eq ▸ hi)
  | arrayHole _ ih => exact .token (ih.imp fun _ _ d => .arrayHole d)
  | arrayLast hi hi' _ hm _ ih₁ ih₂ =>
      exact (ih₁.comp ih₂).imp₂ fun h _ hm' d₁ d₂ =>
        .arrayLast (h.peek_eq ▸ hi) (h.peek_eq ▸ hi') d₁ (hm'.peek_eq ▸ hm) d₂
  | arrayMore hi hi' _ _ ih₁ ih₂ =>
      exact (ih₁.before.comp ih₂).imp₂ fun h _ _ d₁ d₂ =>
        .arrayMore (h.peek_eq ▸ hi) (h.peek_eq ▸ hi') d₁ d₂
  | propertyInit hkey _ ih => exact .token (.token (ih.imp fun _ _ d => .propertyInit hkey d))
  | propertyGetter hkey _ ih =>
      exact .token (.token (.token (.token (ih.loose.imp fun _ _ d => .propertyGetter hkey d))))
  | propertySetter hkey _ ih =>
      exact .token (.token (.token (.token (.token
        (ih.loose.imp fun _ _ d => .propertySetter hkey d)))))
  | membersEnd hi => exact .here fun h => .membersEnd (h.peek_eq ▸ hi)
  | membersLast hi _ hm _ ih₁ ih₂ =>
      exact (ih₁.comp ih₂).imp₂ fun h _ hm' d₁ d₂ =>
        .membersLast (h.peek_eq ▸ hi) d₁ (hm'.peek_eq ▸ hm) d₂
  | membersMore hi _ _ ih₁ ih₂ =>
      exact (ih₁.before.comp ih₂).imp₂ fun h _ _ d₁ d₂ => .membersMore (h.peek_eq ▸ hi) d₁ d₂
  -- primary expressions
  | primaryThis => exact .token (.here fun _ => .primaryThis)
  | primaryName => exact .token (.here fun _ => .primaryName)
  | primaryNull => exact .token (.here fun _ => .primaryNull)
  | primaryTrue => exact .token (.here fun _ => .primaryTrue)
  | primaryFalse => exact .token (.here fun _ => .primaryFalse)
  | primaryNumber hvalue => exact .token (.here fun _ => .primaryNumber hvalue)
  | primaryString => exact .token (.here fun _ => .primaryString)
  | primaryRegex => exact .item rfl (.here fun _ => .primaryRegex)
  | primaryArray _ ih => exact .token (ih.before.imp fun _ _ d => .primaryArray d)
  | primaryObject hg _ ih => exact .token (ih.before.imp fun _ _ d => .primaryObject hg d)
  | primaryFunction hg hi _ ih =>
      exact ih.loose.imp fun h _ d => .primaryFunction hg (h.peek_eq ▸ hi) d
  | primaryParenthesized hi _ ih =>
      exact ih.imp fun h _ d => .primaryParenthesized (h.peek_eq ▸ hi) d
  -- left-hand sides
  | memberEnd hi hi' =>
      exact .here fun h => .memberEnd (h.peek_eq ▸ hi) (h.peek_eq ▸ hi')
  | memberDot _ ih => exact .item rfl (ih.imp fun _ _ d => .memberDot d)
  | memberBracket _ _ ih₁ ih₂ =>
      exact .token ((ih₁.before.comp ih₂).imp₂ fun _ _ _ d₁ d₂ => .memberBracket d₁ d₂)
  | callEnd hi => exact .here fun h => .callEnd (h.peek_eq ▸ hi)
  | callMore hi _ _ _ ih₁ ih₂ ih₃ =>
      exact ((ih₁.comp ih₂).comp ih₃).imp₃ fun h _ _ d₁ d₂ d₃ =>
        .callMore (h.peek_eq ▸ hi) d₁ d₂ d₃
  | headNew hi _ ih => exact ih.imp fun h _ d => .headNew (h.peek_eq ▸ hi) d
  | headPrimary hi _ ih => exact ih.imp fun h _ d => .headPrimary (h.peek_eq ▸ hi) d
  | leftHandSide _ _ _ ih₁ ih₂ ih₃ =>
      exact ((ih₁.comp ih₂).comp ih₃).imp₃ fun _ _ _ d₁ d₂ d₃ => .leftHandSide d₁ d₂ d₃
  | constructionApplied _ _ hm _ ih₁ ih₂ ih₃ =>
      refine .token (((ih₁.comp ih₂).comp ih₃).imp fun _ _ hholds => ?_)
      obtain ⟨_, hm', ⟨_, _, d₁, d₂⟩, d₃⟩ := hholds
      exact .constructionApplied d₁ d₂ (hm'.peek_eq ▸ hm) d₃
  | constructionBare _ _ hr ih₁ ih₂ =>
      exact .token ((ih₁.comp ih₂).imp₂ fun _ hr' _ d₁ d₂ =>
        .constructionBare d₁ d₂ (hr'.peek_eq ▸ hr))
  -- operators
  | postfixEnd hi => exact .here fun h => .postfixEnd (h.peek_eq ▸ hi)
  | postfixMore hop => exact .token (.here fun _ => .postfixMore hop)
  | unaryPrefix hop _ ih => exact .token (ih.imp fun _ _ d => .unaryPrefix hop d)
  | unaryPostfix hi _ _ ih₁ ih₂ =>
      exact (ih₁.comp ih₂).imp₂ fun h _ _ d₁ d₂ => .unaryPostfix (h.peek_eq ▸ hi) d₁ d₂
  | binaryEnd hi => exact .here fun h => .binaryEnd (h.peek_eq ▸ hi)
  | binaryMore hop _ _ _ ih₁ ih₂ ih₃ =>
      exact .token (((ih₁.comp ih₂).comp ih₃).imp₃ fun _ _ _ d₁ d₂ d₃ => .binaryMore hop d₁ d₂ d₃)
  | conditionalEnd hi => exact .here fun h => .conditionalEnd (h.peek_eq ▸ hi)
  | conditionalMore _ _ ih₁ ih₂ =>
      exact .token ((ih₁.before.comp ih₂).imp₂ fun _ _ _ d₁ d₂ => .conditionalMore d₁ d₂)
  | operatorsRest _ _ ih₁ ih₂ =>
      exact (ih₁.comp ih₂).imp₂ fun _ _ _ d₁ d₂ => .operatorsRest d₁ d₂
  | assignMore hop _ ih => exact .token (ih.imp fun _ _ d => .assignMore hop d)
  | assignEnd hi _ _ ih₁ ih₂ =>
      exact (ih₁.comp ih₂).imp₂ fun h _ _ d₁ d₂ => .assignEnd (h.peek_eq ▸ hi) d₁ d₂
  | assignmentPrefixed hi _ _ ih₁ ih₂ =>
      exact (ih₁.comp ih₂).imp₂ fun h _ _ d₁ d₂ => .assignmentPrefixed (h.peek_eq ▸ hi) d₁ d₂
  | assignmentPlain hi _ _ ih₁ ih₂ =>
      exact (ih₁.comp ih₂).imp₂ fun h _ _ d₁ d₂ => .assignmentPlain (h.peek_eq ▸ hi) d₁ d₂
  -- declared variables
  | declaratorPlain hi => exact .token (.here fun h => .declaratorPlain (h.peek_eq ▸ hi))
  | declaratorInit _ ih => exact .token (.token (ih.imp fun _ _ d => .declaratorInit d))
  | declarators _ _ ih₁ ih₂ => exact (ih₁.comp ih₂).imp₂ fun _ _ _ d₁ d₂ => .declarators d₁ d₂
  | declaratorsEnd hi => exact .here fun h => .declaratorsEnd (h.peek_eq ▸ hi)
  | declaratorsMore _ _ ih₁ ih₂ =>
      exact .token ((ih₁.comp ih₂).imp₂ fun _ _ _ d₁ d₂ => .declaratorsMore d₁ d₂)
  -- statements
  | ended => exact .item rfl (.here fun _ => .ended)
  | inserted => exact .item rfl (.here fun _ => .inserted)
  | block hi _ ih => exact ih.imp fun h _ d => .block (h.peek_eq ▸ hi) d
  | declare _ _ ih₁ ih₂ => exact .token ((ih₁.comp ih₂).imp₂ fun _ _ _ d₁ d₂ => .declare d₁ d₂)
  | empty => exact .token (.here fun _ => .empty)
  | labelled _ _ ih₁ ih₂ =>
      refine (ih₁.before.comp ih₂).imp₂ fun h _ _ d₁ d₂ => ?_
      -- the name and the colon are still there
      obtain rfl := d₁.eq_name (h.peek_eq.trans rfl)
      exact .labelled d₁ d₂
  | expressionStatement hi _ hm _ ih₁ ih₂ =>
      exact (ih₁.comp ih₂).imp₂ fun h _ hm' d₁ d₂ =>
        .expressionStatement (h.peek_eq ▸ hi) d₁ (h.peek_eq ▸ hm'.peek_eq ▸ hm) d₂
  | debugger _ ih => exact .token (ih.imp fun _ _ d => .debugger d)
  | ifThen _ _ hr ih₁ ih₂ =>
      exact .token ((ih₁.comp ih₂).imp₂ fun _ hr' _ d₁ d₂ => .ifThen d₁ d₂ (hr'.peek_ne rfl hr))
  | ifElse _ _ _ ih₁ ih₂ ih₃ =>
      exact .token (((ih₁.comp ih₂.before).comp ih₃).imp₃ fun _ _ _ d₁ d₂ d₃ => .ifElse d₁ d₂ d₃)
  | doWhile _ _ _ ih₁ ih₂ ih₃ =>
      exact .token (((ih₁.before.comp ih₂).comp ih₃).imp₃ fun _ _ _ d₁ d₂ d₃ => .doWhile d₁ d₂ d₃)
  | whileDo _ _ ih₁ ih₂ => exact .token ((ih₁.comp ih₂).imp₂ fun _ _ _ d₁ d₂ => .whileDo d₁ d₂)
  | forLoop _ ih => exact .token (.token (ih.imp fun _ _ d => .forLoop d))
  | forNothing hi _ ih => exact ih.imp fun h _ d => .forNothing (h.peek_eq ▸ hi) d
  | forVariables _ hm _ ih₁ ih₂ =>
      exact .token ((ih₁.comp ih₂).imp₂ fun _ _ hm' d₁ d₂ =>
        .forVariables d₁ (hm'.peek_eq ▸ hm) d₂)
  | forInVariable _ _ ih₁ ih₂ =>
      exact .token ((ih₁.before.comp ih₂).imp₂ fun _ _ _ d₁ d₂ => .forInVariable d₁ d₂)
  | forPrefixed hi _ _ _ ih₁ ih₂ ih₃ =>
      exact ((ih₁.comp ih₂).comp ih₃).imp₃ fun h _ _ d₁ d₂ d₃ =>
        .forPrefixed (h.peek_eq ▸ hi) d₁ d₂ d₃
  | forExpression hi hi' hp _ hm _ _ _ ih₁ ih₂ ih₃ ih₄ =>
      refine (ih₁.comp ((ih₂.comp ih₃).comp ih₄)).imp₂ fun h _ hm' d₁ hholds => ?_
      obtain ⟨_, _, ⟨_, _, d₂, d₃⟩, d₄⟩ := hholds
      exact .forExpression (h.peek_eq ▸ hi) (h.peek_eq ▸ hi') (h.peek_eq ▸ hp) d₁
        (hm'.peek_eq ▸ hm) d₂ d₃ d₄
  | forInExpression hi hi' hp _ _ ih₁ ih₂ =>
      exact (ih₁.before.comp ih₂).imp₂ fun h _ _ d₁ d₂ =>
        .forInExpression (h.peek_eq ▸ hi) (h.peek_eq ▸ hi') (h.peek_eq ▸ hp) d₁ d₂
  | forRest _ _ _ ih₁ ih₂ ih₃ =>
      exact .token (((ih₁.before.comp ih₂.before).comp ih₃).imp₃ fun _ _ _ d₁ d₂ d₃ =>
        .forRest d₁ d₂ d₃)
  | forInRest _ _ ih₁ ih₂ =>
      exact (ih₁.before.comp ih₂).imp₂ fun _ _ _ d₁ d₂ => .forInRest d₁ d₂
  | expressionAbsent hi => exact .here fun h => .expressionAbsent (h.peek_eq ▸ hi)
  | expressionPresent hi _ ih => exact ih.imp fun h _ d => .expressionPresent (h.peek_eq ▸ hi) d
  | jumpBare hk hi _ ih => exact .token (ih.imp fun h _ d => .jumpBare hk (h.peek_eq ▸ hi) d)
  | jumpLabel hk _ ih => exact .token (.token (ih.imp fun _ _ d => .jumpLabel hk d))
  | returnNothing hi _ ih => exact .token (ih.imp fun h _ d => .returnNothing (h.peek_eq ▸ hi) d)
  | returnValue hi _ _ ih₁ ih₂ =>
      exact .token ((ih₁.comp ih₂).imp₂ fun h _ _ d₁ d₂ => .returnValue (h.peek_eq ▸ hi) d₁ d₂)
  | throwValue _ _ ih₁ ih₂ =>
      exact .token ((ih₁.comp ih₂).imp₂ fun _ _ _ d₁ d₂ => .throwValue d₁ d₂)
  | withObject _ _ ih₁ ih₂ =>
      exact .token ((ih₁.comp ih₂).imp₂ fun _ _ _ d₁ d₂ => .withObject d₁ d₂)
  | switch _ _ ih₁ ih₂ =>
      exact .token ((ih₁.before.comp ih₂).imp₂ fun _ _ _ d₁ d₂ => .switch d₁ d₂)
  | clausesEnd => exact .token (.here fun _ => .clausesEnd)
  | clausesCase _ _ _ ih₁ ih₂ ih₃ =>
      exact .token (((ih₁.before.comp ih₂).comp ih₃).imp₃ fun _ _ _ d₁ d₂ d₃ =>
        .clausesCase d₁ d₂ d₃)
  | clausesDefault _ _ ih₁ ih₂ =>
      exact .token (.token ((ih₁.comp ih₂).imp₂ fun _ _ _ d₁ d₂ => .clausesDefault d₁ d₂))
  | tryCatch _ _ _ hsome ih₁ ih₂ ih₃ =>
      -- behind the block there may be neither a handler nor a final block
      exact .token (((ih₁.comp ih₂).comp ih₃).imp₃ fun _ _ _ d₁ d₂ d₃ => .tryCatch d₁ d₂ d₃ hsome)
  | handlerAbsent hi => exact .here fun h => .handlerAbsent (h.peek_ne rfl hi)
  | handlerPresent _ ih =>
      exact .optional (.token (.token (.token (.token (ih.imp fun _ _ d => .handlerPresent d)))))
  | finalizerAbsent hi => exact .here fun h => .finalizerAbsent (h.peek_ne rfl hi)
  | finalizerPresent _ ih => exact .optional (.token (ih.imp fun _ _ d => .finalizerPresent d))
  | declaration _ ih => exact ih.imp fun _ _ d => .declaration d

/-! ## How parts of the grammar end -/

/-- Items that may stand in front of the end of a statement. -/
def Item.precedesEnding : Item → Bool
  | .taken k _ => k ≠ .semicolon
  | .member _ _ => true
  | .literal _ _ => true
  | _ => false

/-- Tokens that end a statement. -/
def Item.endsStatement : Item → Bool
  | .taken k _ => k = .closeBrace || k = .semicolon
  | _ => false

/-- The items from one list on to another one end with a token that may stand in front of the end of
a statement. -/
def EndsWithToken (i r : List Item) : Prop := ∃ it, it.precedesEnding ∧ it :: r <:+ i

/-- The items from one list on to another one end as a statement does. -/
def EndsStatement (i r : List Item) : Prop :=
  (∃ it, it.endsStatement ∧ it :: r <:+ i) ∨ ∃ e, e.isEnding ∧ EndsWithToken i (e :: r)

/-- The items from one list on to another one end with a brace. -/
def EndsWithBrace (i r : List Item) : Prop := ∃ t, .taken .closeBrace t :: r <:+ i

theorem EndsStatement.mono {i m r : List Item} (h : EndsStatement m r) (hm : m <:+ i) :
    EndsStatement i r := by
  obtain ⟨it, hit, hr⟩ | ⟨e, he, it, hit, hr⟩ := h
  · exact .inl ⟨it, hit, hr.trans hm⟩
  · exact .inr ⟨e, he, it, hit, hr.trans hm⟩

/-- What stands behind some items does not change how they end. -/
theorem EndsStatement.append_right {its x : List Item} (h : EndsStatement (its ++ x) x) :
    EndsStatement its [] := by
  have hcancel : ∀ l : List Item, l ++ x <:+ its ++ x → l <:+ its := by
    rintro l ⟨t, ht⟩
    rw [← List.append_assoc] at ht
    exact ⟨t, List.append_cancel_right ht⟩
  obtain ⟨it, hit, h⟩ | ⟨e, he, it, hit, h⟩ := h
  · exact .inl ⟨it, hit, hcancel [it] h⟩
  · exact .inr ⟨e, he, it, hit, hcancel [it, e] h⟩

/-- How the items that a part of the grammar takes end. -/
def Nonterminal.Ends : Nonterminal → List Item → List Item → Prop
  | .terminator, i, r => ∃ e, e.isEnding ∧ i = e :: r
  | .handler, i, r => i = r ∨ EndsWithBrace i r
  | .finalizer, i, r => i = r ∨ EndsWithBrace i r
  | .blockBody, i, r => EndsWithBrace i r
  | .function _, i, r => EndsWithBrace i r
  | .clauses _, i, r => EndsWithBrace i r
  | n, i, r =>
      if n.endsItself then EndsStatement i r
      else if n.exit then n.entry ∧ i = r ∨ EndsWithToken i r
      else True

theorem ne_semicolon_of_postfixOperator? {k : TokenKind} {op : UnaryOperator}
    (h : k.postfixOperator? = some op) : k ≠ .semicolon := by
  rintro rfl
  cases h

/-- The items from one list on to another one end with such a token, or there are none where there
need not be any. -/
def EndsPart (entry : Bool) (i r : List Item) : Prop := entry ∧ i = r ∨ EndsWithToken i r

namespace EndsPart

variable {a b : Bool} {it : Item} {i m r : List Item}

theorem here : EndsPart true r r := .inl ⟨rfl, rfl⟩

theorem suffix (h : EndsPart a i r) : r <:+ i := by
  obtain ⟨-, rfl⟩ | ⟨it, -, h⟩ := h
  · exact List.suffix_refl _
  · exact suffix_of_cons h

/-- A token that stands alone or in front of a part. -/
theorem token (hit : it.precedesEnding) (h : EndsPart a i r) : EndsPart b (it :: i) r := by
  obtain ⟨-, rfl⟩ | ⟨it', hit', h⟩ := h
  · exact .inr ⟨it, hit, List.suffix_refl _⟩
  · exact .inr ⟨it', hit', suffix_cons_of h⟩

/-- Items in front of a part that is there. -/
theorem behind (h : EndsPart false m r) (hm : m <:+ i) : EndsPart b i r := by
  obtain ⟨⟨⟩, -⟩ | ⟨it, hit, h⟩ := h
  exact .inr ⟨it, hit, h.trans hm⟩

theorem trans (h : EndsPart a i m) (h' : EndsPart b m r) : EndsPart (a && b) i r := by
  obtain ⟨hb, rfl⟩ | ⟨it, hit, hr⟩ := h'
  · obtain ⟨ha, rfl⟩ | h := h
    · exact .inl ⟨by rw [ha, hb]; rfl, rfl⟩
    · exact .inr h
  · exact .inr ⟨it, hit, hr.trans h.suffix⟩

theorem closed (hit : it.precedesEnding) (h : it :: r <:+ i) : EndsPart b i r :=
  .inr ⟨it, hit, h⟩

/-- The end of a statement behind a part. -/
theorem ended (h : EndsPart false i m) (hend : ∃ e, e.isEnding ∧ m = e :: r) :
    EndsStatement i r := by
  obtain ⟨e, he, rfl⟩ := hend
  obtain ⟨⟨⟩, -⟩ | h := h
  exact .inr ⟨e, he, h⟩

end EndsPart

theorem EndsWithBrace.statement {i r : List Item} (h : EndsWithBrace i r) : EndsStatement i r := by
  obtain ⟨t, h⟩ := h
  exact .inl ⟨_, rfl, h⟩

theorem EndsWithBrace.mono {i m r : List Item} (h : EndsWithBrace m r) (hm : m <:+ i) :
    EndsWithBrace i r := by
  obtain ⟨t, h⟩ := h
  exact ⟨t, h.trans hm⟩

/-- A part in braces, and what need not follow it. -/
theorem EndsWithBrace.optional {i m r : List Item} (h : EndsWithBrace i m)
    (h' : m = r ∨ EndsWithBrace m r) : EndsWithBrace i r := by
  obtain ⟨t, h⟩ := h
  obtain rfl | h' := h'
  · exact ⟨t, h⟩
  · exact h'.mono (suffix_of_cons h)

/-- A statement ends with a brace or a semicolon, and the end of one stands behind a token that is
no semicolon. -/
theorem Derives.ends {last : TokenKind} {room : Nat} {n : Nonterminal} {i r : List Item}
    {tree : n.Tree} (h : Derives last room n i tree r) : n.Ends i r := by
  induction h with
  | nested _ ih => exact ih
  -- sequences and lists
  | sequenceEnd _ => exact EndsPart.here
  | sequenceMore _ _ ih => exact ih
  | operandsEnd _ => exact EndsPart.here
  | operandsMore _ _ ih₁ ih₂ => exact EndsPart.token rfl (EndsPart.trans ih₁ ih₂)
  | expression _ _ ih₁ ih₂ => exact EndsPart.trans ih₁ ih₂
  | parenthesized h _ => exact EndsPart.closed rfl (suffix_cons_of h.suffix)
  | argumentsNone => exact EndsPart.closed rfl (List.suffix_cons _ _)
  | argumentsSome _ h _ _ ih => exact EndsPart.behind ih (suffix_cons_of h.suffix)
  | argumentsEnd => exact EndsPart.token rfl EndsPart.here
  | argumentsMore h _ _ ih => exact EndsPart.behind ih (suffix_cons_of h.suffix)
  -- statement lists and functions
  | elementFunction _ _ ih => exact ih
  | elementStatement _ _ ih => exact ih
  | blockBody h _ => exact ⟨_, suffix_cons_of h.suffix⟩
  | functionNamed h _ _ ih =>
      exact EndsWithBrace.mono ih (suffix_cons_of (suffix_cons_of h.suffix))
  | functionPlain h _ _ ih => exact EndsWithBrace.mono ih (suffix_cons_of h.suffix)
  | parametersNone => exact EndsPart.closed rfl (List.suffix_cons _ _)
  | parametersSome _ ih => exact EndsPart.token rfl (EndsPart.token (b := true) rfl ih)
  | parametersEnd => exact EndsPart.token rfl EndsPart.here
  | parametersMore _ ih => exact EndsPart.token rfl (EndsPart.token (b := true) rfl ih)
  -- primary expressions
  | primaryThis => exact EndsPart.token rfl EndsPart.here
  | primaryName => exact EndsPart.token rfl EndsPart.here
  | primaryNull => exact EndsPart.token rfl EndsPart.here
  | primaryTrue => exact EndsPart.token rfl EndsPart.here
  | primaryFalse => exact EndsPart.token rfl EndsPart.here
  | primaryNumber _ => exact EndsPart.token rfl EndsPart.here
  | primaryString => exact EndsPart.token rfl EndsPart.here
  | primaryRegex => exact EndsPart.token rfl EndsPart.here
  | primaryArray h _ => exact EndsPart.closed rfl (suffix_cons_of h.suffix)
  | primaryObject _ h _ => exact EndsPart.closed rfl (suffix_cons_of h.suffix)
  | primaryFunction _ _ _ ih =>
      obtain ⟨t, h⟩ := ih
      exact EndsPart.closed rfl h
  | primaryParenthesized _ _ ih => exact ih
  -- left-hand sides
  | memberEnd _ _ => exact EndsPart.here
  | memberDot _ ih => exact EndsPart.token rfl ih
  | memberBracket h _ _ ih =>
      exact EndsPart.trans (EndsPart.closed (b := true) rfl (suffix_cons_of h.suffix)) ih
  | callEnd _ => exact EndsPart.here
  | callMore _ _ _ _ ih₁ ih₂ ih₃ =>
      exact EndsPart.trans (a := true) (EndsPart.behind ih₁ (List.suffix_refl _))
        (EndsPart.trans ih₂ ih₃)
  | headNew _ _ ih => exact ih
  | headPrimary _ _ ih => exact ih
  | leftHandSide _ _ _ ih₁ ih₂ ih₃ => exact EndsPart.trans ih₁ (EndsPart.trans ih₂ ih₃)
  | constructionApplied h₁ h₂ _ _ _ _ ih =>
      exact EndsPart.behind ih (suffix_cons_of (h₂.suffix.trans h₁.suffix))
  | constructionBare _ _ _ ih₁ ih₂ => exact EndsPart.token rfl (EndsPart.trans ih₁ ih₂)
  -- operators
  | postfixEnd _ => exact EndsPart.here
  | postfixMore hop =>
      exact EndsPart.token (decide_eq_true (ne_semicolon_of_postfixOperator? hop)) EndsPart.here
  | unaryPrefix _ _ ih => exact EndsPart.behind ih (List.suffix_cons _ _)
  | unaryPostfix _ _ _ ih₁ ih₂ => exact EndsPart.trans ih₁ ih₂
  | binaryEnd _ => exact EndsPart.here
  | binaryMore _ _ _ _ ih₁ ih₂ ih₃ =>
      exact EndsPart.trans (a := true) (EndsPart.behind (EndsPart.trans ih₁ ih₂)
        (List.suffix_cons _ _)) ih₃
  | conditionalEnd _ => exact EndsPart.here
  | conditionalMore h _ _ ih =>
      exact EndsPart.behind ih (suffix_cons_of (suffix_of_cons h.suffix))
  | operatorsRest _ _ ih₁ ih₂ => exact EndsPart.trans ih₁ ih₂
  | assignMore _ _ ih => exact EndsPart.behind ih (List.suffix_cons _ _)
  | assignEnd _ _ _ ih₁ ih₂ => exact EndsPart.trans ih₁ ih₂
  | assignmentPrefixed _ _ _ ih₁ ih₂ => exact EndsPart.trans ih₁ ih₂
  | assignmentPlain _ _ _ ih₁ ih₂ => exact EndsPart.trans ih₁ ih₂
  -- declared variables
  | declaratorPlain _ => exact EndsPart.token rfl EndsPart.here
  | declaratorInit _ ih => exact EndsPart.behind ih (suffix_cons_of (List.suffix_cons _ _))
  | declarators _ _ ih₁ ih₂ => exact EndsPart.trans ih₁ ih₂
  | declaratorsEnd _ => exact EndsPart.here
  | declaratorsMore _ _ ih₁ ih₂ => exact EndsPart.token rfl (EndsPart.trans ih₁ ih₂)
  -- statements
  | ended => exact ⟨_, rfl, rfl⟩
  | inserted => exact ⟨_, rfl, rfl⟩
  | block _ _ ih => exact EndsWithBrace.statement ih
  | declare _ _ ih₁ ih₂ => exact EndsPart.ended (EndsPart.token rfl ih₁) ih₂
  | empty => exact .inl ⟨_, rfl, List.suffix_refl _⟩
  | labelled _ _ _ ih => exact EndsStatement.mono ih (suffix_cons_of (List.suffix_cons _ _))
  | expressionStatement _ _ _ _ ih₁ ih₂ => exact EndsPart.ended ih₁ ih₂
  | debugger _ ih => exact EndsPart.ended (EndsPart.token rfl EndsPart.here) ih
  | ifThen h _ _ _ ih => exact EndsStatement.mono ih (suffix_cons_of h.suffix)
  | ifElse h₁ h₂ _ _ _ ih =>
      exact EndsStatement.mono ih
        (suffix_cons_of ((suffix_of_cons h₂.suffix).trans h₁.suffix))
  | doWhile h _ _ _ ih₁ ih₂ =>
      exact EndsStatement.mono (EndsPart.ended ih₁ ih₂)
        (suffix_cons_of (suffix_of_cons h.suffix))
  | whileDo h _ _ ih => exact EndsStatement.mono ih (suffix_cons_of h.suffix)
  | forLoop _ ih => exact EndsStatement.mono ih (suffix_cons_of (List.suffix_cons _ _))
  | forNothing _ _ ih => exact ih
  | forVariables h _ _ _ ih => exact EndsStatement.mono ih (suffix_cons_of h.suffix)
  | forInVariable h _ _ ih =>
      exact EndsStatement.mono ih (suffix_cons_of (suffix_of_cons h.suffix))
  | forPrefixed _ h₁ h₂ _ _ _ ih => exact EndsStatement.mono ih (h₂.suffix.trans h₁.suffix)
  | forExpression _ _ _ h₁ _ h₂ h₃ _ _ _ _ ih =>
      exact EndsStatement.mono ih (h₃.suffix.trans (h₂.suffix.trans h₁.suffix))
  | forInExpression _ _ _ h _ _ ih => exact EndsStatement.mono ih (suffix_of_cons h.suffix)
  | forRest h₁ h₂ _ _ _ ih =>
      exact EndsStatement.mono ih
        (suffix_cons_of ((suffix_of_cons h₂.suffix).trans (suffix_of_cons h₁.suffix)))
  | forInRest h _ _ ih => exact EndsStatement.mono ih (suffix_of_cons h.suffix)
  | jumpBare hk _ _ ih =>
      obtain rfl | rfl := hk <;> exact EndsPart.ended (EndsPart.token rfl EndsPart.here) ih
  | jumpLabel _ _ ih =>
      exact EndsStatement.mono (EndsPart.ended (EndsPart.token rfl EndsPart.here) ih)
        (List.suffix_cons _ _)
  | returnNothing _ _ ih => exact EndsPart.ended (EndsPart.token rfl EndsPart.here) ih
  | returnValue _ _ _ ih₁ ih₂ =>
      exact EndsStatement.mono (EndsPart.ended ih₁ ih₂) (List.suffix_cons _ _)
  | throwValue _ _ ih₁ ih₂ =>
      exact EndsStatement.mono (EndsPart.ended ih₁ ih₂) (List.suffix_cons _ _)
  | withObject h _ _ ih => exact EndsStatement.mono ih (suffix_cons_of h.suffix)
  | switch h _ _ ih =>
      exact EndsWithBrace.statement
        (EndsWithBrace.mono ih (suffix_cons_of (suffix_of_cons h.suffix)))
  | clausesEnd => exact ⟨_, List.suffix_refl _⟩
  | clausesCase h₁ h₂ _ _ _ ih =>
      exact EndsWithBrace.mono ih
        (suffix_cons_of (h₂.suffix.trans (suffix_of_cons h₁.suffix)))
  | clausesDefault h _ _ ih =>
      exact EndsWithBrace.mono ih (suffix_cons_of (suffix_cons_of h.suffix))
  | tryCatch _ _ _ _ ih₁ ih₂ ih₃ =>
      have hbrace := EndsWithBrace.optional (EndsWithBrace.optional ih₁ ih₂) ih₃
      exact EndsWithBrace.statement (hbrace.mono (List.suffix_cons _ _))
  | handlerAbsent _ => exact .inl rfl
  | handlerPresent _ ih =>
      exact .inr (EndsWithBrace.mono ih
        (suffix_cons_of (suffix_cons_of (suffix_cons_of (List.suffix_cons _ _)))))
  | finalizerAbsent _ => exact .inl rfl
  | finalizerPresent _ ih => exact .inr (EndsWithBrace.mono ih (List.suffix_cons _ _))
  | declaration _ ih => exact EndsWithBrace.statement ih
  -- of the other parts it does not matter how they end
  | elementsEnd | elementsMore | arrayEnd | arrayHole | arrayLast | arrayMore | propertyInit
  | propertyGetter | propertySetter | membersEnd | membersLast | membersMore | expressionAbsent
  | expressionPresent => exact True.intro

/-! ## How source elements start -/

/-- Whether a source element may start with a token of a kind. -/
def startsElement (k : TokenKind) : Bool :=
  !(goesOn k || k = .closeBrace || k = .endOfInput)

theorem goesOn_of_startsElement {k : TokenKind} (h : startsElement k) : goesOn k = false := by
  cases hk : goesOn k with
  | false => rfl
  | true => simp [startsElement, hk] at h

/-- Items that a source element may start with. -/
def Item.opens : Item → Bool
  | .taken k _ => startsElement k
  | .literal _ _ => true
  | _ => false

/-- Parts of the grammar that a source element may start with. -/
def Nonterminal.opensElement : Nonterminal → Bool
  | .rule _ | .body _ | .expression _ | .element | .blockBody | .function _ => true
  | .parenthesized | .primary _ | .chainHead _ | .leftHandSide _ => true
  | _ => false

theorem opens_of_prefixOperator? {k : TokenKind} {op : UnaryOperator} (t : Text)
    (h : k.prefixOperator? = some op) : (Item.taken k t).opens := by
  cases k <;> first | rfl | cases h

theorem opens_of_jump {k : TokenKind} (t : Text) (h : k = .kwContinue ∨ k = .kwBreak) :
    (Item.taken k t).opens := by
  obtain rfl | rfl := h <;> rfl

/-- A source element starts with a token that may start one. -/
theorem Derives.opens {last : TokenKind} {room : Nat} {n : Nonterminal} {i r : List Item}
    {tree : n.Tree} (h : Derives last room n i tree r) (hn : n.opensElement) :
    ∃ it m, i = it :: m ∧ it.opens := by
  induction h with
  | unaryPrefix hk => exact ⟨_, _, rfl, opens_of_prefixOperator? _ hk⟩
  | jumpBare hk | jumpLabel hk => exact ⟨_, _, rfl, opens_of_jump _ hk⟩
  -- these start as their first part does
  | nested _ ih => exact ih rfl
  | expression _ _ ih _ => exact ih rfl
  | elementFunction _ _ ih => exact ih rfl
  | elementStatement _ _ ih => exact ih rfl
  | primaryFunction _ _ _ ih => exact ih rfl
  | primaryParenthesized _ _ ih => exact ih rfl
  | headNew _ _ ih => exact ih rfl
  | headPrimary _ _ ih => exact ih rfl
  | leftHandSide _ _ _ ih _ _ => exact ih rfl
  | unaryPostfix _ _ _ ih _ => exact ih rfl
  | assignmentPrefixed _ _ _ ih _ => exact ih rfl
  | assignmentPlain _ _ _ ih _ => exact ih rfl
  | block _ _ ih => exact ih rfl
  | expressionStatement _ _ _ _ ih _ => exact ih rfl
  | declaration _ ih => exact ih rfl
  -- any other part starts with a token of its own, or is none that a source element starts with
  | _ => first | exact ⟨_, _, rfl, rfl⟩ | cases hn

/-- Whether an item has a kind that the scanner gives it. -/
def Item.isScanned : Item → Bool
  | .member k _ => k.isIdentifierName
  | .literal k _ => opensRegex k
  | _ => true

/-- Items have kinds that the scanner gives them. -/
def AreScanned (its : List Item) : Prop := ∀ it ∈ its, it.isScanned

/-- A source element starts with a token that goes on with nothing and ends no list. -/
theorem Derives.element_starts {last : TokenKind} {room : Nat} {i r : List Item} {s : Statement}
    (h : Derives last room .element i s r) (hi : AreScanned i) : startsElement (peek last i) := by
  obtain ⟨it, m, rfl, hit⟩ := h.opens rfl
  cases it with
  | taken k t => exact hit
  | literal k t =>
      have hk : opensRegex k := hi _ List.mem_cons_self
      rw [peek_literal]
      cases k <;> first | rfl | cases hk
  | _ => cases hit

/-! ## Lists of source elements -/

/-- Statements are taken from some items in front of any list of source elements, unless the list
starts with a token that goes on with the last of them. -/
def Heads (room : Nat) (its : List Item) (before : List Statement) : Prop :=
  ∀ (last : TokenKind) (stops : List TokenKind) (i r : List Item) (ss : List Statement),
    (∀ k ∈ stops, startsElement k = false) → goesOn (peek last i) = false →
    Derives last room (.elements stops) i ss r →
    goesOn (peek last (its ++ i)) = false ∧
      Derives last room (.elements stops) (its ++ i) (before ++ ss) r

theorem Heads.nil {room : Nat} : Heads room [] [] := fun _ _ _ _ _ _ hi h => ⟨hi, h⟩

/-- A source element is taken in front of others. -/
theorem Heads.cons {last : TokenKind} {room : Nat} {its m x : List Item} {cs : List Comment}
    {s : Statement} {before : List Statement} (h : Heads room its before)
    (hs : Derives last room .element (m ++ x) s x) (hi : AreScanned (m ++ x)) :
    Heads room (.comments cs :: (m ++ its)) (cs.map .comment ++ s :: before) := by
  intro last' stops i r ss hstops hnext hss
  obtain ⟨hnext, hrest⟩ := h last' stops i r ss hstops hnext hss
  obtain ⟨_, hfits, hs'⟩ := hs.grafts (its ++ i) ⟨.here, .inr ⟨rfl, hnext⟩⟩
  obtain ⟨own, hown, rfl⟩ := hfits.grafted.append_eq
  obtain rfl := List.append_cancel_right hown
  have hstarts : startsElement (peek last' (m ++ (its ++ i))) := by
    rw [hfits.peek_eq]
    exact hs.element_starts hi
  rw [List.cons_append, List.append_assoc, List.append_assoc]
  refine ⟨goesOn_of_startsElement hstarts, .elementsMore (fun hstop => ?_) hs' hrest⟩
  rw [hstops _ hstop] at hstarts
  cases hstarts

/-- A list of source elements ends with comments, and the items before them end as a statement does
and may stand in front of other source elements. -/
def Nonterminal.Splits (room : Nat) : (n : Nonterminal) → List Item → n.Tree → List Item → Prop
  | .elements _, i, ss, r => AreScanned i → ∃ its cs before, i = its ++ .comments cs :: r ∧
      ss = before ++ cs.map .comment ∧ (its = [] ∨ EndsStatement its []) ∧ Heads room its before
  | _, _, _, _ => True

theorem Derives.splits {last : TokenKind} {room : Nat} {n : Nonterminal} {i r : List Item}
    {tree : n.Tree} (h : Derives last room n i tree r) : n.Splits room i tree r := by
  induction h with
  | elementsEnd => exact fun _ => ⟨[], _, [], rfl, rfl, .inl rfl, .nil⟩
  | @elementsMore room _ cs i m r s ss hstop hs hss _ ih =>
      intro hi
      obtain ⟨own, rfl⟩ := hs.suffix
      have hown : AreScanned (own ++ m) := fun it hit => hi it (List.mem_cons_of_mem _ hit)
      obtain ⟨its, cs', before, rfl, rfl, hends, hheads⟩ :=
        ih fun it hit => hown it (List.mem_append_right own hit)
      refine ⟨.comments cs :: (own ++ its), cs', cs.map .comment ++ s :: before, by simp, by simp,
        .inr ?_, hheads.cons hs hown⟩
      obtain rfl | hends := hends
      · rw [List.append_nil]
        exact hs.ends.append_right.mono (List.suffix_cons _ _)
      · exact hends.mono (suffix_cons_of (List.suffix_append _ _))
  | _ => trivial

end Parser
end EcmaSyntax
