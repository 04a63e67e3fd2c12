import EcmaSyntax.Proofs.Grammar.Nodes

/-!
# How the grammar puts trees together

**Building.**  `Builds` says that something is built from some nodes and from what some items stand
for.  It knows nodes, their children and lists of source elements, and no nonterminals.  So a
property of trees is followed through the few things that can happen to them, and the expansions of
the grammar are gone through once.

**Lists.**  A list of source elements claims the comments in front of its elements and at its end.
It is told from nodes that only stand side by side, and from the same list in its braces.

**Results.**
* `Derives.noComment`: what is parsed as a statement is no comment.
* `Derives.builds`: whatever the grammar derives is built.
-/

namespace EcmaSyntax

namespace Node

/-- The comment that a node is, if it is one. -/
def comment? : Node → Option Comment
  | statement (.comment c) => some c
  | _ => none

/-- The list of statements that belongs to a node, if there is one. -/
def body? : Node → Option (List Statement)
  | program p => some p.body
  | statement (.block body) => some body
  | statement (.function f) => some f.body
  | expression (.function f) => some f.body
  | property (.getter _ body) => some body
  | property (.setter _ _ body) => some body
  | clause c => some c.body
  | handler c => some c.body
  | _ => none

/-- Whether a node is a choice with an alternative. -/
def isFullChoice : Node → Bool
  | statement (.ifElse _ _ (some _)) => true
  | _ => false

/-- Whether nothing belongs to a node but its children. -/
def isPlain (n : Node) : Bool :=
  n.comment?.isNone && n.body?.isNone && !n.isFullChoice

theorem isPlain_iff {n : Node} :
    n.isPlain ↔ n.comment? = none ∧ n.body? = none ∧ n.isFullChoice = false := by
  simp [isPlain, and_assoc]

/-- A node to which a list of statements belongs is no comment and no choice. -/
theorem not_of_body? {n : Node} {ss : List Statement} (h : n.body? = some ss) :
    n.comment? = none ∧ n.isFullChoice = false := by
  unfold body? at h
  split at h <;> first | exact ⟨rfl, rfl⟩ | cases h

end Node

namespace Parser

/-- The nodes of a list of statements. -/
abbrev statementNodes (ss : List Statement) : List Node := ss.map .statement

theorem statementNodes_cons (s : Statement) (ss : List Statement) :
    statementNodes (s :: ss) = .statement s :: statementNodes ss := List.map_cons

theorem statementNodes_append (ss ss' : List Statement) :
    statementNodes (ss ++ ss') = statementNodes ss ++ statementNodes ss' := List.map_append

/-- Whether an item claims comments. -/
def Item.isClaim : Item → Bool
  | .comments _ => true
  | _ => false

theorem suffix_of_cons {it : Item} {r m : List Item} (h : it :: r <:+ m) : r <:+ m :=
  (List.suffix_cons it r).trans h

theorem suffix_cons_of {it : Item} {r m : List Item} (h : r <:+ m) : r <:+ it :: m :=
  h.trans (List.suffix_cons it m)

/-! ## Building -/

/-- What is built. -/
inductive Built where
  /-- Nodes that stand side by side. -/
  | nodes (ns : List Node)
  /-- Source elements up to one of some tokens. -/
  | list (stops : List TokenKind) (ss : List Statement)
  /-- Source elements in braces. -/
  | body (ss : List Statement)

/-- From some nodes, and from some items on to others, something is built. -/
inductive Builds (last : TokenKind) : List Node → List Item → Built → List Item → Prop
  | here {ns : List Node} {i : List Item} : Builds last ns i (.nodes ns) i
  | token {lead ns : List Node} {it : Item} {i r : List Item} :
      it.isClaim = false → Builds last lead i (.nodes ns) r →
      Builds last lead (it :: i) (.nodes ns) r
  | trans {lead mid ns : List Node} {i m r : List Item} :
      Builds last lead i (.nodes mid) m → Builds last mid m (.nodes ns) r →
      Builds last lead i (.nodes ns) r
  | append {lead ns ns' : List Node} {i m r : List Item} :
      Builds last lead i (.nodes ns) m → Builds last [] m (.nodes ns') r →
      Builds last lead i (.nodes (ns ++ ns')) r
  | node {lead : List Node} {n : Node} {i r : List Item} :
      n.isPlain → Builds last lead i (.nodes n.children) r → Builds last lead i (.nodes [n]) r
  -- an `else` stands behind the consequent
  | choice {room : Nat} {test : Expression} {consequent alternate : Statement} {t : Text}
      {i m m' r : List Item} :
      Derives last room (.rule .statement) m consequent (.taken .kwElse t :: m') →
      Builds last [] i (.nodes [.expression test, .statement consequent, .statement alternate]) r →
      Builds last [] i (.nodes [.statement (.ifElse test consequent (some alternate))]) r
  -- source elements
  | stop {stops : List TokenKind} {cs : List Comment} {i : List Item} :
      peek last i ∈ stops →
      Builds last [] (.comments cs :: i) (.list stops (cs.map .comment)) i
  | more {room : Nat} {stops : List TokenKind} {cs : List Comment} {s : Statement}
      {ss : List Statement} {i m r : List Item} :
      peek last i ∉ stops →
      Derives last room .element i s m → Derives last room (.elements stops) m ss r →
      Builds last [] i (.nodes [.statement s]) m → Builds last [] m (.list stops ss) r →
      Builds last [] (.comments cs :: i) (.list stops (cs.map .comment ++ s :: ss)) r
  | braces {ss : List Statement} {t t' : Text} {i r : List Item} :
      Builds last [] i (.list [.closeBrace] ss) (.taken .closeBrace t' :: r) →
      Builds last [] (.taken .openBrace t :: i) (.body ss) r
  | params {ss : List Statement} {i m r : List Item} :
      Builds last [] i (.nodes []) m → Builds last [] m (.body ss) r → Builds last [] i (.body ss) r
  | owner {n : Node} {ss : List Statement} {i r : List Item} :
      n.body? = some ss → n.children = statementNodes ss →
      Builds last [] i (.body ss) r → Builds last [] i (.nodes [n]) r
  | clause {test : Option Expression} {ss : List Statement} {t : Text} {i m r : List Item} :
      Builds last [] i (.nodes (Node.ofOption test)) (.taken .colon t :: m) →
      Builds last [] m (.list clauseStops ss) r → Builds last [] i (.nodes [.clause ⟨test, ss⟩]) r

namespace Builds

variable {last : TokenKind} {lead ns : List Node} {i m r : List Item} {k : TokenKind} {t : Text}

theorem taken (h : Builds last lead i (.nodes ns) r) :
    Builds last lead (.taken k t :: i) (.nodes ns) r :=
  .token rfl h

/-- A token behind a part is left out as one in front of it. -/
theorem drop (h : Builds last lead i (.nodes ns) (.taken k t :: r)) :
    Builds last lead i (.nodes ns) r :=
  h.trans (.token rfl .here)

/-- What ends a statement adds no node. -/
theorem terminated (h : Builds last lead i (.nodes ns) m) (hend : Builds last [] m (.nodes []) r) :
    Builds last lead i (.nodes ns) r :=
  List.append_nil ns ▸ h.append hend

/-- A node without children is built from nothing. -/
theorem leaf {n : Node} (hn : n.isPlain) (hleaf : n.children = []) :
    Builds last [] r (.nodes [n]) r :=
  .node hn (hleaf ▸ .here)

theorem apply {op : InfixOperator} {left right : Expression}
    (h : Builds last [] i (.nodes [.expression right]) r) :
    Builds last [.expression left] i (.nodes [.expression (op.apply left right)]) r := by
  cases op <;> exact .node rfl (.append .here h)

theorem jump (hk : k = .kwContinue ∨ k = .kwBreak) (label : Option Text) :
    Builds last [] r (.nodes [.statement (jumpTo k label)]) r := by
  obtain rfl | rfl := hk <;> exact .leaf rfl rfl

theorem defaultClause {ss : List Statement} (h : Builds last [] m (.list clauseStops ss) r) :
    Builds last [] (.taken .colon t :: m) (.nodes [.clause ⟨none, ss⟩]) r :=
  .clause .here h

theorem forLoop {init : Option ForInit} {test update : Option Expression} {body : Statement}
    {m' m'' : List Item} (ht : Builds last [] i (.nodes (Node.ofOption test)) m)
    (hu : Builds last [] m (.nodes (Node.ofOption update)) m')
    (hb : Builds last [] m' (.nodes [.statement body]) m'') :
    Builds last (initNodes init) i (.nodes [.statement (.forLoop init test update body)]) m'' := by
  have hinit : Builds last (initNodes init) i (.nodes (initNodes init)) i := .here
  have hparts := ((hinit.append ht).append hu).append hb
  obtain _ | ds | e := init <;> exact .node rfl hparts

theorem forIn {target : ForTarget} {object : Expression} {body : Statement}
    (ho : Builds last [] i (.nodes [.expression object]) m)
    (hb : Builds last [] m (.nodes [.statement body]) r) :
    Builds last [targetNode target] i (.nodes [.statement (.forIn target object body)]) r := by
  have htarget : Builds last [targetNode target] i (.nodes [targetNode target]) i := .here
  have hparts := htarget.append (ho.append hb)
  cases target <;> exact .node rfl hparts

/-- What is built takes items from the head of a list. -/
theorem suffix {b : Built} (h : Builds last lead i b r) : r <:+ i := by
  induction h with
  | here => exact List.suffix_refl _
  | token _ _ ih => exact suffix_cons_of ih
  | trans _ _ ih₁ ih₂ => exact ih₂.trans ih₁
  | append _ _ ih₁ ih₂ => exact ih₂.trans ih₁
  | node _ _ ih => exact ih
  | choice _ _ ih => exact ih
  | stop _ => exact List.suffix_cons _ _
  | more _ _ _ _ _ ih₁ ih₂ => exact suffix_cons_of (ih₂.trans ih₁)
  | braces _ ih => exact suffix_cons_of (suffix_of_cons ih)
  | params _ _ ih₁ ih₂ => exact ih₂.trans ih₁
  | owner _ _ _ ih => exact ih
  | clause _ _ ih₁ ih₂ => exact ih₂.trans (suffix_of_cons ih₁)

end Builds

/-! ## Derivations -/

/-- What is parsed as a statement is no comment. -/
def Nonterminal.NoComment : (n : Nonterminal) → n.Tree → Prop
  | .rule r, tree => (ruleNode r tree).comment? = none
  | .body r, tree => (ruleNode r tree).comment? = none
  | .element, s => (Node.statement s).comment? = none
  | .forHeader, s => (Node.statement s).comment? = none
  | .forRest _, s => (Node.statement s).comment? = none
  | .forInRest _, s => (Node.statement s).comment? = none
  | _, _ => True

theorem Derives.noComment {last : TokenKind} {room : Nat} {n : Nonterminal} {i r : List Item}
    {tree : n.Tree} (h : Derives last room n i tree r) : n.NoComment tree := by
  induction h with
  | jumpBare hk | jumpLabel hk => obtain rfl | rfl := hk <;> rfl
  -- these yield what their last part yields
  | nested _ ih => exact ih
  | elementFunction _ _ ih => exact ih
  | elementStatement _ _ ih => exact ih
  | forLoop _ ih => exact ih
  | forNothing _ _ ih => exact ih
  | forVariables _ _ _ _ ih => exact ih
  | forInVariable _ _ _ ih => exact ih
  | forPrefixed _ _ _ _ _ _ ih => exact ih
  | forExpression _ _ _ _ _ _ _ _ _ _ _ ih => exact ih
  | forInExpression _ _ _ _ _ _ ih => exact ih
  -- any other node has a constructor of its own
  | _ => first | exact True.intro | rfl

/-- What a part of the grammar builds.  An array is built as its elements. -/
def Nonterminal.built : (n : Nonterminal) → n.Tree → Built
  | .elements stops, ss => .list stops ss
  | .blockBody, ss => .body ss
  | .function _, f => .body (Function.body f)
  | .arrayElements, es => .nodes (Expression.array es).children
  | n, tree => .nodes (n.nodes tree)

/-- Whatever the grammar derives is built. -/
theorem Derives.builds {last : TokenKind} {room : Nat} {n : Nonterminal} {i r : List Item}
    {tree : n.Tree} (h : Derives last room n i tree r) :
    Builds last n.leadNodes i (n.built tree) r := by
  induction h with
  | nested _ ih => exact ih
  -- sequences and lists
  | sequenceEnd _ => exact .here
  | sequenceMore _ _ ih => exact .node rfl (.append .here ih)
  | operandsEnd _ => exact .here
  | operandsMore _ _ ih₁ ih₂ => exact (ih₁.append ih₂).taken
  | expression _ _ ih₁ ih₂ => exact ih₁.trans ih₂
  | parenthesized _ ih => exact ih.drop.taken
  | argumentsNone => exact .taken (.taken .here)
  | argumentsSome _ _ _ ih₁ ih₂ => exact (ih₁.append ih₂).taken
  | argumentsEnd => exact .taken .here
  | argumentsMore _ _ ih₁ ih₂ => exact (ih₁.append ih₂).taken
  -- statement lists and functions
  | elementFunction _ _ ih => exact ih
  | elementStatement _ _ ih => exact ih
  | elementsEnd hk => exact .stop hk
  | elementsMore hk hs hss ih₁ ih₂ => exact .more hk hs hss ih₁ ih₂
  | blockBody _ ih => exact .braces ih
  | functionNamed _ _ ih₁ ih₂ => exact .params ih₁.taken.taken ih₂
  | functionPlain _ _ ih₁ ih₂ => exact .params ih₁.taken ih₂
  | parametersNone => exact .taken (.taken .here)
  | parametersSome _ ih => exact ih.taken.taken
  | parametersEnd => exact .taken .here
  | parametersMore _ ih => exact ih.taken.taken
  -- literals with parts
  | arrayEnd _ => exact .here
  | arrayHole _ ih => exact (Builds.append (.leaf rfl rfl) ih).taken
  | arrayLast _ _ _ _ _ ih₁ ih₂ => exact ih₁.append ih₂
  | arrayMore _ _ _ _ ih₁ ih₂ => exact ih₁.drop.append ih₂
  | propertyInit _ _ ih => exact (Builds.node rfl ih).taken.taken
  | propertyGetter _ _ ih => exact (Builds.owner rfl rfl ih).taken.taken.taken.taken
  | propertySetter _ _ ih => exact (Builds.owner rfl rfl ih).taken.taken.taken.taken.taken
  | membersEnd _ => exact .here
  | membersLast _ _ _ _ ih₁ ih₂ => exact ih₁.append ih₂
  | membersMore _ _ _ ih₁ ih₂ => exact ih₁.drop.append ih₂
  -- primary expressions
  | primaryThis => exact .taken (.leaf rfl rfl)
  | primaryName => exact .taken (.leaf rfl rfl)
  | primaryNull => exact .taken (.leaf rfl rfl)
  | primaryTrue => exact .taken (.leaf rfl rfl)
  | primaryFalse => exact .taken (.leaf rfl rfl)
  | primaryNumber _ => exact .taken (.leaf rfl rfl)
  | primaryString => exact .taken (.leaf rfl rfl)
  | primaryRegex => exact .token rfl (.leaf rfl rfl)
  | primaryArray _ ih => exact (Builds.node rfl ih.drop).taken
  | primaryObject _ _ ih => exact (Builds.node rfl ih.drop).taken
  | primaryFunction _ _ _ ih => exact .owner rfl rfl ih
  | primaryParenthesized _ _ ih => exact ih
  -- left-hand sides
  | memberEnd _ _ => exact .here
  | memberDot _ ih => exact .token rfl ((Builds.node rfl .here).trans ih)
  | memberBracket _ _ ih₁ ih₂ =>
      exact ((Builds.node rfl (.append .here ih₁.drop)).trans ih₂).taken
  | callEnd _ => exact .here
  | callMore _ _ _ _ ih₁ ih₂ ih₃ =>
      exact (Builds.node rfl (.append .here ih₁)).trans (ih₂.trans ih₃)
  | headNew _ _ ih => exact ih
  | headPrimary _ _ ih => exact ih
  | leftHandSide _ _ _ ih₁ ih₂ ih₃ => exact ih₁.trans (ih₂.trans ih₃)
  | constructionApplied _ _ _ _ ih₁ ih₂ ih₃ =>
      exact (Builds.node rfl ((ih₁.trans ih₂).append ih₃)).taken
  | constructionBare _ _ _ ih₁ ih₂ => exact .taken (.node rfl (ih₁.trans ih₂))
  -- operators
  | postfixEnd _ => exact .here
  | postfixMore _ => exact .taken (.node rfl .here)
  | unaryPrefix _ _ ih => exact (Builds.node rfl ih).taken
  | unaryPostfix _ _ _ ih₁ ih₂ => exact ih₁.trans ih₂
  | binaryEnd _ => exact .here
  | binaryMore _ _ _ _ ih₁ ih₂ ih₃ => exact ((Builds.apply (ih₁.trans ih₂)).trans ih₃).taken
  | conditionalEnd _ => exact .here
  | conditionalMore _ _ ih₁ ih₂ =>
      exact (Builds.node rfl (.append .here (ih₁.drop.append ih₂))).taken
  | operatorsRest _ _ ih₁ ih₂ => exact ih₁.trans ih₂
  | assignMore _ _ ih => exact (Builds.node rfl (.append .here ih)).taken
  | assignEnd _ _ _ ih₁ ih₂ => exact ih₁.trans ih₂
  | assignmentPrefixed _ _ _ ih₁ ih₂ => exact ih₁.trans ih₂
  | assignmentPlain _ _ _ ih₁ ih₂ => exact ih₁.trans ih₂
  -- declared variables
  | declaratorPlain _ => exact .taken (.leaf rfl rfl)
  | declaratorInit _ ih => exact (Builds.node rfl ih).taken.taken
  | declarators _ _ ih₁ ih₂ => exact ih₁.append ih₂
  | declaratorsEnd _ => exact .here
  | declaratorsMore _ _ ih₁ ih₂ => exact (ih₁.append ih₂).taken
  -- statements
  | ended => exact .token rfl .here
  | inserted => exact .token rfl .here
  | block _ _ ih => exact .owner rfl rfl ih
  | declare _ _ ih₁ ih₂ => exact (Builds.node rfl (ih₁.terminated ih₂)).taken
  | empty => exact .taken (.leaf rfl rfl)
  | labelled _ _ _ ih => exact (Builds.node rfl ih).taken.taken
  | expressionStatement _ _ _ _ ih₁ ih₂ => exact .node rfl (ih₁.terminated ih₂)
  | debugger _ ih => exact (Builds.node rfl ih).taken
  | ifThen _ _ _ ih₁ ih₂ => exact (Builds.node rfl (ih₁.append ih₂)).taken
  | ifElse _ hc _ ih₁ ih₂ ih₃ => exact (Builds.choice hc (ih₁.append (ih₂.drop.append ih₃))).taken
  | doWhile _ _ _ ih₁ ih₂ ih₃ =>
      exact (Builds.node rfl (ih₁.drop.append (ih₂.terminated ih₃))).taken
  | whileDo _ _ ih₁ ih₂ => exact (Builds.node rfl (ih₁.append ih₂)).taken
  | forLoop _ ih => exact ih.taken.taken
  | forNothing _ _ ih => exact ih
  | forVariables _ _ _ ih₁ ih₂ => exact (ih₁.trans ih₂).taken
  | forInVariable _ _ ih₁ ih₂ => exact (ih₁.drop.trans ih₂).taken
  | forPrefixed _ _ _ _ ih₁ ih₂ ih₃ => exact ih₁.trans (ih₂.trans ih₃)
  | forExpression _ _ _ _ _ _ _ _ ih₁ ih₂ ih₃ ih₄ =>
      exact ih₁.trans (ih₂.trans (ih₃.trans ih₄))
  | forInExpression _ _ _ _ _ ih₁ ih₂ => exact ih₁.drop.trans ih₂
  | forRest _ _ _ ih₁ ih₂ ih₃ => exact (Builds.forLoop ih₁.drop ih₂.drop ih₃).taken
  | forInRest _ _ ih₁ ih₂ => exact .forIn ih₁.drop ih₂
  | expressionAbsent _ => exact .here
  | expressionPresent _ _ ih => exact ih
  | jumpBare hk _ _ ih => exact (ih.trans (.jump hk none)).taken
  | jumpLabel hk _ ih => exact (ih.trans (.jump hk _)).taken.taken
  | returnNothing _ _ ih => exact (Builds.node rfl ih).taken
  | returnValue _ _ _ ih₁ ih₂ => exact (Builds.node rfl (ih₁.terminated ih₂)).taken
  | throwValue _ _ ih₁ ih₂ => exact (Builds.node rfl (ih₁.terminated ih₂)).taken
  | withObject _ _ ih₁ ih₂ => exact (Builds.node rfl (ih₁.append ih₂)).taken
  | switch _ _ ih₁ ih₂ => exact (Builds.node rfl (ih₁.drop.append ih₂)).taken
  | clausesEnd => exact .taken .here
  | clausesCase _ _ _ ih₁ ih₂ ih₃ =>
      exact ((Builds.clause ih₁ ih₂).append ih₃).taken
  | clausesDefault _ _ ih₁ ih₂ =>
      exact ((Builds.defaultClause ih₁).append ih₂).taken
  | tryCatch _ _ _ _ ih₁ ih₂ ih₃ =>
      exact (Builds.node rfl ((Builds.owner rfl rfl ih₁).append (ih₂.append ih₃))).taken
  | handlerAbsent _ => exact .here
  | handlerPresent _ ih =>
      exact (Builds.owner rfl rfl ih).taken.taken.taken.taken
  | finalizerAbsent _ => exact .here
  | finalizerPresent _ ih => exact (Builds.owner rfl rfl ih).taken
  | declaration _ ih => exact .owner rfl rfl ih

/-- A derivation takes items from the head of its input. -/
theorem Derives.suffix {last : TokenKind} {room : Nat} {n : Nonterminal} {i r : List Item}
    {tree : n.Tree} (h : Derives last room n i tree r) : r <:+ i :=
  h.builds.suffix

end Parser
end EcmaSyntax
