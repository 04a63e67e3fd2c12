import EcmaSyntax.Proofs.Grammar.Nodes
import EcmaSyntax.Proofs.Reading

/-!
# Nesting of trees

**Input.**  A program that a parser yields under a limit on the number of open rules.

**Edges.**  `Node.edges` lists the children of a node, each with the number of levels between the
two.  A statement in a list, a statement in another one, an expression in a statement and most of
the expressions in another one stand a level deeper.  What an operator, an access or a call follows
does not, nor does a comment, and a hole in an array is no element.

**Paths.**  `Node.Path n k m`: there are `k` levels on a way from `n` down to `m`.

**Results.**
* `Node.edges_children`: the edges lead to the children, in the same order.
* `Derives.fits`: with room for some rules the grammar derives trees with no more levels.
* `nesting_le_limit`: no path in a program has more levels than there were rules allowed.
-/

namespace EcmaSyntax

/-! ## Edges -/

/-- The edge to a statement of a list. -/
def Statement.memberEdge (s : Statement) : Nat × Node :=
  match s with
  | .comment _ => (0, .statement s)
  | _ => (1, .statement s)

/-- The edges to expressions that may be left out. -/
def Node.optionEdges (e : Option Expression) : List (Nat × Node) :=
  e.toList.map fun e => (1, .expression e)

/-- The edges of a statement. -/
@[simp] def Statement.edges : Statement → List (Nat × Node)
  | block body => body.map memberEdge
  | declare ds => ds.map fun d => (0, .declarator d)
  | empty => []
  | expression e => [(1, .expression e)]
  | ifElse test consequent alternate =>
      (1, .expression test) :: (1, .statement consequent)
        :: alternate.toList.map fun s => (1, .statement s)
  | doWhile body test => [(1, .statement body), (1, .expression test)]
  | whileDo test body => [(1, .expression test), (1, .statement body)]
  | forLoop init test update body =>
      (Parser.initNodes init).map (fun n => (0, n)) ++ Node.optionEdges test
        ++ Node.optionEdges update ++ [(1, .statement body)]
  | forIn target object body =>
      [(0, Parser.targetNode target), (1, .expression object), (1, .statement body)]
  | continueTo _ => []
  | breakTo _ => []
  | returnWith value => Node.optionEdges value
  | withObject object body => [(1, .expression object), (1, .statement body)]
  | switch discriminant clauses =>
      (1, .expression discriminant) :: clauses.map fun c => (0, .clause c)
  | labelled _ body => [(1, .statement body)]
  | throwWith value => [(1, .expression value)]
  | tryCatch guarded handler finalizer =>
      (0, .statement guarded) :: (handler.toList.map fun c => (0, .handler c))
        ++ finalizer.toList.map fun s => (0, .statement s)
  | debugger => []
  | function f => f.body.map memberEdge
  | comment _ => []

/-- The edges of an expression. -/
@[simp] def Expression.edges : Expression → List (Nat × Node)
  | this => []
  | identifier _ => []
  | null => []
  | boolean _ => []
  | number _ => []
  | string _ => []
  | regex _ _ => []
  | array elements =>
      elements.map fun element =>
        match element with
        | some e => (1, .expression e)
        | none => (0, .elision)
  | object properties => properties.map fun p => (0, .property p)
  | function f => f.body.map Statement.memberEdge
  | unary _ operand isPostfix => [(if isPostfix then 0 else 1, .expression operand)]
  | binary left _ right => [(0, .expression left), (0, .expression right)]
  | logical left _ right => [(0, .expression left), (0, .expression right)]
  | assign target _ value => [(0, .expression target), (1, .expression value)]
  | conditional test consequent alternate =>
      [(0, .expression test), (1, .expression consequent), (1, .expression alternate)]
  | dot base _ => [(0, .expression base)]
  | bracket base index => [(0, .expression base), (1, .expression index)]
  | call callee args => (0, .expression callee) :: args.map fun e => (1, .expression e)
  | construct callee args => (0, .expression callee) :: args.map fun e => (1, .expression e)
  | sequence operands => operands.map fun e => (0, .expression e)

namespace Node

/-- The children of a node in the order of the source, with the levels between it and them. -/
@[simp] def edges : Node → List (Nat × Node)
  | program p => p.body.map Statement.memberEdge
  | statement s => s.edges
  | expression e => e.edges
  | elision => []
  | property (.init _ value) => [(1, .expression value)]
  | property (.getter _ body) => body.map Statement.memberEdge
  | property (.setter _ _ body) => body.map Statement.memberEdge
  | declarator d => optionEdges d.initializer
  | clause c => optionEdges c.test ++ c.body.map Statement.memberEdge
  | handler c => c.body.map Statement.memberEdge

theorem memberEdge_node (s : Statement) : s.memberEdge.2 = .statement s := by
  cases s <;> rfl

theorem members_children (ss : List Statement) :
    (ss.map Statement.memberEdge).map (·.2) = ss.map .statement := by
  rw [List.map_map]
  exact List.map_congr_left fun s _ => memberEdge_node s

theorem optionEdges_children (e : Option Expression) : (optionEdges e).map (·.2) = ofOption e := by
  cases e <;> rfl

/-- The edges of a node lead to its children. -/
theorem edges_children (n : Node) : n.edges.map (·.2) = n.children := by
  cases n with
  | program p => exact members_children p.body
  | statement s =>
      cases s with
      | block body => exact members_children body
      | function f => exact members_children f.body
      | ifElse _ _ alternate => cases alternate <;> rfl
      | forLoop init test update body =>
          obtain _ | _ | _ := init <;>
            simp [edges, Statement.edges, children, Statement.children, optionEdges_children,
              Parser.initNodes, Function.comp_def]
      | forIn target => cases target <;> rfl
      | returnWith value => exact optionEdges_children value
      | tryCatch _ handler finalizer => cases handler <;> cases finalizer <;> rfl
      | _ => simp [edges, Statement.edges, children, Statement.children, Function.comp_def]
  | expression e =>
      cases e with
      | function f => exact members_children f.body
      | array elements =>
          simp only [edges, Expression.edges, children, Expression.children, List.map_map]
          exact List.map_congr_left fun element _ => by cases element <;> rfl
      | _ => simp [edges, Expression.edges, children, Expression.children, Function.comp_def]
  | elision => rfl
  | property p =>
      cases p with
      | init => rfl
      | getter _ body => exact members_children body
      | setter _ _ body => exact members_children body
  | declarator d => exact optionEdges_children d.initializer
  | clause c =>
      simp only [edges, children, List.map_append, optionEdges_children, members_children]
  | handler c => exact members_children c.body

/-! ## Paths -/

/-- There is a number of levels on a way from a node down to another one. -/
inductive Path : Node → Nat → Node → Prop
  | here {n : Node} : Path n 0 n
  | step {n child m : Node} {levels k : Nat} :
      (levels, child) ∈ n.edges → Path child k m → Path n (levels + k) m

/-- No path from a node has more than some number of levels. -/
def Within (room : Nat) (n : Node) : Prop := ∀ k m, n.Path k m → k ≤ room

/-- No path that starts with an edge has more than some number of levels. -/
def Fits (room : Nat) (edge : Nat × Node) : Prop :=
  edge.1 ≤ room ∧ edge.2.Within (room - edge.1)

variable {room room' : Nat} {n : Node}

/-- The paths from a node are as short as those that start with one of its edges. -/
theorem within_of (h : ∀ edge ∈ n.edges, Fits room edge) : n.Within room := by
  intro k m hpath
  cases hpath with
  | here => exact Nat.zero_le _
  | step hedge hpath =>
      obtain ⟨hle, hwithin⟩ := h _ hedge
      have := hwithin _ _ hpath
      dsimp only at hle this
      omega

@[simp] theorem fits_zero : Fits room (0, n) ↔ n.Within room :=
  ⟨fun h => h.2, fun h => ⟨Nat.zero_le _, h⟩⟩

@[simp] theorem fits_succ : Fits (room + 1) (1, n) ↔ n.Within room :=
  ⟨fun h => h.2, fun h => ⟨Nat.succ_le_succ (Nat.zero_le _), h⟩⟩

/-- What fits a level deeper also fits here. -/
theorem Fits.within (h : Fits room (1, n)) : n.Within room :=
  fun k m hpath => Nat.le_trans (h.2 k m hpath) (Nat.sub_le _ _)

/-- A statement that fits a level deeper is a member of a list. -/
theorem Fits.member {s : Statement} (h : Fits room (1, .statement s)) :
    Fits room s.memberEdge := by
  cases s with
  | comment _ => exact fits_zero.mpr h.within
  | _ => exact h

theorem fits_comment (c : Comment) : Fits room (Statement.comment c).memberEdge :=
  fits_zero.mpr (within_of nofun)

end Node

/-! ## Derivations -/

namespace Parser

open Node

/-- The parts of a list of statements fit. -/
def MembersFit (room : Nat) (ss : List Statement) : Prop :=
  ∀ s ∈ ss, Node.Fits room s.memberEdge

/-- An expression fits a level deeper. -/
abbrev Deeper (room : Nat) (e : Expression) : Prop := Node.Fits room (1, .expression e)

/-- What a part of the grammar yields has as many levels as there is room, if what it goes on with
has. -/
@[simp] def Nonterminal.Fits (room : Nat) : (n : Nonterminal) → n.Tree → Prop
  | .rule r, tree => Node.Fits room (1, ruleNode r tree)
  | .body r, tree => (ruleNode r tree).Within room
  | .sequenceRest first _, e =>
      ((Node.expression first).Within room → (Node.expression e).Within room) ∧
        (Deeper room first → Deeper room e)
  | .operands _, es => ∀ e ∈ es, Deeper room e
  | .expression _, e => Deeper room e
  | .parenthesized, e => Deeper room e
  | .arguments, es => ∀ e ∈ es, Deeper room e
  | .argumentsRest, es => ∀ e ∈ es, Deeper room e
  | .element, s => Node.Fits room (1, .statement s)
  | .elements _, ss => MembersFit room ss
  | .blockBody, ss => MembersFit room ss
  | .function _, f => MembersFit room f.body
  | .parameters, _ => True
  | .parametersRest, _ => True
  | .arrayElements, es => ∀ e ∈ es, ∀ x ∈ e, Deeper room x
  | .property, p => (Node.property p).Within room
  | .members, ps => ∀ p ∈ ps, (Node.property p).Within room
  | .primary _, e => (Node.expression e).Within room
  | .memberTail base, e => (Node.expression base).Within room → (Node.expression e).Within room
  | .callTail base, e => (Node.expression base).Within room → (Node.expression e).Within room
  | .chainHead _, e => (Node.expression e).Within room
  | .leftHandSide _, e => (Node.expression e).Within room
  | .postfixed operand, e =>
      (Node.expression operand).Within room → (Node.expression e).Within room
  | .binary left _ _, e => (Node.expression left).Within room → (Node.expression e).Within room
  | .conditionalRest test _, e =>
      (Node.expression test).Within room → (Node.expression e).Within room
  | .operatorsRest operand _, e =>
      (Node.expression operand).Within room → (Node.expression e).Within room
  | .assignmentRest left _, e =>
      (Node.expression left).Within room → (Node.expression e).Within room
  | .declarator _, d => (Node.declarator d).Within room
  | .declarators _, ds => ∀ d ∈ ds, (Node.declarator d).Within room
  | .declaratorsRest _, ds => ∀ d ∈ ds, (Node.declarator d).Within room
  | .terminator, _ => True
  | .expressionBefore _, e => ∀ x ∈ e, Deeper room x
  | .forHeader, s => (Node.statement s).Within room
  | .forRest init, s =>
      (∀ n ∈ initNodes init, n.Within room) → (Node.statement s).Within room
  | .forInRest target, s => (targetNode target).Within room → (Node.statement s).Within room
  | .clauses _, cs => ∀ c ∈ cs, (Node.clause c).Within room
  | .handler, c => ∀ h ∈ c, (Node.handler h).Within room
  | .finalizer, s => ∀ f ∈ s, (Node.statement f).Within room

theorem fits_members {room : Nat} {ss : List Statement} (h : MembersFit room ss) :
    ∀ edge ∈ ss.map Statement.memberEdge, Node.Fits room edge :=
  List.forall_mem_map.mpr h

theorem within_block {room : Nat} {ss : List Statement} (h : MembersFit room ss) :
    (Node.statement (.block ss)).Within room :=
  within_of (fits_members h)

theorem within_apply {room : Nat} {op : InfixOperator} {left right : Expression}
    (hl : (Node.expression left).Within room) (hr : (Node.expression right).Within room) :
    (Node.expression (op.apply left right)).Within room := by
  cases op <;>
    exact within_of (by simpa [InfixOperator.apply, Node.edges, Expression.edges] using ⟨hl, hr⟩)

theorem fits_optionEdges {room : Nat} {e : Option Expression} (h : ∀ x ∈ e, Deeper room x) :
    ∀ edge ∈ Node.optionEdges e, Node.Fits room edge := by
  cases e with
  | none => exact nofun
  | some e => exact List.forall_mem_singleton.mpr (h e rfl)

theorem within_jumpTo {room : Nat} {k : TokenKind} {label : Option Text} :
    (Node.statement (jumpTo k label)).Within room := by
  unfold jumpTo
  split <;> exact within_of nofun

theorem within_tryCatch {room : Nat} {ss : List Statement} {handler : Option CatchClause}
    {finalizer : Option Statement} (hs : MembersFit room ss)
    (hh : ∀ c ∈ handler, (Node.handler c).Within room)
    (hf : ∀ s ∈ finalizer, (Node.statement s).Within room) :
    (Node.statement (.tryCatch (.block ss) handler finalizer)).Within room := by
  refine within_of fun edge hedge => ?_
  simp only [Node.edges, Statement.edges, List.mem_append, List.mem_cons, List.mem_map,
    Option.mem_toList] at hedge
  obtain (rfl | ⟨c, hc, rfl⟩) | ⟨s, hs', rfl⟩ := hedge
  · exact fits_zero.mpr (within_block hs)
  · exact fits_zero.mpr (hh c hc)
  · exact fits_zero.mpr (hf s hs')

/-- With room for some rules the grammar derives trees with no more levels. -/
theorem Derives.fits {last : TokenKind} {room : Nat} {n : Nonterminal} {i r : List Item}
    {tree : n.Tree} (h : Derives last room n i tree r) : n.Fits room tree := by
  induction h with
  | nested _ ih => exact fits_succ.mpr ih
  -- sequences and lists
  | sequenceEnd _ => exact ⟨id, id⟩
  | sequenceMore _ _ ih =>
      refine ⟨fun hfirst => within_of ?_, fun hfirst => ⟨hfirst.1, within_of ?_⟩⟩
      · exact List.forall_mem_map.mpr (List.forall_mem_cons.mpr
          ⟨fits_zero.mpr hfirst, fun e he => fits_zero.mpr (ih e he).within⟩)
      · exact List.forall_mem_map.mpr (List.forall_mem_cons.mpr
          ⟨fits_zero.mpr hfirst.2, fun e he => fits_zero.mpr (ih e he).2⟩)
  | operandsEnd _ => exact List.forall_mem_nil _
  | operandsMore _ _ ih₁ ih₂ => exact List.forall_mem_cons.mpr ⟨ih₁, ih₂⟩
  | expression _ _ ih₁ ih₂ => exact ih₂.2 ih₁
  | parenthesized _ ih => exact ih
  | argumentsNone => exact List.forall_mem_nil _
  | argumentsSome _ _ _ ih₁ ih₂ => exact List.forall_mem_cons.mpr ⟨ih₁, ih₂⟩
  | argumentsEnd => exact List.forall_mem_nil _
  | argumentsMore _ _ ih₁ ih₂ => exact List.forall_mem_cons.mpr ⟨ih₁, ih₂⟩
  -- statement lists and functions
  | elementFunction _ _ ih => exact ih
  | elementStatement _ _ ih => exact ih
  | elementsEnd _ => exact List.forall_mem_map.mpr fun c _ => fits_comment c
  | elementsMore _ _ _ ih₁ ih₂ =>
      exact List.forall_mem_append.mpr ⟨List.forall_mem_map.mpr fun c _ => fits_comment c,
        List.forall_mem_cons.mpr ⟨ih₁.member, ih₂⟩⟩
  | blockBody _ ih => exact ih
  | functionNamed _ _ _ ih => exact ih
  | functionPlain _ _ _ ih => exact ih
  | parametersNone => exact trivial
  | parametersSome _ _ => exact trivial
  | parametersEnd => exact trivial
  | parametersMore _ _ => exact trivial
  -- literals with parts
  | arrayEnd _ => exact List.forall_mem_nil _
  | arrayHole _ ih => exact List.forall_mem_cons.mpr ⟨nofun, ih⟩
  | arrayLast _ _ _ _ _ ih₁ ih₂ => exact List.forall_mem_cons.mpr ⟨forall_mem_some ih₁, ih₂⟩
  | arrayMore _ _ _ _ ih₁ ih₂ => exact List.forall_mem_cons.mpr ⟨forall_mem_some ih₁, ih₂⟩
  | propertyInit _ _ ih => exact within_of (List.forall_mem_singleton.mpr ih)
  | propertyGetter _ _ ih => exact within_of (fits_members ih)
  | propertySetter _ _ ih => exact within_of (fits_members ih)
  | membersEnd _ => exact List.forall_mem_nil _
  | membersLast _ _ _ _ ih₁ ih₂ => exact List.forall_mem_cons.mpr ⟨ih₁, ih₂⟩
  | membersMore _ _ _ ih₁ ih₂ => exact List.forall_mem_cons.mpr ⟨ih₁, ih₂⟩
  -- primary expressions
  | primaryThis => exact within_of nofun
  | primaryName => exact within_of nofun
  | primaryNull => exact within_of nofun
  | primaryTrue => exact within_of nofun
  | primaryFalse => exact within_of nofun
  | primaryNumber _ => exact within_of nofun
  | primaryString => exact within_of nofun
  | primaryRegex => exact within_of nofun
  | primaryArray _ ih =>
      refine within_of (List.forall_mem_map.mpr fun element helement => ?_)
      cases element with
      | none => exact fits_zero.mpr (within_of nofun)
      | some e => exact ih (some e) helement e rfl
  | primaryObject _ _ ih => exact within_of (by simpa using ih)
  | primaryFunction _ _ _ ih => exact within_of (fits_members ih)
  | primaryParenthesized _ _ ih => exact ih.within
  -- left-hand sides
  | memberEnd _ _ => exact id
  | memberDot _ ih =>
      intro hbase
      exact ih (within_of (by simpa using hbase))
  | memberBracket _ _ ih₁ ih₂ =>
      intro hbase
      exact ih₂ (within_of (by simpa using ⟨hbase, ih₁⟩))
  | callEnd _ => exact id
  | callMore _ _ _ _ ih₁ ih₂ ih₃ =>
      intro hbase
      exact ih₃ (ih₂ (within_of (by simpa using ⟨hbase, ih₁⟩)))
  | headNew _ _ ih => exact ih.within
  | headPrimary _ _ ih => exact ih
  | leftHandSide _ _ _ ih₁ ih₂ ih₃ => exact ih₃ (ih₂ ih₁)
  | constructionApplied _ _ _ _ ih₁ ih₂ ih₃ =>
      exact within_of (by simpa [ruleNode] using ⟨ih₂ ih₁, ih₃⟩)
  | constructionBare _ _ _ ih₁ ih₂ =>
      exact within_of (by simpa [ruleNode] using ih₂ ih₁)
  -- operators
  | postfixEnd _ => exact id
  | postfixMore _ =>
      intro hoperand
      exact within_of (by simpa using hoperand)
  | unaryPrefix _ _ ih =>
      exact within_of (by simpa [ruleNode] using ih)
  | unaryPostfix _ _ _ ih₁ ih₂ => exact ih₂ ih₁
  | binaryEnd _ => exact id
  | binaryMore _ _ _ _ ih₁ ih₂ ih₃ => exact fun hleft => ih₃ (within_apply hleft (ih₂ ih₁))
  | conditionalEnd _ => exact id
  | conditionalMore _ _ ih₁ ih₂ =>
      intro htest
      exact within_of (by simpa using ⟨htest, ih₁, ih₂⟩)
  | operatorsRest _ _ ih₁ ih₂ => exact fun hoperand => ih₂ (ih₁ hoperand)
  | assignMore _ _ ih =>
      intro hleft
      exact within_of (by simpa using ⟨hleft, ih⟩)
  | assignEnd _ _ _ ih₁ ih₂ => exact fun hleft => ih₂ (ih₁ hleft)
  | assignmentPrefixed _ _ _ ih₁ ih₂ => exact ih₂ ih₁
  | assignmentPlain _ _ _ ih₁ ih₂ => exact ih₂ ih₁
  -- declared variables
  | declaratorPlain _ => exact within_of nofun
  | declaratorInit _ ih => exact within_of (List.forall_mem_singleton.mpr ih)
  | declarators _ _ ih₁ ih₂ => exact List.forall_mem_cons.mpr ⟨ih₁, ih₂⟩
  | declaratorsEnd _ => exact List.forall_mem_nil _
  | declaratorsMore _ _ ih₁ ih₂ => exact List.forall_mem_cons.mpr ⟨ih₁, ih₂⟩
  -- statements
  | ended => exact trivial
  | inserted => exact trivial
  | block _ _ ih => exact within_block ih
  | declare _ _ ih _ => exact within_of (by simpa [ruleNode] using ih)
  | empty => exact within_of nofun
  | labelled _ _ _ ih => exact within_of (List.forall_mem_singleton.mpr ih)
  | expressionStatement _ _ _ _ ih _ => exact within_of (List.forall_mem_singleton.mpr ih)
  | debugger => exact within_of nofun
  | ifThen _ _ _ ih₁ ih₂ =>
      exact within_of (by simpa [ruleNode] using ⟨ih₁, ih₂⟩)
  | ifElse _ _ _ ih₁ ih₂ ih₃ =>
      exact within_of (by simpa [ruleNode] using ⟨ih₁, ih₂, ih₃⟩)
  | doWhile _ _ _ ih₁ ih₂ _ =>
      exact within_of (by simpa [ruleNode] using ⟨ih₁, ih₂⟩)
  | whileDo _ _ ih₁ ih₂ =>
      exact within_of (by simpa [ruleNode] using ⟨ih₁, ih₂⟩)
  | forLoop _ ih => exact ih
  | forRest _ _ _ iht ihu ihb =>
      intro hinit
      refine within_of ?_
      simp only [Node.edges, Statement.edges, List.forall_mem_append]
      refine ⟨⟨⟨?_, fits_optionEdges iht⟩, fits_optionEdges ihu⟩, List.forall_mem_singleton.mpr ihb⟩
      exact List.forall_mem_map.mpr fun n hn => fits_zero.mpr (hinit n hn)
  | forInRest _ _ iho ihb =>
      intro htarget
      exact within_of (by simpa [ruleNode] using ⟨htarget, iho, ihb⟩)
  | forPrefixed _ _ _ _ ih₁ ih₂ ih₃ =>
      exact ih₃ (List.forall_mem_singleton.mpr (ih₂.1 ih₁.within))
  | forExpression _ _ _ _ _ _ _ _ ih₁ ih₂ ih₃ ih₄ =>
      exact ih₄ (List.forall_mem_singleton.mpr (ih₃.1 (ih₂ ih₁)))
  | forVariables _ _ _ ih₁ ih₂ => exact ih₂ (List.forall_mem_map.mpr ih₁)
  | forInVariable _ _ ih₁ ih₂ => exact ih₂ (ih₁ _ List.mem_cons_self)
  | forNothing _ _ ih => exact ih nofun
  | forInExpression _ _ _ _ _ ih₁ ih₂ => exact ih₂ ih₁
  | expressionAbsent _ => exact nofun
  | expressionPresent _ _ ih => exact forall_mem_some ih
  | jumpBare => exact within_jumpTo
  | jumpLabel => exact within_jumpTo
  | returnNothing => exact within_of nofun
  | returnValue _ _ _ ih _ => exact within_of (List.forall_mem_singleton.mpr ih)
  | throwValue _ _ ih _ => exact within_of (List.forall_mem_singleton.mpr ih)
  | withObject _ _ ih₁ ih₂ => exact within_of (by simpa [ruleNode] using ⟨ih₁, ih₂⟩)
  | switch _ _ ih₁ ih₂ => exact within_of (by simpa [ruleNode] using ⟨ih₁, ih₂⟩)
  | clausesEnd => exact List.forall_mem_nil _
  | clausesCase _ _ _ ih₁ ih₂ ih₃ =>
      exact List.forall_mem_cons.mpr
        ⟨within_of (List.forall_mem_cons.mpr ⟨ih₁, fits_members ih₂⟩), ih₃⟩
  | clausesDefault _ _ ih₁ ih₂ =>
      exact List.forall_mem_cons.mpr ⟨within_of (fits_members ih₁), ih₂⟩
  | tryCatch _ _ _ _ ih₁ ih₂ ih₃ => exact within_tryCatch ih₁ ih₂ ih₃
  | handlerAbsent _ => exact nofun
  | handlerPresent _ ih => exact forall_mem_some (within_of (fits_members ih))
  | finalizerAbsent _ => exact nofun
  | finalizerPresent _ ih => exact forall_mem_some (within_block ih)
  | declaration _ ih => exact within_of (fits_members ih)

end Parser

/-- No path in a program that a parser yields has more levels than there are rules allowed. -/
theorem nesting_le_limit {limit : Nat} {source : Text} {P : Program}
    (h : parse limit source = .ok P) : ∀ k m, (Node.program P).Path k m → k ≤ limit := by
  obtain ⟨s, hrun⟩ := parse_eq_ok_iff.mp h
  obtain ⟨its, -, hderives⟩ := Parser.run_ok_iff.mp ⟨s, hrun, rfl⟩
  have hmembers : Parser.MembersFit limit P.body := hderives.fits
  exact Node.within_of (Parser.fits_members hmembers)

/-- The limit of this source is that of its deepest node: the operand within the argument of a call
that is the body of a branch. -/
theorem nesting_le_limit_call : (parse 4 "if (a) f(-b);".toList).isOk = false ∧
    ∃ P, parse 5 "if (a) f(-b);".toList = .ok P ∧
      ∀ k m, (Node.program P).Path k m → k ≤ 5 := by
  obtain ⟨P, s, h⟩ := exists_run 5 "if (a) f(-b);".toList (by decide +kernel)
  have hparse := parse_eq_ok_iff.mpr ⟨s, h⟩
  exact ⟨by decide +kernel, P, hparse, nesting_le_limit hparse⟩

end EcmaSyntax
