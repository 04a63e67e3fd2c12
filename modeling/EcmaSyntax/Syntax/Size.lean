import EcmaSyntax.Syntax.Node

/-!
# Size of a syntax tree

**Measure.**  `Node.size` counts a node and the nodes below it.  It is defined on the
constructors of the tree and not through `Node.children`.

**Result.**  `Node.size_lt_of_mem_children`: each child is smaller than its parent, so a
walk over children comes to an end.
-/

namespace EcmaSyntax

/-! ## Size -/

mutual

/-- Number of nodes of an expression. -/
def Expression.size : Expression → Nat
  | .this => 1
  | .identifier _ => 1
  | .null => 1
  | .boolean _ => 1
  | .number _ => 1
  | .string _ => 1
  | .regex _ _ => 1
  | .array elements => 1 + elementsSize elements
  | .object properties => 1 + propertiesSize properties
  | .function f => 1 + f.size
  | .unary _ operand _ => 1 + operand.size
  | .binary left _ right => 1 + left.size + right.size
  | .logical left _ right => 1 + left.size + right.size
  | .assign target _ value => 1 + target.size + value.size
  | .conditional test consequent alternate => 1 + test.size + consequent.size + alternate.size
  | .dot base _ => 1 + base.size
  | .bracket base index => 1 + base.size + index.size
  | .call callee args => 1 + callee.size + expressionsSize args
  | .construct callee args => 1 + callee.size + expressionsSize args
  | .sequence operands => 1 + expressionsSize operands

/-- Number of nodes of a statement. -/
def Statement.size : Statement → Nat
  | .block body => 1 + statementsSize body
  | .declare ds => 1 + declaratorsSize ds
  | .empty => 1
  | .expression e => 1 + e.size
  | .ifElse test consequent alternate =>
      1 + test.size + consequent.size + optionStatementSize alternate
  | .doWhile body test => 1 + body.size + test.size
  | .whileDo test body => 1 + test.size + body.size
  | .forLoop init test update body =>
      1 + optionInitSize init + optionExpressionSize test + optionExpressionSize update + body.size
  | .forIn target object body => 1 + target.size + object.size + body.size
  | .continueTo _ => 1
  | .breakTo _ => 1
  | .returnWith value => 1 + optionExpressionSize value
  | .withObject object body => 1 + object.size + body.size
  | .switch discriminant clauses => 1 + discriminant.size + clausesSize clauses
  | .labelled _ body => 1 + body.size
  | .throwWith value => 1 + value.size
  | .tryCatch guarded handler finalizer =>
      1 + guarded.size + optionHandlerSize handler + optionStatementSize finalizer
  | .debugger => 1
  | .function f => 1 + f.size
  | .comment _ => 1

/-- Number of nodes of a property. -/
def Property.size : Property → Nat
  | .init _ value => 1 + value.size
  | .getter _ body => 1 + statementsSize body
  | .setter _ _ body => 1 + statementsSize body

/-- Number of nodes of a loop's initial part. -/
def ForInit.size : ForInit → Nat
  | .declared ds => declaratorsSize ds
  | .expression e => e.size

/-- Number of nodes of an enumerating loop's target. -/
def ForTarget.size : ForTarget → Nat
  | .declared d => d.size
  | .expression e => e.size

/-- Number of nodes of a declarator. -/
def Declarator.size : Declarator → Nat
  | ⟨_, initializer⟩ => 1 + optionExpressionSize initializer

/-- Number of nodes of a clause. -/
def SwitchClause.size : SwitchClause → Nat
  | ⟨test, body⟩ => 1 + optionExpressionSize test + statementsSize body

/-- Number of nodes of a handler. -/
def CatchClause.size : CatchClause → Nat
  | ⟨_, body⟩ => 1 + statementsSize body

/-- Number of nodes in a function's body. -/
def Function.size : Function → Nat
  | ⟨_, _, body⟩ => statementsSize body

/-- Number of nodes of a statement list. -/
def statementsSize : List Statement → Nat
  | [] => 0
  | s :: body => s.size + statementsSize body

/-- Number of nodes of an expression list. -/
def expressionsSize : List Expression → Nat
  | [] => 0
  | e :: es => e.size + expressionsSize es

/-- Number of nodes of the elements of an array. -/
def elementsSize : List (Option Expression) → Nat
  | [] => 0
  | none :: es => 1 + elementsSize es
  | some e :: es => e.size + elementsSize es

/-- Number of nodes of a property list. -/
def propertiesSize : List Property → Nat
  | [] => 0
  | p :: ps => p.size + propertiesSize ps

/-- Number of nodes of a declarator list. -/
def declaratorsSize : List Declarator → Nat
  | [] => 0
  | d :: ds => d.size + declaratorsSize ds

/-- Number of nodes of a clause list. -/
def clausesSize : List SwitchClause → Nat
  | [] => 0
  | c :: cs => c.size + clausesSize cs

/-- Number of nodes of an optional expression. -/
def optionExpressionSize : Option Expression → Nat
  | none => 0
  | some e => e.size

/-- Number of nodes of an optional statement. -/
def optionStatementSize : Option Statement → Nat
  | none => 0
  | some s => s.size

/-- Number of nodes of an optional initial part. -/
def optionInitSize : Option ForInit → Nat
  | none => 0
  | some i => i.size

/-- Number of nodes of an optional handler. -/
def optionHandlerSize : Option CatchClause → Nat
  | none => 0
  | some c => c.size

end

/-- Number of nodes of a tree. -/
def Node.size : Node → Nat
  | program p => 1 + statementsSize p.body
  | statement s => s.size
  | expression e => e.size
  | elision => 1
  | property p => p.size
  | declarator d => d.size
  | clause c => c.size
  | handler c => c.size

/-! ## Children are smaller -/

theorem size_le_statementsSize {s : Statement} {body : List Statement} (h : s ∈ body) :
    s.size ≤ statementsSize body := by
  induction body with
  | nil => cases h
  | cons t body ih =>
      rw [statementsSize]
      rcases List.mem_cons.1 h with rfl | h
      · omega
      · have := ih h
        omega

theorem size_le_expressionsSize {e : Expression} {es : List Expression} (h : e ∈ es) :
    e.size ≤ expressionsSize es := by
  induction es with
  | nil => cases h
  | cons f es ih =>
      rw [expressionsSize]
      rcases List.mem_cons.1 h with rfl | h
      · omega
      · have := ih h
        omega

theorem size_le_propertiesSize {p : Property} {ps : List Property} (h : p ∈ ps) :
    p.size ≤ propertiesSize ps := by
  induction ps with
  | nil => cases h
  | cons q ps ih =>
      rw [propertiesSize]
      rcases List.mem_cons.1 h with rfl | h
      · omega
      · have := ih h
        omega

theorem size_le_declaratorsSize {d : Declarator} {ds : List Declarator} (h : d ∈ ds) :
    d.size ≤ declaratorsSize ds := by
  induction ds with
  | nil => cases h
  | cons d' ds ih =>
      rw [declaratorsSize]
      rcases List.mem_cons.1 h with rfl | h
      · omega
      · have := ih h
        omega

theorem size_le_clausesSize {c : SwitchClause} {cs : List SwitchClause} (h : c ∈ cs) :
    c.size ≤ clausesSize cs := by
  induction cs with
  | nil => cases h
  | cons d cs ih =>
      rw [clausesSize]
      rcases List.mem_cons.1 h with rfl | h
      · omega
      · have := ih h
        omega

theorem size_le_elementsSize {e : Expression} {es : List (Option Expression)}
    (h : some e ∈ es) : e.size ≤ elementsSize es := by
  induction es with
  | nil => cases h
  | cons f es ih =>
      rcases List.mem_cons.1 h with rfl | h
      · rw [elementsSize]
        omega
      · have := ih h
        cases f <;> rw [elementsSize] <;> omega

theorem one_le_elementsSize {es : List (Option Expression)} (h : none ∈ es) :
    1 ≤ elementsSize es := by
  induction es with
  | nil => cases h
  | cons f es ih =>
      rcases List.mem_cons.1 h with rfl | h
      · rw [elementsSize]
        omega
      · have := ih h
        cases f <;> rw [elementsSize] <;> omega

namespace Node

theorem size_le_of_mem_statements {n : Node} {body : List Statement}
    (h : n ∈ body.map Node.statement) : n.size ≤ statementsSize body := by
  obtain ⟨s, hs, rfl⟩ := List.mem_map.1 h
  exact size_le_statementsSize hs

theorem size_le_of_mem_expressions {n : Node} {es : List Expression}
    (h : n ∈ es.map Node.expression) : n.size ≤ expressionsSize es := by
  obtain ⟨e, he, rfl⟩ := List.mem_map.1 h
  exact size_le_expressionsSize he

theorem size_le_of_mem_declarators {n : Node} {ds : List Declarator}
    (h : n ∈ ds.map Node.declarator) : n.size ≤ declaratorsSize ds := by
  obtain ⟨d, hd, rfl⟩ := List.mem_map.1 h
  exact size_le_declaratorsSize hd

theorem size_le_of_mem_ofOption {n : Node} {e : Option Expression} (h : n ∈ ofOption e) :
    n.size ≤ optionExpressionSize e := by
  cases e with
  | none => simp [ofOption] at h
  | some e =>
      simp only [ofOption, Option.map_some, Option.toList_some, List.mem_singleton] at h
      subst h
      exact Nat.le_refl _

theorem size_lt_of_mem_statement_children {n : Node} {s : Statement} (h : n ∈ s.children) :
    n.size < s.size := by
  cases s with
  | block body =>
      have := size_le_of_mem_statements h
      simp only [Statement.size]
      omega
  | declare ds =>
      have := size_le_of_mem_declarators h
      simp only [Statement.size]
      omega
  | empty => cases h
  | expression e =>
      simp only [Statement.children, List.mem_singleton] at h
      subst h
      simp only [Statement.size, Node.size]
      omega
  | ifElse test consequent alternate =>
      simp only [Statement.children, List.mem_cons] at h
      rcases h with rfl | rfl | h
      · simp only [Statement.size, Node.size]
        omega
      · simp only [Statement.size, Node.size]
        omega
      · cases alternate with
        | none => cases h
        | some a =>
            simp only [Option.map_some, Option.toList_some, List.mem_singleton] at h
            subst h
            simp only [Statement.size, Node.size, optionStatementSize]
            omega
  | doWhile body test =>
      simp only [Statement.children, List.mem_cons, List.not_mem_nil, or_false] at h
      rcases h with rfl | rfl <;> simp only [Statement.size, Node.size] <;> omega
  | whileDo test body =>
      simp only [Statement.children, List.mem_cons, List.not_mem_nil, or_false] at h
      rcases h with rfl | rfl <;> simp only [Statement.size, Node.size] <;> omega
  | forLoop init test update body =>
      simp only [Statement.children, List.mem_append, List.mem_singleton] at h
      simp only [Statement.size]
      rcases h with ((h | h) | h) | rfl
      · cases init with
        | none => cases h
        | some i =>
            cases i with
            | declared ds =>
                have := size_le_of_mem_declarators h
                simp only [optionInitSize, ForInit.size]
                omega
            | expression e =>
                simp only [List.mem_singleton] at h
                subst h
                simp only [optionInitSize, ForInit.size, Node.size]
                omega
      · have := size_le_of_mem_ofOption h
        omega
      · have := size_le_of_mem_ofOption h
        omega
      · simp only [Node.size]
        omega
  | forIn target object body =>
      simp only [Statement.children, List.mem_cons, List.not_mem_nil, or_false] at h
      simp only [Statement.size]
      rcases h with rfl | rfl | rfl
      · cases target <;> simp only [Node.size, ForTarget.size] <;> omega
      · simp only [Node.size]
        omega
      · simp only [Node.size]
        omega
  | continueTo label => cases h
  | breakTo label => cases h
  | returnWith value =>
      have := size_le_of_mem_ofOption h
      simp only [Statement.size]
      omega
  | withObject object body =>
      simp only [Statement.children, List.mem_cons, List.not_mem_nil, or_false] at h
      rcases h with rfl | rfl <;> simp only [Statement.size, Node.size] <;> omega
  | switch discriminant clauses =>
      simp only [Statement.children, List.mem_cons, List.mem_map] at h
      simp only [Statement.size]
      rcases h with rfl | ⟨c, hc, rfl⟩
      · simp only [Node.size]
        omega
      · have := size_le_clausesSize hc
        simp only [Node.size]
        omega
  | labelled label body =>
      simp only [Statement.children, List.mem_singleton] at h
      subst h
      simp only [Statement.size, Node.size]
      omega
  | throwWith value =>
      simp only [Statement.children, List.mem_singleton] at h
      subst h
      simp only [Statement.size, Node.size]
      omega
  | tryCatch guarded handler finalizer =>
      simp only [Statement.children, List.cons_append, List.mem_cons, List.mem_append] at h
      simp only [Statement.size]
      rcases h with rfl | h | h
      · simp only [Node.size]
        omega
      · cases handler with
        | none => cases h
        | some c =>
            simp only [Option.map_some, Option.toList_some, List.mem_singleton] at h
            subst h
            simp only [optionHandlerSize, Node.size]
            omega
      · cases finalizer with
        | none => cases h
        | some f =>
            simp only [Option.map_some, Option.toList_some, List.mem_singleton] at h
            subst h
            simp only [optionStatementSize, Node.size]
            omega
  | debugger => cases h
  | function f =>
      obtain ⟨name, params, body⟩ := f
      have : n.size ≤ statementsSize body := size_le_of_mem_statements h
      simp only [Statement.size, Function.size]
      omega
  | comment c => cases h

theorem size_lt_of_mem_expression_children {n : Node} {e : Expression} (h : n ∈ e.children) :
    n.size < e.size := by
  cases e with
  | this => cases h
  | identifier name => cases h
  | null => cases h
  | boolean value => cases h
  | number value => cases h
  | string value => cases h
  | regex pattern flags => cases h
  | array elements =>
      simp only [Expression.children, List.mem_map] at h
      simp only [Expression.size]
      obtain ⟨element, hmem, rfl⟩ := h
      cases element with
      | none =>
          have := one_le_elementsSize hmem
          simp only [Node.size]
          omega
      | some e =>
          have := size_le_elementsSize hmem
          simp only [Node.size]
          omega
  | object properties =>
      simp only [Expression.children, List.mem_map] at h
      obtain ⟨p, hp, rfl⟩ := h
      have := size_le_propertiesSize hp
      simp only [Expression.size, Node.size]
      omega
  | function f =>
      obtain ⟨name, params, body⟩ := f
      have : n.size ≤ statementsSize body := size_le_of_mem_statements h
      simp only [Expression.size, Function.size]
      omega
  | unary operator operand isPostfix =>
      simp only [Expression.children, List.mem_singleton] at h
      subst h
      simp only [Expression.size, Node.size]
      omega
  | binary left operator right =>
      simp only [Expression.children, List.mem_cons, List.not_mem_nil, or_false] at h
      rcases h with rfl | rfl <;> simp only [Expression.size, Node.size] <;> omega
  | logical left operator right =>
      simp only [Expression.children, List.mem_cons, List.not_mem_nil, or_false] at h
      rcases h with rfl | rfl <;> simp only [Expression.size, Node.size] <;> omega
  | assign target operator value =>
      simp only [Expression.children, List.mem_cons, List.not_mem_nil, or_false] at h
      rcases h with rfl | rfl <;> simp only [Expression.size, Node.size] <;> omega
  | conditional test consequent alternate =>
      simp only [Expression.children, List.mem_cons, List.not_mem_nil, or_false] at h
      rcases h with rfl | rfl | rfl <;> simp only [Expression.size, Node.size] <;> omega
  | dot base property =>
      simp only [Expression.children, List.mem_singleton] at h
      subst h
      simp only [Expression.size, Node.size]
      omega
  | bracket base index =>
      simp only [Expression.children, List.mem_cons, List.not_mem_nil, or_false] at h
      rcases h with rfl | rfl <;> simp only [Expression.size, Node.size] <;> omega
  | call callee args =>
      simp only [Expression.children, List.mem_cons] at h
      simp only [Expression.size]
      rcases h with rfl | h
      · simp only [Node.size]
        omega
      · have := size_le_of_mem_expressions h
        omega
  | construct callee args =>
      simp only [Expression.children, List.mem_cons] at h
      simp only [Expression.size]
      rcases h with rfl | h
      · simp only [Node.size]
        omega
      · have := size_le_of_mem_expressions h
        omega
  | sequence operands =>
      have := size_le_of_mem_expressions h
      simp only [Expression.size]
      omega

/-- Each child is smaller than its parent. -/
theorem size_lt_of_mem_children {n parent : Node} (h : n ∈ parent.children) :
    n.size < parent.size := by
  cases parent with
  | program p =>
      change n.size < 1 + statementsSize p.body
      have := size_le_of_mem_statements h
      omega
  | statement s => exact size_lt_of_mem_statement_children h
  | expression e => exact size_lt_of_mem_expression_children h
  | elision => cases h
  | property p =>
      cases p with
      | init key value =>
          rw [List.mem_singleton.1 h]
          change value.size < (Property.init key value).size
          simp only [Property.size]
          omega
      | getter key body =>
          change n.size < (Property.getter key body).size
          have := size_le_of_mem_statements h
          simp only [Property.size]
          omega
      | setter key param body =>
          change n.size < (Property.setter key param body).size
          have := size_le_of_mem_statements h
          simp only [Property.size]
          omega
  | declarator d =>
      obtain ⟨name, initializer⟩ := d
      change n.size < (Declarator.mk name initializer).size
      have : n.size ≤ optionExpressionSize initializer := size_le_of_mem_ofOption h
      simp only [Declarator.size]
      omega
  | clause c =>
      obtain ⟨test, body⟩ := c
      change n.size < (SwitchClause.mk test body).size
      simp only [SwitchClause.size]
      rcases List.mem_append.1 h with h | h
      · have : n.size ≤ optionExpressionSize test := size_le_of_mem_ofOption h
        omega
      · have : n.size ≤ statementsSize body := size_le_of_mem_statements h
        omega
  | handler c =>
      obtain ⟨param, body⟩ := c
      change n.size < (CatchClause.mk param body).size
      have : n.size ≤ statementsSize body := size_le_of_mem_statements h
      simp only [CatchClause.size]
      omega

end Node

end EcmaSyntax
