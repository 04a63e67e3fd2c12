import EcmaSyntax.Proofs.SourceElements
import Mathlib.Data.List.Basic
import Mathlib.Tactic.CasesM
import Mathlib.Tactic.Choose

/-!
# Traversals

**Stores.**  `Node.Holds` says which node a field of a node holds, one rule for each field of the
syntax that can hold nodes, and `Node.Stores` is what is stored anywhere below a node, with the
fields and indices that lead there.  Neither speaks of `Node.children`.

**Dispatch.**  `Visitor.visitNode` and the four functions beside it are a visitor as it dispatches:
a node goes to the function of its class, each function is the default one or is overridden, and
each walks the children in the end.

**Results.**
* `Node.exists_listing`: a walk is the list of all that is stored, in the order of places.
* `Visitor.exists_journal`: what a visitor logs has the nodes of its classes in the same order,
  but for those that are below a logged node of a pruned kind.
* `traversal_complete`: both, for the visits that start at any node and for those of programs.
-/

namespace EcmaSyntax

/-! ## What a node stores -/

/-- A place in a node: the number of a field, among those that hold nodes, and an index in it. -/
abbrev Cell := Nat × Nat

namespace Node

/-- A node is held in a cell of another one. -/
inductive Holds : Node → Cell → Node → Prop
  | program {body : List Statement} {i : Nat} {s : Statement} (h : body[i]? = some s) :
      Holds (.program ⟨body⟩) (0, i) (.statement s)
  | block {body : List Statement} {i : Nat} {s : Statement} (h : body[i]? = some s) :
      Holds (.statement (.block body)) (0, i) (.statement s)
  | declare {ds : List Declarator} {i : Nat} {d : Declarator} (h : ds[i]? = some d) :
      Holds (.statement (.declare ds)) (0, i) (.declarator d)
  | expressionStatement {e : Expression} :
      Holds (.statement (.expression e)) (0, 0) (.expression e)
  | ifTest {test : Expression} {s : Statement} {alternate : Option Statement} :
      Holds (.statement (.ifElse test s alternate)) (0, 0) (.expression test)
  | ifConsequent {test : Expression} {s : Statement} {alternate : Option Statement} :
      Holds (.statement (.ifElse test s alternate)) (1, 0) (.statement s)
  | ifAlternate {test : Expression} {s t : Statement} :
      Holds (.statement (.ifElse test s (some t))) (2, 0) (.statement t)
  | doBody {body : Statement} {test : Expression} :
      Holds (.statement (.doWhile body test)) (0, 0) (.statement body)
  | doTest {body : Statement} {test : Expression} :
      Holds (.statement (.doWhile body test)) (1, 0) (.expression test)
  | whileTest {test : Expression} {body : Statement} :
      Holds (.statement (.whileDo test body)) (0, 0) (.expression test)
  | whileBody {test : Expression} {body : Statement} :
      Holds (.statement (.whileDo test body)) (1, 0) (.statement body)
  | forDeclarators {ds : List Declarator} {test update : Option Expression} {body : Statement}
      {i : Nat} {d : Declarator} (h : ds[i]? = some d) :
      Holds (.statement (.forLoop (some (.declared ds)) test update body)) (0, i) (.declarator d)
  | forInit {e : Expression} {test update : Option Expression} {body : Statement} :
      Holds (.statement (.forLoop (some (.expression e)) test update body)) (0, 0) (.expression e)
  | forTest {init : Option ForInit} {test : Expression} {update : Option Expression}
      {body : Statement} :
      Holds (.statement (.forLoop init (some test) update body)) (1, 0) (.expression test)
  | forUpdate {init : Option ForInit} {test : Option Expression} {update : Expression}
      {body : Statement} :
      Holds (.statement (.forLoop init test (some update) body)) (2, 0) (.expression update)
  | forBody {init : Option ForInit} {test update : Option Expression} {body : Statement} :
      Holds (.statement (.forLoop init test update body)) (3, 0) (.statement body)
  | forInDeclarator {d : Declarator} {object : Expression} {body : Statement} :
      Holds (.statement (.forIn (.declared d) object body)) (0, 0) (.declarator d)
  | forInTarget {e object : Expression} {body : Statement} :
      Holds (.statement (.forIn (.expression e) object body)) (0, 0) (.expression e)
  | forInObject {target : ForTarget} {object : Expression} {body : Statement} :
      Holds (.statement (.forIn target object body)) (1, 0) (.expression object)
  | forInBody {target : ForTarget} {object : Expression} {body : Statement} :
      Holds (.statement (.forIn target object body)) (2, 0) (.statement body)
  | returned {e : Expression} :
      Holds (.statement (.returnWith (some e))) (0, 0) (.expression e)
  | withObject {object : Expression} {body : Statement} :
      Holds (.statement (.withObject object body)) (0, 0) (.expression object)
  | withBody {object : Expression} {body : Statement} :
      Holds (.statement (.withObject object body)) (1, 0) (.statement body)
  | discriminant {e : Expression} {cs : List SwitchClause} :
      Holds (.statement (.switch e cs)) (0, 0) (.expression e)
  | clause {e : Expression} {cs : List SwitchClause} {i : Nat} {c : SwitchClause}
      (h : cs[i]? = some c) :
      Holds (.statement (.switch e cs)) (1, i) (.clause c)
  | labelled {label : Text} {body : Statement} :
      Holds (.statement (.labelled label body)) (0, 0) (.statement body)
  | thrown {e : Expression} :
      Holds (.statement (.throwWith e)) (0, 0) (.expression e)
  | guarded {s : Statement} {handler : Option CatchClause} {finalizer : Option Statement} :
      Holds (.statement (.tryCatch s handler finalizer)) (0, 0) (.statement s)
  | handled {s : Statement} {c : CatchClause} {finalizer : Option Statement} :
      Holds (.statement (.tryCatch s (some c) finalizer)) (1, 0) (.handler c)
  | finalized {s t : Statement} {handler : Option CatchClause} :
      Holds (.statement (.tryCatch s handler (some t))) (2, 0) (.statement t)
  | declaredFunction {f : Function} {i : Nat} {s : Statement} (h : f.body[i]? = some s) :
      Holds (.statement (.function f)) (0, i) (.statement s)
  | element {es : List (Option Expression)} {i : Nat} {e : Expression}
      (h : es[i]? = some (some e)) :
      Holds (.expression (.array es)) (0, i) (.expression e)
  | hole {es : List (Option Expression)} {i : Nat} (h : es[i]? = some none) :
      Holds (.expression (.array es)) (0, i) .elision
  | property {ps : List Property} {i : Nat} {p : Property} (h : ps[i]? = some p) :
      Holds (.expression (.object ps)) (0, i) (.property p)
  | functionBody {f : Function} {i : Nat} {s : Statement} (h : f.body[i]? = some s) :
      Holds (.expression (.function f)) (0, i) (.statement s)
  | operand {op : UnaryOperator} {e : Expression} {isPostfix : Bool} :
      Holds (.expression (.unary op e isPostfix)) (0, 0) (.expression e)
  | binaryLeft {l r : Expression} {op : BinaryOperator} :
      Holds (.expression (.binary l op r)) (0, 0) (.expression l)
  | binaryRight {l r : Expression} {op : BinaryOperator} :
      Holds (.expression (.binary l op r)) (1, 0) (.expression r)
  | logicalLeft {l r : Expression} {op : LogicalOperator} :
      Holds (.expression (.logical l op r)) (0, 0) (.expression l)
  | logicalRight {l r : Expression} {op : LogicalOperator} :
      Holds (.expression (.logical l op r)) (1, 0) (.expression r)
  | assignTarget {l r : Expression} {op : AssignOperator} :
      Holds (.expression (.assign l op r)) (0, 0) (.expression l)
  | assignValue {l r : Expression} {op : AssignOperator} :
      Holds (.expression (.assign l op r)) (1, 0) (.expression r)
  | conditionalTest {test e e' : Expression} :
      Holds (.expression (.conditional test e e')) (0, 0) (.expression test)
  | conditionalConsequent {test e e' : Expression} :
      Holds (.expression (.conditional test e e')) (1, 0) (.expression e)
  | conditionalAlternate {test e e' : Expression} :
      Holds (.expression (.conditional test e e')) (2, 0) (.expression e')
  | dotBase {base : Expression} {name : Text} :
      Holds (.expression (.dot base name)) (0, 0) (.expression base)
  | bracketBase {base index : Expression} :
      Holds (.expression (.bracket base index)) (0, 0) (.expression base)
  | bracketIndex {base index : Expression} :
      Holds (.expression (.bracket base index)) (1, 0) (.expression index)
  | callee {e : Expression} {es : List Expression} :
      Holds (.expression (.call e es)) (0, 0) (.expression e)
  | callArgument {e : Expression} {es : List Expression} {i : Nat} {e' : Expression}
      (h : es[i]? = some e') :
      Holds (.expression (.call e es)) (1, i) (.expression e')
  | constructor {e : Expression} {es : List Expression} :
      Holds (.expression (.construct e es)) (0, 0) (.expression e)
  | constructArgument {e : Expression} {es : List Expression} {i : Nat} {e' : Expression}
      (h : es[i]? = some e') :
      Holds (.expression (.construct e es)) (1, i) (.expression e')
  | operandAt {es : List Expression} {i : Nat} {e : Expression} (h : es[i]? = some e) :
      Holds (.expression (.sequence es)) (0, i) (.expression e)
  | propertyValue {key : PropertyKey} {e : Expression} :
      Holds (.property (.init key e)) (0, 0) (.expression e)
  | getterBody {key : PropertyKey} {body : List Statement} {i : Nat} {s : Statement}
      (h : body[i]? = some s) :
      Holds (.property (.getter key body)) (0, i) (.statement s)
  | setterBody {key : PropertyKey} {param : Text} {body : List Statement} {i : Nat}
      {s : Statement} (h : body[i]? = some s) :
      Holds (.property (.setter key param body)) (0, i) (.statement s)
  | initializer {name : Text} {e : Expression} :
      Holds (.declarator ⟨name, some e⟩) (0, 0) (.expression e)
  | clauseTest {e : Expression} {body : List Statement} :
      Holds (.clause ⟨some e, body⟩) (0, 0) (.expression e)
  | clauseBody {test : Option Expression} {body : List Statement} {i : Nat} {s : Statement}
      (h : body[i]? = some s) :
      Holds (.clause ⟨test, body⟩) (1, i) (.statement s)
  | handlerBody {param : Text} {body : List Statement} {i : Nat} {s : Statement}
      (h : body[i]? = some s) :
      Holds (.handler ⟨param, body⟩) (0, i) (.statement s)

/-- The cells that lead from a node to one that is stored below it. -/
abbrev Address := List Cell

/-- What is stored at an address in a node.  The node itself is stored at the empty one. -/
inductive Stores : Node → Address → Node → Prop
  | here {n : Node} : Stores n [] n
  | deeper {n c m : Node} {cell : Cell} {address : Address} (held : n.Holds cell c)
      (stored : c.Stores address m) : Stores n (cell :: address) m

/-- The order of addresses: a node before what is below it, and what is in a cell before what is
in one that comes later in the same node. -/
def Address.Before : Address → Address → Prop :=
  List.Lex (Prod.Lex (· < ·) (· < ·))

/-! ## The fields of a node -/

/-- What the fields of a statement hold. -/
def statementFields : Statement → List (List Node)
  | .block body => [body.map .statement]
  | .declare ds => [ds.map .declarator]
  | .expression e => [[.expression e]]
  | .ifElse test consequent alternate =>
      [[.expression test], [.statement consequent], (alternate.map Node.statement).toList]
  | .doWhile body test => [[.statement body], [.expression test]]
  | .whileDo test body => [[.expression test], [.statement body]]
  | .forLoop init test update body =>
      [match init with
        | some (.declared ds) => ds.map .declarator
        | some (.expression e) => [.expression e]
        | none => [],
        Node.ofOption test, Node.ofOption update, [.statement body]]
  | .forIn target object body =>
      [[match target with
        | .declared d => .declarator d
        | .expression e => .expression e],
        [.expression object], [.statement body]]
  | .returnWith value => [Node.ofOption value]
  | .withObject object body => [[.expression object], [.statement body]]
  | .switch discriminant clauses => [[.expression discriminant], clauses.map .clause]
  | .labelled _ body => [[.statement body]]
  | .throwWith value => [[.expression value]]
  | .tryCatch guarded caught finalizer =>
      [[.statement guarded], (caught.map Node.handler).toList,
        (finalizer.map Node.statement).toList]
  | .function f => [f.body.map .statement]
  | _ => []

/-- What the fields of an expression hold. -/
def expressionFields : Expression → List (List Node)
  | .array elements =>
      [elements.map fun element =>
        match element with
        | some e => .expression e
        | none => .elision]
  | .object properties => [properties.map .property]
  | .function f => [f.body.map .statement]
  | .unary _ operand _ => [[.expression operand]]
  | .binary left _ right => [[.expression left], [.expression right]]
  | .logical left _ right => [[.expression left], [.expression right]]
  | .assign target _ value => [[.expression target], [.expression value]]
  | .conditional test consequent alternate =>
      [[.expression test], [.expression consequent], [.expression alternate]]
  | .dot base _ => [[.expression base]]
  | .bracket base index => [[.expression base], [.expression index]]
  | .call callee args => [[.expression callee], args.map .expression]
  | .construct callee args => [[.expression callee], args.map .expression]
  | .sequence operands => [operands.map .expression]
  | _ => []

/-- What the fields of a node hold. -/
def fields : Node → List (List Node)
  | program p => [p.body.map .statement]
  | statement s => statementFields s
  | expression e => expressionFields e
  | elision => []
  | property (.init _ value) => [[.expression value]]
  | property (.getter _ body) => [body.map .statement]
  | property (.setter _ _ body) => [body.map .statement]
  | declarator d => [ofOption d.initializer]
  | clause c => [ofOption c.test, c.body.map .statement]
  | handler c => [c.body.map .statement]

theorem flatten_fields (n : Node) : n.fields.flatten = n.children := by
  cases n with
  | program p => simp [fields, children]
  | statement s =>
      cases s with
      | forLoop init => rcases init with _ | (_ | _) <;>
          simp [fields, statementFields, children, Statement.children]
      | forIn target => cases target <;> rfl
      | _ => simp [fields, statementFields, children, Statement.children]
  | expression e =>
      cases e with
      | array es =>
          have hcells := List.append_nil (es.map fun element =>
            match element with
            | some e => Node.expression e
            | none => .elision)
          exact hcells.trans (List.map_congr_left fun element _ => by cases element <;> rfl)
      | _ => simp [fields, expressionFields, children, Expression.children]
  | elision => rfl
  | property p => cases p <;> simp [fields, children]
  | declarator d => simp [fields, children]
  | clause c => simp [fields, children]
  | handler c => simp [fields, children]

/-- The nodes of some fields with the cells they are in, the first field having a given number. -/
def cellsFrom : Nat → List (List Node) → List (Cell × Node)
  | _, [] => []
  | k, field :: rest => (field.zipIdx.map fun x => ((k, x.2), x.1)) ++ cellsFrom (k + 1) rest

/-- The nodes that a node holds, with the cells they are in. -/
def cells (n : Node) : List (Cell × Node) := cellsFrom 0 n.fields

theorem cellsFrom_map_snd (k : Nat) (fs : List (List Node)) :
    (cellsFrom k fs).map (·.2) = fs.flatten := by
  induction fs generalizing k with
  | nil => rfl
  | cons field rest ih =>
      rw [cellsFrom, List.map_append, ih, List.map_map, List.flatten_cons]
      exact congrArg (· ++ rest.flatten) (List.zipIdx_map_fst 0 field)

theorem cells_map_snd (n : Node) : n.cells.map (·.2) = n.children := by
  rw [cells, cellsFrom_map_snd, flatten_fields]

theorem mem_cellsFrom_cons {k : Nat} {field : List Node} {rest : List (List Node)} {cell : Cell}
    {m : Node} : (cell, m) ∈ cellsFrom k (field :: rest) ↔
      (cell.1 = k ∧ field[cell.2]? = some m) ∨ (cell, m) ∈ cellsFrom (k + 1) rest := by
  obtain ⟨j, i⟩ := cell
  have hfield : ((j, i), m) ∈ field.zipIdx.map (fun x => ((k, x.2), x.1)) ↔
      j = k ∧ field[i]? = some m := by
    rw [← List.mem_zipIdx_iff_getElem? (x := (m, i))]
    simp only [List.mem_map, Prod.exists, Prod.mk.injEq]
    constructor
    · rintro ⟨_, _, hmem, ⟨rfl, rfl⟩, rfl⟩
      exact ⟨rfl, hmem⟩
    · rintro ⟨rfl, hmem⟩
      exact ⟨m, i, hmem, ⟨rfl, rfl⟩, rfl⟩
  rw [cellsFrom, List.mem_append, hfield]

@[simp] theorem not_mem_cellsFrom_nil {k : Nat} {x : Cell × Node} : x ∉ cellsFrom k [] :=
  List.not_mem_nil

theorem le_of_mem_cellsFrom {k : Nat} {fs : List (List Node)} {x : Cell × Node}
    (h : x ∈ cellsFrom k fs) : k ≤ x.1.1 := by
  induction fs generalizing k with
  | nil => exact absurd h not_mem_cellsFrom_nil
  | cons field rest ih =>
      rcases mem_cellsFrom_cons.mp h with ⟨hk, -⟩ | hrest
      · exact Nat.le_of_eq hk.symm
      · exact Nat.le_of_succ_le (ih hrest)

theorem pairwise_zipIdx (field : List Node) (i : Nat) :
    (field.zipIdx i).Pairwise (fun x y => x.2 < y.2) := by
  induction field generalizing i with
  | nil => exact List.Pairwise.nil
  | cons m rest ih =>
      rw [List.zipIdx_cons]
      refine List.Pairwise.cons (fun x hx => ?_) (ih (i + 1))
      exact (List.mem_zipIdx hx).1

theorem pairwise_cellsFrom (k : Nat) (fs : List (List Node)) :
    (cellsFrom k fs).Pairwise (fun x y => Prod.Lex (· < ·) (· < ·) x.1 y.1) := by
  induction fs generalizing k with
  | nil => exact List.Pairwise.nil
  | cons field rest ih =>
      rw [cellsFrom, List.pairwise_append, List.pairwise_map]
      refine ⟨(pairwise_zipIdx field 0).imp fun h => .right k h, ih (k + 1), ?_⟩
      intro x hx y hy
      obtain ⟨z, -, rfl⟩ := List.mem_map.mp hx
      exact Prod.Lex.left _ _ (le_of_mem_cellsFrom hy)

theorem getElem?_single {x m : Node} {i : Nat} :
    [x][i]? = some m ↔ i = 0 ∧ x = m := by
  cases i <;> simp

theorem getElem?_option {α : Type} {f : α → Node} {o : Option α} {m : Node} {i : Nat} :
    (o.map f).toList[i]? = some m ↔ i = 0 ∧ ∃ a, o = some a ∧ f a = m := by
  cases o with
  | none => simp
  | some a => simp [getElem?_single]

theorem getElem?_list {α : Type} {f : α → Node} {l : List α} {m : Node} {i : Nat} :
    (l.map f)[i]? = some m ↔ ∃ a, l[i]? = some a ∧ f a = m := by
  rw [List.getElem?_map, Option.map_eq_some_iff]

theorem mem_cells_of_holds {n m : Node} {cell : Cell} (h : n.Holds cell m) :
    (cell, m) ∈ n.cells := by
  cases h <;> simp_all [cells, fields, statementFields, expressionFields, mem_cellsFrom_cons,
    ofOption]

theorem holds_of_mem_statement {s : Statement} {m : Node} {cell : Cell}
    (h : (cell, m) ∈ cellsFrom 0 (statementFields s)) : (Node.statement s).Holds cell m := by
  obtain ⟨k, i⟩ := cell
  -- what a loop starts with decides what its first field holds
  rcases s with _ | _ | _ | _ | _ | _ | _ | ⟨_ | (_ | _)⟩ | ⟨_ | _⟩ | _ | _ | _ | _ | _ | _ | _ |
    _ | _ | _ | _
  all_goals
    simp only [statementFields, mem_cellsFrom_cons, not_mem_cellsFrom_nil, or_false, ofOption,
      getElem?_single, getElem?_option, getElem?_list, List.getElem?_nil, reduceCtorEq, and_false,
      false_or] at h <;>
    casesm* _ ∨ _, _ ∧ _, ∃ _, _ <;> subst_vars <;> constructor <;> assumption

theorem holds_of_mem_expression {e : Expression} {m : Node} {cell : Cell}
    (h : (cell, m) ∈ cellsFrom 0 (expressionFields e)) : (Node.expression e).Holds cell m := by
  obtain ⟨k, i⟩ := cell
  cases e with
  | array es =>
      simp only [expressionFields, mem_cellsFrom_cons, not_mem_cellsFrom_nil, or_false,
        getElem?_list] at h
      obtain ⟨rfl, (_ | e), he, rfl⟩ := h
      · exact .hole he
      · exact .element he
  | _ =>
      simp only [expressionFields, mem_cellsFrom_cons, not_mem_cellsFrom_nil, or_false,
        getElem?_single, getElem?_list] at h <;>
      casesm* _ ∨ _, _ ∧ _, ∃ _, _ <;> subst_vars <;> constructor <;> assumption

/-- What the fields of a node hold is what the syntax says they hold. -/
theorem mem_cells {n m : Node} {cell : Cell} : (cell, m) ∈ n.cells ↔ n.Holds cell m := by
  refine ⟨fun h => ?_, mem_cells_of_holds⟩
  rcases n with ⟨body⟩ | s | e | _ | p | ⟨name, value⟩ | ⟨test, body⟩ | ⟨param, body⟩
  case statement => exact holds_of_mem_statement h
  case expression => exact holds_of_mem_expression h
  case' property => cases p
  all_goals
    obtain ⟨k, i⟩ := cell
    simp only [cells, fields, mem_cellsFrom_cons, not_mem_cellsFrom_nil, or_false, ofOption,
      getElem?_single, getElem?_option, getElem?_list] at h <;>
    casesm* _ ∨ _, _ ∧ _, ∃ _, _ <;> subst_vars <;> constructor <;> assumption

theorem Holds.mem_children {n m : Node} {cell : Cell} (h : n.Holds cell m) : m ∈ n.children := by
  rw [← cells_map_snd]
  exact List.mem_map.mpr ⟨_, mem_cells.mpr h, rfl⟩

/-- A cell holds one node at most. -/
theorem Holds.unique {n m m' : Node} {cell : Cell} (h : n.Holds cell m) (h' : n.Holds cell m') :
    m = m' := by
  cases h <;> cases h' <;> simp_all

theorem pairwise_cells (n : Node) :
    n.cells.Pairwise (fun x y => Prod.Lex (· < ·) (· < ·) x.1 y.1) := pairwise_cellsFrom 0 n.fields

/-! ## Listings -/

@[simp] theorem stores_nil {n m : Node} : n.Stores [] m ↔ n = m := by
  constructor
  · rintro ⟨⟩
    rfl
  · rintro rfl
    exact .here

@[simp] theorem stores_cons {n m : Node} {cell : Cell} {address : Address} :
    n.Stores (cell :: address) m ↔ ∃ c, n.Holds cell c ∧ c.Stores address m := by
  constructor
  · rintro ⟨⟩
    exact ⟨_, ‹_›, ‹_›⟩
  · rintro ⟨c, held, stored⟩
    exact .deeper held stored

end Node

/-- An entry of a list with a cell put in front of its address. -/
def under {α : Type} (cell : Cell) (entry : Node.Address × α) : Node.Address × α :=
  (cell :: entry.1, entry.2)

/-- The lists for the nodes in some cells, put together. -/
def gathered {α : Type} (cells : List (Cell × Node)) (lists : Node → List (Node.Address × α)) :
    List (Node.Address × α) :=
  cells.flatMap fun x => (lists x.2).map (under x.1)

/-- A list with addresses is in their order. -/
def Sorted {α : Type} (l : List (Node.Address × α)) : Prop :=
  l.Pairwise fun x y => x.1.Before y.1

theorem Node.Address.not_before_self (address : Address) : ¬address.Before address := by
  induction address with
  | nil => exact fun h => nomatch h
  | cons cell address ih =>
      rintro (_ | h | h)
      · rcases Prod.lex_def.mp h with hlt | ⟨-, hlt⟩ <;> exact Nat.lt_irrefl _ hlt
      · exact ih h

/-- No address comes twice in a list that is in order. -/
theorem Sorted.nodup {α : Type} {l : List (Node.Address × α)} (h : Sorted l) :
    (l.map (·.1)).Nodup := by
  rw [List.nodup_iff_pairwise_ne, List.pairwise_map]
  refine h.imp fun {x y} hlt heq => ?_
  exact Node.Address.not_before_self y.1 (heq ▸ hlt)

theorem Sorted.gathered {α : Type} {n : Node} {lists : Node → List (Node.Address × α)}
    (h : ∀ c ∈ n.children, Sorted (lists c)) : Sorted (gathered n.cells lists) := by
  rw [Sorted, EcmaSyntax.gathered, List.pairwise_flatMap]
  constructor
  · intro x hx
    have hc : x.2 ∈ n.children := n.cells_map_snd ▸ List.mem_map_of_mem hx
    rw [List.pairwise_map]
    exact (h x.2 hc).imp fun hlt => .cons hlt
  · refine n.pairwise_cells.imp fun hlt => ?_
    intro x hx y hy
    obtain ⟨_, -, rfl⟩ := List.mem_map.mp hx
    obtain ⟨_, -, rfl⟩ := List.mem_map.mp hy
    exact .rel hlt

theorem mem_gathered {α : Type} {n : Node} {lists : Node → List (Node.Address × α)} {cell : Cell}
    {address : Node.Address} {a : α} :
    (cell :: address, a) ∈ gathered n.cells lists ↔
      ∃ c, n.Holds cell c ∧ (address, a) ∈ lists c := by
  simp only [gathered, List.mem_flatMap, List.mem_map, under, Prod.exists, Prod.mk.injEq,
    List.cons.injEq, ← Node.mem_cells]
  constructor
  · rintro ⟨k, i, c, hc, address', a', ha, ⟨rfl, rfl⟩, rfl⟩
    exact ⟨c, hc, ha⟩
  · rintro ⟨c, hc, ha⟩
    exact ⟨cell.1, cell.2, c, hc, address, a, ha, ⟨rfl, rfl⟩, rfl⟩

theorem nil_not_mem_gathered {α : Type} {cells : List (Cell × Node)}
    {lists : Node → List (Node.Address × α)} {a : α} : ([], a) ∉ gathered cells lists := by
  simp [gathered, under]

theorem nil_before_of_mem_gathered {α : Type} {cells : List (Cell × Node)}
    {lists : Node → List (Node.Address × α)} {x : Node.Address × α}
    (h : x ∈ gathered cells lists) : Node.Address.Before [] x.1 := by
  obtain ⟨_ | ⟨cell, address⟩, a⟩ := x
  · exact absurd h nil_not_mem_gathered
  · exact .nil

theorem map_gathered {α β : Type} {n : Node} {lists : Node → List (Node.Address × α)}
    {g h : Node.Address × α → β} (hg : ∀ cell x, g (under cell x) = h x) :
    (gathered n.cells lists).map g = n.children.flatMap fun c => (lists c).map h := by
  rw [← n.cells_map_snd, List.flatMap_map, gathered, List.map_flatMap]
  refine congrArg (n.cells.flatMap ·) (funext fun x => ?_)
  rw [List.map_map]
  exact List.map_congr_left fun y _ => hg x.1 y

namespace Node

theorem rows_eq (n : Node) (d : Nat) :
    n.rows d = (d, n) :: n.children.flatMap fun c => c.rows (d + 1) := by
  have hchildren : (n.children.flatMap fun c => c.rows (d + 1)) =
      n.children.attach.flatMap fun c => c.val.rows (d + 1) := by
    conv => lhs; rw [← List.attach_map_subtype_val n.children, List.flatMap_map]
  rw [hchildren, rows]

/-- A walk is the list of all that is stored in a node, in the order of addresses, and the depth of
a row is the number of cells that lead to it. -/
theorem exists_listing (n : Node) : ∃ l : List (Address × Node), Sorted l ∧
    (∀ d, l.map (fun x => (d + x.1.length, x.2)) = n.rows d) ∧
    ∀ address m, (address, m) ∈ l ↔ n.Stores address m := by
  induction hsize : n.size using Nat.strongRecOn generalizing n with
  | ind size ih =>
      subst hsize
      have hchildren := fun c (hc : c ∈ n.children) => ih c.size (size_lt_of_mem_children hc) c rfl
      choose! lists hsorted hrows hmem using hchildren
      refine ⟨([], n) :: gathered n.cells lists, ?_, fun d => ?_, fun address m => ?_⟩
      · exact .cons (fun x hx => nil_before_of_mem_gathered hx) (Sorted.gathered hsorted)
      · rw [rows_eq, List.map_cons]
        refine congrArg (_ :: ·) ?_
        rw [map_gathered (h := fun x => (d + 1 + x.1.length, x.2))
          fun cell x => by simp only [under, List.length_cons]; congr 1; omega]
        exact List.flatMap_congr fun c hc => hrows c hc (d + 1)
      · cases address with
        | nil => simp [nil_not_mem_gathered, eq_comm]
        | cons cell address =>
            rw [List.mem_cons, mem_gathered, stores_cons]
            simp only [Prod.mk.injEq, reduceCtorEq, false_and, false_or]
            exact exists_congr fun c => and_congr_right fun held =>
              hmem c held.mem_children address m

end Node

/-! ## Dispatch -/

namespace Visitor

mutual

/-- The visit of a node: it is taken over, or it goes to the function of its class. -/
def visitNode (v : Visitor) (n : Node) : List (Visit × Node) :=
  if v.takesNodes then (.node, n) :: if v.prunes n.kind then [] else v.walkNode n
  else
    match n with
    | .program p => v.visitProgram p
    | .statement s => v.visitStatement s
    | .expression e => v.visitExpression e
    | other => v.walkNode other
termination_by (n.size, 2)

/-- The visit of a program. -/
def visitProgram (v : Visitor) (p : Program) : List (Visit × Node) :=
  v.walkNode (.program p)
termination_by ((Node.program p).size, 1)

/-- The visit of a statement: it is taken over, or its children are walked. -/
def visitStatement (v : Visitor) (s : Statement) : List (Visit × Node) :=
  if v.takesStatements then
    (.statement, .statement s) ::
      if v.prunes (Node.statement s).kind then [] else v.walkNode (.statement s)
  else v.walkNode (.statement s)
termination_by ((Node.statement s).size, 1)

/-- The visit of an expression: it is taken over, or its children are walked. -/
def visitExpression (v : Visitor) (e : Expression) : List (Visit × Node) :=
  if v.takesExpressions then
    (.expression, .expression e) ::
      if v.prunes (Node.expression e).kind then [] else v.walkNode (.expression e)
  else v.walkNode (.expression e)
termination_by ((Node.expression e).size, 1)

/-- The visits of the children of a node. -/
def walkNode (v : Visitor) (n : Node) : List (Visit × Node) :=
  n.children.attach.flatMap fun c => v.visitNode c.val
termination_by (n.size, 0)
decreasing_by exact Prod.Lex.left _ _ (Node.size_lt_of_mem_children c.property)

end

theorem walkNode_eq (v : Visitor) (n : Node) : v.walkNode n = n.children.flatMap v.visitNode := by
  conv => rhs; rw [← List.attach_map_subtype_val n.children, List.flatMap_map]
  rw [walkNode]

theorem log_eq (v : Visitor) (n : Node) : v.log n =
    match v.visit? n with
    | some visit => (visit, n) :: if v.prunes n.kind then [] else n.children.flatMap v.log
    | none => n.children.flatMap v.log := by
  have hchildren : n.children.flatMap v.log = n.children.attach.flatMap fun c => v.log c.val := by
    conv => lhs; rw [← List.attach_map_subtype_val n.children, List.flatMap_map]
  rw [hchildren]
  exact log.eq_1 v n

/-- The dispatch takes over a node as one part of the visitor, or only walks its children. -/
theorem visitNode_eq (v : Visitor) (n : Node) : v.visitNode n =
    match v.visit? n with
    | some visit => (visit, n) :: if v.prunes n.kind then [] else v.walkNode n
    | none => v.walkNode n := by
  cases hnodes : v.takesNodes with
  | true => simp [visitNode.eq_def, visit?, hnodes]
  | false =>
      cases n with
      | program p => simp [visitNode.eq_def, visit?, hnodes, visitProgram]
      | statement s =>
          cases h : v.takesStatements <;>
            simp [visitNode.eq_def, visit?, hnodes, h, visitStatement]
      | expression e =>
          cases h : v.takesExpressions <;>
            simp [visitNode.eq_def, visit?, hnodes, h, visitExpression]
      | _ => simp [visitNode.eq_def, visit?, hnodes]

/-- What the dispatch logs is the log. -/
theorem visitNode_eq_log (v : Visitor) (n : Node) : v.visitNode n = v.log n := by
  induction hsize : n.size using Nat.strongRecOn generalizing n with
  | ind size ih =>
      subst hsize
      have hwalk : v.walkNode n = n.children.flatMap v.log := by
        rw [walkNode_eq]
        exact List.flatMap_congr fun c hc => ih c.size (Node.size_lt_of_mem_children hc) c rfl
      rw [visitNode_eq, log_eq, hwalk]

theorem visitProgram_eq_logProgram (v : Visitor) (p : Program) :
    v.visitProgram p = v.logProgram p := by
  rw [visitProgram, walkNode_eq, logProgram]
  exact List.flatMap_congr fun c _ => v.visitNode_eq_log c

/-! ## Journals -/

/-- Some logged node of a pruned kind is above an address. -/
def Covers (v : Visitor) (l : List (Node.Address × Visit × Node)) (address : Node.Address) : Prop :=
  ∃ above visit m, (above, visit, m) ∈ l ∧ above <+: address ∧ above ≠ address ∧
    v.prunes m.kind = true

/-- The entries of a list are the nodes in some addresses below a node that the visitor takes over
and that no logged node of a pruned kind is above of. -/
def Lists (v : Visitor) (n : Node) (within : Node.Address → Prop)
    (l : List (Node.Address × Visit × Node)) : Prop :=
  ∀ address visit m, (address, visit, m) ∈ l ↔
    within address ∧ n.Stores address m ∧ v.visit? m = some visit ∧ ¬v.Covers l address

theorem not_covers_nil {v : Visitor} {l : List (Node.Address × Visit × Node)} : ¬v.Covers l [] := by
  rintro ⟨above, visit, m, -, hprefix, hne, -⟩
  exact hne (List.prefix_nil.mp hprefix)

theorem covers_gathered {v : Visitor} {n c : Node}
    {lists : Node → List (Node.Address × Visit × Node)} {cell : Cell} {address : Node.Address}
    (held : n.Holds cell c) :
    v.Covers (gathered n.cells lists) (cell :: address) ↔ v.Covers (lists c) address := by
  constructor
  · rintro ⟨above, visit, m, hmem, hprefix, hne, hprunes⟩
    cases above with
    | nil => exact absurd hmem nil_not_mem_gathered
    | cons cell' above =>
        obtain ⟨rfl, habove⟩ := List.cons_prefix_cons.mp hprefix
        obtain ⟨c', held', hmem⟩ := mem_gathered.mp hmem
        obtain rfl := held'.unique held
        exact ⟨above, visit, m, hmem, habove, fun h => hne (h ▸ rfl), hprunes⟩
  · rintro ⟨above, visit, m, hmem, hprefix, hne, hprunes⟩
    exact ⟨cell :: above, visit, m, mem_gathered.mpr ⟨c, held, hmem⟩,
      List.cons_prefix_cons.mpr ⟨rfl, hprefix⟩, fun h => hne (List.cons.inj h).2, hprunes⟩

/-- The lists of the children make up the list of what is below a node. -/
theorem Lists.gathered {v : Visitor} {n : Node}
    {lists : Node → List (Node.Address × Visit × Node)}
    (h : ∀ c ∈ n.children, v.Lists c (fun _ => True) (lists c)) :
    v.Lists n (· ≠ []) (gathered n.cells lists) := by
  intro address visit m
  cases address with
  | nil => simp [nil_not_mem_gathered]
  | cons cell address =>
      rw [mem_gathered, Node.stores_cons]
      constructor
      · rintro ⟨c, held, hmem⟩
        obtain ⟨-, stored, taken, hcovers⟩ := (h c held.mem_children address visit m).mp hmem
        exact ⟨List.cons_ne_nil _ _, ⟨c, held, stored⟩, taken, mt (covers_gathered held).mp hcovers⟩
      · rintro ⟨-, ⟨c, held, stored⟩, taken, hcovers⟩
        exact ⟨c, held, (h c held.mem_children address visit m).mpr
          ⟨trivial, stored, taken, mt (covers_gathered held).mpr hcovers⟩⟩

theorem lists_pruned {v : Visitor} {n : Node} {visit : Visit} (htaken : v.visit? n = some visit)
    (hprunes : v.prunes n.kind = true) : v.Lists n (fun _ => True) [([], visit, n)] := by
  intro address visit' m
  have hcovers : address ≠ [] → v.Covers [([], visit, n)] address := fun hne =>
    ⟨[], visit, n, List.mem_singleton_self _, List.nil_prefix, hne.symm, hprunes⟩
  rw [List.mem_singleton]
  constructor
  · rintro ⟨⟩
    exact ⟨trivial, .here, htaken, not_covers_nil⟩
  · rintro ⟨-, stored, htaken', hnot⟩
    obtain rfl := not_not.mp (mt hcovers hnot)
    obtain rfl := Node.stores_nil.mp stored
    rw [Option.some.inj (htaken.symm.trans htaken')]

theorem lists_cons {v : Visitor} {n : Node} {visit : Visit}
    {l : List (Node.Address × Visit × Node)} (htaken : v.visit? n = some visit)
    (hprunes : v.prunes n.kind = false) (h : v.Lists n (· ≠ []) l) :
    v.Lists n (fun _ => True) (([], visit, n) :: l) := by
  have hcovers : ∀ address, v.Covers (([], visit, n) :: l) address ↔ v.Covers l address := by
    intro address
    constructor
    · rintro ⟨above, visit', m, hmem, hprefix, hne, hm⟩
      rcases List.mem_cons.mp hmem with heq | hmem
      · cases heq
        exact absurd (hprunes.symm.trans hm) Bool.false_ne_true
      · exact ⟨above, visit', m, hmem, hprefix, hne, hm⟩
    · rintro ⟨above, visit', m, hmem, hrest⟩
      exact ⟨above, visit', m, List.mem_cons_of_mem _ hmem, hrest⟩
  intro address visit' m
  rw [List.mem_cons, h address visit' m, hcovers]
  cases address with
  | nil =>
      simp only [Node.stores_nil, Prod.mk.injEq, true_and, ne_eq, not_true_eq_false, false_and,
        or_false, not_covers_nil, not_false_eq_true, and_true]
      constructor
      · rintro ⟨rfl, rfl⟩
        exact ⟨rfl, htaken⟩
      · rintro ⟨rfl, htaken'⟩
        exact ⟨Option.some.inj (htaken'.symm.trans htaken), rfl⟩
  | cons cell address => simp

/-- What a visitor logs at a node is a journal. -/
theorem exists_journal (v : Visitor) (n : Node) :
    ∃ l : List (Node.Address × Visit × Node), Sorted l ∧ l.map (·.2) = v.log n ∧
      v.Lists n (fun _ => True) l := by
  induction hsize : n.size using Nat.strongRecOn generalizing n with
  | ind size ih =>
      subst hsize
      have hchildren := fun c (hc : c ∈ n.children) =>
        ih c.size (Node.size_lt_of_mem_children hc) c rfl
      choose! lists hsorted hlog hlists using hchildren
      have hbelow := Lists.gathered hlists
      have hbelowSorted : Sorted (gathered n.cells lists) := Sorted.gathered hsorted
      have hbelowLog : (gathered n.cells lists).map (·.2) = n.children.flatMap v.log := by
        rw [map_gathered (h := (·.2)) fun _ _ => rfl]
        exact List.flatMap_congr hlog
      rw [log_eq]
      cases htaken : v.visit? n with
      | none =>
          refine ⟨_, hbelowSorted, hbelowLog, fun address visit m => ?_⟩
          rw [hbelow address visit m]
          cases address with
          | nil =>
              refine ⟨fun h => absurd rfl h.1, fun ⟨_, stored, taken, _⟩ => ?_⟩
              obtain rfl := Node.stores_nil.mp stored
              exact absurd (htaken.symm.trans taken) (Option.some_ne_none visit).symm
          | cons cell address => simp
      | some visit =>
          cases hprunes : v.prunes n.kind with
          | true => exact ⟨_, List.pairwise_singleton _ _, rfl, lists_pruned htaken hprunes⟩
          | false =>
              refine ⟨([], visit, n) :: gathered n.cells lists,
                .cons (fun x hx => nil_before_of_mem_gathered hx) hbelowSorted,
                congrArg (_ :: ·) hbelowLog, lists_cons htaken hprunes hbelow⟩

theorem exists_journal_program (v : Visitor) (p : Program) :
    ∃ l : List (Node.Address × Visit × Node), Sorted l ∧ l.map (·.2) = v.logProgram p ∧
      v.Lists (.program p) (· ≠ []) l := by
  choose lists hsorted hlog hlists using v.exists_journal
  refine ⟨gathered (Node.program p).cells lists, Sorted.gathered fun c _ => hsorted c, ?_,
    Lists.gathered fun c _ => hlists c⟩
  rw [map_gathered (h := (·.2)) fun _ _ => rfl]
  exact List.flatMap_congr fun c _ => hlog c

end Visitor

/-! ## The traversal of a tree -/

/-- A node is reached by way of its parents' children if and only if it is stored. -/
theorem Node.exists_descend?_iff {n m : Node} :
    (∃ path, descend? path n = some m) ↔ ∃ address, n.Stores address m := by
  constructor
  · rintro ⟨path, h⟩
    induction path generalizing n with
    | nil => exact ⟨[], stores_nil.mpr (Option.some.inj h)⟩
    | cons i path ih =>
        obtain ⟨c, hc, hpath⟩ := Option.bind_eq_some_iff.mp h
        obtain ⟨address, stored⟩ := ih hpath
        obtain ⟨x, hx, rfl⟩ := List.mem_map.mp (n.cells_map_snd ▸ List.mem_of_getElem? hc)
        exact ⟨x.1 :: address, .deeper (mem_cells.mp hx) stored⟩
  · rintro ⟨address, stored⟩
    induction stored with
    | here => exact ⟨[], rfl⟩
    | deeper held _ ih =>
        obtain ⟨path, hpath⟩ := ih
        obtain ⟨i, hi⟩ := List.getElem?_of_mem held.mem_children
        exact ⟨i :: path, Option.bind_eq_some_iff.mpr ⟨_, hi, hpath⟩⟩

/-- A traversal reaches everything once.  The rows of a walk are what is stored in the node that it
starts at, once for each address and in the order of addresses, with the length of the address as
the depth, and what the children lead to is no more than that.  The dispatch of a visitor logs, in
the same order, the nodes of the classes that the visitor takes over, but for those that a logged
node of a pruned kind is above of; a visit that starts at a program leaves out the program. -/
theorem traversal_complete :
    (∀ n : Node, ∃ l : List (Node.Address × Node), Sorted l ∧ (l.map (·.1)).Nodup ∧
      (∀ d, l.map (fun x => (d + x.1.length, x.2)) = n.rows d) ∧
      (∀ address m, (address, m) ∈ l ↔ n.Stores address m) ∧
      ∀ m, (∃ path, n.descend? path = some m) ↔ ∃ address, n.Stores address m) ∧
    (∀ (v : Visitor) (n : Node), v.visitNode n = v.log n ∧
      ∃ l : List (Node.Address × Visit × Node), Sorted l ∧ l.map (·.2) = v.log n ∧
        v.Lists n (fun _ => True) l) ∧
    ∀ (v : Visitor) (p : Program), v.visitProgram p = v.logProgram p ∧
      ∃ l : List (Node.Address × Visit × Node), Sorted l ∧ l.map (·.2) = v.logProgram p ∧
        v.Lists (.program p) (· ≠ []) l := by
  refine ⟨fun n => ?_, fun v n => ⟨v.visitNode_eq_log n, v.exists_journal n⟩,
    fun v p => ⟨v.visitProgram_eq_logProgram p, v.exists_journal_program p⟩⟩
  obtain ⟨l, hsorted, hrows, hmem⟩ := n.exists_listing
  exact ⟨l, hsorted, hsorted.nodup, hrows, hmem, fun m => Node.exists_descend?_iff⟩

end EcmaSyntax
