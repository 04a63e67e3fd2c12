import EcmaSyntax.Proofs.CommentPlaces
import EcmaSyntax.Proofs.Increments

/-!
# What tokens stand for

**Roles.**  Some tokens can stand for several things.  An increment stands before its operand or
after it; a keyword at which no line may end opens a statement or names a property; a semicolon is a
statement, separates the parts of a loop header, or ends a statement.  A role says which.

**Trees.**  `Node.roles` lists the roles that the tokens of a tree play, in the order of the source.

**Items.**  `Casts` gives roles to the items of a transcript: each item that can play one has the
role that comes next, and no other item has any.

**Results.**
* `Derives.casts`: the items from which the grammar derives a tree play the roles of the tree.
-/

namespace EcmaSyntax

open TokenStream (isRestrictedKeyword)

/-! ## The roles of a tree -/

/-- What a token stands for, if it can stand for several things. -/
inductive Role where
  /-- An increment or a decrement before its operand. -/
  | prefixed (op : UnaryOperator)
  /-- An increment or a decrement after its operand. -/
  | postfixed (op : UnaryOperator)
  /-- The name of a property. -/
  | name
  /-- The keyword of a jump, which may go on with a label or a value. -/
  | jump (keyword : TokenKind) (goesOn : Bool)
  /-- The semicolon that is an empty statement. -/
  | empty
  /-- The semicolon between two parts of a loop header. -/
  | separator
  /-- The semicolon at the end of a statement. -/
  | ending
deriving DecidableEq, Repr

/-- The roles of a name: only that of a restricted keyword can stand for something else. -/
def nameRoles (name : Text) : List Role :=
  if isRestrictedKeyword (wordKind name) then [.name] else []

/-- The roles of the name of a property in an object literal. -/
def PropertyKey.roles : PropertyKey → List Role
  | identifier name => nameRoles name
  | _ => []

/-- A part of a node: a role that one of its own tokens plays, or a child. -/
inductive Part where
  | role (r : Role)
  | node (n : Node)

/-- The child that a part is, if it is one. -/
def Part.node? : Part → Option Node
  | role _ => none
  | node n => some n

/-- The children among some parts. -/
def Part.nodes (parts : List Part) : List Node := parts.filterMap node?

namespace Part

variable (parts parts' : List Part)

@[simp] theorem nodes_nil : nodes [] = [] := rfl

@[simp] theorem nodes_role (r : Role) : nodes (.role r :: parts) = nodes parts := rfl

@[simp] theorem nodes_node (n : Node) : nodes (.node n :: parts) = n :: nodes parts := rfl

@[simp] theorem nodes_append : nodes (parts ++ parts') = nodes parts ++ nodes parts' :=
  List.filterMap_append

@[simp] theorem nodes_map_node (ns : List Node) : nodes (ns.map node) = ns := by
  induction ns with
  | nil => rfl
  | cons n ns ih => exact congrArg (n :: ·) ih

@[simp] theorem nodes_map_role (rs : List Role) : nodes (rs.map role) = [] := by
  induction rs with
  | nil => rfl
  | cons r rs ih => exact ih

end Part

namespace Node

/-- The parts of a node, in the order of the source. -/
def parts : Node → List Part
  | expression (.unary op operand false) =>
      (if op = .increment ∨ op = .decrement then [.role (.prefixed op)] else []) ++
        [.node (expression operand)]
  | expression (.unary op operand true) => [.node (expression operand), .role (.postfixed op)]
  | expression (.dot base name) => .node (expression base) :: (nameRoles name).map .role
  | property p => p.key.roles.map .role ++ (property p).children.map .node
  | statement (.declare ds) => (ds.map declarator).map .node ++ [.role .ending]
  | statement .empty => [.role .empty]
  | statement (.expression e) => [.node (expression e), .role .ending]
  | statement (.doWhile body test) =>
      [.node (statement body), .node (expression test), .role .ending]
  | statement (.forLoop init test update body) =>
      (Parser.initNodes init).map .node ++ .role .separator ::
        ((ofOption test).map .node ++ .role .separator ::
          ((ofOption update).map .node ++ [.node (statement body)]))
  | statement (.continueTo label) => [.role (.jump .kwContinue label.isSome), .role .ending]
  | statement (.breakTo label) => [.role (.jump .kwBreak label.isSome), .role .ending]
  | statement (.returnWith value) =>
      .role (.jump .kwReturn value.isSome) :: ((ofOption value).map .node ++ [.role .ending])
  | statement (.throwWith value) =>
      [.role (.jump .kwThrow true), .node (expression value), .role .ending]
  | statement .debugger => [.role .ending]
  | n => n.children.map .node

/-- The children among the parts of a node are its children, in the same order. -/
theorem nodes_parts (n : Node) : Part.nodes n.parts = n.children := by
  unfold parts
  split
  · split <;> rfl
  case h_9 init test update body =>
    have hinit : (statement (.forLoop init test update body)).children =
        Parser.initNodes init ++ ofOption test ++ ofOption update ++ [statement body] := rfl
    simp [hinit]
  all_goals first
    | rfl
    | simp [-List.map_map, children, Statement.children, Expression.children]

theorem mem_children_of_mem_parts {n child : Node} (h : .node child ∈ n.parts) :
    child ∈ n.children :=
  nodes_parts n ▸ List.mem_filterMap.mpr ⟨_, h, rfl⟩

/-- The roles that the tokens of a tree play, in the order of the source. -/
def roles (n : Node) : List Role :=
  n.parts.attach.flatMap fun part =>
    match part with
    | ⟨.role r, _⟩ => [r]
    | ⟨.node child, _⟩ => roles child
termination_by n.size
decreasing_by exact size_lt_of_mem_children (mem_children_of_mem_parts ‹_›)

end Node

/-- The roles of a part. -/
def Part.roles : Part → List Role
  | role r => [r]
  | node n => n.roles

/-- The roles of some parts, one after the other. -/
def Part.rolesOf (parts : List Part) : List Role := parts.flatMap roles

theorem Part.rolesOf_append (parts parts' : List Part) :
    rolesOf (parts ++ parts') = rolesOf parts ++ rolesOf parts' := List.flatMap_append

theorem Part.rolesOf_map_role (rs : List Role) : rolesOf (rs.map role) = rs := by
  rw [rolesOf, List.flatMap_map]
  exact List.flatMap_singleton' rs

/-- The roles of a node are those of its parts. -/
theorem Node.roles_eq (n : Node) : n.roles = Part.rolesOf n.parts := by
  have hparts : Part.rolesOf n.parts = n.parts.attach.flatMap fun part => part.val.roles := by
    conv => lhs; rw [← List.attach_map_subtype_val n.parts, Part.rolesOf, List.flatMap_map]
  rw [hparts, roles]
  refine congrArg (n.parts.attach.flatMap ·) (funext fun part => ?_)
  obtain ⟨part, hpart⟩ := part
  cases part <;> rfl

/-- The roles of a program. -/
def Program.roles (p : Program) : List Role := (Node.program p).roles

/-! ## The roles of items -/

/-- Whether tokens of a kind play roles. -/
def TokenKind.hasRole (k : TokenKind) : Bool :=
  isIncrement k || isRestrictedKeyword k || k = .semicolon || k = .insertedSemicolon

namespace Parser

/-- Whether an item plays a role. -/
def Item.hasRole : Item → Bool
  | .taken k _ => k.hasRole
  | .member k _ => k.hasRole
  | .literal _ _ => false
  | .ended _ => true
  | .inserted _ => true
  | .comments _ => false

/-- An item can play a role in front of some others.  An increment stands after its operand only if
it comes directly behind a token (`behind`), and so does the end of a statement; a jump that goes on
does so with a token. -/
inductive Suits (behind : Bool) : Item → List Item → Role → Prop
  | prefixed {k : TokenKind} {t : Text} {its : List Item} {op : UnaryOperator} :
      isIncrement k → k.prefixOperator? = some op → Suits behind (.taken k t) its (.prefixed op)
  | postfixed {k : TokenKind} {t : Text} {its : List Item} {op : UnaryOperator} :
      k.postfixOperator? = some op → behind → Suits behind (.taken k t) its (.postfixed op)
  | name {k : TokenKind} {t : Text} {its : List Item} :
      isRestrictedKeyword k → Suits behind (.taken k t) its .name
  | member {k : TokenKind} {t : Text} {its : List Item} :
      isRestrictedKeyword k → Suits behind (.member k t) its .name
  | jump {k : TokenKind} {t : Text} {its : List Item} {goesOn : Bool} :
      isRestrictedKeyword k → (goesOn → StartsWithToken its) →
      Suits behind (.taken k t) its (.jump k goesOn)
  | empty {t : Text} {its : List Item} : Suits behind (.taken .semicolon t) its .empty
  | separator {t : Text} {its : List Item} : Suits behind (.taken .semicolon t) its .separator
  | ending {it : Item} {its : List Item} : it.isEnding → behind → Suits behind it its .ending

/-- Some items play some roles, each the next one if it can play any. -/
inductive Casts : Bool → List Item → List Role → Prop
  | nil {behind : Bool} : Casts behind [] []
  | other {behind : Bool} {it : Item} {its : List Item} {roles : List Role} :
      it.hasRole = false → Casts it.isToken its roles → Casts behind (it :: its) roles
  | role {behind : Bool} {it : Item} {its : List Item} {r : Role} {roles : List Role} :
      Suits behind it its r → Casts it.isToken its roles → Casts behind (it :: its) (r :: roles)

theorem prefixOperator?_cases {k : TokenKind} {op : UnaryOperator}
    (h : k.prefixOperator? = some op) :
    isIncrement k ∧ (op = .increment ∨ op = .decrement) ∨
      k.hasRole = false ∧ ¬(op = .increment ∨ op = .decrement) := by
  cases k <;> cases h <;> decide

theorem hasRole_of_infixOperator? {p : Nat} {g : Grammar} {k : TokenKind} {op : InfixOperator}
    (h : infixOperator? p g k = some op) : k.hasRole = false := by
  have hk := (infixOperator?_eq_some_iff.mp h).1
  cases k <;> first | rfl | cases hk

theorem hasRole_of_assignOperator? {k : TokenKind} {op : AssignOperator}
    (h : k.assignOperator? = some op) : k.hasRole = false := by
  cases k <;> first | rfl | cases h

theorem isRestrictedKeyword_of_jump {k : TokenKind} (h : k = .kwContinue ∨ k = .kwBreak) :
    isRestrictedKeyword k := by
  obtain rfl | rfl := h <;> rfl

theorem isIncrement_hasRole {k : TokenKind} (h : isIncrement k) : k.hasRole := by
  cases k <;> first | rfl | cases h

theorem isRestrictedKeyword_hasRole {k : TokenKind} (h : isRestrictedKeyword k) : k.hasRole := by
  cases k <;> first | rfl | cases h

namespace Suits

variable {b : Bool} {it : Item} {its : List Item} {r : Role}

theorem hasRole (h : Suits b it its r) : it.hasRole := by
  cases h with
  | prefixed hk => exact isIncrement_hasRole hk
  | postfixed hop => exact isIncrement_hasRole (isIncrement_of_postfixOperator? hop)
  | name hk => exact isRestrictedKeyword_hasRole hk
  | member hk => exact isRestrictedKeyword_hasRole hk
  | jump hk => exact isRestrictedKeyword_hasRole hk
  | empty => rfl
  | separator => rfl
  | ending hit => cases it <;> first | rfl | cases hit

/-- It does no harm to come directly behind a token. -/
theorem mono (h : Suits false it its r) : Suits b it its r := by
  cases h with
  | prefixed hk hop => exact .prefixed hk hop
  | postfixed _ hbehind => cases hbehind
  | name hk => exact .name hk
  | member hk => exact .member hk
  | jump hk hgoes => exact .jump hk hgoes
  | empty => exact .empty
  | separator => exact .separator
  | ending _ hbehind => cases hbehind

/-- The end of a statement plays no other role. -/
theorem eq_ending (h : Suits b it its r) (hit : it.isEnding) : r = .ending := by
  cases h with
  | ending => rfl
  | _ => cases hit

end Suits

namespace Casts

variable {b : Bool} {k : TokenKind} {t : Text} {it : Item} {its : List Item} {roles : List Role}

theorem mono (h : Casts false its roles) : Casts b its roles := by
  cases h with
  | nil => exact .nil
  | other hit h => exact .other hit h
  | role hr h => exact .role hr.mono h

/-- The roles may as well be played directly behind a token. -/
theorem behind (h : Casts b its roles) : Casts true its roles := by
  cases b with
  | true => exact h
  | false => exact h.mono

/-- An item that plays no role leaves the roles to those behind it. -/
theorem other_iff (hit : it.hasRole = false) :
    Casts b (it :: its) roles ↔ Casts it.isToken its roles := by
  refine ⟨fun h => ?_, .other hit⟩
  cases h with
  | other _ h => exact h
  | role hr _ =>
      rw [hr.hasRole] at hit
      cases hit

theorem literal_iff : Casts b (.literal k t :: its) roles ↔ Casts true its roles := other_iff rfl

theorem comments_iff {cs : List Comment} :
    Casts b (.comments cs :: its) roles ↔ Casts false its roles := other_iff rfl

/-- The name of a property plays its role. -/
theorem name (h : Casts true its roles) (hk : k.isIdentifierName) (ht : wordKind t = k)
    (hit : it = .taken k t ∨ it = .member k t) : Casts b (it :: its) (nameRoles t ++ roles) := by
  have htoken : it.isToken := by obtain rfl | rfl := hit <;> rfl
  have hrole : it.hasRole = isRestrictedKeyword k := by
    have : k.hasRole = isRestrictedKeyword k := by cases k <;> first | rfl | cases hk
    obtain rfl | rfl := hit <;> exact this
  have h : Casts it.isToken its roles := by rwa [htoken]
  unfold nameRoles
  rw [ht]
  cases hrestricted : isRestrictedKeyword k with
  | true =>
      refine .role ?_ h
      obtain rfl | rfl := hit
      · exact .name hrestricted
      · exact .member hrestricted
  | false => exact .other (hrole.trans hrestricted) h

end Casts

/-! ## Derivations -/

/-- The kind of a word is that of its text. -/
def Item.IsNamed : Item → Prop
  | .taken k t => k.isIdentifierName → wordKind t = k
  | .member k t => k.isIdentifierName ∧ wordKind t = k
  | _ => True

/-- The kinds of all words are those of their texts. -/
def AreNamed (its : List Item) : Prop := ∀ it ∈ its, it.IsNamed

theorem areNamed_cons (it : Item) (its : List Item) :
    AreNamed (it :: its) ↔ it.IsNamed ∧ AreNamed its := List.forall_mem_cons

/-- From some items on to others, the roles of some parts become those of others. -/
def Casting (lead : List Part) (entry : Bool) (i : List Item) (parts : List Part) (exit : Bool)
    (r : List Item) : Prop :=
  AreNamed i → AreNamed r ∧ ∀ qs, Casts exit r qs →
    ∃ ps, Casts entry i ps ∧ Part.rolesOf lead ++ ps = Part.rolesOf parts ++ qs

namespace Casting

variable {lead mid parts parts' : List Part} {a b c : Bool} {i m r : List Item} {k : TokenKind}
  {t : Text} {it : Item} {n : Node}

theorem here : Casting lead a r lead a r := fun hr => ⟨hr, fun qs hqs => ⟨qs, hqs, rfl⟩⟩

theorem comp (h : Casting lead a i mid b m) (h' : Casting mid b m parts c r) :
    Casting lead a i parts c r := by
  intro hi
  obtain ⟨hm, h⟩ := h hi
  obtain ⟨hr, h'⟩ := h' hm
  refine ⟨hr, fun qs hqs => ?_⟩
  obtain ⟨ps', hps', heq'⟩ := h' qs hqs
  obtain ⟨ps, hps, heq⟩ := h ps' hps'
  exact ⟨ps, hps, heq.trans heq'⟩

theorem mono (h : Casting lead false i parts b r) : Casting lead a i parts b r := by
  intro hi
  refine ⟨(h hi).1, fun qs hqs => ?_⟩
  obtain ⟨ps, hps, heq⟩ := (h hi).2 qs hqs
  exact ⟨ps, hps.mono, heq⟩

theorem weaken (h : Casting lead a i parts true r) : Casting lead a i parts b r :=
  fun hi => ⟨(h hi).1, fun qs hqs => (h hi).2 qs hqs.behind⟩

/-- The roles may as well be played directly behind a token. -/
theorem behind (h : Casting lead a i parts b r) : Casting lead true i parts b r := by
  cases a with
  | true => exact h
  | false => exact h.mono

/-- The same items play the same roles after other parts. -/
theorem after (h : Casting [] a i parts b r) : Casting lead a i (lead ++ parts) b r := by
  intro hi
  refine ⟨(h hi).1, fun qs hqs => ?_⟩
  obtain ⟨ps, hps, heq⟩ := (h hi).2 qs hqs
  exact ⟨ps, hps, by rw [Part.rolesOf_append, List.append_assoc, ← heq]; rfl⟩

theorem append (h : Casting lead a i parts b m) (h' : Casting [] b m parts' c r) :
    Casting lead a i (parts ++ parts') c r :=
  h.comp h'.after

/-- A node has the roles of its parts. -/
theorem node (h : Casting lead a i n.parts b r) : Casting lead a i [.node n] b r := by
  intro hi
  refine ⟨(h hi).1, fun qs hqs => ?_⟩
  obtain ⟨ps, hps, heq⟩ := (h hi).2 qs hqs
  refine ⟨ps, hps, heq.trans ?_⟩
  rw [← Node.roles_eq, ← List.append_nil n.roles]
  rfl

/-! ### Items -/

theorem other (h : Casting lead it.isToken i parts b r) (hit : it.hasRole = false) :
    Casting lead false (it :: i) parts b r := by
  intro hi
  obtain ⟨hr, h⟩ := h ((areNamed_cons it i).mp hi).2
  refine ⟨hr, fun qs hqs => ?_⟩
  obtain ⟨ps, hps, heq⟩ := h qs hqs
  exact ⟨ps, .other hit hps, heq⟩

theorem token (h : Casting lead a i parts b r) (hk : k.hasRole = false) :
    Casting lead false (.taken k t :: i) parts b r :=
  other h.behind hk

/-- A token without a role, behind a part. -/
theorem drop (h : Casting lead a i parts b (.taken k t :: r)) (hk : k.hasRole = false) :
    Casting lead a i parts c r :=
  h.comp ((here (a := c)).token hk).mono

/-- The next role is that of the first item. -/
theorem role {role : Role} (hrole : Suits a it i role)
    (h : Casting [] it.isToken i parts b r) :
    Casting [] a (it :: i) (.role role :: parts) b r := by
  intro hi
  obtain ⟨hr, h⟩ := h ((areNamed_cons it i).mp hi).2
  refine ⟨hr, fun qs hqs => ?_⟩
  obtain ⟨ps, hps, heq⟩ := h qs hqs
  exact ⟨role :: ps, .role hrole hps, congrArg (role :: ·) heq⟩

/-- The end of a statement comes directly behind a token. -/
theorem ending (hit : it.isEnding) : Casting [] true (it :: r) [.role .ending] false r := by
  have htoken : it.isToken = false := by cases it <;> first | rfl | cases hit
  exact .role (.ending hit rfl) (htoken ▸ here)

theorem separator (h : Casting [] a i parts b r) :
    Casting [] false (.taken .semicolon t :: i) (.role .separator :: parts) b r :=
  .role .separator h.behind

/-- A jump that goes on does so with a token. -/
theorem jump {goesOn : Bool} (h : Casting [] a i parts b r) (hk : isRestrictedKeyword k)
    (hi : goesOn → StartsWithToken i) :
    Casting [] false (.taken k t :: i) (.role (.jump k goesOn) :: parts) b r :=
  .role (.jump hk hi) h.behind

theorem jumpTo {label : Option Text} (h : Casting [] a i [.role .ending] false r)
    (hk : k = .kwContinue ∨ k = .kwBreak) (hi : label.isSome → StartsWithToken i) :
    Casting [] false (.taken k t :: i) [.node (.statement (Parser.jumpTo k label))] false r := by
  have hjump := h.jump (t := t) (isRestrictedKeyword_of_jump hk) hi
  obtain rfl | rfl := hk <;> exact hjump.node

theorem postfixed {op : UnaryOperator} (hop : k.postfixOperator? = some op) :
    Casting lead true (.taken k t :: r) (lead ++ [.role (.postfixed op)]) true r :=
  after (.role (.postfixed hop rfl) here)

/-- An increment plays the role of standing before its operand, and no other operator does. -/
theorem prefixed {op : UnaryOperator} {e : Expression} (hop : k.prefixOperator? = some op)
    (h : Casting [] a i [.node (.expression e)] b r) :
    Casting [] false (.taken k t :: i) (Node.expression (.unary op e false)).parts b r := by
  rw [Node.parts]
  obtain ⟨hk, hincrement⟩ | ⟨hk, hincrement⟩ := prefixOperator?_cases hop
  · rw [if_pos hincrement]
    exact .role (.prefixed hk hop) h.behind
  · rw [if_neg hincrement]
    exact h.token hk

/-- The name of a property plays its roles. -/
theorem name (h : Casting [] true i parts b r) (hk : k.isIdentifierName) (ht : wordKind t = k)
    (hit : it = .taken k t ∨ it = .member k t) :
    Casting [] false (it :: i) ((nameRoles t).map .role ++ parts) b r := by
  intro hi
  obtain ⟨hr, h⟩ := h ((areNamed_cons it i).mp hi).2
  refine ⟨hr, fun qs hqs => ?_⟩
  obtain ⟨ps, hps, heq⟩ := h qs hqs
  refine ⟨_, hps.name hk ht hit, ?_⟩
  rw [Part.rolesOf_append, Part.rolesOf_map_role, List.append_assoc]
  exact congrArg (nameRoles t ++ ·) heq

theorem member {base : Expression} : Casting [.node (.expression base)] false (.member k t :: r)
    [.node (.expression (.dot base t))] true r := by
  intro hi
  obtain ⟨hk, ht⟩ := ((areNamed_cons _ r).mp hi).1
  have hname : Casting [] false (.member k t :: r) ((nameRoles t).map .role ++ []) true r :=
    name here hk ht (.inr rfl)
  rw [List.append_nil] at hname
  exact hname.after.node hi

/-- The name of a property in an object literal plays its roles. -/
theorem propertyKey {key : PropertyKey} (h : Casting [] a i parts b r)
    (hkey : propertyKey? k t = some key) :
    Casting [] false (.taken k t :: i) (key.roles.map .role ++ parts) b r := by
  intro hi
  have hnamed := ((areNamed_cons _ i).mp hi).1
  unfold Parser.propertyKey? at hkey
  split at hkey
  · next hk =>
      cases hkey
      exact h.token (by rw [hk]; rfl) hi
  · split at hkey
    · next hk =>
        obtain ⟨value, -, rfl⟩ := Option.map_eq_some_iff.mp hkey
        exact h.token (by rw [hk]; rfl) hi
    · split at hkey
      · next hk =>
          cases hkey
          exact h.behind.name hk (hnamed hk) (.inl rfl) hi
      · cases hkey

/-! ### Trees -/

theorem hole : Casting [] a r [.node .elision] a r := node here

theorem comments (cs : List Comment) :
    Casting [] a r ((statementNodes (cs.map .comment)).map .node) a r := by
  induction cs with
  | nil => exact here
  | cons c cs ih =>
      have hc : Casting [] a r [.node (.statement (.comment c))] a r := node here
      exact hc.append ih

theorem elements (cs : List Comment) {ss : List Statement}
    (h : Casting [] false i ((statementNodes ss).map .node) b r) :
    Casting [] false (.comments cs :: i)
      ((statementNodes (cs.map .comment ++ ss)).map .node) b r := by
  rw [statementNodes_append, List.map_append]
  exact other ((comments cs).append h) rfl

theorem apply {op : InfixOperator} {left right : Expression}
    (h : Casting [] a i [.node (.expression right)] b r) :
    Casting [.node (.expression left)] a i [.node (.expression (op.apply left right))] b r := by
  cases op <;> exact h.after.node

theorem forIn {target : ForTarget} {object : Expression} {body : Statement}
    (h : Casting [] a i [.node (.expression object), .node (.statement body)] b r) :
    Casting [.node (targetNode target)] a i
      [.node (.statement (.forIn target object body))] b r := by
  have hparts : Casting [.node (targetNode target)] a i ([.node (targetNode target)] ++ _) b r :=
    h.after
  cases target <;> exact hparts.node

theorem tryCatch {ss : List Statement} {handler : Option CatchClause}
    {finalizer : Option Statement} {m' : List Item}
    (hs : Casting [] a i ((statementNodes ss).map .node) true m)
    (hh : Casting [] false m ((handler.map Node.handler).toList.map .node) false m')
    (hf : Casting [] false m' ((finalizer.map Node.statement).toList.map .node) b r) :
    Casting [] a i [.node (.statement (.tryCatch (.block ss) handler finalizer))] b r := by
  have hblock : Casting [] a i [.node (.statement (.block ss))] true m := hs.node
  have hrest := hh.append hf
  rw [← List.map_append] at hrest
  exact (hblock.append hrest.mono).node

end Casting

/-- The parts of what a part of the grammar yields.  An array and a function are given by what
stands in them. -/
def Nonterminal.parts : (n : Nonterminal) → n.Tree → List Part
  | .function _, f => (statementNodes (Function.body f)).map .node
  | .arrayElements, es => (Expression.array es).children.map .node
  | .terminator, _ => [.role .ending]
  | n, tree => (n.nodes tree).map .node

/-- A part of the grammar takes items that play the roles of its tree. -/
theorem Derives.casts {last : TokenKind} {room : Nat} {n : Nonterminal} {i r : List Item}
    {tree : n.Tree} (h : Derives last room n i tree r) :
    Casting (n.leadNodes.map .node) n.entry i (n.parts tree) n.exit r := by
  induction h with
  | nested _ ih => exact ih
  -- sequences and lists
  | sequenceEnd _ => exact .here
  | sequenceMore _ _ ih => exact ih.after.node
  | operandsEnd _ => exact .here
  | operandsMore _ _ ih₁ ih₂ => exact ((ih₁.append ih₂).token rfl).mono
  | expression _ _ ih₁ ih₂ => exact ih₁.comp ih₂
  | parenthesized _ ih => exact (ih.drop rfl).token rfl
  | argumentsNone => exact .token (.token .here rfl) rfl
  | argumentsSome _ _ _ ih₁ ih₂ => exact (ih₁.append ih₂.mono).token rfl
  | argumentsEnd => exact .token .here rfl
  | argumentsMore _ _ ih₁ ih₂ => exact (ih₁.append ih₂.mono).token rfl
  -- statement lists and functions
  | elementFunction _ _ ih => exact ih
  | elementStatement _ _ ih => exact ih
  | elementsEnd _ => exact (Casting.comments _).other rfl
  | elementsMore _ _ _ ih₁ ih₂ => exact .elements _ (ih₁.append ih₂)
  | blockBody _ ih => exact (ih.drop rfl).token rfl
  | functionNamed _ _ ih₁ ih₂ => exact ((ih₁.append ih₂.mono).token rfl).token rfl
  | functionPlain _ _ ih₁ ih₂ => exact (ih₁.append ih₂.mono).token rfl
  | parametersNone => exact .token (.token .here rfl) rfl
  | parametersSome _ ih => exact (ih.token rfl).token rfl
  | parametersEnd => exact .token .here rfl
  | parametersMore _ ih => exact (ih.token rfl).token rfl
  -- literals with parts
  | arrayEnd _ => exact .here
  | arrayHole _ ih => exact (Casting.hole.append ih).token rfl
  | arrayLast _ _ _ _ _ ih₁ ih₂ => exact ih₁.append ih₂.mono
  | arrayMore _ _ _ _ ih₁ ih₂ => exact (ih₁.drop rfl).append ih₂
  | propertyInit hkey _ ih => exact ((ih.token rfl).propertyKey hkey).node.weaken
  | propertyGetter hkey _ ih =>
      exact (((ih.token rfl).token rfl).propertyKey hkey |>.node.token rfl).weaken
  | propertySetter hkey _ ih =>
      exact ((((ih.token rfl).token rfl).token rfl).propertyKey hkey |>.node.token rfl).weaken
  | membersEnd _ => exact .here
  | membersLast _ _ _ _ ih₁ ih₂ => exact ih₁.append ih₂
  | membersMore _ _ _ ih₁ ih₂ => exact (ih₁.drop rfl).append ih₂
  -- primary expressions
  | primaryThis => exact .token (.node .here) rfl
  | primaryName => exact .token (.node .here) rfl
  | primaryNull => exact .token (.node .here) rfl
  | primaryTrue => exact .token (.node .here) rfl
  | primaryFalse => exact .token (.node .here) rfl
  | primaryNumber _ => exact .token (.node .here) rfl
  | primaryString => exact .token (.node .here) rfl
  | primaryRegex => exact .other (.node .here) rfl
  | primaryArray _ ih => exact (ih.drop rfl).node.token rfl
  | primaryObject _ _ ih => exact (ih.drop rfl).node.token rfl
  | primaryFunction _ _ _ ih => exact ih.node
  | primaryParenthesized _ _ ih => exact ih
  -- left-hand sides
  | memberEnd _ _ => exact .here
  | memberDot _ ih => exact (Casting.member.comp ih).mono
  | memberBracket _ _ ih₁ ih₂ => exact (((ih₁.drop rfl).after.node.comp ih₂).token rfl).mono
  | callEnd _ => exact .here
  | callMore _ _ _ _ ih₁ ih₂ ih₃ => exact (ih₁.after.node.comp (ih₂.comp ih₃)).mono
  | headNew _ _ ih => exact ih
  | headPrimary _ _ ih => exact ih
  | leftHandSide _ _ _ ih₁ ih₂ ih₃ => exact ih₁.comp (ih₂.comp ih₃)
  | constructionApplied _ _ _ _ ih₁ ih₂ ih₃ =>
      exact ((ih₁.comp ih₂).append ih₃.mono).node.token rfl
  | constructionBare _ _ _ ih₁ ih₂ => exact (ih₁.comp ih₂).node.token rfl
  -- operators
  | postfixEnd _ => exact .here
  | postfixMore hop => exact (Casting.postfixed hop).node
  | unaryPrefix hop _ ih => exact (Casting.prefixed hop ih).node
  | unaryPostfix _ _ _ ih₁ ih₂ => exact ih₁.comp ih₂
  | binaryEnd _ => exact .here
  | binaryMore hop _ _ _ ih₁ ih₂ ih₃ =>
      exact (((ih₁.comp ih₂).apply.comp ih₃).token (hasRole_of_infixOperator? hop)).mono
  | conditionalEnd _ => exact .here
  | conditionalMore _ _ ih₁ ih₂ => exact (((ih₁.drop rfl).append ih₂).after.node.token rfl).mono
  | operatorsRest _ _ ih₁ ih₂ => exact ih₁.comp ih₂
  | assignMore hop _ ih => exact (ih.after.node.token (hasRole_of_assignOperator? hop)).mono
  | assignEnd _ _ _ ih₁ ih₂ => exact ih₁.comp ih₂
  | assignmentPrefixed _ _ _ ih₁ ih₂ => exact ih₁.comp ih₂
  | assignmentPlain _ _ _ ih₁ ih₂ => exact ih₁.comp ih₂
  -- declared variables
  | declaratorPlain _ => exact .token (.node .here) rfl
  | declaratorInit _ ih => exact (ih.node.token rfl).token rfl
  | declarators _ _ ih₁ ih₂ => exact ih₁.append ih₂
  | declaratorsEnd _ => exact .here
  | declaratorsMore _ _ ih₁ ih₂ => exact ((ih₁.append ih₂).token rfl).mono
  -- statements
  | ended => exact .ending rfl
  | inserted => exact .ending rfl
  | block _ _ ih => exact ih.node.weaken
  | declare _ _ ih₁ ih₂ => exact (ih₁.append ih₂).node.token rfl
  | empty => exact (Casting.role .empty .here).node.weaken
  | labelled _ _ _ ih => exact (ih.node.token rfl).token rfl
  | expressionStatement _ _ _ _ ih₁ ih₂ => exact (ih₁.append ih₂).node
  | debugger _ ih => exact ih.node.token rfl
  | ifThen _ _ _ ih₁ ih₂ => exact (ih₁.append ih₂.mono).node.token rfl
  | ifElse _ _ _ ih₁ ih₂ ih₃ =>
      exact (ih₁.append ((ih₂.drop rfl).append ih₃).mono).node.token rfl
  | doWhile _ _ _ ih₁ ih₂ ih₃ =>
      exact ((ih₁.drop rfl).append (ih₂.append ih₃)).node.token rfl
  | whileDo _ _ ih₁ ih₂ => exact (ih₁.append ih₂.mono).node.token rfl
  | forLoop _ ih => exact (ih.token rfl).token rfl
  | forNothing _ _ ih => exact ih
  | forVariables _ _ _ ih₁ ih₂ => exact (ih₁.comp ih₂.mono).token rfl
  | forInVariable _ _ ih₁ ih₂ => exact ((ih₁.drop rfl).comp ih₂).token rfl
  | forPrefixed _ _ _ _ ih₁ ih₂ ih₃ => exact ih₁.comp (ih₂.comp ih₃.mono)
  | forExpression _ _ _ _ _ _ _ _ ih₁ ih₂ ih₃ ih₄ =>
      exact ih₁.comp (ih₂.comp (ih₃.comp ih₄.mono))
  | forInExpression _ _ _ _ _ ih₁ ih₂ => exact (ih₁.drop rfl).comp ih₂
  | forRest _ _ _ ih₁ ih₂ ih₃ =>
      have hupdate := ih₂.append (ih₃.token rfl)
      exact (ih₁.append hupdate.separator).separator.after.node
  | forInRest _ _ ih₁ ih₂ => exact .forIn ((ih₁.drop rfl).append ih₂)
  | expressionAbsent _ => exact .here
  | expressionPresent _ _ ih => exact ih.weaken
  | jumpBare hk _ _ ih => exact ih.jumpTo hk nofun
  | jumpLabel hk _ ih =>
      exact (ih.token rfl).jumpTo hk fun _ => startsWithToken_taken _ _ _
  | returnNothing _ _ ih => exact .node (.jump ih rfl nofun)
  | returnValue _ h _ ih₁ ih₂ =>
      exact ((ih₁.append ih₂).jump rfl fun _ => h.parted.1 rfl).node
  | throwValue h _ ih₁ ih₂ =>
      exact ((ih₁.append ih₂).jump rfl fun _ => h.parted.1 rfl).node
  | withObject _ _ ih₁ ih₂ => exact (ih₁.append ih₂.mono).node.token rfl
  | switch _ _ ih₁ ih₂ => exact ((ih₁.drop rfl).append ih₂).node.token rfl
  | clausesEnd => exact .token .here rfl
  | clausesCase _ _ _ ih₁ ih₂ ih₃ =>
      exact (((ih₁.drop rfl).append ih₂).node.append ih₃).token rfl
  | clausesDefault _ _ ih₁ ih₂ => exact ((ih₁.node.append ih₂).token rfl).token rfl
  | tryCatch _ _ _ _ ih₁ ih₂ ih₃ =>
      exact (Casting.tryCatch ih₁ ih₂ ih₃).token rfl
  | handlerAbsent _ => exact .here
  | handlerPresent _ ih =>
      exact ((((ih.node.token rfl).token rfl).token rfl).token rfl).weaken
  | finalizerAbsent _ => exact .here
  | finalizerPresent _ ih => exact (ih.node.token rfl).weaken
  | declaration _ ih => exact ih.node.weaken

/-- The items of a program play its roles. -/
theorem casts_program {limit : Nat} {its : List Item} {P : Program}
    (h : Derives .endOfInput limit (.elements [.endOfInput]) its P.body []) (hits : AreNamed its) :
    Casts false its P.roles := by
  obtain ⟨-, hcasting⟩ := h.casts hits
  obtain ⟨ps, hps, heq⟩ := hcasting [] .nil
  have hroles : P.roles = ps := by
    rw [Program.roles, Node.roles_eq]
    exact (heq.trans (List.append_nil _)).symm
  exact hroles ▸ hps

end Parser
end EcmaSyntax
