import EcmaSyntax.Proofs.Grammar.Nodes

/-!
# Increments before and after their operands

**Input.**  A derivation.  `Node.increments` lists the increments and decrements of its tree in the
order of the source, and tells of each whether it stands after its operand.

**Breaks.**  Lines may end in front of any tokens of the items.  The grammar sees this only at an
increment: one that opens a line cannot stand after an operand.

**Results.**
* `Derives.broken`: if no line ends in front of an increment that stands after its operand, the
  grammar derives the same tree.
-/

namespace EcmaSyntax

/-- Kinds of increments and decrements. -/
def isIncrement : TokenKind → Bool
  | .increment | .restrictedIncrement | .decrement | .restrictedDecrement => true
  | _ => false

/-- For each increment in a tree, in the order of the source, whether it stands after its
operand. -/
def Node.increments (n : Node) : List Bool :=
  let below := n.children.attach.flatMap fun child => increments child.val
  match n with
  | .expression (.unary .increment _ isPostfix) =>
      if isPostfix then below ++ [true] else false :: below
  | .expression (.unary .decrement _ isPostfix) =>
      if isPostfix then below ++ [true] else false :: below
  | _ => below
termination_by n.size
decreasing_by all_goals exact size_lt_of_mem_children child.property

/-- The increments of some nodes, one after the other. -/
def incrementsOf (ns : List Node) : List Bool := ns.flatMap Node.increments

@[simp] theorem incrementsOf_nil : incrementsOf [] = [] := rfl

@[simp] theorem incrementsOf_cons (n : Node) (ns : List Node) :
    incrementsOf (n :: ns) = n.increments ++ incrementsOf ns := rfl

@[simp] theorem incrementsOf_append (ns ns' : List Node) :
    incrementsOf (ns ++ ns') = incrementsOf ns ++ incrementsOf ns' := List.flatMap_append

/-- A node that is no operator before or after its operand has the increments of its children. -/
theorem Node.increments_eq {n : Node} (h : n.kind ≠ .unary) :
    n.increments = incrementsOf n.children := by
  rw [Node.increments]
  · simp [incrementsOf]
  · rintro e b rfl
    exact h rfl
  · rintro e b rfl
    exact h rfl

theorem Node.increments_postfix {k : TokenKind} {op : UnaryOperator}
    (h : k.postfixOperator? = some op) (e : Expression) :
    (expression (.unary op e true)).increments = (expression e).increments ++ [true] := by
  cases k <;> cases h <;> rw [Node.increments] <;> simp [children, Expression.children]

theorem Node.increments_prefix {k : TokenKind} {op : UnaryOperator}
    (h : k.prefixOperator? = some op) (e : Expression) :
    (expression (.unary op e false)).increments =
      (if isIncrement k then [false] else []) ++ (expression e).increments := by
  cases k <;> cases h <;> rw [Node.increments] <;>
    simp [children, Expression.children, isIncrement]

theorem incrementsOf_comments (cs : List Comment) :
    incrementsOf (cs.map fun c => .statement (.comment c)) = [] := by
  induction cs with
  | nil => rfl
  | cons c cs ih =>
      rw [List.map_cons, incrementsOf_cons, ih,
        Node.increments_eq (n := .statement (.comment c)) nofun]
      rfl

namespace Parser

theorem increments_apply (op : InfixOperator) (left right : Expression) :
    (Node.expression (op.apply left right)).increments =
      (Node.expression left).increments ++ (Node.expression right).increments := by
  have hkind : (Node.expression (op.apply left right)).kind ≠ .unary := by
    cases op <;> exact nofun
  rw [Node.increments_eq hkind]
  cases op <;> simp [InfixOperator.apply, Node.children, Expression.children]

theorem increments_jumpTo (k : TokenKind) (label : Option Text) :
    (Node.statement (jumpTo k label)).increments = [] := by
  have hkind : (Node.statement (jumpTo k label)).kind ≠ .unary := by
    unfold jumpTo
    split <;> exact nofun
  rw [Node.increments_eq hkind]
  unfold jumpTo
  split <;> rfl

/-! ## Kinds -/

theorem isIncrement_of_propertyKey? {k : TokenKind} {t : Text} {key : PropertyKey}
    (h : propertyKey? k t = some key) : isIncrement k = false := by
  cases k <;> first | rfl | cases h

theorem isIncrement_of_infixOperator? {p : Nat} {g : Grammar} {k : TokenKind} {op : InfixOperator}
    (h : infixOperator? p g k = some op) : isIncrement k = false := by
  cases k <;> first | rfl | cases h

theorem isIncrement_of_assignOperator? {k : TokenKind} {op : AssignOperator}
    (h : k.assignOperator? = some op) : isIncrement k = false := by
  cases k <;> first | rfl | cases h

theorem isIncrement_of_postfixOperator? {k : TokenKind} {op : UnaryOperator}
    (h : k.postfixOperator? = some op) : isIncrement k := by
  cases k <;> first | rfl | cases h

theorem isIncrement_of_jump {k : TokenKind} (h : k = .kwContinue ∨ k = .kwBreak) :
    isIncrement k = false := by
  obtain rfl | rfl := h <;> rfl

theorem prefixOperator?_kindAfterGap (newline : Bool) (k : TokenKind) :
    (Scanner.kindAfterGap newline k).prefixOperator? = k.prefixOperator? := by
  cases newline <;> cases k <;> rfl

/-! ## Items with breaks -/

/-- Whether an item is an increment or a decrement. -/
def Item.isIncrement : Item → Bool
  | .taken k _ => EcmaSyntax.isIncrement k
  | _ => false

/-- Lines end in front of some tokens of a list of items, given of each increment whether it stands
after its operand.  An increment that opens a line is marked, and does not. -/
inductive Breaks : List Bool → List Item → List Item → Prop
  | nil : Breaks [] [] []
  | kept {marks : List Bool} {it : Item} {its its' : List Item} :
      it.isIncrement = false → Breaks marks its its' → Breaks marks (it :: its) (it :: its')
  | increment {isPostfix : Bool} {marks : List Bool} {k : TokenKind} {t : Text}
      {its its' : List Item} (newline : Bool) : isIncrement k → (newline → isPostfix = false) →
      Breaks marks its its' → Breaks (isPostfix :: marks) (.taken k t :: its)
        (.taken (Scanner.kindAfterGap newline k) t :: its')

/-- Lines end in front of some tokens. -/
def Broken (its x : List Item) : Prop := ∃ marks, Breaks marks its x

theorem Breaks.kept_iff {marks : List Bool} {it : Item} {its x : List Item}
    (hit : it.isIncrement = false) :
    Breaks marks (it :: its) x ↔ ∃ its', x = it :: its' ∧ Breaks marks its its' := by
  constructor
  · intro h
    cases h with
    | kept _ h => exact ⟨_, rfl, h⟩
    | increment _ hk =>
        have hit' : isIncrement _ = false := hit
        rw [hk] at hit'
        cases hit'
  · rintro ⟨its', rfl, h⟩
    exact .kept hit h

namespace Broken

variable {last k : TokenKind} {its x : List Item}

/-- The token at hand is the same, unless a line ends in front of an increment. -/
theorem exists_peek (last : TokenKind) (h : Broken its x) : ∃ newline,
    peek last x = Scanner.kindAfterGap newline (peek last its) := by
  obtain ⟨marks, h⟩ := h
  have hnone : ∀ k, k = Scanner.kindAfterGap false k := fun k => by cases k <;> rfl
  induction h with
  | nil => exact ⟨false, hnone _⟩
  | @kept _ it _ _ _ _ ih => cases it <;> first | exact ⟨false, hnone _⟩ | exact ih
  | increment newline => exact ⟨newline, rfl⟩

theorem peek_eq_iff (h : Broken its x) (hk : isIncrement k = false) :
    peek last x = k ↔ peek last its = k := by
  obtain ⟨newline, h⟩ := h.exists_peek last
  rw [h]
  generalize peek last its = k'
  have hne : ∀ {k'}, isIncrement k' → k' ≠ k := by
    rintro _ h rfl
    rw [hk] at h
    cases h
  cases newline <;> cases k' <;> first | exact Iff.rfl | exact iff_of_false (hne rfl) (hne rfl)

theorem peek_ne (h : Broken its x) (hk : isIncrement k = false) (hp : peek last its ≠ k) :
    peek last x ≠ k := mt (h.peek_eq_iff hk).mp hp

theorem peek_eq (h : Broken its x) (hk : isIncrement k = false) (hp : peek last its = k) :
    peek last x = k := (h.peek_eq_iff hk).mpr hp

/-- A choice that does not depend on the end of a line is made as before. -/
theorem peek_congr {α : Type} (f : TokenKind → α)
    (hf : ∀ newline k, f (Scanner.kindAfterGap newline k) = f k) (h : Broken its x) :
    f (peek last x) = f (peek last its) := by
  obtain ⟨newline, h⟩ := h.exists_peek last
  rw [h, hf]

theorem peek_prefix (h : Broken its x) :
    (peek last x).prefixOperator? = (peek last its).prefixOperator? :=
  h.peek_congr TokenKind.prefixOperator? prefixOperator?_kindAfterGap

theorem peek_isPrefix (h : Broken its x) :
    (peek last x).isPrefixOperator = (peek last its).isPrefixOperator :=
  congrArg Option.isSome h.peek_prefix

theorem peek_assign (h : Broken its x) :
    (peek last x).assignOperator? = (peek last its).assignOperator? :=
  h.peek_congr TokenKind.assignOperator? fun newline k => by cases newline <;> cases k <;> rfl

theorem peek_infix {p : Nat} {g : Grammar} (h : Broken its x) :
    infixOperator? p g (peek last x) = infixOperator? p g (peek last its) :=
  h.peek_congr (infixOperator? p g) fun newline k => by cases newline <;> cases k <;> rfl

theorem peek_opens (h : Broken its x) :
    opensStatement (peek last x) = opensStatement (peek last its) :=
  h.peek_congr opensStatement fun newline k => by cases newline <;> cases k <;> rfl

theorem peek_endsReturn (h : Broken its x) :
    endsReturn (peek last x) = endsReturn (peek last its) :=
  h.peek_congr endsReturn fun newline k => by cases newline <;> cases k <;> rfl

theorem peek_postfix (h : Broken its x) (hp : (peek last its).postfixOperator? = none) :
    (peek last x).postfixOperator? = none := by
  obtain ⟨newline, h⟩ := h.exists_peek last
  rw [h]
  generalize peek last its = k at hp
  cases newline <;> cases k <;> first | exact hp | rfl

theorem peek_mem {stops : List TokenKind} (h : Broken its x)
    (hk : ∀ k ∈ stops, isIncrement k = false) : peek last x ∈ stops ↔ peek last its ∈ stops := by
  constructor
  · intro hp
    rwa [(h.peek_eq_iff (hk _ hp)).mp rfl]
  · intro hp
    rwa [h.peek_eq (hk _ hp) rfl]

end Broken

/-! ## What the grammar takes -/

/-- The items from one list on to another one have the increments that some marks have after some
others, and what holds of the two lists holds of them with breaks. -/
def Takes (lead marks : List Bool) (i r : List Item) (holds : List Item → List Item → Prop) :
    Prop :=
  ∃ taken, marks = lead ++ taken ∧
    i.countP Item.isIncrement = taken.length + r.countP Item.isIncrement ∧
    ∀ others i', Breaks (taken ++ others) i i' → ∃ r', Breaks others r r' ∧ holds i' r'

namespace Takes

variable {lead mid marks : List Bool} {i l m n r : List Item} {k : TokenKind} {t : Text}
  {holds holds' holds₁ holds₂ holds₃ holds₄ : List Item → List Item → Prop}

theorem here (h : ∀ {r'}, Broken r r' → holds r' r') : Takes lead lead r r holds :=
  ⟨[], (List.append_nil lead).symm, (Nat.zero_add _).symm, fun _ i' hi => ⟨i', hi, h ⟨_, hi⟩⟩⟩

theorem imp (h : Takes lead marks i r holds)
    (himp : ∀ {i' r'}, Broken i i' → Broken r r' → holds i' r' → holds' i' r') :
    Takes lead marks i r holds' := by
  obtain ⟨taken, hmarks, hcount, h⟩ := h
  refine ⟨taken, hmarks, hcount, fun others i' hi => ?_⟩
  obtain ⟨r', hr, hholds⟩ := h others i' hi
  exact ⟨r', hr, himp ⟨_, hi⟩ ⟨_, hr⟩ hholds⟩

theorem imp₂ (h : Takes lead marks i r fun i' r' => ∃ m', Broken m m' ∧ holds₁ i' m' ∧ holds₂ m' r')
    (himp : ∀ {i' m' r'}, Broken i i' → Broken r r' → Broken m m' → holds₁ i' m' → holds₂ m' r' →
      holds i' r') : Takes lead marks i r holds := by
  refine h.imp fun hi hr hholds => ?_
  obtain ⟨m', hm, h₁, h₂⟩ := hholds
  exact himp hi hr hm h₁ h₂

theorem imp₃ (h : Takes lead marks i r fun i' r' => ∃ n', Broken n n' ∧
      (∃ m', Broken m m' ∧ holds₁ i' m' ∧ holds₂ m' n') ∧ holds₃ n' r')
    (himp : ∀ {i' m' n' r'}, Broken i i' → Broken r r' → Broken m m' → Broken n n' →
      holds₁ i' m' → holds₂ m' n' → holds₃ n' r' → holds i' r') : Takes lead marks i r holds := by
  refine h.imp₂ fun hi hr hn hholds h₃ => ?_
  obtain ⟨m', hm, h₁, h₂⟩ := hholds
  exact himp hi hr hm hn h₁ h₂ h₃

theorem imp₄ (h : Takes lead marks i r fun i' r' => ∃ l', Broken l l' ∧
      (∃ n', Broken n n' ∧ (∃ m', Broken m m' ∧ holds₁ i' m' ∧ holds₂ m' n') ∧ holds₃ n' l') ∧
        holds₄ l' r')
    (himp : ∀ {i' m' n' l' r'}, Broken i i' → Broken r r' → Broken m m' → Broken n n' →
      Broken l l' → holds₁ i' m' → holds₂ m' n' → holds₃ n' l' → holds₄ l' r' → holds i' r') :
    Takes lead marks i r holds := by
  refine h.imp₃ fun hi hr hn hl hholds h₃ h₄ => ?_
  obtain ⟨m', hm, h₁, h₂⟩ := hholds
  exact himp hi hr hm hn hl h₁ h₂ h₃ h₄

theorem comp (h : Takes lead mid i m holds) (h' : Takes mid marks m r holds') :
    Takes lead marks i r fun i' r' => ∃ m', Broken m m' ∧ holds i' m' ∧ holds' m' r' := by
  obtain ⟨taken, rfl, hcount, h⟩ := h
  obtain ⟨taken', rfl, hcount', h'⟩ := h'
  refine ⟨taken ++ taken', List.append_assoc _ _ _, ?_, fun others i' hi => ?_⟩
  · rw [hcount, hcount', List.length_append, Nat.add_assoc]
  · rw [List.append_assoc] at hi
    obtain ⟨m', hm, hholds⟩ := h _ i' hi
    obtain ⟨r', hr, hholds'⟩ := h' others m' hm
    exact ⟨r', hr, m', ⟨_, hm⟩, hholds, hholds'⟩

/-- The same items are taken after other marks. -/
theorem after (h : Takes [] marks i r holds) (lead : List Bool) :
    Takes lead (lead ++ marks) i r holds := by
  obtain ⟨_, rfl, h⟩ := h
  exact ⟨marks, rfl, h⟩

/-- Items without increments are taken after any marks. -/
theorem still (h : Takes [] [] i r holds) (lead : List Bool) : Takes lead lead i r holds := by
  have := h.after lead
  rwa [List.append_nil] at this

theorem item {it : Item} (hit : it.isIncrement = false)
    (h : Takes lead marks i r fun i' r' => holds (it :: i') r') :
    Takes lead marks (it :: i) r holds := by
  obtain ⟨taken, hmarks, hcount, h⟩ := h
  refine ⟨taken, hmarks, ?_, fun others x hx => ?_⟩
  · rw [List.countP_cons_of_neg (Bool.eq_false_iff.mp hit), hcount]
  · obtain ⟨i', rfl, hi⟩ := (Breaks.kept_iff hit).mp hx
    exact h others i' hi

theorem token (hk : isIncrement k = false)
    (h : Takes lead marks i r fun i' r' => holds (.taken k t :: i') r') :
    Takes lead marks (.taken k t :: i) r holds := item hk h

/-- The token after the items is taken too. -/
theorem before (h : Takes lead marks i (.taken k t :: r) holds) (hk : isIncrement k = false) :
    Takes lead marks i r fun i' r' => holds i' (.taken k t :: r') := by
  have hit : (Item.taken k t).isIncrement = false := hk
  obtain ⟨taken, hmarks, hcount, h⟩ := h
  refine ⟨taken, hmarks, ?_, fun others i' hi => ?_⟩
  · rw [hcount, List.countP_cons_of_neg (Bool.eq_false_iff.mp hit)]
  · obtain ⟨x, hx, hholds⟩ := h others i' hi
    obtain ⟨r', rfl, hr⟩ := (Breaks.kept_iff hit).mp hx
    exact ⟨r', hr, hholds⟩

/-- An increment takes the next mark. -/
theorem increment {isPostfix : Bool} (hk : isIncrement k)
    (h : Takes [] marks i r fun i' r' => ∀ newline : Bool, (newline → isPostfix = false) →
      holds (.taken (Scanner.kindAfterGap newline k) t :: i') r') (lead : List Bool) :
    Takes lead (lead ++ isPostfix :: marks) (.taken k t :: i) r holds := by
  have hit : (Item.taken k t).isIncrement := hk
  obtain ⟨_, rfl, hcount, h⟩ := h
  refine ⟨isPostfix :: marks, rfl, ?_, fun others x hx => ?_⟩
  · rw [List.countP_cons_of_pos hit, List.length_cons]
    omega
  · cases hx with
    | kept hit =>
        have hit' : isIncrement k = false := hit
        rw [hk] at hit'
        cases hit'
    | increment newline _ hnewline hi =>
        obtain ⟨r', hr, hholds⟩ := h others _ hi
        exact ⟨r', hr, hholds newline hnewline⟩

/-- An operator before its operand may open a line. -/
theorem prefixOperator (h : Takes [] marks i r fun i' r' =>
      ∀ k', k'.prefixOperator? = k.prefixOperator? → holds (.taken k' t :: i') r') :
    Takes [] ((if isIncrement k then [false] else []) ++ marks) (.taken k t :: i) r holds := by
  cases hk : isIncrement k with
  | false => exact .token hk (h.imp fun _ _ hholds => hholds k rfl)
  | true =>
      exact .increment hk (h.imp fun _ _ hholds newline _ =>
        hholds _ (prefixOperator?_kindAfterGap newline k)) []

/-- An increment after its operand opens no line. -/
theorem postfixOperator (hk : isIncrement k) (h : ∀ {r'}, holds (.taken k t :: r') r') :
    Takes lead (lead ++ [true]) (.taken k t :: r) r holds := by
  refine .increment hk (.here fun _ newline hnewline => ?_) lead
  cases newline with
  | false =>
      have hkept : Scanner.kindAfterGap false k = k := by cases k <;> rfl
      rw [hkept]
      exact h
  | true => cases hnewline rfl

end Takes

/-! ## Derivations -/

/-- No part of the grammar stops at an increment. -/
def Nonterminal.IsSteady : Nonterminal → Prop
  | .elements stops => ∀ k ∈ stops, isIncrement k = false
  | .expressionBefore close => isIncrement close = false
  | _ => True

/-- A part of the grammar takes items with the increments of its tree. -/
def Nonterminal.Takes (last : TokenKind) (room : Nat) (n : Nonterminal) (i : List Item)
    (tree : n.Tree) (r : List Item) : Prop :=
  n.IsSteady → Parser.Takes (incrementsOf n.leadNodes) (incrementsOf (n.nodes tree)) i r
    fun i' r' => Derives last room n i' tree r'

theorem Derives.takes {last : TokenKind} {room : Nat} {n : Nonterminal} {i r : List Item}
    {tree : n.Tree} (h : Derives last room n i tree r) : n.Takes last room i tree r := by
  induction h <;>
    simp (disch := first | decide | with_unfolding_all (intro h; cases h)) only
      [Nonterminal.Takes, Nonterminal.IsSteady, Nonterminal.nodes, Nonterminal.leadNodes, ruleNode,
      initNodes, targetNode, incrementsOf_nil, incrementsOf_cons, incrementsOf_append,
      Node.increments_eq, Node.children,
      Expression.children, Statement.children, Node.ofOption, List.map_cons, List.map_nil,
      List.map_append, List.map_map, Function.comp_def, Option.map_none, Option.map_some,
      Option.toList_none, Option.toList_some, incrementsOf_comments, increments_apply,
      increments_jumpTo, true_imp_iff, List.append_nil, List.nil_append, ← List.append_assoc] at *
  case nested ih => exact ih.imp fun _ _ d => .nested d
  -- sequences and lists
  case sequenceEnd hi => exact .here fun h => .sequenceEnd (h.peek_ne rfl hi)
  case sequenceMore hi _ ih =>
    exact (ih.after _).imp fun h _ d => .sequenceMore (h.peek_eq rfl hi) d
  case operandsEnd hi => exact .here fun h => .operandsEnd (h.peek_ne rfl hi)
  case operandsMore ih₁ ih₂ =>
    exact .token rfl ((ih₁.comp (ih₂.after _)).imp₂ fun _ _ _ d₁ d₂ => .operandsMore d₁ d₂)
  case expression ih₁ ih₂ => exact (ih₁.comp ih₂).imp₂ fun _ _ _ d₁ d₂ => .expression d₁ d₂
  case parenthesized ih => exact .token rfl ((ih.before rfl).imp fun _ _ d => .parenthesized d)
  case argumentsNone => exact .token rfl (.token rfl (.here fun _ => .argumentsNone))
  case argumentsSome hi _ _ ih₁ ih₂ =>
    exact .token rfl ((ih₁.comp (ih₂.after _)).imp₂ fun h _ _ d₁ d₂ =>
      .argumentsSome (h.peek_ne rfl hi) d₁ d₂)
  case argumentsEnd => exact .token rfl (.here fun _ => .argumentsEnd)
  case argumentsMore ih₁ ih₂ =>
    exact .token rfl ((ih₁.comp (ih₂.after _)).imp₂ fun _ _ _ d₁ d₂ => .argumentsMore d₁ d₂)
  -- statement lists and functions
  case elementFunction hi _ ih =>
    exact ih.imp fun h _ d => .elementFunction (h.peek_eq rfl hi) d
  case elementStatement hi _ ih =>
    exact ih.imp fun h _ d => .elementStatement (h.peek_ne rfl hi) d
  case elementsEnd hi =>
    exact fun hk => .item rfl (.here fun h => .elementsEnd ((h.peek_mem hk).mpr hi))
  case elementsMore hi _ _ ih₂ ih₁ =>
    exact fun hk => .item rfl ((ih₁.comp ((ih₂ hk).after _)).imp₂ fun h _ _ d₁ d₂ =>
      .elementsMore (mt (h.peek_mem hk).mp hi) d₁ d₂)
  case blockBody ih =>
    exact .token rfl (((ih (by simp; rfl)).before rfl).imp fun _ _ d => .blockBody d)
  case functionNamed ih₁ ih₂ =>
    exact .token rfl (.token rfl ((ih₁.comp ih₂).imp₂ fun _ _ _ d₁ d₂ =>
      .functionNamed d₁ d₂))
  case functionPlain ih₁ ih₂ =>
    exact .token rfl ((ih₁.comp ih₂).imp₂ fun _ _ _ d₁ d₂ => .functionPlain d₁ d₂)
  case parametersNone => exact .token rfl (.token rfl (.here fun _ => .parametersNone))
  case parametersSome ih => exact .token rfl (.token rfl (ih.imp fun _ _ d => .parametersSome d))
  case parametersEnd => exact .token rfl (.here fun _ => .parametersEnd)
  case parametersMore ih => exact .token rfl (.token rfl (ih.imp fun _ _ d => .parametersMore d))
  -- literals with parts
  case arrayEnd hi => exact .here fun h => .arrayEnd (h.peek_eq rfl hi)
  case arrayHole ih => exact .token rfl (ih.imp fun _ _ d => .arrayHole d)
  case arrayLast hi hi' _ hm _ ih₁ ih₂ =>
    exact (ih₁.comp (ih₂.after _)).imp₂ fun h _ hm' d₁ d₂ =>
      .arrayLast (h.peek_ne rfl hi) (h.peek_ne rfl hi') d₁ (hm'.peek_eq rfl hm) d₂
  case arrayMore hi hi' _ _ ih₁ ih₂ =>
    exact ((ih₁.before rfl).comp (ih₂.after _)).imp₂ fun h _ _ d₁ d₂ =>
      .arrayMore (h.peek_ne rfl hi) (h.peek_ne rfl hi') d₁ d₂
  case propertyInit hkey _ ih =>
    exact .token (isIncrement_of_propertyKey? hkey) (.token rfl (ih.imp fun _ _ d =>
      .propertyInit hkey d))
  case propertyGetter hkey _ ih =>
    exact .token rfl (.token (isIncrement_of_propertyKey? hkey) (.token rfl (.token rfl
      (ih.imp fun _ _ d => .propertyGetter hkey d))))
  case propertySetter hkey _ ih =>
    exact .token rfl (.token (isIncrement_of_propertyKey? hkey) (.token rfl (.token rfl
      (.token rfl (ih.imp fun _ _ d => .propertySetter hkey d)))))
  case membersEnd hi => exact .here fun h => .membersEnd (h.peek_eq rfl hi)
  case membersLast hi _ hm _ ih₁ ih₂ =>
    exact (ih₁.comp (ih₂.after _)).imp₂ fun h _ hm' d₁ d₂ =>
      .membersLast (h.peek_ne rfl hi) d₁ (hm'.peek_eq rfl hm) d₂
  case membersMore hi _ _ ih₁ ih₂ =>
    exact ((ih₁.before rfl).comp (ih₂.after _)).imp₂ fun h _ _ d₁ d₂ =>
      .membersMore (h.peek_ne rfl hi) d₁ d₂
  -- primary expressions
  case primaryThis => exact .token rfl (.here fun _ => .primaryThis)
  case primaryName => exact .token rfl (.here fun _ => .primaryName)
  case primaryNull => exact .token rfl (.here fun _ => .primaryNull)
  case primaryTrue => exact .token rfl (.here fun _ => .primaryTrue)
  case primaryFalse => exact .token rfl (.here fun _ => .primaryFalse)
  case primaryNumber hvalue => exact .token rfl (.here fun _ => .primaryNumber hvalue)
  case primaryString => exact .token rfl (.here fun _ => .primaryString)
  case primaryRegex => exact .item rfl (.here fun _ => .primaryRegex)
  case primaryArray ih => exact .token rfl ((ih.before rfl).imp fun _ _ d => .primaryArray d)
  case primaryObject hg _ ih =>
    exact .token rfl ((ih.before rfl).imp fun _ _ d => .primaryObject hg d)
  case primaryFunction hg hi _ ih =>
    exact ih.imp fun h _ d => .primaryFunction hg (h.peek_eq rfl hi) d
  case primaryParenthesized hi _ ih =>
    exact ih.imp fun h _ d => .primaryParenthesized (h.peek_eq rfl hi) d
  -- left-hand sides
  case memberEnd hi hi' =>
    exact .here fun h => .memberEnd (h.peek_ne rfl hi) (h.peek_ne rfl hi')
  case memberDot ih => exact .item rfl (ih.imp fun _ _ d => .memberDot d)
  case memberBracket ih₁ ih₂ =>
    exact .token rfl ((((ih₁.after _).before rfl).comp ih₂).imp₂ fun _ _ _ d₁ d₂ =>
      .memberBracket d₁ d₂)
  case callEnd hi => exact .here fun h => .callEnd (h.peek_ne rfl hi)
  case callMore hi _ _ _ ih₁ ih₂ ih₃ =>
    exact (((ih₁.after _).comp ih₂).comp ih₃).imp₃ fun h _ _ _ d₁ d₂ d₃ =>
      .callMore (h.peek_eq rfl hi) d₁ d₂ d₃
  case headNew hi _ ih => exact ih.imp fun h _ d => .headNew (h.peek_eq rfl hi) d
  case headPrimary hi _ ih => exact ih.imp fun h _ d => .headPrimary (h.peek_ne rfl hi) d
  case leftHandSide ih₁ ih₂ ih₃ =>
    exact ((ih₁.comp ih₂).comp ih₃).imp₃ fun _ _ _ _ d₁ d₂ d₃ => .leftHandSide d₁ d₂ d₃
  case constructionApplied hm _ ih₁ ih₂ ih₃ =>
    exact .token rfl (((ih₁.comp ih₂).comp (ih₃.after _)).imp₃
      fun _ _ _ hm' d₁ d₂ d₃ => .constructionApplied d₁ d₂ (hm'.peek_eq rfl hm) d₃)
  case constructionBare hr ih₁ ih₂ =>
    exact .token rfl ((ih₁.comp ih₂).imp₂ fun _ hr' _ d₁ d₂ =>
      .constructionBare d₁ d₂ (hr'.peek_ne rfl hr))
  -- operators
  case postfixEnd hi => exact .here fun h => .postfixEnd (h.peek_postfix hi)
  case postfixMore hop =>
    rw [Node.increments_postfix hop]
    exact .postfixOperator (isIncrement_of_postfixOperator? hop) (.postfixMore hop)
  case unaryPrefix hop _ ih =>
    rw [Node.increments_prefix hop]
    exact .prefixOperator (ih.imp fun _ _ d k' hk' => .unaryPrefix (hk'.trans hop) d)
  case unaryPostfix hi _ _ ih₁ ih₂ =>
    exact (ih₁.comp ih₂).imp₂ fun h _ _ d₁ d₂ => .unaryPostfix (h.peek_prefix.trans hi) d₁ d₂
  case binaryEnd hi => exact .here fun h => .binaryEnd (h.peek_infix.trans hi)
  case binaryMore hop _ _ _ ih₁ ih₂ ih₃ =>
    exact .token (isIncrement_of_infixOperator? hop) ((((ih₁.comp ih₂).after _).comp ih₃).imp₃
      fun _ _ _ _ d₁ d₂ d₃ => .binaryMore hop d₁ d₂ d₃)
  case conditionalEnd hi => exact .here fun h => .conditionalEnd (h.peek_ne rfl hi)
  case conditionalMore ih₁ ih₂ =>
    exact .token rfl ((((ih₁.after _).before rfl).comp (ih₂.after _)).imp₂
      fun _ _ _ d₁ d₂ => .conditionalMore d₁ d₂)
  case operatorsRest ih₁ ih₂ =>
    exact (ih₁.comp ih₂).imp₂ fun _ _ _ d₁ d₂ => .operatorsRest d₁ d₂
  case assignMore hop _ ih =>
    exact .token (isIncrement_of_assignOperator? hop) ((ih.after _).imp fun _ _ d =>
      .assignMore hop d)
  case assignEnd hi _ _ ih₁ ih₂ =>
    exact (ih₁.comp ih₂).imp₂ fun h _ _ d₁ d₂ => .assignEnd (h.peek_assign.trans hi) d₁ d₂
  case assignmentPrefixed hi _ _ ih₁ ih₂ =>
    exact (ih₁.comp ih₂).imp₂ fun h _ _ d₁ d₂ =>
      .assignmentPrefixed (h.peek_isPrefix.trans hi) d₁ d₂
  case assignmentPlain hi _ _ ih₁ ih₂ =>
    exact (ih₁.comp ih₂).imp₂ fun h _ _ d₁ d₂ =>
      .assignmentPlain (h.peek_isPrefix.trans hi) d₁ d₂
  -- declared variables
  case declaratorPlain hi =>
    exact .token rfl (.here fun h => .declaratorPlain (h.peek_ne rfl hi))
  case declaratorInit ih => exact .token rfl (.token rfl (ih.imp fun _ _ d => .declaratorInit d))
  case declarators ih₁ ih₂ =>
    exact (ih₁.comp (ih₂.after _)).imp₂ fun _ _ _ d₁ d₂ => .declarators d₁ d₂
  case declaratorsEnd hi => exact .here fun h => .declaratorsEnd (h.peek_ne rfl hi)
  case declaratorsMore ih₁ ih₂ =>
    exact .token rfl ((ih₁.comp (ih₂.after _)).imp₂ fun _ _ _ d₁ d₂ => .declaratorsMore d₁ d₂)
  -- statements
  case ended => exact .item rfl (.here fun _ => .ended)
  case inserted => exact .item rfl (.here fun _ => .inserted)
  case block hi _ ih => exact ih.imp fun h _ d => .block (h.peek_eq rfl hi) d
  case declare ih₁ ih₂ =>
    exact .token rfl ((ih₁.comp (ih₂.still _)).imp₂ fun _ _ _ d₁ d₂ => .declare d₁ d₂)
  case empty => exact .token rfl (.here fun _ => .empty)
  case labelled ih₁ ih₂ =>
    refine ((ih₁.before rfl).comp ih₂).imp₂ fun h _ _ d₁ d₂ => ?_
    -- the name and the colon are still there
    obtain rfl := d₁.eq_name (h.peek_eq rfl rfl)
    exact .labelled d₁ d₂
  case expressionStatement hi _ hm _ ih₁ ih₂ =>
    refine (ih₁.comp (ih₂.still _)).imp₂ fun h _ hm' d₁ d₂ => ?_
    refine .expressionStatement (h.peek_opens.trans hi) d₁ (fun hname => hm ?_) d₂
    exact ⟨(h.peek_eq_iff rfl).mp hname.1, hname.2.1, (hm'.peek_eq_iff rfl).mp hname.2.2⟩
  case debugger ih => exact .token rfl (ih.imp fun _ _ d => .debugger d)
  case ifThen hr ih₁ ih₂ =>
    exact .token rfl ((ih₁.comp (ih₂.after _)).imp₂ fun _ hr' _ d₁ d₂ =>
      .ifThen d₁ d₂ (hr'.peek_ne rfl hr))
  case ifElse ih₁ ih₂ ih₃ =>
    exact .token rfl (((ih₁.comp ((ih₂.after _).before rfl)).comp (ih₃.after _)).imp₃
      fun _ _ _ _ d₁ d₂ d₃ => .ifElse d₁ d₂ d₃)
  case doWhile ih₁ ih₂ ih₃ =>
    exact .token rfl ((((ih₁.before rfl).comp (ih₂.after _)).comp (ih₃.still _)).imp₃
      fun _ _ _ _ d₁ d₂ d₃ => .doWhile d₁ d₂ d₃)
  case whileDo ih₁ ih₂ =>
    exact .token rfl ((ih₁.comp (ih₂.after _)).imp₂ fun _ _ _ d₁ d₂ => .whileDo d₁ d₂)
  case forLoop ih => exact .token rfl (.token rfl (ih.imp fun _ _ d => .forLoop d))
  case forNothing hi _ ih => exact ih.imp fun h _ d => .forNothing (h.peek_eq rfl hi) d
  case forVariables hm _ ih₁ ih₂ =>
    exact .token rfl ((ih₁.comp ih₂).imp₂ fun _ _ hm' d₁ d₂ =>
      .forVariables d₁ (fun hin => hm ⟨hin.1, (hm'.peek_eq_iff rfl).mp hin.2⟩) d₂)
  case forInVariable ih₁ ih₂ =>
    exact .token rfl (((ih₁.before rfl).comp ih₂).imp₂ fun _ _ _ d₁ d₂ =>
      .forInVariable d₁ d₂)
  case forPrefixed hi _ _ _ ih₁ ih₂ ih₃ =>
    exact ((ih₁.comp ih₂).comp ih₃).imp₃ fun h _ _ _ d₁ d₂ d₃ =>
      .forPrefixed (h.peek_isPrefix.trans hi) d₁ d₂ d₃
  case forExpression hi hi' hp _ hm _ _ _ ih₁ ih₂ ih₃ ih₄ =>
    exact (((ih₁.comp ih₂).comp ih₃).comp ih₄).imp₄
      fun h _ hm' _ _ d₁ d₂ d₃ d₄ =>
        .forExpression (h.peek_ne rfl hi) (h.peek_ne rfl hi') (h.peek_isPrefix.trans hp) d₁
          (hm'.peek_ne rfl hm) d₂ d₃ d₄
  case forInExpression hi hi' hp _ _ ih₁ ih₂ =>
    exact ((ih₁.before rfl).comp ih₂).imp₂ fun h _ _ d₁ d₂ =>
      .forInExpression (h.peek_ne rfl hi) (h.peek_ne rfl hi') (h.peek_isPrefix.trans hp) d₁ d₂
  case forRest ih₁ ih₂ ih₃ =>
    exact .token rfl (((((ih₁ rfl).after _).before rfl).comp (((ih₂ rfl).after _).before rfl)
      |>.comp (ih₃.after _)).imp₃ fun _ _ _ _ d₁ d₂ d₃ => .forRest d₁ d₂ d₃)
  case forInRest ih₁ ih₂ =>
    exact (((ih₁.after _).before rfl).comp (ih₂.after _)).imp₂ fun _ _ _ d₁ d₂ =>
      .forInRest d₁ d₂
  case expressionAbsent hi => exact fun hk => .here fun h => .expressionAbsent (h.peek_eq hk hi)
  case expressionPresent hi _ ih =>
    exact fun hk => ih.imp fun h _ d => .expressionPresent (h.peek_ne hk hi) d
  case jumpBare hk hi _ ih =>
    exact .token (isIncrement_of_jump hk) (ih.imp fun h _ d => .jumpBare hk (h.peek_ne rfl hi) d)
  case jumpLabel hk _ ih =>
    exact .token (isIncrement_of_jump hk) (.token rfl (ih.imp fun _ _ d => .jumpLabel hk d))
  case returnNothing hi _ ih =>
    exact .token rfl (ih.imp fun h _ d => .returnNothing (h.peek_endsReturn.trans hi) d)
  case returnValue hi _ _ ih₁ ih₂ =>
    exact .token rfl ((ih₁.comp (ih₂.still _)).imp₂ fun h _ _ d₁ d₂ =>
      .returnValue (h.peek_endsReturn.trans hi) d₁ d₂)
  case throwValue ih₁ ih₂ =>
    exact .token rfl ((ih₁.comp (ih₂.still _)).imp₂ fun _ _ _ d₁ d₂ => .throwValue d₁ d₂)
  case withObject ih₁ ih₂ =>
    exact .token rfl ((ih₁.comp (ih₂.after _)).imp₂ fun _ _ _ d₁ d₂ => .withObject d₁ d₂)
  case switch ih₁ ih₂ =>
    exact .token rfl (((ih₁.before rfl).comp (ih₂.after _)).imp₂ fun _ _ _ d₁ d₂ =>
      .switch d₁ d₂)
  case clausesEnd => exact .token rfl (.here fun _ => .clausesEnd)
  case clausesCase ih₂ ih₁ ih₃ =>
    exact .token rfl ((((ih₁.before rfl).comp ((ih₂ (by decide)).after _)).comp (ih₃.after _)).imp₃
      fun _ _ _ _ d₁ d₂ d₃ => .clausesCase d₁ d₂ d₃)
  case clausesDefault ih₁ ih₂ =>
    exact .token rfl (.token rfl (((ih₁ (by decide)).comp (ih₂.after _)).imp₂
      fun _ _ _ d₁ d₂ => .clausesDefault d₁ d₂))
  case tryCatch hsome ih₁ ih₂ ih₃ =>
    exact .token rfl (((ih₁.comp (ih₂.after _)).comp (ih₃.after _)).imp₃
      fun _ _ _ _ d₁ d₂ d₃ => .tryCatch d₁ d₂ d₃ hsome)
  case handlerAbsent hi => exact .here fun h => .handlerAbsent (h.peek_ne rfl hi)
  case handlerPresent ih =>
    exact .token rfl (.token rfl (.token rfl (.token rfl (ih.imp fun _ _ d => .handlerPresent d))))
  case finalizerAbsent hi => exact .here fun h => .finalizerAbsent (h.peek_ne rfl hi)
  case finalizerPresent ih => exact .token rfl (ih.imp fun _ _ d => .finalizerPresent d)
  case declaration ih => exact ih.imp fun _ _ d => .declaration d

/-- Items have the increments of the statements that the grammar derives from them, and with lines
that end in front of other tokens than increments after their operands they have the same
statements. -/
theorem Derives.broken {limit : Nat} {i : List Item} {body : List Statement}
    (h : Derives .endOfInput limit (.elements [.endOfInput]) i body []) :
    i.countP Item.isIncrement = (incrementsOf (body.map .statement)).length ∧
      ∀ i', Breaks (incrementsOf (body.map .statement)) i i' →
        Derives .endOfInput limit (.elements [.endOfInput]) i' body [] := by
  have hsteady : (Nonterminal.elements [.endOfInput]).IsSteady := by
    intro k hk
    rw [List.mem_singleton.mp hk]
    rfl
  obtain ⟨taken, hmarks, hcount, h⟩ := h.takes hsteady
  have htaken : incrementsOf (body.map .statement) = taken := hmarks
  rw [htaken]
  refine ⟨hcount, fun i' hi => ?_⟩
  obtain ⟨r', hr, hderives⟩ := h [] i' (by rwa [List.append_nil])
  cases hr
  exact hderives

end Parser
end EcmaSyntax
