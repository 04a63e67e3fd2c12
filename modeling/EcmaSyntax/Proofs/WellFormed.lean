import EcmaSyntax.Proofs.Grammar.Builds
import EcmaSyntax.Proofs.Reading
import EcmaSyntax.Syntax.Node

/-!
# Programs are well formed

**Nodes.**  `Node.WellFormed` is a condition on a node of a tree and on what kinds of children it
has: functions are declared and comments stand only in lists of statements, names are names,
literals of regular expressions have a pattern, and lists that cannot be empty are not.  A program
is well formed if each of its nodes is.

**Items.**  The names and the regular expressions of a tree are texts of items, and the scanner has
looked at each of them.  The rest is in the shape of the grammar.

**Results.**
* `Spells.areLexical`: the items that a source spells are names and regular expressions where
  they should be.
* `Derives.sound`: from such items the grammar derives well-formed trees.
* `program_wellFormed`: a program that a parser yields is well formed.
-/

namespace EcmaSyntax

/-! ## Names -/

/-- Whether a text is an identifier or a keyword. -/
def isIdentifierName (t : Text) : Bool :=
  t.head?.any isIdentifierStart && t.all isIdentifierPart

/-- Whether a text is an identifier and no keyword. -/
def isBindingName (t : Text) : Bool :=
  isIdentifierName t && TokenKind.keywords.all (·.display ≠ t)

theorem wordKind_eq_identifier_iff {t : Text} :
    wordKind t = .identifier ↔ TokenKind.keywords.all (·.display ≠ t) := by
  unfold wordKind
  cases h : TokenKind.keywords.find? (·.display = t) with
  | none => simpa using h
  | some k =>
      have hk := List.mem_of_find?_eq_some h
      have ht := List.find?_some h
      refine ⟨?_, fun hall => ?_⟩
      · rintro rfl
        exact absurd hk (by decide)
      · exact absurd ht (by simpa using List.all_eq_true.mp hall k hk)

theorem isBindingName_iff {t : Text} :
    isBindingName t ↔ isIdentifierName t ∧ wordKind t = .identifier := by
  rw [isBindingName, Bool.and_eq_true, wordKind_eq_identifier_iff]

/-! ## Conditions on nodes -/

/-- Whether a statement may be a part of another one outside its lists of statements. -/
def Statement.isBody : Statement → Bool
  | .function _ => false
  | .comment _ => false
  | _ => true

/-- Whether a statement is a block. -/
def Statement.isBlock : Statement → Bool
  | .block _ => true
  | _ => false

/-- The name and the parameters of a function are names. -/
def Function.WellFormed (f : Function) : Prop :=
  (∀ name ∈ f.name, isBindingName name) ∧ ∀ p ∈ f.params, isBindingName p

/-- The condition on the name of a property. -/
def PropertyKey.WellFormed : PropertyKey → Prop
  | .identifier name => isIdentifierName name
  | .string _ => True
  | .number _ => True

/-- The condition on an expression. -/
def Expression.WellFormed : Expression → Prop
  | .identifier name => isBindingName name
  | .regex pattern flags =>
      pattern ≠ [] ∧ (∀ c ∈ pattern, isLineTerminator c = false) ∧
        ∀ c ∈ flags, isIdentifierPart c
  | .function f => f.WellFormed
  | .unary op _ isPostfix => isPostfix → op = .increment ∨ op = .decrement
  | .dot _ property => isIdentifierName property
  | .sequence operands => 2 ≤ operands.length
  | _ => True

/-- The condition on a statement. -/
def Statement.WellFormed : Statement → Prop
  | .declare ds => ds ≠ []
  | .ifElse _ consequent alternate => consequent.isBody ∧ ∀ s ∈ alternate, s.isBody
  | .doWhile body _ => body.isBody
  | .whileDo _ body => body.isBody
  | .forLoop init _ _ body => init ≠ some (.declared []) ∧ body.isBody
  | .forIn _ _ body => body.isBody
  | .continueTo label => ∀ name ∈ label, isBindingName name
  | .breakTo label => ∀ name ∈ label, isBindingName name
  | .withObject _ body => body.isBody
  | .switch _ clauses => clauses.countP (·.test.isNone) ≤ 1
  | .labelled label body => isBindingName label ∧ body.isBody
  | .tryCatch guarded handler finalizer =>
      guarded.isBlock ∧ (∀ s ∈ finalizer, s.isBlock) ∧ (handler.isSome ∨ finalizer.isSome)
  | .function f => f.name.isSome ∧ f.WellFormed
  | _ => True

/-- The condition on a member of an object literal. -/
def Property.WellFormed : Property → Prop
  | .init key _ => key.WellFormed
  | .getter key _ => key.WellFormed
  | .setter key param _ => key.WellFormed ∧ isBindingName param

/-- The condition on a node. -/
def Node.WellFormed : Node → Prop
  | .statement s => s.WellFormed
  | .expression e => e.WellFormed
  | .property p => p.WellFormed
  | .declarator d => isBindingName d.name
  | .handler c => isBindingName c.param
  | _ => True

/-- A condition holds of each node of a tree. -/
inductive Node.Everywhere (p : Node → Prop) : Node → Prop
  | node {n : Node} : p n → (∀ child ∈ n.children, Everywhere p child) → Everywhere p n

namespace Node

section

variable {p q : Node → Prop}

theorem everywhere_statement {s : Statement} : (statement s).Everywhere p ↔
    p (.statement s) ∧ ∀ child ∈ s.children, child.Everywhere p :=
  ⟨fun ⟨h, hs⟩ => ⟨h, hs⟩, fun ⟨h, hs⟩ => .node h hs⟩

theorem everywhere_expression {e : Expression} : (expression e).Everywhere p ↔
    p (.expression e) ∧ ∀ child ∈ e.children, child.Everywhere p :=
  ⟨fun ⟨h, hs⟩ => ⟨h, hs⟩, fun ⟨h, hs⟩ => .node h hs⟩

theorem Everywhere.and {n : Node} (hp : n.Everywhere p) (hq : n.Everywhere q) :
    n.Everywhere fun n => p n ∧ q n := by
  induction hp with
  | node hp _ ih =>
      obtain ⟨hq, hqs⟩ := hq
      exact .node ⟨hp, hq⟩ fun child hchild => ih child hchild (hqs child hchild)

end

end Node

/-- Each node of a tree is well formed. -/
def Node.Sound (n : Node) : Prop := n.Everywhere WellFormed

/-- Each node of a program is well formed. -/
def Program.WellFormed (p : Program) : Prop := (Node.program p).Sound

/-! ## Sound trees -/

namespace Node

/-- Each of some nodes is sound. -/
def AreSound (ns : List Node) : Prop := ∀ n ∈ ns, n.Sound

namespace AreSound

variable {n : Node} {ns ns' : List Node}

theorem nil : AreSound [] := List.forall_mem_nil _

theorem cons (hn : n.Sound) (hns : AreSound ns) : AreSound (n :: ns) :=
  List.forall_mem_cons.mpr ⟨hn, hns⟩

theorem one (hn : n.Sound) : AreSound [n] := .cons hn .nil

theorem append (hns : AreSound ns) (hns' : AreSound ns') : AreSound (ns ++ ns') :=
  List.forall_mem_append.mpr ⟨hns, hns'⟩

end AreSound

/-- A node with sound children is sound if it is well formed itself. -/
theorem sound_of {n : Node} (h : n.WellFormed) (hs : AreSound n.children) : n.Sound :=
  .node h hs

theorem sound_elision : elision.Sound := .node trivial nofun

theorem sound_comments (cs : List Comment) : AreSound ((cs.map .comment).map statement) := by
  induction cs with
  | nil => exact .nil
  | cons c cs ih => exact .cons (sound_of trivial .nil) ih

end Node

/-! ## Regular expressions -/

/-- The pattern of a regular expression stands in one line. -/
theorem isLineTerminator_of_mem_regexRest {t body : Text} {inClass : Bool}
    (h : regexRest? inClass t = some body) : ∀ c ∈ body, isLineTerminator c = false := by
  fun_induction regexRest? inClass t generalizing body with
  | case1 => cases h
  | case2 => cases h
  | case3 => cases h
  | case4 inClass c t hc ih =>
      obtain ⟨body, hbody, rfl⟩ := Option.map_eq_some_iff.mp h
      have hslash : isLineTerminator '\\' = false := by decide
      simpa [hslash, hc] using ih hbody
  | case5 => cases h
  | case6 =>
      cases h
      exact List.forall_mem_nil _
  | case7 inClass c t _ _ hc _ ih =>
      obtain ⟨body, hbody, rfl⟩ := Option.map_eq_some_iff.mp h
      simpa [hc] using ih hbody

/-- A literal has the pattern and the flags that it is written with. -/
theorem regexParts_literal (pattern : Text) {flags : Text}
    (hflags : ∀ c ∈ flags, isIdentifierPart c) :
    regexParts ('/' :: pattern ++ '/' :: flags) = (pattern, flags) := by
  have hrun : ('/' :: pattern ++ '/' :: flags).reverse.takeWhile (· ≠ '/') = flags.reverse := by
    have hreverse : ('/' :: pattern ++ '/' :: flags).reverse =
        flags.reverse ++ ('/' :: (pattern.reverse ++ ['/'])) := by simp
    rw [hreverse]
    refine takeWhile_append_eq (fun c hc => ?_) fun c hc => ?_
    · refine decide_eq_true ?_
      rintro rfl
      exact absurd (hflags '/' (List.mem_reverse.mp hc)) (by decide)
    · cases hc
      rfl
  have hclose : ('/' :: pattern ++ '/' :: flags).length - flags.length - 1 =
      ('/' :: pattern).length := by
    simp only [List.length_append, List.length_cons]
    omega
  unfold regexParts
  simp only [hrun, List.reverse_reverse, hclose, List.take_left']
  rfl

/-- What the scanner takes for a regular expression is one. -/
theorem wellFormed_regexParts {t w : Text} (h : regexLiteral? t = some w) :
    (Expression.regex (regexParts w).1 (regexParts w).2).WellFormed := by
  obtain ⟨c, pattern, flags, r, rfl, rfl, hu, hflags, -⟩ := regexLiteral?_eq_some_iff.mp h
  rw [regexParts_literal (c :: pattern) hflags]
  exact ⟨List.cons_ne_nil _ _, isLineTerminator_of_mem_regexRest (hu []), hflags⟩

namespace Parser

/-! ## Items -/

/-- Whether the text of an item is a name or a regular expression where it should be one. -/
def Item.IsLexical : Item → Prop
  | .taken k t => (k = .identifier → isBindingName t) ∧ (k.isIdentifierName → isIdentifierName t)
  | .member _ t => isIdentifierName t
  | .literal _ t => (Expression.regex (regexParts t).1 (regexParts t).2).WellFormed
  | _ => True

/-- Names and regular expressions stand where they should. -/
def AreLexical (its : List Item) : Prop := ∀ it ∈ its, it.IsLexical

namespace AreLexical

variable {it : Item} {its i r : List Item}

theorem cons (hit : it.IsLexical) (h : AreLexical its) : AreLexical (it :: its) :=
  List.forall_mem_cons.mpr ⟨hit, h⟩

theorem head (h : AreLexical (it :: its)) : it.IsLexical := (List.forall_mem_cons.mp h).1

theorem tail (h : AreLexical (it :: its)) : AreLexical its := (List.forall_mem_cons.mp h).2

/-- What a derivation leaves is from the items that it starts from. -/
theorem after (hi : AreLexical i) {last : TokenKind} {room : Nat} {n : Nonterminal}
    {tree : n.Tree} (h : Derives last room n i tree r) : AreLexical r :=
  fun it hit => hi it (h.suffix.mem hit)

end AreLexical

end Parser

theorem punctuators_not_name : ∀ k ∈ TokenKind.punctuators, k.isIdentifierName = false := by
  decide

/-- A token that may name a property is a name. -/
theorem TokenAt.isIdentifierName {k : TokenKind} {w r : Text} (h : TokenAt k w r)
    (hk : k.isIdentifierName) : EcmaSyntax.isIdentifierName w := by
  cases h with
  | @word c w _ hstart hparts =>
      have hall : (c :: w).all isIdentifierPart := List.all_eq_true.mpr hparts
      rw [EcmaSyntax.isIdentifierName, List.head?_cons, Option.any_some, hstart, hall]
      rfl
  | number => cases hk
  | string => cases hk
  | punctuator hp =>
      rw [punctuators_not_name k (punctuator?_eq_some_iff.mp hp).1] at hk
      cases hk

/-- A token that is an identifier is no keyword. -/
theorem TokenAt.isBindingName {w r : Text} (h : TokenAt .identifier w r) :
    EcmaSyntax.isBindingName w := by
  refine isBindingName_iff.mpr ⟨h.isIdentifierName rfl, ?_⟩
  generalize hk : TokenKind.identifier = k at h
  cases h with
  | word => rfl
  | number => cases hk
  | string => cases hk
  | punctuator hp =>
      subst hk
      exact absurd (punctuator?_eq_some_iff.mp hp).1 (by decide)

/-- The token of a site is a name if it is of such a kind. -/
theorem Site.Valid.isLexical {p : Site} (hp : p.Valid) :
    (Parser.Item.taken p.kindHere p.text).IsLexical := by
  have hkind : p.kindHere.isIdentifierName → p.kindHere = p.kind := by
    unfold Site.kindHere
    generalize p.kind = k
    cases k <;> first | exact fun _ => rfl | (cases p.newline <;> (intro h; cases h))
  obtain ⟨hend, -⟩ | ht := hp.token
  · rw [Site.kindHere, hend]
    constructor <;> (intro h; cases h)
  · refine ⟨fun hk => ?_, fun hk => ht.isIdentifierName (hkind hk ▸ hk)⟩
    have hname : p.kind = .identifier := by rw [← hkind (by rw [hk]; rfl), hk]
    exact (hname ▸ ht).isBindingName

namespace Parser

/-- The items that a source spells have been looked at by the scanner. -/
theorem Spells.areLexical {o : Nat} {bare claimed : Bool} {p : Site} {its : List Item}
    {marks : List Mark} (h : Spells o bare claimed p its marks) : AreLexical its := by
  induction h with
  | stop => exact nofun
  | taken hp _ _ _ _ ih => exact .cons hp.isLexical ih
  | member _ _ _ _ hq hname _ _ ih => exact .cons (hq.isLexical.2 hname) ih
  | literal _ _ _ _ hbody _ _ ih => exact .cons (wellFormed_regexParts hbody) ih
  | ended _ _ _ _ _ ih => exact .cons trivial ih
  | early _ _ ih => exact .cons trivial ih
  | inserted _ _ _ _ ih => exact .cons trivial ih
  | comments _ ih => exact .cons trivial ih

/-! ## Derivations -/

/-- A statement is sound, and it may be a part of another one. -/
def IsSoundBody (s : Statement) : Prop := (Node.statement s).Sound ∧ s.isBody

/-- What a rule yields is sound. -/
def ruleSound : (r : Rule) → r.Tree → Prop
  | .statement, s => IsSoundBody s
  | .declaration, s => (Node.statement s).Sound
  | .assignment _, e => (Node.expression e).Sound
  | .operand _, e => (Node.expression e).Sound
  | .construction, e => (Node.expression e).Sound

/-- What a part of the grammar yields is sound, if what it goes on with is. -/
def Nonterminal.Sound : (n : Nonterminal) → n.Tree → Prop
  | .rule r, tree => ruleSound r tree
  | .body r, tree => ruleSound r tree
  | .sequenceRest first _, e => (Node.expression first).Sound → (Node.expression e).Sound
  | .operands _, es => Node.AreSound (es.map .expression)
  | .expression _, e => (Node.expression e).Sound
  | .parenthesized, e => (Node.expression e).Sound
  | .arguments, es => Node.AreSound (es.map .expression)
  | .argumentsRest, es => Node.AreSound (es.map .expression)
  | .element, s => (Node.statement s).Sound
  | .elements _, ss => Node.AreSound (statementNodes ss)
  | .blockBody, ss => Node.AreSound (statementNodes ss)
  | .function needsName, f =>
      (needsName → f.name.isSome) ∧ Function.WellFormed f ∧ Node.AreSound (statementNodes f.body)
  | .parameters, ps => ∀ p ∈ ps, isBindingName p
  | .parametersRest, ps => ∀ p ∈ ps, isBindingName p
  | .arrayElements, es => Node.AreSound (Expression.array es).children
  | .property, p => (Node.property p).Sound
  | .members, ps => Node.AreSound (ps.map .property)
  | .primary _, e => (Node.expression e).Sound
  | .memberTail base, e => (Node.expression base).Sound → (Node.expression e).Sound
  | .callTail base, e => (Node.expression base).Sound → (Node.expression e).Sound
  | .chainHead _, e => (Node.expression e).Sound
  | .leftHandSide _, e => (Node.expression e).Sound
  | .postfixed operand, e => (Node.expression operand).Sound → (Node.expression e).Sound
  | .binary left _ _, e => (Node.expression left).Sound → (Node.expression e).Sound
  | .conditionalRest test _, e => (Node.expression test).Sound → (Node.expression e).Sound
  | .operatorsRest operand _, e => (Node.expression operand).Sound → (Node.expression e).Sound
  | .assignmentRest left _, e => (Node.expression left).Sound → (Node.expression e).Sound
  | .declarator _, d => (Node.declarator d).Sound
  | .declarators _, ds => ds ≠ [] ∧ Node.AreSound (ds.map .declarator)
  | .declaratorsRest _, ds => Node.AreSound (ds.map .declarator)
  | .terminator, _ => True
  | .expressionBefore _, e => Node.AreSound (Node.ofOption e)
  | .forHeader, s => IsSoundBody s
  | .forRest init, s =>
      init ≠ some (.declared []) → Node.AreSound (initNodes init) → IsSoundBody s
  | .forInRest target, s => (targetNode target).Sound → IsSoundBody s
  | .clauses seen, cs =>
      cs.countP (·.test.isNone) ≤ (if seen then 0 else 1) ∧ Node.AreSound (cs.map .clause)
  | .handler, c => Node.AreSound (c.map Node.handler).toList
  | .finalizer, s => (∀ f ∈ s, f.isBlock) ∧ Node.AreSound (s.map Node.statement).toList

/-- The key of a property is a name if it is a word. -/
theorem wellFormed_of_propertyKey? {k : TokenKind} {t : Text} {key : PropertyKey}
    (h : propertyKey? k t = some key) (ht : (Item.taken k t).IsLexical) : key.WellFormed := by
  unfold propertyKey? at h
  split at h
  · cases h
    trivial
  · split at h
    · obtain ⟨value, -, rfl⟩ := Option.map_eq_some_iff.mp h
      trivial
    · split at h
      · next hname =>
          cases h
          exact ht.2 hname
      · cases h

theorem postfixOperator?_cases {k : TokenKind} {op : UnaryOperator}
    (h : k.postfixOperator? = some op) : op = .increment ∨ op = .decrement := by
  cases k <;> cases h <;> decide

theorem sound_apply {op : InfixOperator} {left right : Expression}
    (hl : (Node.expression left).Sound) (hr : (Node.expression right).Sound) :
    (Node.expression (op.apply left right)).Sound := by
  cases op <;> exact Node.sound_of trivial (.cons hl (.one hr))

theorem sound_jumpTo {k : TokenKind} {label : Option Text}
    (h : ∀ name ∈ label, isBindingName name) : IsSoundBody (jumpTo k label) := by
  unfold jumpTo
  split
  · exact ⟨Node.sound_of h .nil, rfl⟩
  · exact ⟨Node.sound_of h .nil, rfl⟩

theorem sound_forLoop {init : Option ForInit} {test update : Option Expression} {body : Statement}
    (hne : init ≠ some (.declared [])) (hinit : Node.AreSound (initNodes init))
    (ht : Node.AreSound (Node.ofOption test)) (hu : Node.AreSound (Node.ofOption update))
    (hb : IsSoundBody body) : IsSoundBody (.forLoop init test update body) := by
  have hparts := ((hinit.append ht).append hu).append (.one hb.1)
  obtain _ | ds | e := init <;> exact ⟨Node.sound_of ⟨hne, hb.2⟩ hparts, rfl⟩

theorem sound_forIn {target : ForTarget} {object : Expression} {body : Statement}
    (ht : (targetNode target).Sound) (ho : (Node.expression object).Sound)
    (hb : IsSoundBody body) : IsSoundBody (.forIn target object body) := by
  have hparts := Node.AreSound.cons ht (.cons ho (.one hb.1))
  cases target <;> exact ⟨Node.sound_of hb.2 hparts, rfl⟩

/-- Operands after a comma are some. -/
theorem Derives.operands_ne_nil {last : TokenKind} {room : Nat} {g : Grammar} {i r : List Item}
    {es : List Expression} (h : Derives last room (.operands g) i es r)
    (hk : peek last i = .comma) : es ≠ [] := by
  cases h with
  | operandsEnd hne => exact absurd hk hne
  | operandsMore => exact List.cons_ne_nil _ _

/-- From names and regular expressions the grammar derives sound trees. -/
theorem Derives.sound {last : TokenKind} {room : Nat} {n : Nonterminal} {i r : List Item}
    {tree : n.Tree} (h : Derives last room n i tree r) : AreLexical i → n.Sound tree := by
  induction h with
  | nested _ ih => exact ih
  -- sequences and lists
  | sequenceEnd _ => exact fun _ hfirst => hfirst
  | sequenceMore hk hes ih =>
      intro hi hfirst
      have hlength := List.length_pos_iff.mpr (hes.operands_ne_nil hk)
      exact Node.sound_of (Nat.succ_le_succ hlength) (.cons hfirst (ih hi))
  | operandsEnd _ => exact fun _ => .nil
  | operandsMore h₁ _ ih₁ ih₂ =>
      exact fun hi => .cons (ih₁ hi.tail) (ih₂ (hi.tail.after h₁))
  | expression h₁ _ ih₁ ih₂ => exact fun hi => ih₂ (hi.after h₁) (ih₁ hi)
  | parenthesized _ ih => exact fun hi => ih hi.tail
  | argumentsNone => exact fun _ => .nil
  | argumentsSome _ h₁ _ ih₁ ih₂ =>
      exact fun hi => .cons (ih₁ hi.tail) (ih₂ (hi.tail.after h₁))
  | argumentsEnd => exact fun _ => .nil
  | argumentsMore h₁ _ ih₁ ih₂ =>
      exact fun hi => .cons (ih₁ hi.tail) (ih₂ (hi.tail.after h₁))
  -- statement lists and functions
  | elementFunction _ _ ih => exact ih
  | elementStatement _ _ ih => exact fun hi => (ih hi).1
  | elementsEnd _ => exact fun _ => Node.sound_comments _
  | elementsMore _ h₁ _ ih₁ ih₂ =>
      intro hi
      rw [Nonterminal.Sound, statementNodes_append]
      exact (Node.sound_comments _).append (.cons (ih₁ hi.tail) (ih₂ (hi.tail.after h₁)))
  | blockBody _ ih => exact fun hi => ih hi.tail
  | functionNamed h₁ _ ih₁ ih₂ =>
      intro hi
      have hname := hi.tail.head.1 rfl
      have hrest := hi.tail.tail
      exact ⟨fun _ => rfl, ⟨forall_mem_some hname, ih₁ hrest⟩, ih₂ (hrest.after h₁)⟩
  | functionPlain h₁ _ ih₁ ih₂ =>
      intro hi
      exact ⟨(absurd · Bool.false_ne_true), ⟨forall_mem_none, ih₁ hi.tail⟩, ih₂ (hi.tail.after h₁)⟩
  | parametersNone => exact fun _ => List.forall_mem_nil _
  | parametersSome _ ih =>
      exact fun hi => List.forall_mem_cons.mpr ⟨hi.tail.head.1 rfl, ih hi.tail.tail⟩
  | parametersEnd => exact fun _ => List.forall_mem_nil _
  | parametersMore _ ih =>
      exact fun hi => List.forall_mem_cons.mpr ⟨hi.tail.head.1 rfl, ih hi.tail.tail⟩
  -- literals with parts
  | arrayEnd _ => exact fun _ => .nil
  | arrayHole _ ih => exact fun hi => .cons Node.sound_elision (ih hi.tail)
  | arrayLast _ _ h₁ _ _ ih₁ ih₂ => exact fun hi => .cons (ih₁ hi) (ih₂ (hi.after h₁))
  | arrayMore _ _ h₁ _ ih₁ ih₂ => exact fun hi => .cons (ih₁ hi) (ih₂ (hi.after h₁).tail)
  | propertyInit hkey _ ih =>
      exact fun hi =>
        Node.sound_of (wellFormed_of_propertyKey? hkey hi.head) (.one (ih hi.tail.tail))
  | propertyGetter hkey _ ih =>
      exact fun hi =>
        Node.sound_of (wellFormed_of_propertyKey? hkey hi.tail.head) (ih hi.tail.tail.tail.tail)
  | propertySetter hkey _ ih =>
      intro hi
      have hparam := hi.tail.tail.tail
      exact Node.sound_of ⟨wellFormed_of_propertyKey? hkey hi.tail.head, hparam.head.1 rfl⟩
        (ih hparam.tail.tail)
  | membersEnd _ => exact fun _ => .nil
  | membersLast _ h₁ _ _ ih₁ ih₂ => exact fun hi => .cons (ih₁ hi) (ih₂ (hi.after h₁))
  | membersMore _ h₁ _ ih₁ ih₂ => exact fun hi => .cons (ih₁ hi) (ih₂ (hi.after h₁).tail)
  -- primary expressions
  | primaryThis => exact fun _ => Node.sound_of trivial .nil
  | primaryName => exact fun hi => Node.sound_of (hi.head.1 rfl) .nil
  | primaryNull => exact fun _ => Node.sound_of trivial .nil
  | primaryTrue => exact fun _ => Node.sound_of trivial .nil
  | primaryFalse => exact fun _ => Node.sound_of trivial .nil
  | primaryNumber _ => exact fun _ => Node.sound_of trivial .nil
  | primaryString => exact fun _ => Node.sound_of trivial .nil
  | primaryRegex => exact fun hi => Node.sound_of hi.head .nil
  | primaryArray _ ih => exact fun hi => Node.sound_of trivial (ih hi.tail)
  | primaryObject _ _ ih => exact fun hi => Node.sound_of trivial (ih hi.tail)
  | primaryFunction _ _ _ ih => exact fun hi => Node.sound_of (ih hi).2.1 (ih hi).2.2
  | primaryParenthesized _ _ ih => exact ih
  -- left-hand sides
  | memberEnd _ _ => exact fun _ hbase => hbase
  | memberDot _ ih => exact fun hi hbase => ih hi.tail (Node.sound_of hi.head (.one hbase))
  | memberBracket h₁ _ ih₁ ih₂ =>
      intro hi hbase
      exact ih₂ (hi.tail.after h₁).tail (Node.sound_of trivial (.cons hbase (.one (ih₁ hi.tail))))
  | callEnd _ => exact fun _ hbase => hbase
  | callMore _ h₁ h₂ _ ih₁ ih₂ ih₃ =>
      intro hi hbase
      have hm := hi.after h₁
      exact ih₃ (hm.after h₂) (ih₂ hm (Node.sound_of trivial (.cons hbase (ih₁ hi))))
  | headNew _ _ ih => exact ih
  | headPrimary _ _ ih => exact ih
  | leftHandSide h₁ h₂ _ ih₁ ih₂ ih₃ =>
      intro hi
      have hm := hi.after h₁
      exact ih₃ (hm.after h₂) (ih₂ hm (ih₁ hi))
  | constructionApplied h₁ h₂ _ _ ih₁ ih₂ ih₃ =>
      intro hi
      have hm := hi.tail.after h₁
      exact Node.sound_of trivial (.cons (ih₂ hm (ih₁ hi.tail)) (ih₃ (hm.after h₂)))
  | constructionBare h₁ _ _ ih₁ ih₂ =>
      exact fun hi => Node.sound_of trivial (.one (ih₂ (hi.tail.after h₁) (ih₁ hi.tail)))
  -- operators
  | postfixEnd _ => exact fun _ hoperand => hoperand
  | postfixMore hop =>
      exact fun _ hoperand => Node.sound_of (fun _ => postfixOperator?_cases hop) (.one hoperand)
  | unaryPrefix _ _ ih =>
      exact fun hi => Node.sound_of (absurd · Bool.false_ne_true) (.one (ih hi.tail))
  | unaryPostfix _ h₁ _ ih₁ ih₂ => exact fun hi => ih₂ (hi.after h₁) (ih₁ hi)
  | binaryEnd _ => exact fun _ hleft => hleft
  | binaryMore _ h₁ h₂ _ ih₁ ih₂ ih₃ =>
      intro hi hleft
      have hm := hi.tail.after h₁
      exact ih₃ (hm.after h₂) (sound_apply hleft (ih₂ hm (ih₁ hi.tail)))
  | conditionalEnd _ => exact fun _ htest => htest
  | conditionalMore h₁ _ ih₁ ih₂ =>
      intro hi htest
      have halternate := ih₂ (hi.tail.after h₁).tail
      exact Node.sound_of trivial (.cons htest (.cons (ih₁ hi.tail) (.one halternate)))
  | operatorsRest h₁ _ ih₁ ih₂ => exact fun hi hoperand => ih₂ (hi.after h₁) (ih₁ hi hoperand)
  | assignMore _ _ ih =>
      exact fun hi hleft => Node.sound_of trivial (.cons hleft (.one (ih hi.tail)))
  | assignEnd _ h₁ _ ih₁ ih₂ => exact fun hi hleft => ih₂ (hi.after h₁) (ih₁ hi hleft)
  | assignmentPrefixed _ h₁ _ ih₁ ih₂ => exact fun hi => ih₂ (hi.after h₁) (ih₁ hi)
  | assignmentPlain _ h₁ _ ih₁ ih₂ => exact fun hi => ih₂ (hi.after h₁) (ih₁ hi)
  -- declared variables
  | declaratorPlain _ => exact fun hi => Node.sound_of (hi.head.1 rfl) .nil
  | declaratorInit _ ih =>
      exact fun hi => Node.sound_of (hi.head.1 rfl) (.one (ih hi.tail.tail))
  | declarators h₁ _ ih₁ ih₂ =>
      exact fun hi => ⟨List.cons_ne_nil _ _, .cons (ih₁ hi) (ih₂ (hi.after h₁))⟩
  | declaratorsEnd _ => exact fun _ => .nil
  | declaratorsMore h₁ _ ih₁ ih₂ =>
      exact fun hi => .cons (ih₁ hi.tail) (ih₂ (hi.tail.after h₁))
  -- statements
  | ended => exact fun _ => trivial
  | inserted => exact fun _ => trivial
  | block _ _ ih => exact fun hi => ⟨Node.sound_of trivial (ih hi), rfl⟩
  | declare _ _ ih _ => exact fun hi => ⟨Node.sound_of (ih hi.tail).1 (ih hi.tail).2, rfl⟩
  | empty => exact fun _ => ⟨Node.sound_of trivial .nil, rfl⟩
  | labelled _ _ _ ih =>
      intro hi
      have hbody := ih hi.tail.tail
      exact ⟨Node.sound_of ⟨hi.head.1 rfl, hbody.2⟩ (.one hbody.1), rfl⟩
  | expressionStatement _ _ _ _ ih _ =>
      exact fun hi => ⟨Node.sound_of trivial (.one (ih hi)), rfl⟩
  | debugger _ _ => exact fun _ => ⟨Node.sound_of trivial .nil, rfl⟩
  | ifThen h₁ _ _ ih₁ ih₂ =>
      intro hi
      have hc := ih₂ (hi.tail.after h₁)
      exact ⟨Node.sound_of ⟨hc.2, forall_mem_none⟩ (.cons (ih₁ hi.tail) (.one hc.1)), rfl⟩
  | ifElse h₁ h₂ _ ih₁ ih₂ ih₃ =>
      intro hi
      have hm := hi.tail.after h₁
      have hc := ih₂ hm
      have ha := ih₃ (hm.after h₂).tail
      exact ⟨Node.sound_of ⟨hc.2, forall_mem_some ha.2⟩
        (.cons (ih₁ hi.tail) (.cons hc.1 (.one ha.1))), rfl⟩
  | doWhile h₁ _ _ ih₁ ih₂ _ =>
      intro hi
      have hb := ih₁ hi.tail
      exact ⟨Node.sound_of hb.2 (.cons hb.1 (.one (ih₂ (hi.tail.after h₁).tail))), rfl⟩
  | whileDo h₁ _ ih₁ ih₂ =>
      intro hi
      have hb := ih₂ (hi.tail.after h₁)
      exact ⟨Node.sound_of hb.2 (.cons (ih₁ hi.tail) (.one hb.1)), rfl⟩
  | forLoop _ ih => exact fun hi => ih hi.tail.tail
  | forNothing _ _ ih => exact fun hi => ih hi (Option.some_ne_none _).symm .nil
  | forVariables h₁ _ _ ih₁ ih₂ =>
      intro hi
      obtain ⟨hne, hds⟩ := ih₁ hi.tail
      exact ih₂ (hi.tail.after h₁) (fun h => hne (by cases h; rfl)) hds
  | forInVariable h₁ _ ih₁ ih₂ =>
      exact fun hi => ih₂ (hi.tail.after h₁).tail ((ih₁ hi.tail).2 _ List.mem_cons_self)
  | forPrefixed _ h₁ h₂ _ ih₁ ih₂ ih₃ =>
      intro hi
      have hm := hi.after h₁
      exact ih₃ (hm.after h₂) (by rintro ⟨⟩) (.one (ih₂ hm (ih₁ hi)))
  | forExpression _ _ _ h₁ _ h₂ h₃ _ ih₁ ih₂ ih₃ ih₄ =>
      intro hi
      have hm := hi.after h₁
      have hm' := hm.after h₂
      exact ih₄ (hm'.after h₃) (by rintro ⟨⟩) (.one (ih₃ hm' (ih₂ hm (ih₁ hi))))
  | forInExpression _ _ _ h₁ _ ih₁ ih₂ => exact fun hi => ih₂ (hi.after h₁).tail (ih₁ hi)
  | forRest h₁ h₂ _ ih₁ ih₂ ih₃ =>
      intro hi hne hinit
      have hm := (hi.tail.after h₁).tail
      exact sound_forLoop hne hinit (ih₁ hi.tail) (ih₂ hm) (ih₃ (hm.after h₂).tail)
  | forInRest h₁ _ ih₁ ih₂ =>
      exact fun hi htarget => sound_forIn htarget (ih₁ hi) (ih₂ (hi.after h₁).tail)
  | expressionAbsent _ => exact fun _ => .nil
  | expressionPresent _ _ ih => exact fun hi => .one (ih hi)
  | jumpBare _ _ _ _ => exact fun _ => sound_jumpTo forall_mem_none
  | jumpLabel _ _ _ =>
      exact fun hi => sound_jumpTo (forall_mem_some (hi.tail.head.1 rfl))
  | returnNothing _ _ _ => exact fun _ => ⟨Node.sound_of trivial .nil, rfl⟩
  | returnValue _ _ _ ih _ => exact fun hi => ⟨Node.sound_of trivial (.one (ih hi.tail)), rfl⟩
  | throwValue _ _ ih _ => exact fun hi => ⟨Node.sound_of trivial (.one (ih hi.tail)), rfl⟩
  | withObject h₁ _ ih₁ ih₂ =>
      intro hi
      have hb := ih₂ (hi.tail.after h₁)
      exact ⟨Node.sound_of hb.2 (.cons (ih₁ hi.tail) (.one hb.1)), rfl⟩
  | switch h₁ _ ih₁ ih₂ =>
      intro hi
      obtain ⟨hcount, hcs⟩ := ih₂ (hi.tail.after h₁).tail
      exact ⟨Node.sound_of hcount (.cons (ih₁ hi.tail) hcs), rfl⟩
  | clausesEnd => exact fun _ => ⟨Nat.zero_le _, .nil⟩
  | clausesCase h₁ h₂ _ ih₁ ih₂ ih₃ =>
      intro hi
      have hm := (hi.tail.after h₁).tail
      obtain ⟨hcount, hcs⟩ := ih₃ (hm.after h₂)
      have hclause := Node.AreSound.cons (ih₁ hi.tail) (ih₂ hm)
      exact ⟨hcount, .cons (Node.sound_of trivial hclause) hcs⟩
  | clausesDefault h₁ _ ih₁ ih₂ =>
      intro hi
      have hm := hi.tail.tail
      obtain ⟨hcount, hcs⟩ := ih₂ (hm.after h₁)
      exact ⟨by simpa [List.countP_cons] using hcount, .cons (Node.sound_of trivial (ih₁ hm)) hcs⟩
  | tryCatch h₁ h₂ _ hsome ih₁ ih₂ ih₃ =>
      intro hi
      have hm := hi.tail.after h₁
      obtain ⟨hblock, hf⟩ := ih₃ (hm.after h₂)
      exact ⟨Node.sound_of ⟨rfl, hblock, hsome⟩
        (.append (.cons (Node.sound_of trivial (ih₁ hi.tail)) (ih₂ hm)) hf), rfl⟩
  | handlerAbsent _ => exact fun _ => .nil
  | handlerPresent _ ih =>
      intro hi
      have hparam := hi.tail.tail
      exact .one (Node.sound_of (hparam.head.1 rfl) (ih hparam.tail.tail))
  | finalizerAbsent _ => exact fun _ => ⟨forall_mem_none, .nil⟩
  | finalizerPresent _ ih =>
      exact fun hi =>
        ⟨forall_mem_some rfl, .one (Node.sound_of trivial (ih hi.tail))⟩
  | declaration _ ih =>
      intro hi
      obtain ⟨hname, hf, hbody⟩ := ih hi
      exact Node.sound_of ⟨hname rfl, hf⟩ hbody

end Parser

/-- The items that a run takes are those of a source, so its program is well formed. -/
theorem wellFormed_of_run {limit : Nat} {source : Text} {P : Program} {s : ParserState}
    (h : run limit source = .ok P s) : P.WellFormed := by
  obtain ⟨its, ⟨p, ms, -, hspells, -⟩, hderives⟩ := Parser.run_ok_iff.mp ⟨s, h, rfl⟩
  exact Node.sound_of trivial (hderives.sound hspells.areLexical)

/-- A program that a parser yields is well formed. -/
theorem program_wellFormed {limit : Nat} {source : Text} {P : Program}
    (h : parse limit source = .ok P) : P.WellFormed := by
  obtain ⟨s, hrun⟩ := parse_eq_ok_iff.mp h
  exact wellFormed_of_run hrun

/-- In this source there are a label, a declared variable, a reserved word after a point, a regular
expression and a function. -/
theorem program_wellFormed_switch : ∃ P,
    parse 256
      "a: for (var i; ;) switch (o.if) \x7bdefault: /[/]/g\x7d function f(x) \x7b\x7d".toList =
        .ok P ∧ P.WellFormed := by
  obtain ⟨P, s, h⟩ := exists_run 256
    "a: for (var i; ;) switch (o.if) \x7bdefault: /[/]/g\x7d function f(x) \x7b\x7d".toList
    (by decide +kernel)
  have hparse := parse_eq_ok_iff.mpr ⟨s, h⟩
  exact ⟨P, hparse, program_wellFormed hparse⟩

end EcmaSyntax
