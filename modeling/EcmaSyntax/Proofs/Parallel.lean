import EcmaSyntax.Proofs.Endings

/-!
# How parsers are built

**Judgement.**  `Parallel inner inner' turns turns' credit takes entry exit known p p'` says that
two parsers are built in the same way from the steps and the repetitions that the functions of the
grammar consist of, except that one opens the rules `inner` where the other opens the rules
`inner'`, and that one gives a repetition `turns` turns where the other gives it `turns'`.

**Credit.**  A rule may be opened only if the credit covers its weight: the number of rules that
open one inside the other, that rule among them, before a token is taken.  Whoever takes a token
of the source has full credit from there on.

**Progress.**  If `takes` is true, the parsers take a token of the source before they succeed.
Whatever is repeated takes one in each turn.

**Endings.**  A statement may end only directly behind a token of the source.  `entry` says that one
may end where the parsers start, and `exit` that one may end where they succeed.

**Knowledge.**  If a parser has looked at the token at hand, this is the token `known`.

**Results.**
* `parallel_ruleBody`: the bodies of a rule are parallel, with the credit that its weight leaves,
  they take a token, and no statement ends anywhere else than behind one.
-/

namespace EcmaSyntax

/-- How many rules open one inside the other at most before a token is taken, if this one is
the first. -/
def Rule.weight : Rule → Nat
  | .statement => 3
  | .declaration => 1
  | .assignment _ => 2
  | .operand _ => 2
  | .construction => 1

/-- The weight of the heaviest rule. -/
def fullCredit : Nat := 3

theorem Rule.weight_le (r : Rule) : r.weight ≤ fullCredit := by
  cases r <;> simp [weight, fullCredit]

theorem Rule.weight_pos (r : Rule) : 0 < r.weight := by
  cases r <;> simp [weight]

/-- Kinds of tokens that have a text in the source. -/
def isReal (k : TokenKind) : Bool := k ≠ .insertedSemicolon && k ≠ .endOfInput

namespace Parser

theorem isReal_of_isPlain {k : TokenKind} (hk : isPlain k) : isReal k := by
  cases k <;> first | rfl | cases hk

/-- Whoever can take a token of some kind has it at hand. -/
theorem ifEat_eq {α : Type} (k : TokenKind) (p q : Parser α) :
    (do if ← eat k then p else q) = (do if ← isAt k then (do let _ ← take; p) else q) := by
  unfold eat
  rw [bind_assoc]
  congr
  funext b
  cases b <;> simp

/-- Two parsers are built from the same steps and repetitions, with different rules inside them and
different numbers of turns. -/
inductive Parallel (inner inner' : Inner) (turns turns' : Nat) :
    Nat → Bool → Bool → Bool → Option Token → {α : Type} → Parser α → Parser α → Prop
  | pure {credit : Nat} {entry : Bool} {known : Option Token} {α : Type} (a : α) :
      Parallel inner inner' turns turns' credit false entry entry known (pure a) (pure a)
  | bind {credit : Nat} {takes entry mid exit : Bool} {known : Option Token} {α β : Type}
      {p p' : Parser α} {f f' : α → Parser β} :
      Parallel inner inner' turns turns' credit takes entry mid known p p' →
      (∀ a, Parallel inner inner' turns turns' credit false mid exit none (f a) (f' a)) →
      Parallel inner inner' turns turns' credit takes entry exit known (p >>= f) (p' >>= f')
  | unexpected {credit : Nat} {takes entry exit : Bool} {known : Option Token} {α : Type} :
      Parallel inner inner' turns turns' credit takes entry exit known (unexpected : Parser α)
        unexpected
  /-- What may be done where a statement may not end may be done anywhere. -/
  | weaken {credit : Nat} {takes entry : Bool} {known : Option Token} {α : Type}
      {p p' : Parser α} :
      Parallel inner inner' turns turns' credit takes entry true known p p' →
      Parallel inner inner' turns turns' credit takes entry false known p p'
  | look {credit : Nat} {takes entry exit : Bool} {known : Option Token} {α : Type}
      {f g : Token → Nat → Parser α} :
      (∀ t lastEnd, Parallel inner inner' turns turns' credit takes entry exit (some t)
        (f t lastEnd) (g t lastEnd)) →
      Parallel inner inner' turns turns' credit takes entry exit known
        (do let s ← get; f s.current s.lastEnd) (do let s ← get; g s.current s.lastEnd)
  | take {credit : Nat} {takes entry exit : Bool} {t : Token} {α : Type}
      {f f' : Token → Parser α} : isReal t.kind →
      Parallel inner inner' turns turns' fullCredit false true exit none (f t) (f' t) →
      Parallel inner inner' turns turns' credit takes entry exit (some t) (take >>= f)
        (take >>= f')
  | regex {credit : Nat} {takes entry exit : Bool} {slash : Token} : opensRegex slash.kind →
      Parallel inner inner' turns turns' credit takes entry exit (some slash) (regex slash)
        (regex slash)
  | badNumber {credit : Nat} {takes entry exit : Bool} {t : Token} {α : Type} :
      t.kind = .number → numberValue? t.text = none →
      Parallel inner inner' turns turns' credit takes entry exit (some t)
        (throw ⟨.lexical .invalidNumber t.text, t.place⟩ : Parser α)
        (throw ⟨.lexical .invalidNumber t.text, t.place⟩)
  | endStatement {credit : Nat} {known : Option Token} :
      Parallel inner inner' turns turns' credit false true false known endStatement endStatement
  | pendingComments {credit : Nat} {entry : Bool} {known : Option Token} :
      Parallel inner inner' turns turns' credit false entry entry known pendingComments
        pendingComments
  | inner {credit : Nat} {takes entry exit : Bool} {known : Option Token} (r : Rule) :
      r.weight ≤ credit → r.exit = exit →
      Parallel inner inner' turns turns' credit takes entry exit known (inner r) (inner' r)
  /-- Items that take a token each. -/
  | itemsUntil {credit : Nat} {known : Option Token} {α : Type} {atEnd : Parser Bool}
      {p p' : Parser α} :
      (∀ known, Parallel inner inner' turns turns' credit false true true known atEnd atEnd) →
      Parallel inner inner' turns turns' credit true true true none p p' →
      Parallel inner inner' turns turns' credit false true true known (itemsUntil atEnd p turns)
        (itemsUntil atEnd p' turns')
  /-- Items behind a comma each. -/
  | itemsAfterCommas {credit : Nat} {known : Option Token} {α : Type} {p p' : Parser α} :
      Parallel inner inner' turns turns' credit false true true none p p' →
      Parallel inner inner' turns turns' credit false true true known
        (itemsUntil (do return !(← eat .comma)) p turns)
        (itemsUntil (do return !(← eat .comma)) p' turns')
  | iterate {credit : Nat} {α : Type} {goesOn : Token → Bool}
      {extend extend' : α → Token → Parser (Option α)} (a : α) :
      (∀ a t, goesOn t = true → Parallel inner inner' turns turns' credit true true true (some t)
        (extend a t) (extend' a t)) →
      (∀ a t, goesOn t = false → extend a t = Pure.pure none ∧ extend' a t = Pure.pure none) →
      Parallel inner inner' turns turns' credit false true true none
        (iterate (fun a => do let t ← current; extend a t) turns a)
        (iterate (fun a => do let t ← current; extend' a t) turns' a)
  | elements {credit : Nat} {entry : Bool} {known : Option Token} (stops : List TokenKind) :
      (∀ entry known, Parallel inner inner' turns turns' credit true entry false known
        (element inner) (element inner')) →
      Parallel inner inner' turns turns' credit false entry false known
        (elements inner stops turns) (elements inner' stops turns')
  | binary {credit : Nat} {known : Option Token} (left : Expression) (minPower : Nat)
      (g : Grammar) :
      (∀ g, Parallel inner inner' turns turns' fullCredit false true true none
        (unary inner turns g) (unary inner' turns' g)) →
      Parallel inner inner' turns turns' credit false true true known
        (binary inner turns turns left minPower g) (binary inner' turns' turns' left minPower g)
  | clauses {credit : Nat} {entry : Bool} {known : Option Token} (seenDefault : Bool) :
      (∀ credit entry known seenDefault,
        Parallel inner inner' turns turns' credit true entry true known
          (clauseTest inner turns seenDefault) (clauseTest inner' turns' seenDefault)) →
      Parallel inner inner' turns turns' fullCredit false true false none
        (Parser.elements inner [.kwCase, .kwDefault, .closeBrace] turns)
        (Parser.elements inner' [.kwCase, .kwDefault, .closeBrace] turns') →
      Parallel inner inner' turns turns' credit false entry false known
        (clauses inner turns seenDefault turns) (clauses inner' turns' seenDefault turns')

namespace Parallel

variable {inner inner' : Inner} {turns turns' credit : Nat} {takes entry exit : Bool}
  {known : Option Token} {α β : Type} {p p' q q' : Parser α}

/-! ## Looking at the token at hand -/

theorem current {f f' : Token → Parser β}
    (h : ∀ t, Parallel inner inner' turns turns' credit takes entry exit (some t) (f t) (f' t)) :
    Parallel inner inner' turns turns' credit takes entry exit known
      (current >>= f) (current >>= f') :=
  .look (f := fun t _ => f t) (g := fun t _ => f' t) fun t _ => h t

theorem kind {f f' : TokenKind → Parser β} (h : ∀ t : Token,
      Parallel inner inner' turns turns' credit takes entry exit (some t) (f t.kind) (f' t.kind)) :
    Parallel inner inner' turns turns' credit takes entry exit known (kind >>= f) (kind >>= f') :=
  .look (f := fun t _ => f t.kind) (g := fun t _ => f' t.kind) fun t _ => h t

/-- A choice that knows nothing more of the token at hand. -/
theorem isAt {k : TokenKind} {f f' : Bool → Parser β}
    (h : ∀ t b, Parallel inner inner' turns turns' credit takes entry exit (some t) (f b) (f' b)) :
    Parallel inner inner' turns turns' credit takes entry exit known
      (isAt k >>= f) (isAt k >>= f') :=
  .look (f := fun t _ => f (decide (t.kind = k))) (g := fun t _ => f' (decide (t.kind = k)))
    fun t _ => h t _

/-- A choice by the kind of the token at hand. -/
theorem ifAt {k : TokenKind}
    (hp : ∀ t : Token, t.kind = k →
      Parallel inner inner' turns turns' credit takes entry exit (some t) p p')
    (hq : ∀ t : Token, Parallel inner inner' turns turns' credit takes entry exit (some t) q q') :
    Parallel inner inner' turns turns' credit takes entry exit known
      (do if ← Parser.isAt k then p else q) (do if ← Parser.isAt k then p' else q') := by
  refine .look (f := fun t _ => if decide (t.kind = k) = true then p else q)
    (g := fun t _ => if decide (t.kind = k) = true then p' else q') fun t _ => ?_
  by_cases hk : t.kind = k
  · simp only [hk, decide_true, if_true]
    exact hp t hk
  · simp only [hk, decide_false, Bool.false_eq_true, if_false]
    exact hq t

/-! ## Taking tokens -/

theorem expect {k : TokenKind} {f f' : Token → Parser β} (hk : isReal k)
    (h : ∀ t, Parallel inner inner' turns turns' fullCredit false true exit none (f t) (f' t)) :
    Parallel inner inner' turns turns' credit takes entry exit known
      (expect k >>= f) (expect k >>= f') := by
  refine .look
    (f := fun t _ => (if decide (t.kind = k) = true then Parser.take else Parser.unexpected) >>= f)
    (g := fun t _ =>
      (if decide (t.kind = k) = true then Parser.take else Parser.unexpected) >>= f')
    fun t _ => ?_
  by_cases ht : t.kind = k
  · simp only [ht, decide_true, if_true]
    exact .take (ht ▸ hk) (h _)
  · simp only [ht, decide_false, Bool.false_eq_true, if_false]
    have hfails : ∀ f : Token → Parser β, (Parser.unexpected >>= f) = Parser.unexpected :=
      fun _ => rfl
    rw [hfails, hfails]
    exact .unexpected

/-- A choice by whether a token of some kind can be taken. -/
theorem ifEat {k : TokenKind} (hk : isReal k)
    (hp : Parallel inner inner' turns turns' fullCredit false true exit none p p')
    (hq : ∀ t : Token, Parallel inner inner' turns turns' credit takes entry exit (some t) q q') :
    Parallel inner inner' turns turns' credit takes entry exit known (do if ← eat k then p else q)
      (do if ← eat k then p' else q') := by
  rw [ifEat_eq, ifEat_eq]
  exact .ifAt (fun _ ht => .take (ht ▸ hk) hp) hq

theorem eat {k : TokenKind} (hk : isReal k) :
    Parallel inner inner' turns turns' credit false true true known (eat k) (eat k) :=
  .ifAt (fun _ ht => .take (ht ▸ hk) (.pure true)) fun _ => .pure false

theorem bindingName :
    Parallel inner inner' turns turns' credit takes entry true known bindingName bindingName :=
  .expect rfl fun _ => .pure _

theorem propertyName :
    Parallel inner inner' turns turns' credit takes entry true known propertyName propertyName := by
  refine .kind fun t => ?_
  by_cases ht : t.kind.isIdentifierName
  · have hk : isReal t.kind := by
      generalize t.kind = k at ht
      cases k <;> first | rfl | cases ht
    simp only [ht, if_true]
    exact .take hk (.pure _)
  · simp only [ht, Bool.false_eq_true, if_false]
    exact .unexpected

theorem map {f : α → β}
    (h : Parallel inner inner' turns turns' credit takes entry exit known p p') :
    Parallel inner inner' turns turns' credit takes entry exit known (f <$> p) (f <$> p') := by
  rw [map_eq_pure_bind, map_eq_pure_bind]
  exact .bind h fun _ => .pure _

theorem commaList {close : TokenKind} (hclose : isReal close)
    (hitem : ∀ known, Parallel inner inner' turns turns' fullCredit false true true known p p') :
    Parallel inner inner' turns turns' fullCredit false true true known (commaList close p turns)
      (commaList close p' turns') := by
  refine .ifEat hclose (.pure []) fun _ => .bind (hitem _) fun a => ?_
  exact .bind (.itemsUntil (fun _ => .eat hclose) (.expect rfl fun _ => hitem _)) fun as =>
    .pure (a :: as)

end Parallel

section Grammar

variable {inner inner' : Inner} {turns turns' credit : Nat} {takes entry : Bool}
  {known : Option Token}

/-! ## Sequences and lists -/

theorem parallel_sequenceRest (hc : 2 ≤ credit) (first : Expression) (g : Grammar) :
    Parallel inner inner' turns turns' credit false true true known
      (sequenceRest inner turns first g) (sequenceRest inner' turns' first g) :=
  .ifAt (fun _ _ => .bind (.itemsAfterCommas (.inner _ hc rfl)) fun _ => .pure _)
    fun _ => .pure first

theorem parallel_expression (hc : 2 ≤ credit) (g : Grammar) :
    Parallel inner inner' turns turns' credit takes entry true known (expression inner turns g)
      (expression inner' turns' g) :=
  .bind (.inner _ hc rfl) fun first => parallel_sequenceRest hc first g

theorem parallel_parenthesized :
    Parallel inner inner' turns turns' credit takes entry true known (parenthesized inner turns)
      (parenthesized inner' turns') :=
  .expect rfl fun _ => .bind (parallel_expression (by decide) _) fun _ =>
    .expect rfl fun _ => .pure _

theorem parallel_arguments :
    Parallel inner inner' turns turns' credit takes entry true known (arguments inner turns)
      (arguments inner' turns') :=
  .expect rfl fun _ => .commaList rfl fun _ => .inner _ (by decide) rfl

/-! ## Statement lists -/

theorem parallel_element (hc : fullCredit ≤ credit) :
    Parallel inner inner' turns turns' credit takes entry false known
      (element inner) (element inner') :=
  .ifAt (fun _ _ => .inner _ (Nat.le_trans (Rule.weight_le _) hc) rfl)
    fun _ => .inner _ (Nat.le_trans (Rule.weight_le _) hc) rfl

theorem parallel_elements (hc : fullCredit ≤ credit) (stops : List TokenKind) :
    Parallel inner inner' turns turns' credit false entry false known (elements inner stops turns)
      (elements inner' stops turns') :=
  .elements stops fun _ _ => parallel_element hc

theorem parallel_blockBody :
    Parallel inner inner' turns turns' credit takes entry true known (blockBody inner turns)
      (blockBody inner' turns') :=
  .expect rfl fun _ => .bind (parallel_elements (Nat.le_refl _) _) fun _ =>
    .expect rfl fun _ => .pure _

theorem parallel_function (needsName : Bool) :
    Parallel inner inner' turns turns' credit takes entry true known
      (function inner turns needsName) (function inner' turns' needsName) := by
  have hrest : ∀ known (name : Option Text),
      Parallel inner inner' turns turns' fullCredit false true true known
      (do let _ ← expect .openParen
          let params ← commaList .closeParen bindingName turns
          let body ← blockBody inner turns
          return (⟨name, params, body⟩ : Function))
      (do let _ ← expect .openParen
          let params ← commaList .closeParen bindingName turns'
          let body ← blockBody inner' turns'
          return ⟨name, params, body⟩) := fun known name =>
    .expect rfl fun _ => .bind (.commaList rfl fun _ => .bindingName) fun _ =>
      .bind parallel_blockBody fun _ => .pure _
  refine .expect rfl fun _ => .ifAt (fun _ _ => .bind (.map .bindingName) (hrest _)) fun _ => ?_
  cases needsName with
  | true => exact .bind .unexpected (hrest _)
  | false => exact hrest _ none

/-! ## Literals with parts -/

/-- What stands in a list is followed by a comma or by the end of the list. -/
theorem parallel_separated {α : Type} (close : TokenKind) (a : α) :
    Parallel inner inner' turns turns' credit false true true known
      (do if !(← isAt close) then let _ ← expect .comma
          return a)
      (do if !(← isAt close) then let _ ← expect .comma
          return a) := by
  refine .isAt fun t b => ?_
  cases b with
  | true => exact .pure a
  | false => exact .expect rfl fun _ => .pure a

theorem parallel_arrayElement (hc : 2 ≤ credit) :
    Parallel inner inner' turns turns' credit takes entry true known (arrayElement inner)
      (arrayElement inner') :=
  .ifEat rfl (.pure none) fun _ => .bind (.inner _ hc rfl) fun e => parallel_separated _ (some e)

theorem parallel_array :
    Parallel inner inner' turns turns' credit takes entry true known (array inner turns)
      (array inner' turns') :=
  .expect rfl fun _ => .bind (.itemsUntil (fun _ => .isAt fun _ b => .pure b)
    (parallel_arrayElement (Nat.le_succ 2))) fun _ => .expect rfl fun _ => .pure _

theorem parallel_propertyKey :
    Parallel inner inner' turns turns' credit takes entry true known propertyKey propertyKey := by
  refine .current fun t => ?_
  cases hkey : propertyKey? t.kind t.text with
  | none => exact .unexpected
  | some key => exact .take (isReal_of_isPlain (isPlain_of_propertyKey? hkey)) (.pure key)

theorem parallel_propertyValue (key : PropertyKey) :
    Parallel inner inner' turns turns' credit takes entry true known (propertyValue inner key)
      (propertyValue inner' key) :=
  .expect rfl fun _ => .bind (.inner _ (Nat.le_succ 2) rfl) fun _ => .pure _

theorem parallel_accessor (isGetter : Bool) :
    Parallel inner inner' turns turns' credit takes entry true known (accessor inner turns isGetter)
      (accessor inner' turns' isGetter) := by
  refine .bind parallel_propertyKey fun key => .expect rfl fun _ => ?_
  cases isGetter with
  | true => exact .expect rfl fun _ => .bind parallel_blockBody fun _ => .pure _
  | false =>
      exact .bind .bindingName fun _ => .expect rfl fun _ =>
        .bind parallel_blockBody fun _ => .pure _

theorem parallel_property :
    Parallel inner inner' turns turns' credit takes entry true known (property inner turns)
      (property inner' turns') := by
  refine .current fun t => ?_
  by_cases ht : t.kind = .identifier ∧ (t.text = "get".toList ∨ t.text = "set".toList)
  · rw [if_pos ht, if_pos ht]
    exact .take (by rw [ht.1]; rfl) <|
      .ifAt (fun _ _ => parallel_propertyValue _) fun _ => parallel_accessor _
  · rw [if_neg ht, if_neg ht]
    exact .bind parallel_propertyKey fun key => parallel_propertyValue key

theorem parallel_objectMember :
    Parallel inner inner' turns turns' credit takes entry true known (objectMember inner turns)
      (objectMember inner' turns') :=
  .bind parallel_property fun p => parallel_separated _ p

theorem parallel_object :
    Parallel inner inner' turns turns' credit takes entry true known (object inner turns)
      (object inner' turns') :=
  .expect rfl fun _ => .bind (.itemsUntil (fun _ => .isAt fun _ b => .pure b)
    parallel_objectMember) fun _ => .expect rfl fun _ => .pure _

/-! ## Primary expressions -/

theorem parallel_leaf {t : Token} (ht : isReal t.kind) (e : Expression) :
    Parallel inner inner' turns turns' credit takes entry true (some t) (leaf e) (leaf e) :=
  .take ht (.pure e)

theorem parallel_number {t : Token} (hk : t.kind = .number) :
    Parallel inner inner' turns turns' credit takes entry true (some t) (number t) (number t) := by
  unfold number
  cases hvalue : numberValue? t.text with
  | some value => exact .take (by rw [hk]; rfl) (.pure _)
  | none => exact .badNumber hk hvalue

theorem parallel_primary (g : Grammar) :
    Parallel inner inner' turns turns' credit takes entry true known (primary inner turns g)
      (primary inner' turns' g) := by
  refine .current fun t => ?_
  cases hk : t.kind with
  | kwThis => exact parallel_leaf (by rw [hk]; rfl) _
  | identifier => exact parallel_leaf (by rw [hk]; rfl) _
  | kwNull => exact parallel_leaf (by rw [hk]; rfl) _
  | kwTrue => exact parallel_leaf (by rw [hk]; rfl) _
  | kwFalse => exact parallel_leaf (by rw [hk]; rfl) _
  | number => exact parallel_number hk
  | string => exact parallel_leaf (by rw [hk]; rfl) _
  | slash => exact .regex (by rw [hk]; rfl)
  | slashEquals => exact .regex (by rw [hk]; rfl)
  | openBracket => exact parallel_array
  | openBrace =>
      dsimp only
      split
      · exact .unexpected
      · exact parallel_object
  | kwFunction =>
      dsimp only
      split
      · exact .unexpected
      · exact .bind (parallel_function false) fun _ => .pure _
  | openParen => exact parallel_parenthesized
  | _ => exact .unexpected

/-! ## Left-hand sides -/

/-- One access to a property, if the token at hand opens one. -/
def accessAt (inner : Inner) (turns : Nat) (base : Expression) (t : Token) :
    Parser (Option Expression) :=
  match t.kind with
  | .dot => do
      let _ ← take
      let name ← propertyName
      return some (.dot base name)
  | .openBracket => do
      let _ ← take
      let index ← expression inner turns .normal
      let _ ← expect .closeBracket
      return some (.bracket base index)
  | _ => return none

theorem parallel_memberTail (base : Expression) :
    Parallel inner inner' turns turns' credit false true true none (memberTail inner turns base)
      (memberTail inner' turns' base) := by
  have hgoes : ∀ base t, (t.kind = .dot || t.kind = .openBracket) = true →
      Parallel inner inner' turns turns' credit true true true (some t)
        (accessAt inner turns base t) (accessAt inner' turns' base t) := by
    intro base t ht
    have ht : t.kind = .dot ∨ t.kind = .openBracket := by simpa using ht
    unfold accessAt
    obtain hk | hk := ht <;> rw [hk]
    · exact .take (by rw [hk]; rfl) <| .bind .propertyName fun _ => .pure _
    · exact .take (by rw [hk]; rfl) <| .bind (parallel_expression (Nat.le_succ 2) _) fun _ =>
        .expect rfl fun _ => .pure _
  have hstops : ∀ base t, (t.kind = .dot || t.kind = .openBracket) = false →
      accessAt inner turns base t = Pure.pure none ∧
        accessAt inner' turns' base t = Pure.pure none := by
    intro base t ht
    have ht : t.kind ≠ .dot ∧ t.kind ≠ .openBracket := by simpa using ht
    unfold accessAt
    split
    · next hk => exact absurd hk ht.1
    · next hk => exact absurd hk ht.2
    · exact ⟨rfl, rfl⟩
  exact .iterate base hgoes hstops

/-- One call with the accesses to its result, if the token at hand opens one. -/
def callAt (inner : Inner) (turns : Nat) (callee : Expression) (t : Token) :
    Parser (Option Expression) :=
  if decide (t.kind = .openParen) then do
    let args ← arguments inner turns
    let e ← memberTail inner turns (.call callee args)
    return some e
  else
    return none

theorem parallel_callTail (callee : Expression) :
    Parallel inner inner' turns turns' credit false true true none
      (iterate (callStep inner turns) turns callee)
      (iterate (callStep inner' turns') turns' callee) := by
  have hgoes : ∀ callee t, decide (t.kind = .openParen) = true →
      Parallel inner inner' turns turns' credit true true true (some t)
        (callAt inner turns callee t) (callAt inner' turns' callee t) := by
    intro callee t ht
    unfold callAt
    rw [if_pos ht, if_pos ht]
    exact .bind parallel_arguments fun _ => .bind (parallel_memberTail _) fun _ => .pure _
  have hstops : ∀ callee t, decide (t.kind = .openParen) = false →
      callAt inner turns callee t = Pure.pure none ∧
        callAt inner' turns' callee t = Pure.pure none := by
    intro callee t ht
    unfold callAt
    rw [ht]
    exact ⟨rfl, rfl⟩
  exact .iterate callee hgoes hstops

theorem parallel_chainHead (hc : 1 ≤ credit) (g : Grammar) :
    Parallel inner inner' turns turns' credit takes entry true known (chainHead inner turns g)
      (chainHead inner' turns' g) :=
  .ifAt (fun _ _ => .inner _ hc rfl) fun _ => parallel_primary g

theorem parallel_leftHandSide (hc : 1 ≤ credit) (g : Grammar) :
    Parallel inner inner' turns turns' credit takes entry true known (leftHandSide inner turns g)
      (leftHandSide inner' turns' g) :=
  .bind (parallel_chainHead hc g) fun _ => .bind (parallel_memberTail _) fun _ =>
    parallel_callTail _

theorem parallel_construction :
    Parallel inner inner' turns turns' credit takes entry true known (construction inner turns)
      (construction inner' turns') :=
  .expect rfl fun _ => .bind (parallel_chainHead (by decide) _) fun _ =>
    .bind (parallel_memberTail _) fun _ =>
      .ifAt (fun _ _ => .bind parallel_arguments fun _ => .pure _) fun _ => .pure _

/-! ## Operators -/

theorem parallel_postfixed (operand : Expression) :
    Parallel inner inner' turns turns' credit false true true known (postfixed operand)
      (postfixed operand) := by
  refine .kind fun t => ?_
  cases hop : t.kind.postfixOperator? with
  | some op => exact .take (isReal_of_isPlain (isPlain_of_postfixOperator? hop)) (.pure _)
  | none => exact .pure operand

theorem parallel_unary (hc : 1 ≤ credit) (g : Grammar) :
    Parallel inner inner' turns turns' credit takes entry true known (unary inner turns g)
      (unary inner' turns' g) := by
  refine .kind fun t => ?_
  cases hop : t.kind.prefixOperator? with
  | some op =>
      exact .take (isReal_of_isPlain (isPlain_of_prefixOperator? hop)) <|
        .bind (.inner _ (Nat.le_succ 2) rfl) fun _ => .pure _
  | none => exact .bind (parallel_leftHandSide hc g) fun e => parallel_postfixed e

theorem parallel_conditionalRest (test : Expression) (g : Grammar) :
    Parallel inner inner' turns turns' credit false true true known (conditionalRest inner test g)
      (conditionalRest inner' test g) :=
  .ifEat rfl (.bind (.inner _ (Nat.le_succ 2) rfl) fun _ => .expect rfl fun _ =>
    .bind (.inner _ (Nat.le_succ 2) rfl) fun _ => .pure _) fun _ => .pure test

theorem parallel_operatorsRest (operand : Expression) (g : Grammar) :
    Parallel inner inner' turns turns' credit false true true known
      (operatorsRest inner turns operand g) (operatorsRest inner' turns' operand g) :=
  .bind (.binary _ _ _ fun _ => parallel_unary (by decide) _) fun test =>
    parallel_conditionalRest test g

theorem parallel_assignmentRest (left : Expression) (g : Grammar) :
    Parallel inner inner' turns turns' credit false true true known
      (assignmentRest inner turns left g) (assignmentRest inner' turns' left g) := by
  refine .kind fun t => ?_
  cases hop : t.kind.assignOperator? with
  | some op =>
      exact .take (isReal_of_isPlain (isPlain_of_assignOperator? hop)) <|
        .bind (.inner _ (Nat.le_succ 2) rfl) fun _ => .pure _
  | none => exact .bind (parallel_postfixed left) fun operand => parallel_operatorsRest operand g

theorem parallel_assignment (hc : 1 ≤ credit) (g : Grammar) :
    Parallel inner inner' turns turns' credit takes entry true known (assignment inner turns g)
      (assignment inner' turns' g) := by
  refine .kind fun t => ?_
  split
  · exact .bind (parallel_unary hc g) fun operand => parallel_operatorsRest operand g
  · exact .bind (parallel_leftHandSide hc g) fun left => parallel_assignmentRest left g

/-! ## Simple statements -/

theorem parallel_block :
    Parallel inner inner' turns turns' credit takes entry true known (block inner turns)
      (block inner' turns') :=
  .bind parallel_blockBody fun _ => .pure _

theorem parallel_declarator (g : Grammar) :
    Parallel inner inner' turns turns' credit takes entry true known (declarator inner g)
      (declarator inner' g) :=
  .bind .bindingName fun _ => .ifEat rfl (.bind (.inner _ (Nat.le_succ 2) rfl) fun _ => .pure _)
    fun _ => .pure _

theorem parallel_declarators (g : Grammar) :
    Parallel inner inner' turns turns' credit takes entry true known (declarators inner turns g)
      (declarators inner' turns' g) :=
  .bind (parallel_declarator g) fun _ =>
    .bind (.itemsAfterCommas (parallel_declarator g)) fun _ => .pure _

theorem parallel_varDeclaration :
    Parallel inner inner' turns turns' credit takes entry false known (varDeclaration inner turns)
      (varDeclaration inner' turns') :=
  .expect rfl fun _ => .bind (parallel_declarators _) fun _ => .bind .endStatement fun _ => .pure _

/-- A statement after its first expression, which may have been a label. -/
def afterExpression (inner : Inner) (e : Expression) : Option Text → Parser Statement
  | some label => do
      let _ ← take
      let body ← inner .statement
      return .labelled label body
  | none => do
      endStatement
      return .expression e

theorem parallel_afterExpression {t : Token} (e : Expression) {label? : Option Text}
    (h : label?.isSome → t.kind = .colon) :
    Parallel inner inner' turns turns' credit false true false (some t)
      (afterExpression inner e label?) (afterExpression inner' e label?) := by
  cases label? with
  | some label =>
      have ht : t.kind = .colon := h rfl
      exact .take (by rw [ht]; rfl) <| .bind (.inner _ (Nat.le_refl 3) rfl) fun _ => .pure _
  | none => exact .bind .endStatement fun _ => .pure _

/-- The name that an expression is, if it was taken as the only token before a colon. -/
def labelOf (e : Expression) (first t : Token) (lastEnd : Nat) : Option Text :=
  match e with
  | .identifier name =>
      if first.kind = .identifier ∧ lastEnd = first.stop ∧ t.kind = .colon then some name
      else none
  | _ => none

theorem kind_of_labelOf {e : Expression} {first t : Token} {lastEnd : Nat}
    (h : (labelOf e first t lastEnd).isSome) : t.kind = .colon := by
  refine Classical.byContradiction fun hk => ?_
  cases e <;> simp [labelOf, hk] at h

theorem parallel_expressionOrLabelled (hc : 2 ≤ credit) :
    Parallel inner inner' turns turns' credit takes entry false known
      (expressionOrLabelled inner turns) (expressionOrLabelled inner' turns') := by
  refine .current fun first => .bind (parallel_expression hc _) fun e => ?_
  exact .look (f := fun t lastEnd => afterExpression inner e (labelOf e first t lastEnd))
    (g := fun t lastEnd => afterExpression inner' e (labelOf e first t lastEnd))
    fun _ _ => parallel_afterExpression e kind_of_labelOf

theorem parallel_empty {t : Token} (ht : isReal t.kind) :
    Parallel inner inner' turns turns' credit takes entry false (some t) empty empty :=
  .weaken (.take ht (.pure _))

theorem parallel_debugger {t : Token} (ht : isReal t.kind) :
    Parallel inner inner' turns turns' credit takes entry false (some t) debugger debugger :=
  .take ht (.bind .endStatement fun _ => .pure _)

/-! ## Branches and loops -/

/-- A statement inside another one. -/
theorem parallel_nested :
    Parallel inner inner' turns turns' fullCredit takes entry false known (inner .statement)
      (inner' .statement) :=
  .inner _ (Nat.le_refl 3) rfl

theorem parallel_ifElse :
    Parallel inner inner' turns turns' credit takes entry false known (ifElse inner turns)
      (ifElse inner' turns') :=
  .expect rfl fun _ => .bind parallel_parenthesized fun _ => .bind parallel_nested fun _ =>
    .ifEat rfl (.bind parallel_nested fun _ => .pure _) fun _ => .pure _

theorem parallel_doWhile :
    Parallel inner inner' turns turns' credit takes entry false known (doWhile inner turns)
      (doWhile inner' turns') :=
  .expect rfl fun _ => .bind parallel_nested fun _ => .expect rfl fun _ =>
    .bind parallel_parenthesized fun _ => .bind .endStatement fun _ => .pure _

theorem parallel_whileDo :
    Parallel inner inner' turns turns' credit takes entry false known (whileDo inner turns)
      (whileDo inner' turns') :=
  .expect rfl fun _ => .bind parallel_parenthesized fun _ => .bind parallel_nested fun _ => .pure _

theorem parallel_expressionBefore (hc : 2 ≤ credit) (close : TokenKind) :
    Parallel inner inner' turns turns' credit false true true known
      (expressionBefore inner turns close) (expressionBefore inner' turns' close) :=
  .ifAt (fun _ _ => .pure none) fun _ => .map (parallel_expression hc _)

theorem parallel_forRest (init : Option ForInit) :
    Parallel inner inner' turns turns' credit takes entry false known (forRest inner turns init)
      (forRest inner' turns' init) :=
  .expect rfl fun _ => .bind (parallel_expressionBefore (Nat.le_succ 2) _) fun _ =>
    .expect rfl fun _ => .bind (parallel_expressionBefore (Nat.le_succ 2) _) fun _ =>
      .expect rfl fun _ => .bind parallel_nested fun _ => .pure _

theorem parallel_forInRest (target : ForTarget) :
    Parallel inner inner' turns turns' fullCredit takes entry false known
      (forInRest inner turns target) (forInRest inner' turns' target) :=
  .bind (parallel_expression (Nat.le_succ 2) _) fun _ => .expect rfl fun _ =>
    .bind parallel_nested fun _ => .pure _

theorem parallel_forVariables {t : Token} (ht : isReal t.kind) :
    Parallel inner inner' turns turns' credit takes entry false (some t) (forVariables inner turns)
      (forVariables inner' turns') := by
  refine .take ht <| .bind (parallel_declarators _) fun ds => ?_
  split
  · exact .ifEat rfl (parallel_forInRest _) fun _ => parallel_forRest _
  · exact parallel_forRest _

theorem parallel_forPrefixed (hc : 2 ≤ credit) :
    Parallel inner inner' turns turns' credit takes entry false known (forPrefixed inner turns)
      (forPrefixed inner' turns') :=
  .bind (.inner _ hc rfl) fun _ => .bind (parallel_sequenceRest hc _ _) fun _ => parallel_forRest _

theorem parallel_forTarget (hc : 2 ≤ credit) :
    Parallel inner inner' turns turns' credit takes entry false known (forTarget inner turns)
      (forTarget inner' turns') :=
  .bind (parallel_leftHandSide (by omega) _) fun left => .ifEat rfl (parallel_forInRest _) fun _ =>
    .bind (parallel_assignmentRest _ _) fun _ => .bind (parallel_sequenceRest hc _ _) fun _ =>
      parallel_forRest _

theorem parallel_forLoop :
    Parallel inner inner' turns turns' credit takes entry false known (forLoop inner turns)
      (forLoop inner' turns') := by
  refine .expect rfl fun _ => .expect rfl fun _ => .kind fun t => ?_
  split
  · exact parallel_forRest none
  · split
    · next hk => exact parallel_forVariables (by rw [hk]; rfl)
    · split
      · exact parallel_forPrefixed (Nat.le_succ 2)
      · exact parallel_forTarget (Nat.le_succ 2)

/-! ## Jumps -/

theorem parallel_jump {t : Token} (ht : isReal t.kind) :
    Parallel inner inner' turns turns' credit takes entry false (some t) jump jump := by
  have hrest : ∀ known label, Parallel inner inner' turns turns' fullCredit false true false known
      (do endStatement
          return if t.kind = .kwContinue then Statement.continueTo label else .breakTo label)
      (do endStatement
          return if t.kind = .kwContinue then Statement.continueTo label else .breakTo label) :=
    fun _ _ => .bind .endStatement fun _ => .pure _
  exact .take ht <| .ifAt (fun _ _ => .bind (.map .bindingName) (hrest _)) fun _ => hrest _ none

theorem parallel_returnWith :
    Parallel inner inner' turns turns' credit takes entry false known (returnWith inner turns)
      (returnWith inner' turns') := by
  have hrest : ∀ known value, Parallel inner inner' turns turns' fullCredit false true false known
      (do endStatement
          return Statement.returnWith value)
      (do endStatement
          return Statement.returnWith value) :=
    fun _ _ => .bind .endStatement fun _ => .pure _
  refine .expect rfl fun _ => .kind fun t => ?_
  split
  · exact hrest _ none
  · exact .bind (.map (parallel_expression (Nat.le_succ 2) _)) (hrest _)

theorem parallel_throwWith :
    Parallel inner inner' turns turns' credit takes entry false known (throwWith inner turns)
      (throwWith inner' turns') :=
  .expect rfl fun _ => .bind (parallel_expression (Nat.le_succ 2) _) fun _ =>
    .bind .endStatement fun _ => .pure _

/-! ## Compound statements -/

theorem parallel_withObject :
    Parallel inner inner' turns turns' credit takes entry false known (withObject inner turns)
      (withObject inner' turns') :=
  .expect rfl fun _ => .bind parallel_parenthesized fun _ => .bind parallel_nested fun _ => .pure _

theorem parallel_clauseTest (seenDefault : Bool) :
    Parallel inner inner' turns turns' credit takes entry true known
      (clauseTest inner turns seenDefault) (clauseTest inner' turns' seenDefault) := by
  refine .kind fun t => ?_
  split
  · next hk =>
      exact .take (by rw [hk]; rfl) (.map (parallel_expression (Nat.le_succ 2) _))
  · split
    · next hk => exact .take (by rw [hk.1]; rfl) (.pure none)
    · exact .unexpected

theorem parallel_clauses (seenDefault : Bool) :
    Parallel inner inner' turns turns' credit false entry false known
      (clauses inner turns seenDefault turns) (clauses inner' turns' seenDefault turns') :=
  .clauses seenDefault (fun _ _ _ => parallel_clauseTest) (parallel_elements (Nat.le_refl _) _)

theorem parallel_switch :
    Parallel inner inner' turns turns' credit takes entry false known (switch inner turns)
      (switch inner' turns') :=
  .expect rfl fun _ => .bind parallel_parenthesized fun _ => .expect rfl fun _ =>
    .bind (parallel_clauses _) fun _ => .pure _

theorem parallel_handler :
    Parallel inner inner' turns turns' credit false true true known (handler inner turns)
      (handler inner' turns') :=
  .ifEat rfl (.expect rfl fun _ => .bind .bindingName fun _ => .expect rfl fun _ =>
    .bind parallel_blockBody fun _ => .pure _) fun _ => .pure none

theorem parallel_tryCatch :
    Parallel inner inner' turns turns' credit takes entry true known (tryCatch inner turns)
      (tryCatch inner' turns') := by
  refine .expect rfl fun _ => .bind parallel_block fun guarded =>
    .bind parallel_handler fun handler => ?_
  have hrest : ∀ known (finalizer : Option Statement),
      Parallel inner inner' turns turns' fullCredit false true true known
      (if handler.isNone ∧ finalizer.isNone then unexpected
        else return Statement.tryCatch guarded handler finalizer)
      (if handler.isNone ∧ finalizer.isNone then unexpected
        else return Statement.tryCatch guarded handler finalizer) := by
    intro known finalizer
    split
    · exact .unexpected
    · exact .pure _
  exact .ifEat rfl (.bind (.map parallel_block) (hrest _)) fun _ => hrest _ none

/-! ## All statements -/

theorem parallel_statement (hc : 2 ≤ credit) :
    Parallel inner inner' turns turns' credit takes entry false known (statement inner turns)
      (statement inner' turns') := by
  refine .kind fun t => ?_
  cases hk : t.kind with
  | openBrace => exact .weaken parallel_block
  | kwVar => exact parallel_varDeclaration
  | semicolon => exact parallel_empty (by rw [hk]; rfl)
  | kwIf => exact parallel_ifElse
  | kwDo => exact parallel_doWhile
  | kwWhile => exact parallel_whileDo
  | kwFor => exact parallel_forLoop
  | kwContinue => exact parallel_jump (by rw [hk]; rfl)
  | kwBreak => exact parallel_jump (by rw [hk]; rfl)
  | kwReturn => exact parallel_returnWith
  | kwWith => exact parallel_withObject
  | kwSwitch => exact parallel_switch
  | kwThrow => exact parallel_throwWith
  | kwTry => exact .weaken parallel_tryCatch
  | kwDebugger => exact parallel_debugger (by rw [hk]; rfl)
  | _ => exact parallel_expressionOrLabelled hc

theorem parallel_declaration :
    Parallel inner inner' turns turns' credit takes entry false known (declaration inner turns)
      (declaration inner' turns') :=
  .weaken (.bind (parallel_function true) fun _ => .pure _)

/-- The bodies of a rule are built in the same way, from steps and from rules that the credit
covers, they take a token of the source, and they end statements only behind one. -/
theorem parallel_ruleBody (r : Rule) :
    Parallel inner inner' turns turns' (r.weight - 1) takes entry r.exit known
      (ruleBody inner turns r) (ruleBody inner' turns' r) := by
  cases r with
  | statement => exact parallel_statement (Nat.le_refl 2)
  | declaration => exact parallel_declaration
  | assignment g => exact parallel_assignment (Nat.le_refl 1) g
  | operand g => exact parallel_unary (Nat.le_refl 1) g
  | construction => exact parallel_construction

end Grammar

end Parser
end EcmaSyntax
