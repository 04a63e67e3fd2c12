import EcmaSyntax.Proofs.Printing.Printer

/-!
# What fits into a slot

**Input.**  Items, an expression, and the items that follow.

**Slots.**  `Fits g slot i e r` says that from `i` a slot of the grammar takes the expression `e`
and leaves `r`.  The inner slots may be left open: if more operators or more accesses follow, they
are applied to the expression.

**Results.**
* `Fits.of_member`, `Fits.of_leftHandSide`, `Fits.of_operand`, `Fits.of_infixOperand`,
  `Fits.of_assignment`: what fits into a slot fits into the slots that ask for less, unless it would
  go on with the token that follows.
* `Fits.parenthesized`: in parentheses, an expression fits into any slot.
-/

namespace EcmaSyntax

open EcmaSyntax.Parser (Item Derives Nonterminal infixOperator? peek)

namespace Parser

/-! ## Derivations with enough room -/

/-- With enough room, a part of the grammar takes the items of a list before another one. -/
def Derived (n : Nonterminal) (i : List Item) (tree : n.Tree) (r : List Item) : Prop :=
  ∃ least, ∀ room, least ≤ room → Derives .endOfInput room n i tree r

namespace Derived

variable {n n₁ n₂ n₃ : Nonterminal} {i i₁ i₂ i₃ r r₁ r₂ r₃ : List Item} {tree : n.Tree}
  {tree₁ : n₁.Tree} {tree₂ : n₂.Tree} {tree₃ : n₃.Tree}

theorem of (h : ∀ room, Derives .endOfInput room n i tree r) : Derived n i tree r :=
  ⟨0, fun room _ => h room⟩

theorem imp (h₁ : Derived n₁ i₁ tree₁ r₁)
    (f : ∀ {room}, Derives .endOfInput room n₁ i₁ tree₁ r₁ →
      Derives .endOfInput room n i tree r) : Derived n i tree r := by
  obtain ⟨least, h₁⟩ := h₁
  exact ⟨least, fun room hroom => f (h₁ room hroom)⟩

theorem imp₂ (h₁ : Derived n₁ i₁ tree₁ r₁) (h₂ : Derived n₂ i₂ tree₂ r₂)
    (f : ∀ {room}, Derives .endOfInput room n₁ i₁ tree₁ r₁ →
      Derives .endOfInput room n₂ i₂ tree₂ r₂ → Derives .endOfInput room n i tree r) :
    Derived n i tree r := by
  obtain ⟨least₁, h₁⟩ := h₁
  obtain ⟨least₂, h₂⟩ := h₂
  exact ⟨max least₁ least₂, fun room hroom => f (h₁ room (by omega)) (h₂ room (by omega))⟩

theorem imp₃ (h₁ : Derived n₁ i₁ tree₁ r₁) (h₂ : Derived n₂ i₂ tree₂ r₂)
    (h₃ : Derived n₃ i₃ tree₃ r₃)
    (f : ∀ {room}, Derives .endOfInput room n₁ i₁ tree₁ r₁ →
      Derives .endOfInput room n₂ i₂ tree₂ r₂ → Derives .endOfInput room n₃ i₃ tree₃ r₃ →
      Derives .endOfInput room n i tree r) :
    Derived n i tree r := by
  obtain ⟨least₁, h₁⟩ := h₁
  obtain ⟨least₂, h₂⟩ := h₂
  obtain ⟨least₃, h₃⟩ := h₃
  exact ⟨max least₁ (max least₂ least₃), fun room hroom =>
    f (h₁ room (by omega)) (h₂ room (by omega)) (h₃ room (by omega))⟩

/-- A rule takes one level of the room. -/
theorem nested {rule : Rule} {tree : rule.Tree} (h : Derived (.body rule) i tree r) :
    Derived (.rule rule) i tree r := by
  obtain ⟨least, h⟩ := h
  refine ⟨least + 1, fun room hroom => ?_⟩
  obtain ⟨room, rfl⟩ : ∃ n, room = n + 1 := ⟨room - 1, by omega⟩
  exact .nested (h room (by omega))

end Derived

end Parser

open EcmaSyntax.Parser (Derived)

/-! ## Tokens around a slot -/

/-- Whether an expression may start with a token. -/
def opensExpression (g : Grammar) : TokenKind → Bool
  | .openBrace => g ≠ .noBrace
  | .kwFunction => g ≠ .noBrace
  | .number => true
  | .string => true
  | .identifier => true
  | .kwNew => true
  | .kwThis => true
  | .kwNull => true
  | .kwTrue => true
  | .kwFalse => true
  | .openParen => true
  | .openBracket => true
  | .slash => true
  | .slashEquals => true
  | k => k.isPrefixOperator

/-- Whether accesses and calls stop in front of a token. -/
def stopsAccess (k : TokenKind) : Bool :=
  k ≠ .dot && k ≠ .openBracket && k ≠ .openParen

/-- Whether an operand stops in front of a token. -/
def stopsOperand (k : TokenKind) : Bool :=
  stopsAccess k && k.postfixOperator?.isNone

/-- Whether an expression that is no sequence stops in front of a token. -/
def stopsAssignment (g : Grammar) (k : TokenKind) : Bool :=
  stopsOperand k && (infixOperator? 0 g k).isNone && k ≠ .question && k.assignOperator?.isNone

namespace Slot

/-- Whether what stands in a slot may start with a token. -/
def opens (g : Grammar) : Slot → TokenKind → Bool
  | leftHandSide, k => opensExpression g k && !k.isPrefixOperator
  | member, k => opensExpression g k && !k.isPrefixOperator
  | _, k => opensExpression g k

/-- Whether what stands in a slot stops in front of a token.  The inner slots may go on. -/
def stops (g : Grammar) : Slot → TokenKind → Bool
  | expression, k => stopsAssignment g k && k ≠ .comma
  | assignment, k => stopsAssignment g k
  | infixOperand power, k => stopsOperand k && (infixOperator? (power + 1) g k).isNone
  | operand, k => stopsOperand k
  | leftHandSide, _ => true
  | member, _ => true

/-- From some items a slot takes an expression.  If more accesses or operators follow it, they go on
from there. -/
def Takes (g : Grammar) : Slot → List Item → Expression → List Item → Prop
  | expression, i, e, r => Derived (.expression g) i e r
  | assignment, i, e, r => Derived (.body (.assignment g)) i e r
  | infixOperand power, i, e, r => ∀ p ≤ power, ∀ e' r', Derived (.binary e p g) r e' r' →
      ∃ first m, Derived (.body (.operand g)) i first m ∧ Derived (.binary first p g) m e' r'
  | operand, i, e, r => Derived (.body (.operand g)) i e r
  | leftHandSide, i, e, r => ∀ base e' m r', Derived (.memberTail e) r base m →
      Derived (.callTail base) m e' r' → Derived (.leftHandSide g) i e' r'
  | member, i, e, r => ∀ e' r', Derived (.memberTail e) r e' r' →
      ∃ head m, Derived (.chainHead g) i head m ∧ Derived (.memberTail head) m e' r'

end Slot

/-- From some items a slot takes an expression, and the first of them may open it. -/
structure Fits (g : Grammar) (slot : Slot) (i : List Item) (e : Expression) (r : List Item) :
    Prop where
  opens : slot.opens g (peek .endOfInput i)
  takes : slot.Takes g i e r

section

variable {g : Grammar} {slot : Slot} {i r : List Item} {e : Expression}

theorem stopsAccess_iff {k : TokenKind} :
    stopsAccess k ↔ k ≠ .dot ∧ k ≠ .openBracket ∧ k ≠ .openParen := by
  simp [stopsAccess, and_assoc]

theorem stopsOperand_iff {k : TokenKind} :
    stopsOperand k ↔ stopsAccess k ∧ k.postfixOperator? = none := by
  simp [stopsOperand]

theorem stopsAssignment_iff {k : TokenKind} : stopsAssignment g k ↔
    stopsOperand k ∧ Parser.infixOperator? 0 g k = none ∧ k ≠ .question ∧
      k.assignOperator? = none := by
  simp [stopsAssignment, and_assoc]

theorem Slot.opens_iff {k : TokenKind} : slot.opens g k ↔ opensExpression g k ∧
    (slot = .leftHandSide ∨ slot = .member → k.prefixOperator? = none) := by
  cases slot <;> simp [opens, TokenKind.isPrefixOperator]

/-! ## From slot to slot -/

/-- No operand goes on with an assignment if nothing after it does. -/
theorem Parser.Derives.assignOperator?_eq_none {room : Nat} {m : List Item} {first : Expression}
    (h : Derives .endOfInput room (.operatorsRest first g) m e r)
    (hr : (peek .endOfInput r).assignOperator? = none) :
    (peek .endOfInput m).assignOperator? = none := by
  cases h with
  | @operatorsRest _ _ test _ _ _ m' _ hb hc =>
      have hm' : (peek .endOfInput m').assignOperator? = none := by
        cases hc with
        | conditionalEnd => exact hr
        | conditionalMore => rfl
      cases hb with
      | binaryEnd => exact hm'
      | @binaryMore _ _ _ _ _ _ _ k _ _ _ _ _ _ hop =>
          have hk := (Parser.infixOperator?_eq_some_iff.mp hop).1
          show k.assignOperator? = none
          cases k <;> first | rfl | cases hk

/-- An operand and the operators after it are an expression that is no assignment. -/
theorem Parser.Derives.assignment_of_operand {room : Nat} {m : List Item} {first : Expression}
    (hf : Derives .endOfInput room (.body (.operand g)) i first m)
    (hrest : Derives .endOfInput room (.operatorsRest first g) m e r)
    (hr : (peek .endOfInput r).assignOperator? = none) :
    Derives .endOfInput room (.body (.assignment g)) i e r := by
  have hm := hrest.assignOperator?_eq_none hr
  cases hf with
  | unaryPrefix hop hoperand =>
      refine .assignmentPrefixed ?_ (.unaryPrefix hop hoperand) hrest
      exact Option.isSome_iff_exists.mpr ⟨_, hop⟩
  | unaryPostfix hpre hl hp =>
      have hplain : (peek .endOfInput i).isPrefixOperator = false := by
        rw [TokenKind.isPrefixOperator, hpre]
        rfl
      refine .assignmentPlain hplain hl (.assignEnd ?_ hp hrest)
      cases hp with
      | postfixEnd => exact hm
      | @postfixMore _ _ k _ _ _ hop =>
          show k.assignOperator? = none
          cases k <;> first | rfl | cases hop

namespace Fits

theorem leftHandSide_of_member (h : Fits g .member i e r) : Fits g .leftHandSide i e r := by
  refine ⟨h.opens, fun base e' m r' hm hc => ?_⟩
  obtain ⟨head, m', hhead, htail⟩ := h.takes base m hm
  exact hhead.imp₃ htail hc .leftHandSide

/-- What fits as a left-hand side is taken as one. -/
theorem derived (h : Fits g .leftHandSide i e r) (hr : stopsAccess (peek .endOfInput r)) :
    Derived (.leftHandSide g) i e r := by
  obtain ⟨hdot, hbracket, hparen⟩ := stopsAccess_iff.mp hr
  exact h.takes e e r r (.of fun _ => .memberEnd hdot hbracket) (.of fun _ => .callEnd hparen)

theorem operand_of_leftHandSide (h : Fits g .leftHandSide i e r)
    (hr : stopsOperand (peek .endOfInput r)) : Fits g .operand i e r := by
  obtain ⟨hopens, hpre⟩ := Slot.opens_iff.mp h.opens
  obtain ⟨haccess, hpostfix⟩ := stopsOperand_iff.mp hr
  exact ⟨hopens, (h.derived haccess).imp fun h =>
    .unaryPostfix (hpre (.inl rfl)) h (.postfixEnd hpostfix)⟩

theorem infixOperand_of_operand (h : Fits g .operand i e r) (power : Nat) :
    Fits g (.infixOperand power) i e r :=
  ⟨h.opens, fun _ _ _ _ hrest => ⟨e, r, h.takes, hrest⟩⟩

theorem assignment_of_infixOperand {power : Nat} (h : Fits g (.infixOperand power) i e r)
    (hr : stopsAssignment g (peek .endOfInput r)) : Fits g .assignment i e r := by
  obtain ⟨-, hinfix, hquestion, hassign⟩ := stopsAssignment_iff.mp hr
  obtain ⟨first, m, hf, hb⟩ := h.takes 0 (Nat.zero_le _) e r (.of fun _ => .binaryEnd hinfix)
  exact ⟨h.opens, hf.imp₂ hb fun hf hb =>
    hf.assignment_of_operand (.operatorsRest hb (.conditionalEnd hquestion)) hassign⟩

theorem expression_of_assignment (h : Fits g .assignment i e r)
    (hr : peek .endOfInput r ≠ .comma) : Fits g .expression i e r :=
  ⟨h.opens, h.takes.nested.imp fun h => .expression h (.sequenceEnd hr)⟩

/-! ## Into the slots that ask for less -/

theorem of_assignment (h : Fits g .assignment i e r)
    (hs : slot.strength ≤ Slot.assignment.strength) (hr : slot.stops g (peek .endOfInput r)) :
    Fits g slot i e r := by
  cases slot with
  | expression => exact h.expression_of_assignment (by simp_all [Slot.stops])
  | assignment => exact h
  | infixOperand power => exact absurd hs (by simp [Slot.strength])
  | operand => exact absurd hs (by decide)
  | leftHandSide => exact absurd hs (by decide)
  | member => exact absurd hs (by decide)

theorem of_infixOperand {power : Nat} (h : Fits g (.infixOperand power) i e r) (hp : power ≤ 20)
    (hs : slot.strength ≤ (Slot.infixOperand power).strength)
    (hr : slot.stops g (peek .endOfInput r)) : Fits g slot i e r := by
  cases slot with
  | expression =>
      have hstops : stopsAssignment g (peek .endOfInput r) := by simp_all [Slot.stops]
      exact (h.assignment_of_infixOperand hstops).of_assignment (by decide) hr
  | assignment => exact h.assignment_of_infixOperand hr
  | infixOperand power' =>
      have hle : power' ≤ power := by simpa [Slot.strength] using hs
      exact ⟨h.opens, fun p hp => h.takes p (Nat.le_trans hp hle)⟩
  | operand => exact absurd hs (by simp only [Slot.strength]; omega)
  | leftHandSide => exact absurd hs (by simp only [Slot.strength]; omega)
  | member => exact absurd hs (by simp only [Slot.strength]; omega)

theorem of_operand (h : Fits g .operand i e r) (hs : slot.strength ≤ Slot.operand.strength)
    (hr : slot.stops g (peek .endOfInput r)) : Fits g slot i e r := by
  cases slot with
  | expression => exact (h.infixOperand_of_operand 0).of_infixOperand (by decide) (by decide) hr
  | assignment => exact (h.infixOperand_of_operand 0).of_infixOperand (by decide) (by decide) hr
  | infixOperand power => exact h.infixOperand_of_operand power
  | operand => exact h
  | leftHandSide => exact absurd hs (by decide)
  | member => exact absurd hs (by decide)

theorem of_leftHandSide (h : Fits g .leftHandSide i e r) (hs : slot ≠ .member)
    (hr : slot.stops g (peek .endOfInput r)) : Fits g slot i e r := by
  cases slot with
  | expression =>
      have hstops : stopsAssignment g (peek .endOfInput r) := by simp_all [Slot.stops]
      exact (h.operand_of_leftHandSide (stopsAssignment_iff.mp hstops).1).of_operand (by decide) hr
  | assignment =>
      exact (h.operand_of_leftHandSide (stopsAssignment_iff.mp hr).1).of_operand (by decide) hr
  | infixOperand power =>
      have hstops : stopsOperand (peek .endOfInput r) := by simp_all [Slot.stops]
      exact (h.operand_of_leftHandSide hstops).infixOperand_of_operand power
  | operand => exact h.operand_of_leftHandSide hr
  | leftHandSide => exact h
  | member => exact absurd rfl hs

theorem of_member (h : Fits g .member i e r) (hr : slot.stops g (peek .endOfInput r)) :
    Fits g slot i e r := by
  by_cases hslot : slot = .member
  · exact hslot ▸ h
  · exact h.leftHandSide_of_member.of_leftHandSide hslot hr

/-! ## Into the strongest slot -/

/-- A primary expression fits into any slot. -/
theorem of_primary (h : Derived (.primary g) i e r)
    (hopens : Slot.member.opens g (peek .endOfInput i)) (hnew : peek .endOfInput i ≠ .kwNew) :
    Fits g .member i e r :=
  ⟨hopens, fun _ _ htail => ⟨e, r, h.imp fun h => .headPrimary hnew h, htail⟩⟩

/-- In parentheses, an expression fits into any slot. -/
theorem parenthesized {t t' : Text}
    (h : Fits .normal .expression i e (.taken .closeParen t' :: r)) :
    Fits g .member (.taken .openParen t :: i) e r :=
  of_primary (h.takes.imp fun h => .primaryParenthesized rfl (.parenthesized h)) rfl nofun

/-! ## Accesses -/

theorem of_base (h : Fits g slot.base i e r) (hr : slot.stops g (peek .endOfInput r)) :
    Fits g slot i e r := by
  cases slot with
  | member => exact h
  | _ => exact of_leftHandSide h nofun hr

theorem dot {k : TokenKind} {t : Text} (h : Fits g slot.base i e (.member k t :: r)) :
    Fits g slot.base i (.dot e t) r := by
  have hleft (h : Fits g .leftHandSide i e (.member k t :: r)) :
      Fits g .leftHandSide i (.dot e t) r :=
    ⟨h.opens, fun base e' m r' hm hc => h.takes base e' m r' (hm.imp .memberDot) hc⟩
  cases slot with
  | member => exact ⟨h.opens, fun e' r' htail => h.takes e' r' (htail.imp .memberDot)⟩
  | _ => exact hleft h

theorem bracket {t t' : Text} {j : List Item} {index : Expression}
    (h : Fits g slot.base i e (.taken .openBracket t :: j))
    (hi : Derived (.expression .normal) j index (.taken .closeBracket t' :: r)) :
    Fits g slot.base i (.bracket e index) r := by
  have hleft (h : Fits g .leftHandSide i e (.taken .openBracket t :: j)) :
      Fits g .leftHandSide i (.bracket e index) r :=
    ⟨h.opens, fun base e' m r' hm hc => h.takes base e' m r' (hi.imp₂ hm .memberBracket) hc⟩
  cases slot with
  | member => exact ⟨h.opens, fun e' r' htail => h.takes e' r' (hi.imp₂ htail .memberBracket)⟩
  | _ => exact hleft h

theorem call {m : List Item} {args : List Expression} (h : Fits g .leftHandSide i e m)
    (hm : peek .endOfInput m = .openParen) (ha : Derived .arguments m args r) :
    Fits g .leftHandSide i (.call e args) r := by
  refine ⟨h.opens, fun base e' m' r' htail hc => h.takes e e' m r' (.of fun _ => ?_) ?_⟩
  · exact .memberEnd (by rw [hm]; nofun) (by rw [hm]; nofun)
  · exact ha.imp₃ htail hc (.callMore hm)

theorem construct {t : Text} {m : List Item} {args : List Expression}
    (h : Fits .normal .member i e m) (hm : peek .endOfInput m = .openParen)
    (ha : Derived .arguments m args r) :
    Fits g .member (.taken .kwNew t :: i) (.construct e args) r := by
  obtain ⟨head, m', hhead, htail⟩ := h.takes e m <| .of fun _ =>
    .memberEnd (by rw [hm]; nofun) (by rw [hm]; nofun)
  have hnew : Derived (.body .construction) (.taken .kwNew t :: i) (.construct e args) r :=
    hhead.imp₃ htail ha fun hhead htail ha => .constructionApplied hhead htail hm ha
  exact ⟨rfl, fun e' r' htail => ⟨_, r, hnew.nested.imp (.headNew rfl), htail⟩⟩

/-! ## Operators -/

theorem prefixed {k : TokenKind} {t : Text} {op : UnaryOperator} (hop : k.prefixOperator? = some op)
    (h : Fits g.operand .operand i e r) :
    Fits g .operand (.taken k t :: i) (.unary op e false) r := by
  refine ⟨?_, h.takes.nested.imp (.unaryPrefix hop)⟩
  show opensExpression g k
  cases k <;> first | rfl | cases hop

theorem postfixed {k : TokenKind} {t : Text} {op : UnaryOperator}
    (hop : k.postfixOperator? = some op) (h : Fits g .leftHandSide i e (.taken k t :: r)) :
    Fits g .operand i (.unary op e true) r := by
  obtain ⟨hopens, hpre⟩ := Slot.opens_iff.mp h.opens
  have hk : stopsAccess k := by cases k <;> first | rfl | cases hop
  exact ⟨hopens, (h.derived hk).imp fun h =>
    .unaryPostfix (hpre (.inl rfl)) h (.postfixMore hop)⟩

theorem operation {k : TokenKind} {t : Text} {op : InfixOperator} {j : List Item}
    {right : Expression} (hop : k.infixOperator? = some op) (hin : ¬(k = .kwIn ∧ g = .noIn))
    (hl : Fits g (.infixOperand op.power) i e (.taken k t :: j))
    (hr : Fits g.operand (.infixOperand op.rightPower) j right r)
    (hstop : infixOperator? op.rightPower g.operand (peek .endOfInput r) = none) :
    Fits g (.infixOperand op.power) i (op.apply e right) r := by
  refine ⟨hl.opens, fun p hp e' r' hrest => ?_⟩
  obtain ⟨first, m, hf, hb⟩ :=
    hr.takes op.rightPower (Nat.le_refl _) right r (.of fun _ => .binaryEnd hstop)
  have hk : infixOperator? p g k = some op := by
    rw [infixOperator?, if_neg hin, hop, Option.filter_some, if_pos (decide_eq_true hp)]
  exact hl.takes p hp e' r' (hf.imp₃ hb hrest (.binaryMore hk))

theorem assign {k : TokenKind} {t : Text} {op : AssignOperator} {j : List Item}
    {value : Expression} (hop : k.assignOperator? = some op)
    (h : Fits g .leftHandSide i e (.taken k t :: j)) (hv : Fits g.operand .assignment j value r) :
    Fits g .assignment i (.assign e op value) r := by
  obtain ⟨hopens, hpre⟩ := Slot.opens_iff.mp h.opens
  have hk : stopsAccess k := by cases k <;> first | rfl | cases hop
  refine ⟨hopens, (h.derived hk).imp₂ hv.takes.nested fun h hv => ?_⟩
  refine .assignmentPlain ?_ h (.assignMore hop hv)
  rw [TokenKind.isPrefixOperator, hpre (.inl rfl)]
  rfl

theorem conditional {t t' : Text} {j m : List Item} {consequent alternate : Expression}
    (h : Fits g (.infixOperand 0) i e (.taken .question t :: j))
    (hc : Fits .normal .assignment j consequent (.taken .colon t' :: m))
    (ha : Fits g.operand .assignment m alternate r)
    (hr : (peek .endOfInput r).assignOperator? = none) :
    Fits g .assignment i (.conditional e consequent alternate) r := by
  have hrest : Derived (.conditionalRest e g) (.taken .question t :: j)
      (.conditional e consequent alternate) r :=
    hc.takes.nested.imp₂ ha.takes.nested .conditionalMore
  have hquestion : infixOperator? 0 g .question = none := by cases g <;> rfl
  obtain ⟨first, m', hf, hb⟩ :=
    h.takes 0 (Nat.le_refl _) e _ (.of fun _ => .binaryEnd hquestion)
  exact ⟨h.opens, hf.imp₃ hb hrest fun hf hb hrest =>
    hf.assignment_of_operand (.operatorsRest hb hrest) hr⟩

theorem sequence {m : List Item} {es : List Expression} (h : Fits g .assignment i e m)
    (hm : peek .endOfInput m = .comma) (hes : Derived (.operands g) m es r) :
    Fits g .expression i (.sequence (e :: es)) r :=
  ⟨h.opens, h.takes.nested.imp₂ hes fun h hes => .expression h (.sequenceMore hm hes)⟩

end Fits

end

end EcmaSyntax
