import EcmaSyntax.Proofs.Printing.Slots
import EcmaSyntax.Proofs.Printing.Words

/-!
# Printed expressions

**Input.**  A printable expression whose parts are printed so that the grammar derives them again.

**Results.**  One lemma for each kind of expression: what is printed for it in a slot fits into this
slot, with any items behind it at which the slot stops.
-/

namespace EcmaSyntax

open EcmaSyntax.Parser (Item Derived infixOperator? peek)

namespace Printer

@[simp] theorem peek_sign (last k : TokenKind) (its : List Item) :
    peek last (sign k :: its) = k := rfl

theorem parenthesized_append (its r : List Item) :
    parenthesized its ++ r = sign .openParen :: (its ++ sign .closeParen :: r) := by
  simp [parenthesized]

theorem bracketed_append (its r : List Item) :
    bracketed its ++ r = sign .openBracket :: (its ++ sign .closeBracket :: r) := by
  simp [bracketed]

theorem braced_append (its r : List Item) :
    braced its ++ r = sign .openBrace :: (its ++ sign .closeBrace :: r) := by
  simp [braced]

end Printer

/-! ## Operators -/

theorem UnaryOperator.prefixOperator?_kind (op : UnaryOperator) :
    op.kind.prefixOperator? = some op := by
  cases op <;> rfl

theorem UnaryOperator.postfixOperator?_kind {op : UnaryOperator}
    (h : op = .increment ∨ op = .decrement) : op.kind.postfixOperator? = some op := by
  obtain rfl | rfl := h <;> rfl

theorem AssignOperator.assignOperator?_kind (op : AssignOperator) :
    op.kind.assignOperator? = some op := by
  cases op <;> rfl

namespace InfixOperator

variable {op : InfixOperator}

theorem infixOperator?_kind (op : InfixOperator) : op.kind.infixOperator? = some op := by
  cases op with
  | binary op => cases op <;> rfl
  | logical op => cases op <;> rfl

theorem power_le (op : InfixOperator) : op.power ≤ 20 := by
  cases op with
  | binary op => cases op <;> decide
  | logical op => cases op <;> decide

theorem stopsOperand_kind (op : InfixOperator) : stopsOperand op.kind := by
  cases op with
  | binary op => cases op <;> rfl
  | logical op => cases op <;> rfl

theorem strength_apply (op : InfixOperator) (left right : Expression) :
    (op.apply left right).strength = (Slot.infixOperand op.power).strength := by
  cases op <;> rfl

theorem isMembership_apply (h : op.kind = .kwIn) (left right : Expression) :
    (op.apply left right).isMembership := by
  cases op with
  | binary op => cases op <;> first | rfl | cases h
  | logical op => cases op <;> cases h

end InfixOperator

section

variable {g : Grammar} {slot : Slot} {k : TokenKind} {e : Expression}

theorem needsParentheses_eq_false_iff : e.needsParentheses g slot = false ↔
    slot.strength ≤ e.strength ∧ (g = .noIn → e.isMembership = false) ∧
      (g = .noBrace → e.startsLikeStatement = false) := by
  simp [Expression.needsParentheses, and_assoc]

/-! ## Where slots stop -/

theorem infixOperator?_operand (p : Nat) (g : Grammar) (k : TokenKind) :
    infixOperator? p g.operand k = infixOperator? p g k := by
  cases g <;> simp [infixOperator?, Grammar.operand]

theorem infixOperator?_eq_none_mono {p q : Nat} (h : infixOperator? p g k = none) (hle : p ≤ q) :
    infixOperator? q g k = none := by
  unfold infixOperator? at h ⊢
  split at h
  · rw [if_pos ‹_›]
  · rw [if_neg ‹_›]
    rw [Option.filter_eq_none_iff] at h ⊢
    intro op hop hq
    exact h op hop (by simp only [decide_eq_true_eq] at hq ⊢; omega)

theorem stopsAssignment_operand (g : Grammar) (k : TokenKind) :
    stopsAssignment g.operand k = stopsAssignment g k := by
  unfold stopsAssignment
  rw [infixOperator?_operand]

theorem stopsAssignment_comma (g : Grammar) : stopsAssignment g .comma := by
  cases g <;> rfl

namespace Slot

theorem stopsOperand_of_stops (hr : slot.stops g k)
    (hs : slot.strength ≤ operand.strength) : stopsOperand k := by
  cases slot with
  | expression => simp_all [stops, stopsAssignment]
  | assignment => simp_all [stops, stopsAssignment]
  | infixOperand power => simp_all [stops]
  | operand => exact hr
  | leftHandSide => exact absurd hs (by decide)
  | member => exact absurd hs (by decide)

theorem stopsAssignment_of_stops (hr : slot.stops g k)
    (hs : slot.strength ≤ assignment.strength) : stopsAssignment g k := by
  cases slot with
  | expression => simp_all [stops]
  | assignment => exact hr
  | infixOperand power => exact absurd hs (by simp [strength])
  | operand => exact absurd hs (by decide)
  | leftHandSide => exact absurd hs (by decide)
  | member => exact absurd hs (by decide)

/-- Where a slot stops, no operator follows that would hold the right operand of another one. -/
theorem infixOperator?_of_stops {power : Nat} (hr : slot.stops g k) (hp : power ≤ 20)
    (hs : slot.strength ≤ (infixOperand power).strength) :
    infixOperator? (power + 1) g.operand k = none := by
  rw [infixOperator?_operand]
  have hstops (h : stopsAssignment g k) : infixOperator? (power + 1) g k = none :=
    infixOperator?_eq_none_mono (stopsAssignment_iff.mp h).2.1 (Nat.zero_le _)
  cases slot with
  | expression => exact hstops (stopsAssignment_of_stops hr (by decide))
  | assignment => exact hstops hr
  | infixOperand power' =>
      have hle : power' ≤ power := by simpa [strength] using hs
      have hnone : infixOperator? (power' + 1) g k = none := by simp_all [stops]
      exact infixOperator?_eq_none_mono hnone (by omega)
  | operand => exact absurd hs (by simp only [strength]; omega)
  | leftHandSide => exact absurd hs (by simp only [strength]; omega)
  | member => exact absurd hs (by simp only [strength]; omega)

end Slot

end

/-! ## Expressions -/

section

variable (numeral : Binary64 → Text)

/-- Wherever an expression is printed, it is taken from what is printed. -/
def Expression.Printed (e : Expression) : Prop :=
  ∀ ⦃g : Grammar⦄ ⦃slot : Slot⦄ ⦃r : List Item⦄, slot.stops g (peek .endOfInput r) →
    Fits g slot (Printer.expression numeral e g slot ++ r) e r

/-- What is printed between braces is taken as a list of statements. -/
def IsPrintedBody (body : List Statement) : Prop :=
  ∀ r, Derived .blockBody (Printer.braced (Printer.statements numeral body) ++ r) body r

/-- A member of an object literal is taken from what is printed for it. -/
def Property.Printed (p : Property) : Prop :=
  ∀ r, stopsAssignment .normal (peek .endOfInput r) →
    Derived .property (Printer.property numeral p ++ r) p r

end

namespace Printer

variable {numeral : Binary64 → Text} {g : Grammar} {slot : Slot} {r : List Item} {e : Expression}

/-- Parentheses are put where they are needed. -/
theorem fits_enclose {its : Grammar → List Item} (hr : slot.stops g (peek .endOfInput r))
    (h : ∀ {g slot r}, e.needsParentheses g slot = false → slot.stops g (peek .endOfInput r) →
      Fits g slot (its g ++ r) e r) : Fits g slot (enclose e g slot its ++ r) e r := by
  unfold enclose
  cases hneeds : e.needsParentheses g slot with
  | false => exact h hneeds hr
  | true =>
      have hfits : Fits .normal .expression (its .normal ++ sign .closeParen :: r) e
          (sign .closeParen :: r) :=
        h (needsParentheses_eq_false_iff.mpr ⟨Nat.zero_le _, nofun, nofun⟩) rfl
      rw [if_pos rfl, parenthesized_append]
      exact hfits.parenthesized.of_member hr

/-! ### Lists -/

theorem derived_argumentsRest {es : List Expression}
    (h : ∀ e ∈ es, Expression.Printed numeral e) (r : List Item) :
    Derived .argumentsRest (moreExpressions numeral es .normal ++ sign .closeParen :: r) es r := by
  induction es with
  | nil => exact .of fun _ => .argumentsEnd
  | cons e es ih =>
      obtain ⟨he, hes⟩ := List.forall_mem_cons.mp h
      rw [moreExpressions, List.cons_append, List.append_assoc]
      have hr : Slot.assignment.stops .normal (peek .endOfInput
          (moreExpressions numeral es .normal ++ sign .closeParen :: r)) := by
        cases es <;> rfl
      exact (he hr).takes.nested.imp₂ (ih hes) .argumentsMore

theorem derived_arguments {es : List Expression} (h : ∀ e ∈ es, Expression.Printed numeral e)
    (r : List Item) :
    Derived .arguments (parenthesized (expressions numeral es .normal) ++ r) es r := by
  rw [parenthesized_append]
  cases es with
  | nil => exact .of fun _ => .argumentsNone
  | cons e es =>
      obtain ⟨he, hes⟩ := List.forall_mem_cons.mp h
      rw [expressions, List.append_assoc]
      have hr : Slot.assignment.stops .normal (peek .endOfInput
          (moreExpressions numeral es .normal ++ sign .closeParen :: r)) := by
        cases es <;> rfl
      have hfits := he hr
      have hopens := hfits.opens
      refine hfits.takes.nested.imp₂ (derived_argumentsRest hes r) (.argumentsSome ?_)
      intro hk
      rw [hk] at hopens
      cases hopens

/-- Where an expression of a sequence stops. -/
theorem stops_moreExpressions {es : List Expression} (hr : stopsAssignment g (peek .endOfInput r)) :
    stopsAssignment g (peek .endOfInput (moreExpressions numeral es g ++ r)) := by
  cases es with
  | nil => exact hr
  | cons => exact stopsAssignment_comma g

theorem derived_operands {es : List Expression} (h : ∀ e ∈ es, Expression.Printed numeral e)
    (hr : stopsAssignment g.operand (peek .endOfInput r)) (hcomma : peek .endOfInput r ≠ .comma) :
    Derived (.operands g) (moreExpressions numeral es g.operand ++ r) es r := by
  induction es with
  | nil => exact .of fun _ => .operandsEnd hcomma
  | cons e es ih =>
      obtain ⟨he, hes⟩ := List.forall_mem_cons.mp h
      rw [moreExpressions, List.cons_append, List.append_assoc]
      have hfits : Fits g.operand .assignment _ e (moreExpressions numeral es g.operand ++ r) :=
        he (stops_moreExpressions hr)
      exact hfits.takes.nested.imp₂ (ih hes) .operandsMore

theorem derived_arrayElements {es : List (Option Expression)}
    (h : ∀ e ∈ es, ∀ x ∈ e, Expression.Printed numeral x)
    (hr : peek .endOfInput r = .closeBracket) :
    Derived .arrayElements (elements numeral es ++ r) es r := by
  induction es with
  | nil => exact .of fun _ => .arrayEnd hr
  | cons e es ih =>
      obtain ⟨he, hes⟩ := List.forall_mem_cons.mp h
      cases e with
      | none => exact (ih hes).imp .arrayHole
      | some e =>
          have hfits (r' : List Item) (hr' : stopsAssignment .normal (peek .endOfInput r')) :
              Fits .normal .assignment (expression numeral e .normal .assignment ++ r') e r' :=
            he e rfl hr'
          have hopens {i r' : List Item} (h : Fits .normal .assignment i e r') :
              peek .endOfInput i ≠ .closeBracket ∧ peek .endOfInput i ≠ .comma := by
            have := h.opens
            constructor <;> (intro hk; rw [hk] at this; cases this)
          rw [elements, List.append_assoc, List.append_assoc]
          cases es with
          | nil =>
              have hfits := hfits r (by rw [hr]; rfl)
              obtain ⟨hbracket, hcomma⟩ := hopens hfits
              exact hfits.takes.nested.imp₂ (ih hes) fun h => .arrayLast hbracket hcomma h hr
          | cons e' es =>
              have hfits := hfits (sign .comma :: (elements numeral (e' :: es) ++ r)) rfl
              obtain ⟨hbracket, hcomma⟩ := hopens hfits
              exact hfits.takes.nested.imp₂ (ih hes) (.arrayMore hbracket hcomma)

/-- No brace closes where a name of a property stands. -/
theorem peek_key_ne (k : PropertyKey) (its : List Item) :
    peek .endOfInput (key numeral k :: its) ≠ .closeBrace := by
  cases k with
  | identifier text =>
      intro hk
      have hname := isIdentifierName_wordKind text
      rw [show wordKind text = .closeBrace from hk] at hname
      cases hname
  | string value => nofun
  | number value => nofun

theorem derived_members {ps : List Property} (h : ∀ p ∈ ps, Property.Printed numeral p)
    (hr : peek .endOfInput r = .closeBrace) :
    Derived .members (properties numeral ps ++ r) ps r := by
  induction ps with
  | nil => exact .of fun _ => .membersEnd hr
  | cons p ps ih =>
      obtain ⟨hp, hps⟩ := List.forall_mem_cons.mp h
      have hopens (r' : List Item) : peek .endOfInput (property numeral p ++ r') ≠ .closeBrace := by
        cases p with
        | init k value => exact peek_key_ne k _
        | getter k body => nofun
        | setter k param body => nofun
      rw [properties, List.append_assoc, List.append_assoc]
      cases ps with
      | nil =>
          have hp := hp r (by rw [hr]; rfl)
          exact hp.imp₂ (ih hps) fun h => .membersLast (hopens _) h hr
      | cons p' ps =>
          have hp := hp (sign .comma :: (properties numeral (p' :: ps) ++ r)) rfl
          exact hp.imp₂ (ih hps) (.membersMore (hopens _))

/-! ### Functions -/

theorem derived_parametersRest (ps : List Text) (r : List Item) :
    Derived .parametersRest
      (ps.flatMap (fun p => [sign .comma, name p]) ++ sign .closeParen :: r) ps r := by
  induction ps with
  | nil => exact .of fun _ => .parametersEnd
  | cons p ps ih => exact ih.imp .parametersMore

theorem derived_parameters (ps : List Text) (r : List Item) :
    Derived .parameters (parenthesized (parameters ps) ++ r) ps r := by
  rw [parenthesized_append]
  cases ps with
  | nil => exact .of fun _ => .parametersNone
  | cons p ps => exact (derived_parametersRest ps r).imp .parametersSome

theorem derived_function {f : Function} {needsName : Bool} (h : IsPrintedBody numeral f.body)
    (hname : needsName → f.name.isSome) (r : List Item) :
    Derived (.function needsName) (function numeral f ++ r) f r := by
  obtain ⟨text, params, body⟩ := f
  rw [function, List.cons_append, List.append_assoc, List.append_assoc]
  have hparams := derived_parameters params (braced (statements numeral body) ++ r)
  cases text with
  | some text => exact hparams.imp₂ (h r) .functionNamed
  | none =>
      cases needsName with
      | false => exact hparams.imp₂ (h r) .functionPlain
      | true => cases hname rfl

/-! ### Members of object literals -/

theorem propertyKey?_key {k : PropertyKey} (hw : k.WellFormed) (hp : k.Printable numeral) :
    ∃ kind text, key numeral k = .taken kind text ∧ Parser.propertyKey? kind text = some k := by
  cases k with
  | identifier text =>
      refine ⟨_, _, rfl, ?_⟩
      have hname := isIdentifierName_wordKind text
      have hstring : wordKind text ≠ .string := by
        intro hk
        rw [hk] at hname
        cases hname
      have hnumber : wordKind text ≠ .number := by
        intro hk
        rw [hk] at hname
        cases hname
      rw [Parser.propertyKey?, if_neg hstring, if_neg hnumber, if_pos hname]
  | string value =>
      refine ⟨_, _, rfl, ?_⟩
      rw [Parser.propertyKey?, if_pos rfl, stringValue_stringLiteral]
  | number value =>
      refine ⟨_, _, rfl, ?_⟩
      rw [Parser.propertyKey?, if_neg nofun, if_pos rfl, hp.reads]
      rfl

theorem printed_init {k : PropertyKey} {value : Expression} (hw : k.WellFormed)
    (hp : k.Printable numeral) (hv : Expression.Printed numeral value) :
    (Property.init k value).Printed numeral := by
  intro r hr
  obtain ⟨kind, text, hkey, hprop⟩ := propertyKey?_key hw hp
  have hfits : Fits .normal .assignment _ value r := hv hr
  rw [property, hkey]
  exact hfits.takes.nested.imp (.propertyInit hprop)

theorem printed_getter {k : PropertyKey} {body : List Statement} (hw : k.WellFormed)
    (hp : k.Printable numeral) (h : IsPrintedBody numeral body) :
    (Property.getter k body).Printed numeral := by
  intro r _
  obtain ⟨kind, text, hkey, hprop⟩ := propertyKey?_key hw hp
  rw [property, hkey]
  exact (h r).imp (.propertyGetter hprop)

theorem printed_setter {k : PropertyKey} {param : Text} {body : List Statement}
    (hw : k.WellFormed) (hp : k.Printable numeral) (h : IsPrintedBody numeral body) :
    (Property.setter k param body).Printed numeral := by
  intro r _
  obtain ⟨kind, text, hkey, hprop⟩ := propertyKey?_key hw hp
  rw [property, hkey]
  exact (h r).imp (.propertySetter hprop)

/-! ### Kinds of expressions -/

/-- An expression that is printed as one token. -/
theorem printed_token (it : Item) {k : TokenKind}
    (h : ∀ g slot, expression numeral e g slot = [it])
    (hd : ∀ g room r, Parser.Derives .endOfInput room (.primary g) (it :: r) e r)
    (hk : ∀ r, peek .endOfInput (it :: r) = k) (hopens : ∀ g, Slot.member.opens g k)
    (hnew : k ≠ .kwNew) : Expression.Printed numeral e := by
  intro g slot r hr
  rw [h, List.singleton_append]
  refine Fits.of_member (.of_primary (.of fun room => hd g room r) ?_ ?_) hr
  · rw [hk]
    exact hopens g
  · rwa [hk]

theorem printed_boolean (value : Bool) : (Expression.boolean value).Printed numeral := by
  cases value with
  | true =>
      exact printed_token (sign .kwTrue) (fun _ _ => rfl) (fun _ _ _ => .primaryTrue)
        (fun _ => rfl) (fun g => by cases g <;> rfl) nofun
  | false =>
      exact printed_token (sign .kwFalse) (fun _ _ => rfl) (fun _ _ _ => .primaryFalse)
        (fun _ => rfl) (fun g => by cases g <;> rfl) nofun

theorem printed_string (value : Text) : (Expression.string value).Printed numeral := by
  refine printed_token (.taken .string (stringLiteral value)) (fun _ _ => rfl)
    (fun g room r => ?_) (fun _ => rfl) (fun g => by cases g <;> rfl) nofun
  have h : Parser.Derives .endOfInput room (.primary g) (.taken .string (stringLiteral value) :: r)
    (.string (stringValue (stringLiteral value))) r := .primaryString
  rwa [stringValue_stringLiteral] at h

theorem printed_regex (pattern : Text) {flags : Text} (hflags : ∀ c ∈ flags, isIdentifierPart c) :
    (Expression.regex pattern flags).Printed numeral := by
  have hd (g : Grammar) (room : Nat) (k : TokenKind) (r : List Item) :
      Parser.Derives .endOfInput room (.primary g)
        (.literal k ('/' :: pattern ++ '/' :: flags) :: r) (.regex pattern flags) r := by
    have h : Parser.Derives .endOfInput room (.primary g)
      (.literal k ('/' :: pattern ++ '/' :: flags) :: r) _ r := .primaryRegex
    rwa [regexParts_literal pattern hflags] at h
  refine printed_token (regex pattern flags) (k := regexOpener pattern) (fun _ _ => rfl)
    (fun g room r => hd g room _ r) (fun _ => rfl) (fun g => ?_) ?_
  · obtain ⟨h, -⟩ | ⟨h, -⟩ := regexOpener_cases pattern <;> rw [h] <;> cases g <;> rfl
  · obtain ⟨h, -⟩ | ⟨h, -⟩ := regexOpener_cases pattern <;> rw [h] <;> nofun

theorem printed_dot {text : Text} (h : Expression.Printed numeral e) :
    (Expression.dot e text).Printed numeral := by
  intro g slot r hr
  rw [expression, List.append_assoc, List.singleton_append]
  refine Fits.of_base (Fits.dot (h ?_)) hr
  cases slot <;> rfl

theorem printed_bracket {index : Expression} (h : Expression.Printed numeral e)
    (hi : Expression.Printed numeral index) : (Expression.bracket e index).Printed numeral := by
  intro g slot r hr
  rw [expression, List.append_assoc, bracketed_append]
  have hindex : Fits .normal .expression _ index (sign .closeBracket :: r) := hi rfl
  refine Fits.of_base (Fits.bracket (h ?_) hindex.takes) hr
  cases slot <;> rfl

theorem printed_call {args : List Expression} (h : Expression.Printed numeral e)
    (ha : ∀ x ∈ args, Expression.Printed numeral x) : (Expression.call e args).Printed numeral := by
  intro g slot r hr
  rw [expression]
  refine fits_enclose hr fun {g slot r} hneeds hr => ?_
  obtain ⟨hs, -⟩ := needsParentheses_eq_false_iff.mp hneeds
  rw [List.append_assoc]
  refine Fits.of_leftHandSide (Fits.call (h rfl) ?_ (derived_arguments ha r)) ?_ hr
  · rw [parenthesized_append]
    rfl
  · rintro rfl
    exact absurd (show 26 ≤ 25 from hs) (by decide)

theorem printed_construct {args : List Expression} (h : Expression.Printed numeral e)
    (ha : ∀ x ∈ args, Expression.Printed numeral x) :
    (Expression.construct e args).Printed numeral := by
  intro g slot r hr
  rw [expression, List.cons_append, List.append_assoc]
  refine Fits.of_member (Fits.construct (h rfl) ?_ (derived_arguments ha r)) hr
  rw [parenthesized_append]
  rfl

theorem printed_prefix {op : UnaryOperator} (h : Expression.Printed numeral e) :
    (Expression.unary op e false).Printed numeral := by
  intro g slot r hr
  rw [expression]
  refine fits_enclose hr fun {g slot r} hneeds hr => ?_
  obtain ⟨hs, -⟩ := needsParentheses_eq_false_iff.mp hneeds
  exact Fits.of_operand (Fits.prefixed op.prefixOperator?_kind
    (h (Slot.stopsOperand_of_stops hr hs))) hs hr

theorem printed_postfix {op : UnaryOperator} (hop : op = .increment ∨ op = .decrement)
    (h : Expression.Printed numeral e) : (Expression.unary op e true).Printed numeral := by
  intro g slot r hr
  rw [expression]
  refine fits_enclose hr fun {g slot r} hneeds hr => ?_
  obtain ⟨hs, -⟩ := needsParentheses_eq_false_iff.mp hneeds
  rw [List.append_assoc, List.singleton_append]
  exact Fits.of_operand (Fits.postfixed (UnaryOperator.postfixOperator?_kind hop) (h rfl)) hs hr

theorem printed_operation {op : InfixOperator} {right : Expression}
    (hl : Expression.Printed numeral e) (hr : Expression.Printed numeral right)
    (hneeds : (op.apply e right).needsParentheses g slot = false)
    (hstops : slot.stops g (peek .endOfInput r)) :
    Fits g slot (operation op (expression numeral e) (expression numeral right) g ++ r)
      (op.apply e right) r := by
  obtain ⟨hs, hin, -⟩ := needsParentheses_eq_false_iff.mp hneeds
  rw [op.strength_apply] at hs
  have hnone := Slot.infixOperator?_of_stops hstops op.power_le hs
  rw [operation, List.append_assoc, List.cons_append]
  refine Fits.of_infixOperand (Fits.operation op.infixOperator?_kind ?_ (hl ?_) (hr ?_) hnone)
    op.power_le hs hstops
  · rintro ⟨hk, hg⟩
    rw [InfixOperator.isMembership_apply hk] at hin
    cases hin hg
  · have hpower : infixOperator? (op.power + 1) g op.kind = none := by
      rw [infixOperator?, op.infixOperator?_kind]
      simp
    show (stopsOperand op.kind && (infixOperator? (op.power + 1) g op.kind).isNone) = true
    rw [op.stopsOperand_kind, hpower]
    rfl
  · have hright := infixOperator?_eq_none_mono hnone (Nat.le_succ _)
    show (stopsOperand _ && (infixOperator? (op.rightPower + 1) g.operand _).isNone) = true
    have hle : slot.strength ≤ Slot.operand.strength := by
      have := op.power_le
      simp only [Slot.strength] at hs ⊢
      omega
    have hoperand := Slot.stopsOperand_of_stops hstops hle
    rw [hoperand, InfixOperator.rightPower, hright]
    rfl

theorem printed_binary {op : BinaryOperator} {right : Expression}
    (hl : Expression.Printed numeral e) (hr : Expression.Printed numeral right) :
    (Expression.binary e op right).Printed numeral := by
  intro g slot r hstops
  rw [expression]
  exact fits_enclose hstops fun hneeds hstops => printed_operation hl hr hneeds hstops

theorem printed_logical {op : LogicalOperator} {right : Expression}
    (hl : Expression.Printed numeral e) (hr : Expression.Printed numeral right) :
    (Expression.logical e op right).Printed numeral := by
  intro g slot r hstops
  rw [expression]
  exact fits_enclose hstops fun hneeds hstops => printed_operation hl hr hneeds hstops

theorem printed_assign {op : AssignOperator} {value : Expression}
    (h : Expression.Printed numeral e) (hv : Expression.Printed numeral value) :
    (Expression.assign e op value).Printed numeral := by
  intro g slot r hr
  rw [expression]
  refine fits_enclose hr fun {g slot r} hneeds hr => ?_
  obtain ⟨hs, -⟩ := needsParentheses_eq_false_iff.mp hneeds
  have hstops := Slot.stopsAssignment_of_stops hr hs
  rw [← stopsAssignment_operand] at hstops
  rw [List.append_assoc, List.cons_append]
  exact Fits.of_assignment (Fits.assign op.assignOperator?_kind (h rfl) (hv hstops)) hs hr

theorem printed_conditional {consequent alternate : Expression}
    (h : Expression.Printed numeral e) (hc : Expression.Printed numeral consequent)
    (ha : Expression.Printed numeral alternate) :
    (Expression.conditional e consequent alternate).Printed numeral := by
  intro g slot r hr
  rw [expression]
  refine fits_enclose hr fun {g slot r} hneeds hr => ?_
  obtain ⟨hs, -⟩ := needsParentheses_eq_false_iff.mp hneeds
  have hstops := Slot.stopsAssignment_of_stops hr hs
  have hassign := (stopsAssignment_iff.mp hstops).2.2.2
  rw [← stopsAssignment_operand] at hstops
  rw [List.append_assoc, List.cons_append, List.append_assoc, List.cons_append]
  refine Fits.of_assignment (Fits.conditional (h ?_) (hc rfl) (ha hstops) hassign) hs hr
  cases g <;> rfl

theorem printed_sequence {es : List Expression} (hes : ∀ x ∈ es, Expression.Printed numeral x)
    (hlen : 2 ≤ es.length) : (Expression.sequence es).Printed numeral := by
  intro g slot r hr
  rw [expression]
  refine fits_enclose hr fun {g slot r} hneeds hr => ?_
  obtain ⟨hs, -⟩ := needsParentheses_eq_false_iff.mp hneeds
  obtain _ | ⟨e, _ | ⟨e', es⟩⟩ := es
  · cases hlen
  · exact absurd hlen (by simp)
  obtain ⟨he, hes⟩ := List.forall_mem_cons.mp hes
  have hslot : slot = .expression := by
    cases slot <;> first | rfl | exact absurd hs (by simp [Expression.strength, Slot.strength])
  subst hslot
  have hstops := Slot.stopsAssignment_of_stops hr (by decide)
  have hcomma : peek .endOfInput r ≠ .comma := by simp_all [Slot.stops]
  rw [← stopsAssignment_operand] at hstops
  rw [expressions, List.append_assoc]
  exact Fits.sequence (he (stopsAssignment_comma g)) rfl (derived_operands hes hstops hcomma)

theorem printed_object {ps : List Property} (h : ∀ p ∈ ps, Property.Printed numeral p) :
    (Expression.object ps).Printed numeral := by
  intro g slot r hr
  rw [expression]
  refine fits_enclose hr fun {g slot r} hneeds hr => ?_
  obtain ⟨-, -, hbrace⟩ := needsParentheses_eq_false_iff.mp hneeds
  have hg : g ≠ .noBrace := fun hg => by cases hbrace hg
  rw [braced_append]
  refine Fits.of_member (.of_primary ((derived_members h rfl).imp (.primaryObject hg)) ?_ nofun) hr
  exact Slot.opens_iff.mpr ⟨decide_eq_true hg, fun _ => rfl⟩

theorem printed_functionExpression {f : Function} (h : IsPrintedBody numeral f.body) :
    (Expression.function f).Printed numeral := by
  intro g slot r hr
  rw [expression]
  refine fits_enclose hr fun {g slot r} hneeds hr => ?_
  obtain ⟨-, -, hbrace⟩ := needsParentheses_eq_false_iff.mp hneeds
  have hg : g ≠ .noBrace := fun hg => by cases hbrace hg
  have hpeek : peek .endOfInput (function numeral f ++ r) = .kwFunction := by
    cases f
    rfl
  have hf : Derived (.function false) (function numeral f ++ r) f r :=
    derived_function h (absurd · Bool.false_ne_true) r
  refine Fits.of_member (.of_primary (hf.imp (.primaryFunction hg hpeek)) ?_ ?_) hr
  · rw [hpeek]
    exact Slot.opens_iff.mpr ⟨decide_eq_true hg, fun _ => rfl⟩
  · rw [hpeek]
    nofun

theorem printed_array {es : List (Option Expression)}
    (h : ∀ e ∈ es, ∀ x ∈ e, Expression.Printed numeral x) :
    (Expression.array es).Printed numeral := by
  intro g slot r hr
  rw [expression, bracketed_append]
  exact Fits.of_member
    (.of_primary ((derived_arrayElements h rfl).imp .primaryArray) rfl nofun) hr

end Printer

end EcmaSyntax
