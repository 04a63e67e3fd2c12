import EcmaSyntax.Proofs.Printing.Expressions

/-!
# Printed statements

**Input.**  A printable program.

**Results.**
* one lemma for each kind of statement: from what is printed for it the grammar takes it again,
  unless an `else` follows that would be taken too.
* `Node.Everywhere.printed`: by induction on the tree, this holds of each node of a printable
  program.
* `Program.Printable.derived`: the grammar derives a printable program from what is printed for it.
-/

namespace EcmaSyntax

open EcmaSyntax.Parser (Item Derived Derives peek opensStatement)

/-! ## Starts of statements -/

/-- Whether a statement may start with a token. -/
def opensElement (k : TokenKind) : Bool :=
  opensStatement k || k = .kwFunction || opensExpression .noBrace k

theorem opensStatement_eq_false {k : TokenKind} (h : opensExpression .noBrace k) :
    opensStatement k = false := by
  cases k <;> first | rfl | cases h

/-- Whether a statement stops in front of a token that no expression goes on with. -/
structure Statement.StopsAt (s : Statement) (k : TokenKind) : Prop where
  no_alternative : s.endsOpen → k ≠ .kwElse
  no_finalizer : k ≠ .kwFinally

theorem Statement.StopsAt.of_endsOpen {s s' : Statement} {k : TokenKind} (h : s.StopsAt k)
    (hopen : s'.endsOpen → s.endsOpen) : s'.StopsAt k :=
  ⟨fun hs => h.no_alternative (hopen hs), h.no_finalizer⟩

theorem opensElement_stops {k : TokenKind} (h : opensElement k) (s : Statement) : s.StopsAt k := by
  constructor
  · rintro - rfl
    cases h
  · rintro rfl
    cases h

theorem opensElement_not_mem {k : TokenKind} (h : opensElement k) :
    k ∉ Parser.clauseStops ∧ k ∉ [TokenKind.closeBrace] ∧ k ∉ [TokenKind.endOfInput] := by
  cases k <;> first | decide | cases h

section

variable (numeral : Binary64 → Text)

/-- A statement is taken from what is printed for it. -/
structure Statement.Printed (s : Statement) : Prop where
  opens : ∀ r, opensElement (peek .endOfInput (Printer.statement numeral s ++ r))
  element : ∀ r, s.StopsAt (peek .endOfInput r) →
    Derived .element (Printer.statement numeral s ++ r) s r
  body : s.isBody → ∀ r, s.StopsAt (peek .endOfInput r) →
    Derived (.rule .statement) (Printer.statement numeral s ++ r) s r
  block : ∀ ss, s = .block ss → IsPrintedBody numeral ss

/-- A declarator is taken from what is printed for it. -/
def Declarator.Printed (d : Declarator) : Prop :=
  ∀ ⦃g : Grammar⦄ ⦃r : List Item⦄, stopsAssignment g (peek .endOfInput r) →
    Derived (.declarator g) (Printer.declarator numeral d g ++ r) d r

end

namespace Printer

variable {numeral : Binary64 → Text} {g : Grammar} {r : List Item} {e : Expression} {s : Statement}
  {ss : List Statement}

/-- A statement that starts like neither an expression nor a function. -/
theorem printed_of_body
    (hopens : ∀ r, peek .endOfInput (statement numeral s ++ r) ≠ .kwFunction ∧
      opensElement (peek .endOfInput (statement numeral s ++ r)))
    (hblock : ∀ ss, s = .block ss → IsPrintedBody numeral ss)
    (h : ∀ r, s.StopsAt (peek .endOfInput r) →
      Derived (.body .statement) (statement numeral s ++ r) s r) : s.Printed numeral where
  opens r := (hopens r).2
  element r hr := (h r hr).nested.imp (.elementStatement (hopens r).1)
  body _ r hr := (h r hr).nested
  block := hblock

/-- A statement that is no block and starts with a keyword or the like. -/
theorem printed_of_sign {k : TokenKind} (hk : opensStatement k)
    (hpeek : ∀ r, peek .endOfInput (statement numeral s ++ r) = k) (hs : ∀ ss, s ≠ .block ss)
    (h : ∀ r, s.StopsAt (peek .endOfInput r) →
      Derived (.body .statement) (statement numeral s ++ r) s r) : s.Printed numeral := by
  refine printed_of_body (fun r => ?_) (fun ss hss => absurd hss (hs ss)) h
  rw [hpeek]
  refine ⟨?_, ?_⟩
  · rintro rfl
    cases hk
  · simp [opensElement, hk]

/-! ## Lists of statements -/

theorem peek_statements (h : ∀ s ∈ ss, s.Printed numeral) (r : List Item) :
    peek .endOfInput (statements numeral ss ++ r) = peek .endOfInput r ∨
      opensElement (peek .endOfInput (statements numeral ss ++ r)) := by
  cases ss with
  | nil => exact .inl rfl
  | cons s ss =>
      rw [statements, List.cons_append, List.append_assoc]
      exact .inr ((h s (List.mem_cons_self ..)).opens _)

theorem derived_elements {stops : List TokenKind} (hstops : ∀ k, opensElement k → k ∉ stops)
    (hends : .kwElse ∉ stops ∧ .kwFinally ∉ stops) (h : ∀ s ∈ ss, s.Printed numeral)
    (hr : peek .endOfInput r ∈ stops) :
    Derived (.elements stops) (statements numeral ss ++ r) ss r := by
  induction ss with
  | nil => exact .of fun _ => .elementsEnd hr
  | cons s ss ih =>
      obtain ⟨hs, hss⟩ := List.forall_mem_cons.mp h
      rw [statements, List.cons_append, List.append_assoc]
      have hnext : s.StopsAt (peek .endOfInput (statements numeral ss ++ r)) := by
        obtain hpeek | hopens := peek_statements hss r
        · rw [hpeek]
          exact ⟨fun _ hk => hends.1 (hk ▸ hr), fun hk => hends.2 (hk ▸ hr)⟩
        · exact opensElement_stops hopens s
      exact (hs.element _ hnext).imp₂ (ih hss) (.elementsMore (hstops _ (hs.opens _)))

theorem isPrintedBody (h : ∀ s ∈ ss, s.Printed numeral) : IsPrintedBody numeral ss := by
  intro r
  have helements : Derived (.elements [.closeBrace])
      (statements numeral ss ++ sign .closeBrace :: r) ss (sign .closeBrace :: r) :=
    derived_elements (fun k hk => (opensElement_not_mem hk).2.1) (by decide) h
      (List.mem_singleton.mpr rfl)
  rw [braced_append]
  exact helements.imp .blockBody

/-! ## Parts of statements -/

theorem derived_parenthesized (he : Expression.Printed numeral e) (r : List Item) :
    Derived .parenthesized (parenthesized (expression numeral e .normal .expression) ++ r) e r := by
  have hfits : Fits .normal .expression _ e (sign .closeParen :: r) := he rfl
  rw [parenthesized_append]
  exact hfits.takes.imp .parenthesized

theorem derived_terminator (r : List Item) : Derived .terminator (ending :: r) () r :=
  .of fun _ => .ended

theorem derived_expressionBefore {close : TokenKind} {o : Option Expression}
    (ho : ∀ e ∈ o, Expression.Printed numeral e) (hclose : opensExpression .normal close = false)
    (hstops : Slot.expression.stops .normal close) (r : List Item) :
    Derived (.expressionBefore close) (optional numeral o ++ sign close :: r) o
      (sign close :: r) := by
  cases o with
  | none => exact .of fun _ => .expressionAbsent rfl
  | some e =>
      have hfits : Fits .normal .expression _ e (sign close :: r) := ho e rfl hstops
      have hopens : opensExpression .normal (peek .endOfInput _) := hfits.opens
      refine hfits.takes.imp (.expressionPresent fun hk => ?_)
      rw [hk, hclose] at hopens
      cases hopens

theorem printed_declarator {d : Declarator}
    (h : ∀ e ∈ d.initializer, Expression.Printed numeral e) : d.Printed numeral := by
  intro g r hr
  obtain ⟨text, _ | value⟩ := d
  · refine .of fun _ => .declaratorPlain fun hk => ?_
    rw [show peek .endOfInput r = .equals from hk] at hr
    cases g <;> cases hr
  · have hfits : Fits g .assignment _ value r := h value rfl hr
    exact hfits.takes.nested.imp .declaratorInit

theorem derived_declaratorsRest {ds : List Declarator} (h : ∀ d ∈ ds, d.Printed numeral)
    (hr : stopsAssignment g (peek .endOfInput r)) (hcomma : peek .endOfInput r ≠ .comma) :
    Derived (.declaratorsRest g) (moreDeclarators numeral ds g ++ r) ds r := by
  induction ds with
  | nil => exact .of fun _ => .declaratorsEnd hcomma
  | cons d ds ih =>
      obtain ⟨hd, hds⟩ := List.forall_mem_cons.mp h
      rw [moreDeclarators, List.cons_append, List.append_assoc]
      have hnext : stopsAssignment g (peek .endOfInput (moreDeclarators numeral ds g ++ r)) := by
        cases ds with
        | nil => exact hr
        | cons => exact stopsAssignment_comma g
      exact (hd hnext).imp₂ (ih hds) .declaratorsMore

theorem derived_declarators {ds : List Declarator} (h : ∀ d ∈ ds, d.Printed numeral)
    (hne : ds ≠ []) (hr : stopsAssignment g (peek .endOfInput r))
    (hcomma : peek .endOfInput r ≠ .comma) :
    Derived (.declarators g) (declarators numeral ds g ++ r) ds r := by
  cases ds with
  | nil => exact absurd rfl hne
  | cons d ds =>
      obtain ⟨hd, hds⟩ := List.forall_mem_cons.mp h
      rw [declarators, List.append_assoc]
      have hnext : stopsAssignment g (peek .endOfInput (moreDeclarators numeral ds g ++ r)) := by
        cases ds with
        | nil => exact hr
        | cons => exact stopsAssignment_comma g
      exact (hd hnext).imp₂ (derived_declaratorsRest hds hr hcomma) .declarators

/-! ## Kinds of statements -/

theorem printed_block (h : ∀ s ∈ ss, s.Printed numeral) : (Statement.block ss).Printed numeral := by
  have hbody := isPrintedBody h
  refine printed_of_body (fun r => ?_) ?_ fun r _ => ?_
  · rw [statement, braced_append]
    exact ⟨nofun, rfl⟩
  · rintro ss' ⟨⟩
    exact hbody
  · have hpeek : peek .endOfInput (statement numeral (.block ss) ++ r) = .openBrace := by
      rw [statement, braced_append]
      rfl
    exact (hbody r).imp (.block hpeek)

theorem printed_declare {ds : List Declarator} (h : ∀ d ∈ ds, d.Printed numeral)
    (hne : ds ≠ []) : (Statement.declare ds).Printed numeral := by
  refine printed_of_sign (k := .kwVar) rfl (fun _ => rfl) nofun fun r _ => ?_
  rw [statement, List.cons_append, List.append_assoc]
  have hds : Derived (.declarators .normal) _ ds (ending :: r) :=
    derived_declarators h hne rfl nofun
  exact hds.imp₂ (derived_terminator r) .declare

theorem printed_empty : Statement.empty.Printed numeral :=
  printed_of_sign (k := .semicolon) rfl (fun _ => rfl) nofun fun _ _ => .of fun _ => .empty

theorem printed_expression (he : Expression.Printed numeral e) :
    (Statement.expression e).Printed numeral := by
  have hfits (r : List Item) :
      Fits .noBrace .expression (expression numeral e .noBrace .expression ++ ending :: r) e
        (ending :: r) := he rfl
  have hitems (r : List Item) : statement numeral (.expression e) ++ r =
      expression numeral e .noBrace .expression ++ ending :: r := by
    simp [statement]
  have hopens (r : List Item) :
      opensExpression .noBrace (peek .endOfInput (statement numeral (.expression e) ++ r)) := by
    rw [hitems]
    exact (hfits r).opens
  refine printed_of_body (fun r => ?_) nofun fun r _ => ?_
  · refine ⟨fun hk => ?_, ?_⟩
    · have := hopens r
      rw [hk] at this
      cases this
    · rw [opensElement, hopens r, Bool.or_true]
  · have hstatement := opensStatement_eq_false (hopens r)
    rw [hitems] at hstatement ⊢
    refine (hfits r).takes.imp₂ (derived_terminator r) fun h ht =>
      .expressionStatement hstatement h ?_ ht
    rintro ⟨-, -, hk⟩
    cases hk

theorem printed_ifElse {consequent : Statement} {alternate : Option Statement}
    (he : Expression.Printed numeral e) (hc : consequent.Printed numeral)
    (ha : ∀ s ∈ alternate, s.Printed numeral) (hbody : consequent.isBody)
    (hbodies : ∀ s ∈ alternate, s.isBody) (hopen : alternate.isSome → consequent.endsOpen = false) :
    (Statement.ifElse e consequent alternate).Printed numeral := by
  refine printed_of_sign (k := .kwIf) rfl (fun _ => rfl) nofun fun r hr => ?_
  rw [statement, List.cons_append, List.append_assoc, List.append_assoc]
  have htest := derived_parenthesized he
    (statement numeral consequent ++ (statementAfter numeral .kwElse alternate ++ r))
  cases alternate with
  | none =>
      have helse : peek .endOfInput r ≠ .kwElse := hr.no_alternative rfl
      exact htest.imp₂ (hc.body hbody r ⟨fun _ => helse, hr.no_finalizer⟩) fun h hc =>
        .ifThen h hc helse
  | some a =>
      have hconsequent := hc.body hbody (sign .kwElse :: (statement numeral a ++ r))
        ⟨fun h => absurd h (by rw [hopen rfl]; nofun), nofun⟩
      have halternate := (ha a rfl).body (hbodies a rfl) r
        ⟨fun h => hr.no_alternative (by rwa [Statement.endsOpen]), hr.no_finalizer⟩
      exact htest.imp₃ hconsequent halternate .ifElse

theorem printed_doWhile (hs : s.Printed numeral) (hbody : s.isBody)
    (he : Expression.Printed numeral e) : (Statement.doWhile s e).Printed numeral := by
  refine printed_of_sign (k := .kwDo) rfl (fun _ => rfl) nofun fun r _ => ?_
  rw [statement, List.cons_append, List.append_assoc, List.cons_append, List.append_assoc]
  have hwhile (its : List Item) : s.StopsAt (peek .endOfInput (sign .kwWhile :: its)) :=
    ⟨fun _ => nofun, nofun⟩
  exact (hs.body hbody _ (hwhile _)).imp₃ (derived_parenthesized he _) (derived_terminator r)
    .doWhile

theorem printed_whileDo (he : Expression.Printed numeral e) (hs : s.Printed numeral)
    (hbody : s.isBody) : (Statement.whileDo e s).Printed numeral := by
  refine printed_of_sign (k := .kwWhile) rfl (fun _ => rfl) nofun fun r hr => ?_
  rw [statement, List.cons_append, List.append_assoc]
  exact (derived_parenthesized he _).imp₂ (hs.body hbody r (hr.of_endsOpen id)) .whileDo

theorem printed_withObject (he : Expression.Printed numeral e) (hs : s.Printed numeral)
    (hbody : s.isBody) : (Statement.withObject e s).Printed numeral := by
  refine printed_of_sign (k := .kwWith) rfl (fun _ => rfl) nofun fun r hr => ?_
  rw [statement, List.cons_append, List.append_assoc]
  exact (derived_parenthesized he _).imp₂ (hs.body hbody r (hr.of_endsOpen id)) .withObject

theorem derived_forRest {init : Option ForInit} {test update : Option Expression}
    (ht : ∀ e ∈ test, Expression.Printed numeral e)
    (hu : ∀ e ∈ update, Expression.Printed numeral e) (hs : s.Printed numeral) (hbody : s.isBody)
    (hr : s.StopsAt (peek .endOfInput r)) :
    Derived (.forRest init)
      (sign .semicolon :: (optional numeral test ++ sign .semicolon
        :: (optional numeral update ++ sign .closeParen :: (statement numeral s ++ r))))
      (.forLoop init test update s) r :=
  (derived_expressionBefore ht rfl rfl _).imp₃ (derived_expressionBefore hu rfl rfl _)
    (hs.body hbody r hr) .forRest

/-- Where `in` is no operator, no operand goes on with it. -/
theorem eq_of_assignmentRest {room : Nat} {m m' : List Item} {left first : Expression}
    (h : Derives .endOfInput room (.assignmentRest left .noIn) m first m')
    (hk : peek .endOfInput m = .kwIn) : m' = m := by
  cases h with
  | assignMore hop =>
      cases hk
      cases hop
  | assignEnd _ hp ho =>
      cases hp with
      | postfixMore hop =>
          cases hk
          cases hop
      | postfixEnd =>
          cases ho with
          | operatorsRest hb hc =>
              cases hb with
              | binaryMore hop =>
                  cases hk
                  cases hop
              | binaryEnd =>
                  cases hc with
                  | conditionalMore => cases hk
                  | conditionalEnd => rfl

/-- An expression may stand at the head of a loop. -/
theorem forHeader_of_expression {room : Nat} {i m : List Item}
    (he : Derives .endOfInput room (.expression .noIn) i e m)
    (hrest : Derives .endOfInput room (.forRest (some (.expression e))) m s r)
    (hm : peek .endOfInput m = .semicolon) (hi : opensExpression .noIn (peek .endOfInput i)) :
    Derives .endOfInput room .forHeader i s r := by
  have hsemicolon : peek .endOfInput i ≠ .semicolon := by
    intro hk
    rw [hk] at hi
    cases hi
  have hvar : peek .endOfInput i ≠ .kwVar := by
    intro hk
    rw [hk] at hi
    cases hi
  cases he with
  | expression hfirst hseq =>
      cases hpre : (peek .endOfInput i).isPrefixOperator with
      | true => exact .forPrefixed hpre hfirst hseq hrest
      | false =>
          cases hfirst with
          | nested hbody =>
              cases hbody with
              | assignmentPrefixed hk =>
                  rw [hpre] at hk
                  cases hk
              | @assignmentPlain _ left _ _ _ m' _ _ hl ha =>
                  refine .forExpression hsemicolon hvar hpre hl.widen ?_ ha.widen hseq hrest
                  intro hk
                  obtain rfl := eq_of_assignmentRest ha hk
                  cases hseq with
                  | sequenceEnd =>
                      rw [hk] at hm
                      cases hm
                  | sequenceMore hcomma =>
                      rw [hk] at hcomma
                      cases hcomma

theorem printed_forLoop {init : Option ForInit} {test update : Option Expression}
    (hd : ∀ ds, init = some (.declared ds) → ds ≠ [] ∧ ∀ d ∈ ds, d.Printed numeral)
    (he : ∀ e, init = some (.expression e) → Expression.Printed numeral e)
    (ht : ∀ e ∈ test, Expression.Printed numeral e)
    (hu : ∀ e ∈ update, Expression.Printed numeral e) (hs : s.Printed numeral) (hbody : s.isBody) :
    (Statement.forLoop init test update s).Printed numeral := by
  refine printed_of_sign (k := .kwFor) rfl (fun _ => rfl) nofun fun r hr => ?_
  have hrest : Derived (.forRest init) _ _ _ :=
    derived_forRest ht hu hs hbody (hr.of_endsOpen id)
  rw [statement, List.cons_append, List.append_assoc, parenthesized_append]
  simp only [List.append_assoc, List.cons_append]
  refine Derived.imp ?_ .forLoop
  obtain _ | ds | e := init
  · exact hrest.imp (.forNothing rfl)
  · obtain ⟨hne, hds⟩ := hd ds rfl
    have hds (its : List Item) : Derived (.declarators .noIn)
        (declarators numeral ds .noIn ++ sign .semicolon :: its) ds (sign .semicolon :: its) :=
      derived_declarators hds hne rfl nofun
    refine (hds _).imp₂ hrest fun hds hrest => .forVariables hds ?_ hrest
    rintro ⟨-, hk⟩
    cases hk
  · have hfits (its : List Item) : Fits .noIn .expression
        (expression numeral e .noIn .expression ++ sign .semicolon :: its) e
        (sign .semicolon :: its) := he e rfl rfl
    exact (hfits _).takes.imp₂ hrest fun he hrest =>
      forHeader_of_expression he hrest rfl (hfits _).opens

theorem printed_forIn {target : ForTarget}
    (hd : ∀ d, target = .declared d → d.Printed numeral)
    (ht : ∀ x, target = .expression x → Expression.Printed numeral x)
    (he : Expression.Printed numeral e) (hs : s.Printed numeral) (hbody : s.isBody) :
    (Statement.forIn target e s).Printed numeral := by
  refine printed_of_sign (k := .kwFor) rfl (fun _ => rfl) nofun fun r hr => ?_
  have hfits : Fits .normal .expression _ e (sign .closeParen :: (statement numeral s ++ r)) :=
    he rfl
  have hrest : Derived (.forInRest target) _ _ _ :=
    hfits.takes.imp₂ (hs.body hbody r (hr.of_endsOpen id)) .forInRest
  rw [statement, List.cons_append, List.append_assoc, parenthesized_append]
  simp only [List.append_assoc, List.cons_append]
  refine Derived.imp ?_ .forLoop
  cases target with
  | declared d =>
      have hds (its : List Item) : Derived (.declarators .noIn)
          (declarator numeral d .noIn ++ [] ++ sign .kwIn :: its) [d] (sign .kwIn :: its) :=
        derived_declarators (List.forall_mem_singleton.mpr (hd d rfl)) nofun rfl nofun
      simp only [List.append_nil] at hds
      exact (hds _).imp₂ hrest .forInVariable
  | expression x =>
      have hx (its : List Item) : Fits .noIn .leftHandSide
          (expression numeral x .noIn .leftHandSide ++ sign .kwIn :: its) x
          (sign .kwIn :: its) := ht x rfl rfl
      obtain ⟨hopens, hpre⟩ := Slot.opens_iff.mp (hx _).opens
      refine ((hx _).derived rfl).imp₂ hrest (.forInExpression ?_ ?_ ?_)
      · intro hk
        rw [hk] at hopens
        cases hopens
      · intro hk
        rw [hk] at hopens
        cases hopens
      · rw [TokenKind.isPrefixOperator, hpre (.inl rfl)]
        rfl

theorem printed_continueTo (label : Option Text) :
    (Statement.continueTo label).Printed numeral := by
  refine printed_of_sign (k := .kwContinue) rfl (fun _ => rfl) nofun fun r _ => ?_
  cases label with
  | none => exact (derived_terminator r).imp (.jumpBare (.inl rfl) nofun)
  | some label => exact (derived_terminator r).imp (.jumpLabel (.inl rfl))

theorem printed_breakTo (label : Option Text) : (Statement.breakTo label).Printed numeral := by
  refine printed_of_sign (k := .kwBreak) rfl (fun _ => rfl) nofun fun r _ => ?_
  cases label with
  | none => exact (derived_terminator r).imp (.jumpBare (.inr rfl) nofun)
  | some label => exact (derived_terminator r).imp (.jumpLabel (.inr rfl))

theorem printed_returnWith {value : Option Expression}
    (h : ∀ e ∈ value, Expression.Printed numeral e) :
    (Statement.returnWith value).Printed numeral := by
  refine printed_of_sign (k := .kwReturn) rfl (fun _ => rfl) nofun fun r _ => ?_
  rw [statement, List.cons_append, List.append_assoc, List.singleton_append]
  cases value with
  | none => exact (derived_terminator r).imp (.returnNothing rfl)
  | some e =>
      have hfits : Fits .normal .expression _ e (ending :: r) := h e rfl rfl
      have hopens : opensExpression .normal (peek .endOfInput _) := hfits.opens
      refine hfits.takes.imp₂ (derived_terminator r) (.returnValue ?_)
      revert hopens
      generalize peek TokenKind.endOfInput _ = k
      cases k <;> first | exact fun _ => rfl | nofun

theorem printed_throwWith (he : Expression.Printed numeral e) :
    (Statement.throwWith e).Printed numeral := by
  refine printed_of_sign (k := .kwThrow) rfl (fun _ => rfl) nofun fun r _ => ?_
  rw [statement, List.cons_append, List.append_assoc, List.singleton_append]
  have hfits : Fits .normal .expression _ e (ending :: r) := he rfl
  exact hfits.takes.imp₂ (derived_terminator r) .throwValue

theorem printed_debugger : Statement.debugger.Printed numeral :=
  printed_of_sign (k := .kwDebugger) rfl (fun _ => rfl) nofun fun r _ =>
    (derived_terminator r).imp .debugger

theorem printed_labelled {label : Text} (hs : s.Printed numeral) (hbody : s.isBody) :
    (Statement.labelled label s).Printed numeral := by
  refine printed_of_body (fun r => ⟨nofun, rfl⟩) nofun fun r hr => ?_
  have hname : Derived (.primary .noBrace)
      (name label :: sign .colon :: (statement numeral s ++ r)) (.identifier label)
      (sign .colon :: (statement numeral s ++ r)) := .of fun _ => .primaryName
  have hfits : Fits .noBrace .expression _ (.identifier label) _ :=
    Fits.of_member (.of_primary hname rfl nofun) rfl
  exact hfits.takes.imp₂ (hs.body hbody r (hr.of_endsOpen id)) .labelled

/-! ## Clauses and handlers -/

/-- The parts of a clause are printed. -/
structure IsPrintedClause (numeral : Binary64 → Text) (c : SwitchClause) : Prop where
  test : ∀ e ∈ c.test, Expression.Printed numeral e
  body : ∀ s ∈ c.body, s.Printed numeral

theorem peek_clauses (cs : List SwitchClause) (r : List Item) :
    peek .endOfInput (clauses numeral cs ++ sign .closeBrace :: r) ∈ Parser.clauseStops := by
  obtain _ | ⟨⟨_ | test, body⟩, cs⟩ := cs
  · exact List.mem_of_elem_eq_true rfl
  · exact List.mem_of_elem_eq_true rfl
  · exact List.mem_of_elem_eq_true rfl

theorem derived_clauseBody (h : ∀ s ∈ ss, s.Printed numeral) (cs : List SwitchClause)
    (r : List Item) : Derived (.elements Parser.clauseStops)
      (statements numeral ss ++ (clauses numeral cs ++ sign .closeBrace :: r)) ss
      (clauses numeral cs ++ sign .closeBrace :: r) :=
  derived_elements (fun _ hk => (opensElement_not_mem hk).1) (by decide) h (peek_clauses cs r)

theorem derived_clauses {cs : List SwitchClause} {seen : Bool}
    (h : ∀ c ∈ cs, IsPrintedClause numeral c)
    (hdefault : cs.countP (·.test.isNone) ≤ if seen then 0 else 1) (r : List Item) :
    Derived (.clauses seen) (clauses numeral cs ++ sign .closeBrace :: r) cs r := by
  induction cs generalizing seen with
  | nil => exact .of fun _ => .clausesEnd
  | cons c cs ih =>
      obtain ⟨hc, hcs⟩ := List.forall_mem_cons.mp h
      obtain ⟨_ | test, body⟩ := c
      · rw [List.countP_cons_of_pos rfl] at hdefault
        cases seen with
        | true => exact absurd hdefault (by simp)
        | false =>
            have hrest : Derived (.clauses true) _ cs r := ih hcs (by simpa using hdefault)
            rw [clauses, clause, List.append_assoc, List.cons_append, List.cons_append]
            exact (derived_clauseBody hc.body cs r).imp₂ hrest .clausesDefault
      · rw [List.countP_cons_of_neg Bool.false_ne_true] at hdefault
        have hfits (its : List Item) : Fits .normal .expression
            (expression numeral test .normal .expression ++ sign .colon :: its) test
            (sign .colon :: its) := hc.test test rfl rfl
        rw [clauses, clause, List.append_assoc, List.cons_append, List.append_assoc,
          List.cons_append]
        exact (hfits _).takes.imp₃ (derived_clauseBody hc.body cs r) (ih hcs hdefault) .clausesCase

theorem printed_switch {cs : List SwitchClause} (he : Expression.Printed numeral e)
    (hcs : ∀ c ∈ cs, IsPrintedClause numeral c) (hdefault : cs.countP (·.test.isNone) ≤ 1) :
    (Statement.switch e cs).Printed numeral := by
  refine printed_of_sign (k := .kwSwitch) rfl (fun _ => rfl) nofun fun r _ => ?_
  rw [statement, List.cons_append, List.append_assoc, braced_append]
  have hclauses : Derived (.clauses false) _ cs r := derived_clauses hcs (by simpa using hdefault) r
  exact (derived_parenthesized he _).imp₂ hclauses .switch

theorem derived_handler {h : Option CatchClause}
    (hh : ∀ c ∈ h, ∀ s ∈ c.body, s.Printed numeral)
    (hr : h.isNone → peek .endOfInput r ≠ .kwCatch) :
    Derived .handler (handler numeral h ++ r) h r := by
  obtain _ | ⟨param, body⟩ := h
  · exact .of fun _ => .handlerAbsent (hr rfl)
  · exact (isPrintedBody (hh _ rfl) r).imp .handlerPresent

theorem derived_finalizer {finalizer : Option Statement}
    (hf : ∀ s ∈ finalizer, s.Printed numeral ∧ s.isBlock) (hr : peek .endOfInput r ≠ .kwFinally) :
    Derived .finalizer (statementAfter numeral .kwFinally finalizer ++ r) finalizer r := by
  cases finalizer with
  | none => exact .of fun _ => .finalizerAbsent hr
  | some s =>
      obtain ⟨hs, hblock⟩ := hf s rfl
      cases s with
      | block ss =>
          rw [statementAfter, List.cons_append, statement]
          exact (hs.block ss rfl r).imp .finalizerPresent
      | _ => cases hblock

theorem printed_tryCatch {guarded : Statement} {h : Option CatchClause}
    {finalizer : Option Statement} (hg : guarded.Printed numeral) (hblock : guarded.isBlock)
    (hh : ∀ c ∈ h, ∀ s ∈ c.body, s.Printed numeral)
    (hf : ∀ s ∈ finalizer, s.Printed numeral ∧ s.isBlock)
    (hsome : h.isSome ∨ finalizer.isSome) :
    (Statement.tryCatch guarded h finalizer).Printed numeral := by
  refine printed_of_sign (k := .kwTry) rfl (fun _ => rfl) nofun fun r hr => ?_
  rw [statement, List.cons_append, List.append_assoc, List.append_assoc]
  cases guarded with
  | block ss =>
      rw [statement]
      refine (hg.block ss rfl _).imp₃ (derived_handler hh ?_)
        (derived_finalizer hf hr.no_finalizer) fun hb hh hf => .tryCatch hb hh hf hsome
      intro hnone
      cases finalizer with
      | none => simp [Option.isNone_iff_eq_none.mp hnone] at hsome
      | some => nofun
  | _ => cases hblock

theorem printed_function {f : Function} (h : IsPrintedBody numeral f.body)
    (hname : f.name.isSome) : (Statement.function f).Printed numeral := by
  have hpeek (r : List Item) : peek .endOfInput (statement numeral (.function f) ++ r) =
      .kwFunction := by
    cases f
    rfl
  refine ⟨fun r => ?_, fun r _ => ?_, nofun, nofun⟩
  · rw [hpeek]
    rfl
  · have hf : Derived (.function true) (function numeral f ++ r) f r :=
      derived_function h (fun _ => hname) r
    exact (hf.imp .declaration).nested.imp (.elementFunction (hpeek r))

end Printer

/-! ## Trees -/

/-- What is printed for a node is taken as this node again. -/
def Node.Printed (numeral : Binary64 → Text) : Node → Prop
  | .program p => ∀ s ∈ p.body, s.Printed numeral
  | .statement s => s.Printed numeral
  | .expression e => e.Printed numeral
  | .elision => True
  | .property p => p.Printed numeral
  | .declarator d => d.Printed numeral
  | .clause c => Printer.IsPrintedClause numeral c
  | .handler c => ∀ s ∈ c.body, s.Printed numeral

section

variable {numeral : Binary64 → Text}

theorem Node.forall_mem_ofOption {p : Node → Prop} {o : Option Expression} :
    (∀ child ∈ Node.ofOption o, p child) ↔ ∀ e ∈ o, p (.expression e) := by
  cases o <;> simp [Node.ofOption]

theorem Node.printed_of_singleton {n : Node} (h : ∀ child ∈ [n], child.Printed numeral) :
    n.Printed numeral := List.forall_mem_singleton.mp h

theorem Node.printed_of_map {α : Type} {f : α → Node} {xs : List α}
    (h : ∀ child ∈ xs.map f, child.Printed numeral) : ∀ x ∈ xs, (f x).Printed numeral :=
  List.forall_mem_map.mp h

theorem Expression.printed {e : Expression} (hw : e.WellFormed) (hp : e.Printable numeral)
    (ih : ∀ child ∈ e.children, child.Printed numeral) : e.Printed numeral := by
  cases e with
  | this =>
      exact Printer.printed_token (Printer.sign .kwThis) (fun _ _ => rfl)
        (fun _ _ _ => .primaryThis) (fun _ => rfl) (fun g => by cases g <;> rfl) nofun
  | identifier text =>
      exact Printer.printed_token (Printer.name text) (fun _ _ => rfl)
        (fun _ _ _ => .primaryName) (fun _ => rfl) (fun g => by cases g <;> rfl) nofun
  | null =>
      exact Printer.printed_token (Printer.sign .kwNull) (fun _ _ => rfl)
        (fun _ _ _ => .primaryNull) (fun _ => rfl) (fun g => by cases g <;> rfl) nofun
  | boolean value => exact Printer.printed_boolean value
  | number value =>
      exact Printer.printed_token (.taken .number (numeral value)) (fun _ _ => rfl)
        (fun _ _ _ => .primaryNumber (IsNumeralOf.reads hp)) (fun _ => rfl)
        (fun g => by cases g <;> rfl) nofun
  | string value => exact Printer.printed_string value
  | regex pattern flags => exact Printer.printed_regex pattern hw.2.2
  | array es =>
      refine Printer.printed_array fun element helement x hx => ?_
      obtain rfl := Option.mem_def.mp hx
      exact ih (.expression x) (List.mem_map.mpr ⟨some x, helement, rfl⟩)
  | object ps => exact Printer.printed_object (Node.printed_of_map ih)
  | function f =>
      exact Printer.printed_functionExpression (Printer.isPrintedBody (Node.printed_of_map ih))
  | unary op operand isPostfix =>
      have hoperand := Node.printed_of_singleton ih
      cases isPostfix with
      | false => exact Printer.printed_prefix hoperand
      | true => exact Printer.printed_postfix (hw rfl) hoperand
  | binary left op right =>
      obtain ⟨hl, hr⟩ := List.forall_mem_cons.mp ih
      exact Printer.printed_binary hl (Node.printed_of_singleton hr)
  | logical left op right =>
      obtain ⟨hl, hr⟩ := List.forall_mem_cons.mp ih
      exact Printer.printed_logical hl (Node.printed_of_singleton hr)
  | assign target op value =>
      obtain ⟨ht, hv⟩ := List.forall_mem_cons.mp ih
      exact Printer.printed_assign ht (Node.printed_of_singleton hv)
  | conditional test consequent alternate =>
      obtain ⟨ht, ih⟩ := List.forall_mem_cons.mp ih
      obtain ⟨hc, ih⟩ := List.forall_mem_cons.mp ih
      exact Printer.printed_conditional ht hc (Node.printed_of_singleton ih)
  | dot base text => exact Printer.printed_dot (Node.printed_of_singleton ih)
  | bracket base index =>
      obtain ⟨hb, hi⟩ := List.forall_mem_cons.mp ih
      exact Printer.printed_bracket hb (Node.printed_of_singleton hi)
  | call callee args =>
      obtain ⟨hc, ha⟩ := List.forall_mem_cons.mp ih
      exact Printer.printed_call hc (Node.printed_of_map ha)
  | construct callee args =>
      obtain ⟨hc, ha⟩ := List.forall_mem_cons.mp ih
      exact Printer.printed_construct hc (Node.printed_of_map ha)
  | sequence es => exact Printer.printed_sequence (Node.printed_of_map ih) hw

theorem Statement.printed {s : Statement} (hw : s.WellFormed) (hp : s.Printable)
    (ih : ∀ child ∈ s.children, child.Printed numeral) : s.Printed numeral := by
  cases s with
  | block ss => exact Printer.printed_block (Node.printed_of_map ih)
  | declare ds => exact Printer.printed_declare (Node.printed_of_map ih) hw
  | empty => exact Printer.printed_empty
  | expression e => exact Printer.printed_expression (Node.printed_of_singleton ih)
  | ifElse test consequent alternate =>
      obtain ⟨ht, ih⟩ := List.forall_mem_cons.mp ih
      obtain ⟨hc, ih⟩ := List.forall_mem_cons.mp ih
      refine Printer.printed_ifElse ht hc (fun s hs => ?_) hw.1 hw.2 hp
      exact ih (.statement s) (by simpa using hs)
  | doWhile body test =>
      obtain ⟨hb, ht⟩ := List.forall_mem_cons.mp ih
      exact Printer.printed_doWhile hb hw (Node.printed_of_singleton ht)
  | whileDo test body =>
      obtain ⟨ht, hb⟩ := List.forall_mem_cons.mp ih
      exact Printer.printed_whileDo ht (Node.printed_of_singleton hb) hw
  | forLoop init test update body =>
      obtain ⟨ih, hb⟩ := List.forall_mem_append.mp ih
      obtain ⟨ih, hu⟩ := List.forall_mem_append.mp ih
      obtain ⟨hi, ht⟩ := List.forall_mem_append.mp ih
      refine Printer.printed_forLoop ?_ ?_ (Node.forall_mem_ofOption.mp ht)
        (Node.forall_mem_ofOption.mp hu) (Node.printed_of_singleton hb) hw.2
      · rintro ds rfl
        exact ⟨fun hds => hw.1 (by rw [hds]), Node.printed_of_map hi⟩
      · rintro e rfl
        exact Node.printed_of_singleton hi
  | forIn target object body =>
      obtain ⟨ht, ih⟩ := List.forall_mem_cons.mp ih
      obtain ⟨ho, hb⟩ := List.forall_mem_cons.mp ih
      refine Printer.printed_forIn ?_ ?_ ho (Node.printed_of_singleton hb) hw
      · rintro d rfl
        exact ht
      · rintro x rfl
        exact ht
  | continueTo label => exact Printer.printed_continueTo label
  | breakTo label => exact Printer.printed_breakTo label
  | returnWith value => exact Printer.printed_returnWith (Node.forall_mem_ofOption.mp ih)
  | withObject object body =>
      obtain ⟨ho, hb⟩ := List.forall_mem_cons.mp ih
      exact Printer.printed_withObject ho (Node.printed_of_singleton hb) hw
  | switch discriminant cs =>
      obtain ⟨hd, hcs⟩ := List.forall_mem_cons.mp ih
      exact Printer.printed_switch hd (Node.printed_of_map hcs) hw
  | labelled label body =>
      exact Printer.printed_labelled (Node.printed_of_singleton ih) hw.2
  | throwWith value => exact Printer.printed_throwWith (Node.printed_of_singleton ih)
  | tryCatch guarded h finalizer =>
      obtain ⟨hblock, hfinalizer, hsome⟩ := hw
      obtain ⟨ih, hf⟩ := List.forall_mem_append.mp ih
      obtain ⟨hg, hh⟩ := List.forall_mem_cons.mp ih
      refine Printer.printed_tryCatch hg hblock (fun c hc => ?_) (fun s hs => ?_) hsome
      · exact hh (.handler c) (by simpa using hc)
      · exact ⟨hf (.statement s) (by simpa using hs), hfinalizer s hs⟩
  | debugger => exact Printer.printed_debugger
  | function f =>
      exact Printer.printed_function (Printer.isPrintedBody (Node.printed_of_map ih)) hw.1
  | comment => exact hp.elim

theorem Property.printed {p : Property} (hw : p.WellFormed) (hp : p.key.Printable numeral)
    (ih : ∀ child ∈ (Node.property p).children, child.Printed numeral) : p.Printed numeral := by
  cases p with
  | init key value => exact Printer.printed_init hw hp (Node.printed_of_singleton ih)
  | getter key body =>
      exact Printer.printed_getter hw hp (Printer.isPrintedBody (Node.printed_of_map ih))
  | setter key param body =>
      exact Printer.printed_setter hw.1 hp (Printer.isPrintedBody (Node.printed_of_map ih))

/-- Each node of a printable tree is taken from what is printed for it. -/
theorem Node.Everywhere.printed {n : Node}
    (h : n.Everywhere fun n => n.WellFormed ∧ n.Printable numeral) : n.Printed numeral := by
  induction h with
  | @node n h _ ih =>
      obtain ⟨hw, hp⟩ := h
      cases n with
      | program p => exact Node.printed_of_map ih
      | statement s => exact s.printed hw hp ih
      | expression e => exact e.printed hw hp ih
      | elision => trivial
      | property p => exact p.printed hw hp ih
      | declarator d => exact Printer.printed_declarator (Node.forall_mem_ofOption.mp ih)
      | clause c =>
          obtain ⟨ht, hb⟩ := List.forall_mem_append.mp ih
          exact ⟨Node.forall_mem_ofOption.mp ht, Node.printed_of_map hb⟩
      | handler c => exact Node.printed_of_map ih

/-- The grammar derives a printable program from what is printed for it. -/
theorem Program.Printable.derived {P : Program} (h : P.Printable numeral) :
    Derived (.elements [.endOfInput]) (Printer.statements numeral P.body) P.body [] := by
  have hbody : ∀ s ∈ P.body, s.Printed numeral := (h.wellFormed.and h.nodes).printed
  have helements : Derived (.elements [.endOfInput])
      (Printer.statements numeral P.body ++ []) P.body [] :=
    Printer.derived_elements (fun _ hk => (opensElement_not_mem hk).2.2) (by decide) hbody
      (by decide)
  rwa [List.append_nil] at helements

end

end EcmaSyntax
