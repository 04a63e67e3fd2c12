import EcmaSyntax.Proofs.DepthLimit
import EcmaSyntax.Proofs.Printing.Spelled
import EcmaSyntax.Proofs.Printing.Statements

/-!
# Parsing undoes printing

**Input.**  A printable program.

**Results.**
* `Node.Everywhere.written`: by induction on the tree, the items of each node are written by their
  words.
* `parse_print`: what is printed for a program is parsed as this program.
-/

namespace EcmaSyntax

open EcmaSyntax.Parser (Item)

/-! ## Written items -/

namespace Printer

/-- Each item is written by its words. -/
def AreWritten (its : List Item) : Prop := ∀ it ∈ its, it.IsWritten

@[simp] theorem areWritten_nil : AreWritten [] := List.forall_mem_nil _

@[simp] theorem areWritten_cons (it : Item) (its : List Item) :
    AreWritten (it :: its) ↔ it.IsWritten ∧ AreWritten its := List.forall_mem_cons

@[simp] theorem areWritten_append (its its' : List Item) :
    AreWritten (its ++ its') ↔ AreWritten its ∧ AreWritten its' := List.forall_mem_append

/-- Whether a kind has one spelling and a token of it is taken by itself. -/
def isSign (k : TokenKind) : Bool :=
  (k ∈ TokenKind.keywords || k ∈ TokenKind.punctuators) && Parser.isPlain k

theorem isWritten_sign {k : TokenKind} (h : isSign k) : (sign k).IsWritten := by
  obtain ⟨hk, hplain⟩ := Bool.and_eq_true_iff.mp h
  exact .taken (tokenAt_sign (by simpa using hk)) hplain

theorem isWritten_name {t : Text} (h : isBindingName t) : (name t).IsWritten :=
  .taken (tokenAt_name h) rfl

@[simp] theorem isWritten_ending : ending.IsWritten := .ended

theorem isWritten_comma : (sign .comma).IsWritten := isWritten_sign (by decide)

section

variable {its : List Item}

@[simp] theorem areWritten_parenthesized : AreWritten (parenthesized its) ↔ AreWritten its := by
  have hopen : (sign .openParen).IsWritten := isWritten_sign (by decide)
  have hclose : (sign .closeParen).IsWritten := isWritten_sign (by decide)
  simp [parenthesized, hopen, hclose]

@[simp] theorem areWritten_bracketed : AreWritten (bracketed its) ↔ AreWritten its := by
  have hopen : (sign .openBracket).IsWritten := isWritten_sign (by decide)
  have hclose : (sign .closeBracket).IsWritten := isWritten_sign (by decide)
  simp [bracketed, hopen, hclose]

@[simp] theorem areWritten_braced : AreWritten (braced its) ↔ AreWritten its := by
  have hopen : (sign .openBrace).IsWritten := isWritten_sign (by decide)
  have hclose : (sign .closeBrace).IsWritten := isWritten_sign (by decide)
  simp [braced, hopen, hclose]

end

theorem areWritten_enclose {e : Expression} {g : Grammar} {slot : Slot} {its : Grammar → List Item}
    (h : ∀ g, AreWritten (its g)) : AreWritten (enclose e g slot its) := by
  unfold enclose
  split
  · exact areWritten_parenthesized.mpr (h .normal)
  · exact h g

theorem areWritten_parameters {ps : List Text} (h : ∀ p ∈ ps, isBindingName p) :
    AreWritten (parameters ps) := by
  cases ps with
  | nil => exact areWritten_nil
  | cons p ps =>
      obtain ⟨hp, hps⟩ := List.forall_mem_cons.mp h
      refine List.forall_mem_cons.mpr ⟨isWritten_name hp, fun it hit => ?_⟩
      obtain ⟨q, hq, hit⟩ := List.mem_flatMap.mp hit
      obtain rfl | rfl : it = sign .comma ∨ it = name q := by simpa using hit
      · exact isWritten_comma
      · exact isWritten_name (hps q hq)

theorem areWritten_commaBefore {α : Type} (rest : List α) : AreWritten (commaBefore rest) := by
  unfold commaBefore
  split
  · exact areWritten_nil
  · exact List.forall_mem_singleton.mpr isWritten_comma

variable {numeral : Binary64 → Text}

theorem isPlain_of_isIdentifierName {k : TokenKind} (h : k.isIdentifierName) :
    Parser.isPlain k := by
  cases k <;> first | rfl | cases h

theorem isWritten_key {k : PropertyKey} (hw : k.WellFormed) (hp : k.Printable numeral) :
    (key numeral k).IsWritten := by
  cases k with
  | identifier text =>
      exact .taken (tokenAt_word hw)
        (isPlain_of_isIdentifierName (isIdentifierName_wordKind text))
  | string value => exact .taken (tokenAt_stringLiteral value) rfl
  | number value => exact .taken (tokenAt_numeral hp) rfl

end Printer

/-! ## Nodes -/

section

variable (numeral : Binary64 → Text)

/-- What is printed for a node is written by its words. -/
def Node.Written : Node → Prop
  | .program p => Printer.AreWritten (Printer.statements numeral p.body)
  | .statement s => Printer.AreWritten (Printer.statement numeral s)
  | .expression e => ∀ g slot, Printer.AreWritten (Printer.expression numeral e g slot)
  | .elision => True
  | .property p => Printer.AreWritten (Printer.property numeral p)
  | .declarator d => ∀ g, Printer.AreWritten (Printer.declarator numeral d g)
  | .clause c => Printer.AreWritten (Printer.clause numeral c)
  | .handler c => Printer.AreWritten (Printer.handler numeral (some c))

end

namespace Printer

variable {numeral : Binary64 → Text} {g : Grammar}

theorem areWritten_statements {ss : List Statement}
    (h : ∀ s ∈ ss, (Node.statement s).Written numeral) : AreWritten (statements numeral ss) := by
  induction ss with
  | nil => exact List.forall_mem_singleton.mpr .comments
  | cons s ss ih =>
      obtain ⟨hs, hss⟩ := List.forall_mem_cons.mp h
      rw [statements, areWritten_cons, areWritten_append]
      exact ⟨.comments, hs, ih hss⟩

theorem areWritten_moreExpressions {es : List Expression}
    (h : ∀ e ∈ es, (Node.expression e).Written numeral) :
    AreWritten (moreExpressions numeral es g) := by
  induction es with
  | nil => exact areWritten_nil
  | cons e es ih =>
      obtain ⟨he, hes⟩ := List.forall_mem_cons.mp h
      rw [moreExpressions, areWritten_cons, areWritten_append]
      exact ⟨isWritten_comma, he _ _, ih hes⟩

theorem areWritten_expressions {es : List Expression}
    (h : ∀ e ∈ es, (Node.expression e).Written numeral) :
    AreWritten (expressions numeral es g) := by
  cases es with
  | nil => exact areWritten_nil
  | cons e es =>
      obtain ⟨he, hes⟩ := List.forall_mem_cons.mp h
      rw [expressions, areWritten_append]
      exact ⟨he _ _, areWritten_moreExpressions hes⟩

theorem areWritten_elements {es : List (Option Expression)}
    (h : ∀ e ∈ es, ∀ x ∈ e, (Node.expression x).Written numeral) :
    AreWritten (elements numeral es) := by
  induction es with
  | nil => exact areWritten_nil
  | cons e es ih =>
      obtain ⟨he, hes⟩ := List.forall_mem_cons.mp h
      cases e with
      | none =>
          rw [elements, areWritten_cons]
          exact ⟨isWritten_comma, ih hes⟩
      | some x =>
          rw [elements, areWritten_append, areWritten_append]
          exact ⟨he x rfl _ _, areWritten_commaBefore es, ih hes⟩

theorem areWritten_properties {ps : List Property}
    (h : ∀ p ∈ ps, (Node.property p).Written numeral) : AreWritten (properties numeral ps) := by
  induction ps with
  | nil => exact areWritten_nil
  | cons p ps ih =>
      obtain ⟨hp, hps⟩ := List.forall_mem_cons.mp h
      rw [properties, areWritten_append, areWritten_append]
      exact ⟨hp, areWritten_commaBefore ps, ih hps⟩

theorem areWritten_moreDeclarators {ds : List Declarator}
    (h : ∀ d ∈ ds, (Node.declarator d).Written numeral) :
    AreWritten (moreDeclarators numeral ds g) := by
  induction ds with
  | nil => exact areWritten_nil
  | cons d ds ih =>
      obtain ⟨hd, hds⟩ := List.forall_mem_cons.mp h
      rw [moreDeclarators, areWritten_cons, areWritten_append]
      exact ⟨isWritten_comma, hd _, ih hds⟩

theorem areWritten_declarators {ds : List Declarator}
    (h : ∀ d ∈ ds, (Node.declarator d).Written numeral) :
    AreWritten (declarators numeral ds g) := by
  cases ds with
  | nil => exact areWritten_nil
  | cons d ds =>
      obtain ⟨hd, hds⟩ := List.forall_mem_cons.mp h
      rw [declarators, areWritten_append]
      exact ⟨hd _, areWritten_moreDeclarators hds⟩

theorem areWritten_clauses {cs : List SwitchClause}
    (h : ∀ c ∈ cs, (Node.clause c).Written numeral) : AreWritten (clauses numeral cs) := by
  induction cs with
  | nil => exact areWritten_nil
  | cons c cs ih =>
      obtain ⟨hc, hcs⟩ := List.forall_mem_cons.mp h
      rw [clauses, areWritten_append]
      exact ⟨hc, ih hcs⟩

theorem areWritten_clause {c : SwitchClause}
    (ht : ∀ e ∈ c.test, (Node.expression e).Written numeral)
    (hb : ∀ s ∈ c.body, (Node.statement s).Written numeral) : (Node.clause c).Written numeral := by
  show AreWritten (clause numeral c)
  have hcolon : (sign .colon).IsWritten := isWritten_sign (by decide)
  obtain ⟨_ | test, body⟩ := c
  · have hdefault : (sign .kwDefault).IsWritten := isWritten_sign (by decide)
    simp only [clause, areWritten_cons]
    exact ⟨hdefault, hcolon, areWritten_statements hb⟩
  · have hcase : (sign .kwCase).IsWritten := isWritten_sign (by decide)
    simp only [clause, areWritten_cons, areWritten_append]
    exact ⟨hcase, ht test rfl _ _, hcolon, areWritten_statements hb⟩

theorem areWritten_function {f : Function} (hf : f.WellFormed)
    (h : ∀ s ∈ f.body, (Node.statement s).Written numeral) : AreWritten (function numeral f) := by
  obtain ⟨text, params, body⟩ := f
  obtain ⟨hname, hparams⟩ := hf
  have hkeyword : (sign .kwFunction).IsWritten := isWritten_sign (by decide)
  have htext : AreWritten (text.toList.map name) := by
    cases text with
    | none => exact areWritten_nil
    | some text => exact List.forall_mem_singleton.mpr (isWritten_name (hname text rfl))
  simp [function, hkeyword, htext, areWritten_parameters hparams, areWritten_statements h]

theorem areWritten_initializer {d : Declarator} (hw : isBindingName d.name)
    (h : ∀ e ∈ d.initializer, (Node.expression e).Written numeral) :
    (Node.declarator d).Written numeral := by
  intro g
  obtain ⟨text, _ | value⟩ := d
  · exact List.forall_mem_singleton.mpr (isWritten_name hw)
  · have hequals : (sign .equals).IsWritten := isWritten_sign (by decide)
    rw [declarator, areWritten_cons, areWritten_cons]
    exact ⟨isWritten_name hw, hequals, h value rfl _ _⟩

theorem areWritten_operation {op : InfixOperator} {left right : Grammar → Slot → List Item}
    (hl : ∀ g slot, AreWritten (left g slot)) (hr : ∀ g slot, AreWritten (right g slot)) :
    AreWritten (operation op left right g) := by
  have hop : (sign op.kind).IsWritten := isWritten_sign (by
    obtain op | op := op <;> cases op <;> decide)
  simp [operation, hop, hl, hr]

theorem areWritten_optional {o : Option Expression}
    (h : ∀ e ∈ o, (Node.expression e).Written numeral) : AreWritten (optional numeral o) := by
  cases o with
  | none => exact areWritten_nil
  | some e => exact h e rfl _ _

theorem areWritten_statementAfter {k : TokenKind} {o : Option Statement} (hk : isSign k)
    (h : ∀ s ∈ o, (Node.statement s).Written numeral) :
    AreWritten (statementAfter numeral k o) := by
  cases o with
  | none => exact areWritten_nil
  | some s =>
      rw [statementAfter, areWritten_cons]
      exact ⟨isWritten_sign hk, h s rfl⟩

end Printer

variable {numeral : Binary64 → Text}

theorem Expression.written {e : Expression} (hw : e.WellFormed) (hp : e.Printable numeral)
    (ih : ∀ child ∈ e.children, child.Written numeral) : (Node.expression e).Written numeral := by
  intro g slot
  cases e with
  | this => exact List.forall_mem_singleton.mpr (Printer.isWritten_sign (by decide))
  | identifier text => exact List.forall_mem_singleton.mpr (Printer.isWritten_name hw)
  | null => exact List.forall_mem_singleton.mpr (Printer.isWritten_sign (by decide))
  | boolean value =>
      refine List.forall_mem_singleton.mpr (Printer.isWritten_sign ?_)
      cases value <;> decide
  | number value => exact List.forall_mem_singleton.mpr (.taken (tokenAt_numeral hp) rfl)
  | string value => exact List.forall_mem_singleton.mpr (.taken (tokenAt_stringLiteral value) rfl)
  | regex pattern flags => exact List.forall_mem_singleton.mpr (.regex hp hw.1 hw.2.2)
  | array es =>
      rw [Printer.expression, Printer.areWritten_bracketed]
      refine Printer.areWritten_elements fun element helement x hx => ?_
      obtain rfl := Option.mem_def.mp hx
      exact ih (.expression x) (List.mem_map.mpr ⟨some x, helement, rfl⟩)
  | object ps =>
      rw [Printer.expression]
      refine Printer.areWritten_enclose fun g => ?_
      rw [Printer.areWritten_braced]
      exact Printer.areWritten_properties (List.forall_mem_map.mp ih)
  | function f =>
      rw [Printer.expression]
      exact Printer.areWritten_enclose fun g =>
        Printer.areWritten_function hw (List.forall_mem_map.mp ih)
  | unary op operand isPostfix =>
      have hop : (Printer.sign op.kind).IsWritten :=
        Printer.isWritten_sign (by cases op <;> decide)
      have hoperand : (Node.expression operand).Written numeral := List.forall_mem_singleton.mp ih
      cases isPostfix with
      | false =>
          rw [Printer.expression]
          refine Printer.areWritten_enclose fun g => ?_
          rw [Printer.areWritten_cons]
          exact ⟨hop, hoperand _ _⟩
      | true =>
          rw [Printer.expression]
          refine Printer.areWritten_enclose fun g => ?_
          rw [Printer.areWritten_append]
          exact ⟨hoperand _ _, List.forall_mem_singleton.mpr hop⟩
  | binary left op right =>
      obtain ⟨hl, hr⟩ := List.forall_mem_cons.mp ih
      rw [Printer.expression]
      exact Printer.areWritten_enclose fun g =>
        Printer.areWritten_operation hl (List.forall_mem_singleton.mp hr)
  | logical left op right =>
      obtain ⟨hl, hr⟩ := List.forall_mem_cons.mp ih
      rw [Printer.expression]
      exact Printer.areWritten_enclose fun g =>
        Printer.areWritten_operation hl (List.forall_mem_singleton.mp hr)
  | assign target op value =>
      obtain ⟨ht, hv⟩ := List.forall_mem_cons.mp ih
      have hv : (Node.expression value).Written numeral := List.forall_mem_singleton.mp hv
      have hop : (Printer.sign op.kind).IsWritten :=
        Printer.isWritten_sign (by cases op <;> decide)
      rw [Printer.expression]
      refine Printer.areWritten_enclose fun g => ?_
      rw [Printer.areWritten_append, Printer.areWritten_cons]
      exact ⟨ht _ _, hop, hv _ _⟩
  | conditional test consequent alternate =>
      obtain ⟨ht, ih⟩ := List.forall_mem_cons.mp ih
      obtain ⟨hc, ih⟩ := List.forall_mem_cons.mp ih
      have ha : (Node.expression alternate).Written numeral := List.forall_mem_singleton.mp ih
      have hquestion : (Printer.sign .question).IsWritten := Printer.isWritten_sign (by decide)
      have hcolon : (Printer.sign .colon).IsWritten := Printer.isWritten_sign (by decide)
      rw [Printer.expression]
      refine Printer.areWritten_enclose fun g => ?_
      rw [Printer.areWritten_append, Printer.areWritten_cons, Printer.areWritten_append,
        Printer.areWritten_cons]
      exact ⟨ht _ _, hquestion, hc _ _, hcolon, ha _ _⟩
  | dot base text =>
      have hb : (Node.expression base).Written numeral := List.forall_mem_singleton.mp ih
      rw [Printer.expression, Printer.areWritten_append]
      exact ⟨hb _ _, List.forall_mem_singleton.mpr
        (.member (tokenAt_word hw) (isIdentifierName_wordKind text))⟩
  | bracket base index =>
      obtain ⟨hb, hi⟩ := List.forall_mem_cons.mp ih
      have hi : (Node.expression index).Written numeral := List.forall_mem_singleton.mp hi
      rw [Printer.expression, Printer.areWritten_append, Printer.areWritten_bracketed]
      exact ⟨hb _ _, hi _ _⟩
  | call callee args =>
      obtain ⟨hc, ha⟩ := List.forall_mem_cons.mp ih
      rw [Printer.expression]
      refine Printer.areWritten_enclose fun g => ?_
      rw [Printer.areWritten_append, Printer.areWritten_parenthesized]
      exact ⟨hc _ _, Printer.areWritten_expressions (List.forall_mem_map.mp ha)⟩
  | construct callee args =>
      obtain ⟨hc, ha⟩ := List.forall_mem_cons.mp ih
      have hnew : (Printer.sign .kwNew).IsWritten := Printer.isWritten_sign (by decide)
      rw [Printer.expression, Printer.areWritten_cons, Printer.areWritten_append,
        Printer.areWritten_parenthesized]
      exact ⟨hnew, hc _ _, Printer.areWritten_expressions (List.forall_mem_map.mp ha)⟩
  | sequence es =>
      rw [Printer.expression]
      exact Printer.areWritten_enclose fun g =>
        Printer.areWritten_expressions (List.forall_mem_map.mp ih)

theorem Statement.written {s : Statement} (hw : s.WellFormed) (hp : s.Printable)
    (ih : ∀ child ∈ s.children, child.Written numeral) : (Node.statement s).Written numeral := by
  have hsign {k : TokenKind} (hk : Printer.isSign k) : (Printer.sign k).IsWritten :=
    Printer.isWritten_sign hk
  have hname (label : Option Text) (h : ∀ name ∈ label, isBindingName name) :
      Printer.AreWritten (label.toList.map Printer.name) := by
    cases label with
    | none => exact Printer.areWritten_nil
    | some label => exact List.forall_mem_singleton.mpr (Printer.isWritten_name (h label rfl))
  show Printer.AreWritten (Printer.statement numeral s)
  cases s with
  | block ss =>
      rw [Printer.statement, Printer.areWritten_braced]
      exact Printer.areWritten_statements (List.forall_mem_map.mp ih)
  | declare ds =>
      simp only [Printer.statement, Printer.areWritten_cons, Printer.areWritten_append]
      exact ⟨hsign (by decide), Printer.areWritten_declarators (List.forall_mem_map.mp ih), .ended,
        Printer.areWritten_nil⟩
  | empty => exact List.forall_mem_singleton.mpr (hsign (by decide))
  | expression e =>
      have he : (Node.expression e).Written numeral := List.forall_mem_singleton.mp ih
      rw [Printer.statement, Printer.areWritten_append]
      exact ⟨he _ _, List.forall_mem_singleton.mpr .ended⟩
  | ifElse test consequent alternate =>
      obtain ⟨ht, ih⟩ := List.forall_mem_cons.mp ih
      obtain ⟨hc, ih⟩ := List.forall_mem_cons.mp ih
      simp only [Printer.statement, Printer.areWritten_cons, Printer.areWritten_append,
        Printer.areWritten_parenthesized]
      refine ⟨hsign (by decide), ht _ _, hc,
        Printer.areWritten_statementAfter (by decide) fun s hs => ?_⟩
      exact ih (.statement s) (by simpa using hs)
  | doWhile body test =>
      obtain ⟨hb, ht⟩ := List.forall_mem_cons.mp ih
      have ht : (Node.expression test).Written numeral := List.forall_mem_singleton.mp ht
      simp only [Printer.statement, Printer.areWritten_cons, Printer.areWritten_append,
        Printer.areWritten_parenthesized]
      exact ⟨hsign (by decide), hb, hsign (by decide), ht _ _, .ended, Printer.areWritten_nil⟩
  | whileDo test body =>
      obtain ⟨ht, hb⟩ := List.forall_mem_cons.mp ih
      have hb : (Node.statement body).Written numeral := List.forall_mem_singleton.mp hb
      simp only [Printer.statement, Printer.areWritten_cons, Printer.areWritten_append,
        Printer.areWritten_parenthesized]
      exact ⟨hsign (by decide), ht _ _, hb⟩
  | forLoop init test update body =>
      obtain ⟨ih, hb⟩ := List.forall_mem_append.mp ih
      obtain ⟨ih, hu⟩ := List.forall_mem_append.mp ih
      obtain ⟨hi, ht⟩ := List.forall_mem_append.mp ih
      have hb : (Node.statement body).Written numeral := List.forall_mem_singleton.mp hb
      have hinit : Printer.AreWritten (Printer.initial numeral init) := by
        obtain _ | ds | e := init
        · exact Printer.areWritten_nil
        · rw [Printer.initial, Printer.areWritten_cons]
          exact ⟨hsign (by decide), Printer.areWritten_declarators (List.forall_mem_map.mp hi)⟩
        · have he : (Node.expression e).Written numeral := List.forall_mem_singleton.mp hi
          exact he _ _
      simp only [Printer.statement, Printer.areWritten_cons, Printer.areWritten_append,
        Printer.areWritten_parenthesized]
      exact ⟨hsign (by decide), ⟨hinit, hsign (by decide),
        Printer.areWritten_optional (Node.forall_mem_ofOption.mp ht), hsign (by decide),
        Printer.areWritten_optional (Node.forall_mem_ofOption.mp hu)⟩, hb⟩
  | forIn target object body =>
      obtain ⟨ht, ih⟩ := List.forall_mem_cons.mp ih
      obtain ⟨ho, hb⟩ := List.forall_mem_cons.mp ih
      have hb : (Node.statement body).Written numeral := List.forall_mem_singleton.mp hb
      have htarget : Printer.AreWritten (Printer.forTarget numeral target) := by
        cases target with
        | declared d =>
            rw [Printer.forTarget, Printer.areWritten_cons]
            exact ⟨hsign (by decide), ht _⟩
        | expression x => exact ht _ _
      simp only [Printer.statement, Printer.areWritten_cons, Printer.areWritten_append,
        Printer.areWritten_parenthesized]
      exact ⟨hsign (by decide), ⟨htarget, hsign (by decide), ho _ _⟩, hb⟩
  | continueTo label =>
      simp only [Printer.statement, Printer.areWritten_cons, Printer.areWritten_append]
      exact ⟨hsign (by decide), hname label hw, .ended, Printer.areWritten_nil⟩
  | breakTo label =>
      simp only [Printer.statement, Printer.areWritten_cons, Printer.areWritten_append]
      exact ⟨hsign (by decide), hname label hw, .ended, Printer.areWritten_nil⟩
  | returnWith value =>
      simp only [Printer.statement, Printer.areWritten_cons, Printer.areWritten_append]
      have hvalue := Printer.areWritten_optional (Node.forall_mem_ofOption.mp ih)
      exact ⟨hsign (by decide), hvalue, .ended, Printer.areWritten_nil⟩
  | withObject object body =>
      obtain ⟨ho, hb⟩ := List.forall_mem_cons.mp ih
      have hb : (Node.statement body).Written numeral := List.forall_mem_singleton.mp hb
      simp only [Printer.statement, Printer.areWritten_cons, Printer.areWritten_append,
        Printer.areWritten_parenthesized]
      exact ⟨hsign (by decide), ho _ _, hb⟩
  | switch discriminant cs =>
      obtain ⟨hd, hcs⟩ := List.forall_mem_cons.mp ih
      simp only [Printer.statement, Printer.areWritten_cons, Printer.areWritten_append,
        Printer.areWritten_parenthesized, Printer.areWritten_braced]
      exact ⟨hsign (by decide), hd _ _, Printer.areWritten_clauses (List.forall_mem_map.mp hcs)⟩
  | labelled label body =>
      have hb : (Node.statement body).Written numeral := List.forall_mem_singleton.mp ih
      simp only [Printer.statement, Printer.areWritten_cons]
      exact ⟨Printer.isWritten_name hw.1, hsign (by decide), hb⟩
  | throwWith value =>
      have hv : (Node.expression value).Written numeral := List.forall_mem_singleton.mp ih
      simp only [Printer.statement, Printer.areWritten_cons, Printer.areWritten_append]
      exact ⟨hsign (by decide), hv _ _, .ended, Printer.areWritten_nil⟩
  | tryCatch guarded h finalizer =>
      obtain ⟨ih, hf⟩ := List.forall_mem_append.mp ih
      obtain ⟨hg, hh⟩ := List.forall_mem_cons.mp ih
      have hhandler : Printer.AreWritten (Printer.handler numeral h) := by
        cases h with
        | none => exact Printer.areWritten_nil
        | some c => exact hh (.handler c) (List.mem_singleton.mpr rfl)
      simp only [Printer.statement, Printer.areWritten_cons, Printer.areWritten_append]
      refine ⟨hsign (by decide), hg, hhandler,
        Printer.areWritten_statementAfter (by decide) fun s hs => ?_⟩
      exact hf (.statement s) (by simpa using hs)
  | debugger =>
      simp only [Printer.statement, Printer.areWritten_cons]
      exact ⟨hsign (by decide), .ended, Printer.areWritten_nil⟩
  | function f => exact Printer.areWritten_function hw.2 (List.forall_mem_map.mp ih)
  | comment => exact hp.elim

theorem Property.written {p : Property} (hw : p.WellFormed) (hp : p.key.Printable numeral)
    (ih : ∀ child ∈ (Node.property p).children, child.Written numeral) :
    (Node.property p).Written numeral := by
  show Printer.AreWritten (Printer.property numeral p)
  cases p with
  | init key value =>
      have hv : (Node.expression value).Written numeral := List.forall_mem_singleton.mp ih
      simp only [Printer.property, Printer.areWritten_cons]
      exact ⟨Printer.isWritten_key hw hp, Printer.isWritten_sign (by decide), hv _ _⟩
  | getter key body =>
      simp only [Printer.property, Printer.areWritten_cons, Printer.areWritten_append,
        Printer.areWritten_parenthesized, Printer.areWritten_braced]
      exact ⟨Printer.isWritten_name (by decide +kernel), Printer.isWritten_key hw hp,
        Printer.areWritten_nil, Printer.areWritten_statements (List.forall_mem_map.mp ih)⟩
  | setter key param body =>
      simp only [Printer.property, Printer.areWritten_cons, Printer.areWritten_append,
        Printer.areWritten_parenthesized, Printer.areWritten_braced]
      exact ⟨Printer.isWritten_name (by decide +kernel), Printer.isWritten_key hw.1 hp,
        ⟨Printer.isWritten_name hw.2, Printer.areWritten_nil⟩,
        Printer.areWritten_statements (List.forall_mem_map.mp ih)⟩

/-- What is printed for a printable node is written by its words. -/
theorem Node.Everywhere.written {n : Node}
    (h : n.Everywhere fun n => n.WellFormed ∧ n.Printable numeral) : n.Written numeral := by
  induction h with
  | @node n h _ ih =>
      obtain ⟨hw, hp⟩ := h
      cases n with
      | program p => exact Printer.areWritten_statements (List.forall_mem_map.mp ih)
      | statement s => exact s.written hw hp ih
      | expression e => exact e.written hw hp ih
      | elision => trivial
      | property p => exact p.written hw hp ih
      | declarator d =>
          exact Printer.areWritten_initializer hw (Node.forall_mem_ofOption.mp ih)
      | clause c =>
          obtain ⟨ht, hb⟩ := List.forall_mem_append.mp ih
          exact Printer.areWritten_clause (Node.forall_mem_ofOption.mp ht)
            (List.forall_mem_map.mp hb)
      | handler c =>
          obtain ⟨param, body⟩ := c
          show Printer.AreWritten (Printer.handler numeral (some ⟨param, body⟩))
          simp only [Printer.handler, Printer.areWritten_cons, Printer.areWritten_append,
            Printer.areWritten_parenthesized, Printer.areWritten_braced]
          exact ⟨Printer.isWritten_sign (by decide), ⟨Printer.isWritten_name hw,
            Printer.areWritten_nil⟩, Printer.areWritten_statements (List.forall_mem_map.mp ih)⟩

/-! ## Programs -/

/-- Parsing undoes printing: from the text of a printable program a parser gets the program, unless
the limit is smaller than what the size of the text asks for. -/
theorem parse_print {P : Program} (h : P.Printable numeral) {limit : Nat}
    (hlimit : 3 * ((P.print numeral).size + 1) ≤ limit) :
    parse limit (P.print numeral) = .ok P := by
  have hwritten : Printer.AreWritten (Printer.statements numeral P.body) :=
    (h.wellFormed.and h.nodes).written
  obtain ⟨p, ms, -, hall, hspells⟩ := Parser.exists_spelled hwritten (.inl rfl) 0 false false
  -- with enough room the grammar derives the program, and no more room was needed
  obtain ⟨least, hderives⟩ := h.derived
  have htext : p.all = P.print numeral := hall
  have hparse := hspells.parses (hderives (max least limit) (Nat.le_max_left ..))
  rw [htext] at hparse
  have hnot := not_exceedsAt_of_size_le hlimit
  rwa [parse_eq_of_not_exceedsAt _ (Nat.le_max_right ..) hnot] at hparse

/-- The text of this program has parentheses around `in` at the head of a loop and around the right
one of two differences, but not around the left one. -/
theorem parse_print_differences : ∃ P : Program, P.Printable (fun _ => ['1']) ∧
    P.print (fun _ => ['1']) = "for ( ( a in b ) ; ; ) ; c - d - ( 1 - a ) ;".toList ∧
    parse 256 "for ( ( a in b ) ; ; ) ; c - d - ( 1 - a ) ;".toList = .ok P := by
  obtain ⟨one, hone⟩ : ∃ one, numberValue? ['1'] = some one :=
    Option.isSome_iff_exists.mp (by decide +kernel)
  have hnumeral : IsNumeralOf one ['1'] := ⟨by decide +kernel, hone⟩
  have hnames : isBindingName ['a'] ∧ isBindingName ['b'] ∧ isBindingName ['c'] ∧
      isBindingName ['d'] := by decide +kernel
  have hprintable : Program.Printable (fun _ => ['1']) ⟨[
      .forLoop (some (.expression (.binary (.identifier ['a']) .isIn (.identifier ['b'])))) none
        none .empty,
      .expression (.binary (.binary (.identifier ['c']) .sub (.identifier ['d'])) .sub
        (.binary (.number one) .sub (.identifier ['a'])))]⟩ := by
    constructor
    · refine .node trivial ?_
      simp [Node.everywhere_statement, Node.everywhere_expression, Node.children,
        Statement.children, Expression.children, Node.ofOption, Node.WellFormed, hnames,
        Statement.WellFormed, Expression.WellFormed, Statement.isBody]
    · refine .node trivial ?_
      simp [Node.everywhere_statement, Node.everywhere_expression, Node.children,
        Statement.children, Expression.children, Node.ofOption, Node.Printable,
        Statement.Printable, Expression.Printable, hnumeral]
  have hsize : 3 * (Text.size "for ( ( a in b ) ; ; ) ; c - d - ( 1 - a ) ;".toList + 1) ≤ 256 := by
    decide +kernel
  exact ⟨_, hprintable, rfl, parse_print hprintable hsize⟩

end EcmaSyntax
