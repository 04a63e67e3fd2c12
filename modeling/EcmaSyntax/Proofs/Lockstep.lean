import EcmaSyntax.Proofs.Parallel

/-!
# Parsers in lockstep

**Judgement.**  `Lockstep inner inner' credit known p p'` says that two parsers are built in the
same way from the steps that the functions of the grammar consist of, except that one opens the
rules `inner` where the other opens the rules `inner'`.  Repetitions are unrolled into their turns,
of which both parsers have the same number.

**Results.**
* `Parallel.lockstep`: parallel parsers that have the same numbers of turns are in lockstep.
* `lockstep_ruleBody`: the body of each rule has the credit that its weight leaves.

What holds of all steps, and is kept when parsers are run one after the other, holds of the whole
grammar by induction over this judgement.
-/

namespace EcmaSyntax
namespace Parser

/-- Two parsers are built from the same steps, with different rules inside them. -/
inductive Lockstep (inner inner' : Inner) : Nat → Option Token → {α : Type} → Parser α → Parser α →
    Prop
  | pure {credit : Nat} {known : Option Token} {α : Type} (a : α) :
      Lockstep inner inner' credit known (pure a) (pure a)
  | bind {credit : Nat} {known : Option Token} {α β : Type} {p p' : Parser α}
      {f f' : α → Parser β} :
      Lockstep inner inner' credit known p p' →
      (∀ a, Lockstep inner inner' credit none (f a) (f' a)) →
      Lockstep inner inner' credit known (p >>= f) (p' >>= f')
  | unexpected {credit : Nat} {known : Option Token} {α : Type} :
      Lockstep inner inner' credit known (unexpected : Parser α) unexpected
  | look {credit : Nat} {known : Option Token} {α : Type} {f g : Token → Nat → Parser α} :
      (∀ t lastEnd, Lockstep inner inner' credit (some t) (f t lastEnd) (g t lastEnd)) →
      Lockstep inner inner' credit known (do let s ← get; f s.current s.lastEnd)
        (do let s ← get; g s.current s.lastEnd)
  | take {credit : Nat} {t : Token} {α : Type} {f f' : Token → Parser α} :
      isReal t.kind → Lockstep inner inner' fullCredit none (f t) (f' t) →
      Lockstep inner inner' credit (some t) (take >>= f) (take >>= f')
  | regex {credit : Nat} {slash : Token} : opensRegex slash.kind →
      Lockstep inner inner' credit (some slash) (regex slash) (regex slash)
  | badNumber {credit : Nat} {t : Token} {α : Type} :
      t.kind = .number → numberValue? t.text = none →
      Lockstep inner inner' credit (some t)
        (throw ⟨.lexical .invalidNumber t.text, t.place⟩ : Parser α)
        (throw ⟨.lexical .invalidNumber t.text, t.place⟩)
  | endStatement {credit : Nat} {known : Option Token} :
      Lockstep inner inner' credit known endStatement endStatement
  | pendingComments {credit : Nat} {known : Option Token} :
      Lockstep inner inner' credit known pendingComments pendingComments
  | inner {credit : Nat} {known : Option Token} (r : Rule) : r.weight ≤ credit →
      Lockstep inner inner' credit known (inner r) (inner' r)

namespace Lockstep

variable {inner inner' : Inner} {credit : Nat} {known : Option Token} {α β : Type}
  {p p' q q' : Parser α}

theorem symm (h : Lockstep inner inner' credit known p p') :
    Lockstep inner' inner credit known p' p := by
  induction h with
  | pure a => exact .pure a
  | bind _ _ ihp ihf => exact .bind ihp ihf
  | unexpected => exact .unexpected
  | look _ ih => exact .look ih
  | take ht _ ih => exact .take ht ih
  | regex ht => exact .regex ht
  | badNumber hk hnone => exact .badNumber hk hnone
  | endStatement => exact .endStatement
  | pendingComments => exact .pendingComments
  | inner r hr => exact .inner r hr

/-! ## Looking at the token at hand -/

theorem current {f f' : Token → Parser β}
    (h : ∀ t, Lockstep inner inner' credit (some t) (f t) (f' t)) :
    Lockstep inner inner' credit known (current >>= f) (current >>= f') :=
  .look (f := fun t _ => f t) (g := fun t _ => f' t) fun t _ => h t

theorem kind {f f' : TokenKind → Parser β}
    (h : ∀ t : Token, Lockstep inner inner' credit (some t) (f t.kind) (f' t.kind)) :
    Lockstep inner inner' credit known (kind >>= f) (kind >>= f') :=
  .look (f := fun t _ => f t.kind) (g := fun t _ => f' t.kind) fun t _ => h t

theorem infixOperator {minPower : Nat} {g : Grammar} {f f' : Option InfixOperator → Parser β}
    (h : ∀ t : Token, Lockstep inner inner' credit (some t) (f (infixOperator? minPower g t.kind))
      (f' (infixOperator? minPower g t.kind))) :
    Lockstep inner inner' credit known (infixOperator minPower g >>= f)
      (infixOperator minPower g >>= f') :=
  .look (f := fun t _ => f (infixOperator? minPower g t.kind))
    (g := fun t _ => f' (infixOperator? minPower g t.kind)) fun t _ => h t

/-- A choice by the kind of the token at hand. -/
theorem ifAt {k : TokenKind}
    (hp : ∀ t : Token, t.kind = k → Lockstep inner inner' credit (some t) p p')
    (hq : ∀ t : Token, Lockstep inner inner' credit (some t) q q') :
    Lockstep inner inner' credit known (do if ← Parser.isAt k then p else q)
      (do if ← Parser.isAt k then p' else q') := by
  refine .look (f := fun t _ => if decide (t.kind = k) = true then p else q)
    (g := fun t _ => if decide (t.kind = k) = true then p' else q') fun t _ => ?_
  by_cases hk : t.kind = k
  · simp only [hk, decide_true, if_true]
    exact hp t hk
  · simp only [hk, decide_false, Bool.false_eq_true, if_false]
    exact hq t

/-! ## Taking tokens -/

theorem expect {k : TokenKind} {f f' : Token → Parser β} (hk : isReal k)
    (h : ∀ t, Lockstep inner inner' fullCredit none (f t) (f' t)) :
    Lockstep inner inner' credit known (expect k >>= f) (expect k >>= f') := by
  refine .look
    (f := fun t _ => (if decide (t.kind = k) = true then Parser.take else Parser.unexpected) >>= f)
    (g := fun t _ => (if decide (t.kind = k) = true then Parser.take else Parser.unexpected) >>= f')
    fun t _ => ?_
  by_cases ht : t.kind = k
  · simp only [ht, decide_true, if_true]
    exact .take (ht ▸ hk) (h _)
  · simp only [ht, decide_false, Bool.false_eq_true, if_false]
    exact .unexpected

/-- A choice by whether a token of some kind can be taken. -/
theorem ifEat {k : TokenKind} (hk : isReal k) (hp : Lockstep inner inner' fullCredit none p p')
    (hq : ∀ t : Token, Lockstep inner inner' credit (some t) q q') :
    Lockstep inner inner' credit known (do if ← eat k then p else q)
      (do if ← eat k then p' else q') := by
  rw [ifEat_eq, ifEat_eq]
  exact .ifAt (fun _ ht => .take (ht ▸ hk) hp) hq

theorem eat {k : TokenKind} (hk : isReal k) :
    Lockstep inner inner' credit known (eat k) (eat k) :=
  .ifAt (fun _ ht => .take (ht ▸ hk) (.pure true)) fun _ => .pure false

/-! ## Repetition -/

/-- Whether a list goes on after a comma. -/
theorem afterComma : Lockstep inner inner' credit known (do return !(← Parser.eat .comma))
    (do return !(← Parser.eat .comma)) :=
  .bind (.eat rfl) fun _ => .pure _

theorem itemsUntil {atEnd : Parser Bool}
    (hend : ∀ known, Lockstep inner inner' credit known atEnd atEnd)
    (hitem : Lockstep inner inner' credit none p p') (turns : Nat) :
    Lockstep inner inner' credit known (itemsUntil atEnd p turns) (itemsUntil atEnd p' turns) := by
  induction turns generalizing known with
  | zero => exact .unexpected
  | succ turns ih =>
      refine .bind (hend known) fun b => ?_
      cases b with
      | true => exact .pure []
      | false => exact .bind hitem fun a => .bind ih fun as => .pure (a :: as)

theorem iterate {extend extend' : α → Parser (Option α)}
    (h : ∀ a, Lockstep inner inner' credit none (extend a) (extend' a)) (turns : Nat) (a : α) :
    Lockstep inner inner' credit none (iterate extend turns a) (iterate extend' turns a) := by
  induction turns generalizing a with
  | zero => exact .unexpected
  | succ turns ih =>
      refine .bind (h a) fun o => ?_
      cases o with
      | some b => exact ih b
      | none => exact .pure a

theorem elements
    (hitem : ∀ known, Lockstep inner inner' credit known (element inner) (element inner'))
    (stops : List TokenKind) (turns : Nat) :
    Lockstep inner inner' credit known (elements inner stops turns)
      (elements inner' stops turns) := by
  induction turns generalizing known with
  | zero => exact .unexpected
  | succ turns ih =>
      refine .bind .pendingComments fun comments => .kind fun t => ?_
      split
      · exact .pure comments
      · exact .bind (hitem _) fun s => .bind ih fun rest => .pure _

theorem binary {turns : Nat}
    (hoperand : ∀ g, Lockstep inner inner' fullCredit none (unary inner turns g)
      (unary inner' turns g)) (fuel : Nat) (left : Expression) (minPower : Nat) (g : Grammar) :
    Lockstep inner inner' credit known (binary inner turns fuel left minPower g)
      (binary inner' turns fuel left minPower g) := by
  induction fuel generalizing left minPower g credit known with
  | zero => exact .unexpected
  | succ fuel ih =>
      refine .infixOperator fun t => ?_
      cases hop : infixOperator? minPower g t.kind with
      | some op =>
          exact .take (isReal_of_isPlain (isPlain_of_infixOperator? hop)) <|
            .bind (hoperand _) fun operand => .bind (ih operand _ _) fun right => ih _ _ _
      | none => exact .pure left

theorem clauses {turns : Nat}
    (htest : ∀ credit known seenDefault, Lockstep inner inner' credit known
      (clauseTest inner turns seenDefault) (clauseTest inner' turns seenDefault))
    (hbody : Lockstep inner inner' fullCredit none
      (Parser.elements inner [.kwCase, .kwDefault, .closeBrace] turns)
      (Parser.elements inner' [.kwCase, .kwDefault, .closeBrace] turns))
    (seenDefault : Bool) (fuel : Nat) :
    Lockstep inner inner' credit known (clauses inner turns seenDefault fuel)
      (clauses inner' turns seenDefault fuel) := by
  induction fuel generalizing seenDefault credit known with
  | zero => exact .unexpected
  | succ fuel ih =>
      exact .ifEat rfl (.pure []) fun _ => .bind (htest _ _ _) fun _ =>
        .expect rfl fun _ => .bind hbody fun _ => .bind (ih _) fun _ => .pure _

end Lockstep

section Grammar

variable {inner inner' : Inner} {turns credit : Nat} {takes entry exit : Bool}
  {known : Option Token}

/-- Parallel parsers do the same steps if they have the same numbers of turns. -/
theorem Parallel.lockstep {α : Type} {p p' : Parser α}
    (h : Parallel inner inner' turns turns credit takes entry exit known p p') :
    Lockstep inner inner' credit known p p' := by
  induction h with
  | pure a => exact .pure a
  | bind _ _ ihp ihf => exact .bind ihp ihf
  | unexpected => exact .unexpected
  | weaken _ ih => exact ih
  | look _ ih => exact .look ih
  | take ht _ ih => exact .take ht ih
  | regex ht => exact .regex ht
  | badNumber hk hnone => exact .badNumber hk hnone
  | endStatement => exact .endStatement
  | pendingComments => exact .pendingComments
  | inner r hr => exact .inner r hr
  | itemsUntil _ _ ihend ihitem => exact .itemsUntil ihend ihitem turns
  | itemsAfterCommas _ ihitem => exact .itemsUntil (fun _ => .afterComma) ihitem turns
  | @iterate _ _ goesOn _ _ a _ hstops ih =>
      refine .iterate (fun a => .current fun t => ?_) turns a
      cases hgoes : goesOn t with
      | true => exact ih a t hgoes
      | false =>
          obtain ⟨h, h'⟩ := hstops a t hgoes
          rw [h, h']
          exact .pure none
  | elements stops _ ih => exact .elements (ih true) stops turns
  | binary left minPower g _ ih => exact .binary ih turns left minPower g
  | clauses seenDefault _ _ ihtest ihbody =>
      exact .clauses (fun credit => ihtest credit true) ihbody seenDefault turns

theorem lockstep_elements (hc : fullCredit ≤ credit) (stops : List TokenKind) (fuel : Nat) :
    Lockstep inner inner' credit known (elements inner stops fuel)
      (elements inner' stops fuel) := by
  have h : Parallel inner inner' fuel fuel credit false true false known
      (elements inner stops fuel) (elements inner' stops fuel) := parallel_elements hc stops
  exact h.lockstep

theorem lockstep_assignment (hc : 1 ≤ credit) (g : Grammar) :
    Lockstep inner inner' credit known (assignment inner turns g)
      (assignment inner' turns g) := by
  have h : Parallel inner inner' turns turns credit true true true known
      (assignment inner turns g) (assignment inner' turns g) := parallel_assignment hc g
  exact h.lockstep

/-- The body of a rule is built from steps and from rules that the credit covers. -/
theorem lockstep_ruleBody (r : Rule) :
    Lockstep inner inner' (r.weight - 1) known (ruleBody inner turns r)
      (ruleBody inner' turns r) := by
  have h : Parallel inner inner' turns turns (r.weight - 1) true true r.exit known
      (ruleBody inner turns r) (ruleBody inner' turns r) := parallel_ruleBody r
  exact h.lockstep

/-- Programs with different limits are built from the same steps. -/
theorem lockstep_program (limit limit' : Nat) (source : Text) :
    Lockstep (rule (source.length + 3) limit) (rule (source.length + 3) limit') fullCredit known
      (programElements limit source) (programElements limit' source) :=
  lockstep_elements (Nat.le_refl _) _ _

end Grammar

end Parser
end EcmaSyntax
