import EcmaSyntax.Proofs.Grammar.Brackets
import EcmaSyntax.Proofs.Grammar.Sound
import EcmaSyntax.Proofs.Standing

/-!
# Variants of an expression

**Variants.**  An expression without a brace at its head, and one without `in` as an operator, are
read by the same functions as any expression.

**Cuts.**  `CutAtIn` compares a run that takes no `in` between operands with one that does.  The
runs are the same, or the first one stops at an `in` that the second one takes, if it succeeds.

**Method.**  A parser behind one that has stopped at `in` takes nothing, so a cut goes through
`bind`.  The only turns that might run out are those of a list of operands, and each of these takes
a comma.

**Results.**
* `expression_noBrace`, `expression_noBrace_refused`: the two cases of the first variant.
* `expression_cutAtIn`: the second variant.
* `variants_restrict`: what both say of an expression.
-/

namespace EcmaSyntax
namespace Parser

variable {α β : Type} {s s' s₁ : ParserState} {its rest : List Item} {turns room : Nat}

theorem run_assignment_succ (g : Grammar) (s : ParserState) :
    (rule turns (room + 1) (.assignment g)).run s =
      (deepen (assignment (rule turns room) turns g)).run s := rfl

/-! ## No brace at the head -/

section NoBrace

variable {inner : Inner}

theorem leftHandSide_noBrace (hbrace : s.current.kind ≠ .openBrace)
    (hfunction : s.current.kind ≠ .kwFunction) :
    (leftHandSide inner turns .noBrace).run s = (leftHandSide inner turns .normal).run s := by
  have hhead : (chainHead inner turns .noBrace).run s = (chainHead inner turns .normal).run s := by
    unfold chainHead primary
    rw [EStateM.run_bind, EStateM.run_bind, run_isAt]
    by_cases hnew : s.current.kind = .kwNew
    · simp only [hnew, decide_true, if_true]
    · simp only [hnew, decide_false, Bool.false_eq_true, if_false]
      rw [EStateM.run_bind, EStateM.run_bind, run_current]
      dsimp only
      cases hk : s.current.kind with
      | openBrace => exact absurd hk hbrace
      | kwFunction => exact absurd hk hfunction
      | _ => rfl
  unfold leftHandSide
  rw [EStateM.run_bind, EStateM.run_bind, hhead]

theorem unary_noBrace (hbrace : s.current.kind ≠ .openBrace)
    (hfunction : s.current.kind ≠ .kwFunction) :
    (unary inner turns .noBrace).run s = (unary inner turns .normal).run s := by
  unfold unary
  rw [EStateM.run_bind, EStateM.run_bind, run_kind]
  dsimp only
  cases s.current.kind.prefixOperator? with
  | some op => rfl
  | none =>
      dsimp only
      rw [EStateM.run_bind, EStateM.run_bind, leftHandSide_noBrace hbrace hfunction]

theorem binary_noBrace (fuel : Nat) (left : Expression) (minPower : Nat) :
    binary inner turns fuel left minPower .noBrace =
      binary inner turns fuel left minPower .normal := by
  induction fuel generalizing left minPower with
  | zero => rfl
  | succ fuel ih =>
      have hop : infixOperator minPower .noBrace = infixOperator minPower .normal := by
        funext s
        unfold infixOperator infixOperator?
        simp
      unfold binary
      rw [hop]
      simp only [ih]
      rfl

theorem operatorsRest_noBrace (operand : Expression) :
    operatorsRest inner turns operand .noBrace = operatorsRest inner turns operand .normal := by
  unfold operatorsRest
  rw [binary_noBrace]
  rfl

theorem assignmentRest_noBrace (left : Expression) :
    assignmentRest inner turns left .noBrace = assignmentRest inner turns left .normal := by
  unfold assignmentRest
  simp only [operatorsRest_noBrace]
  rfl

theorem assignment_noBrace (hbrace : s.current.kind ≠ .openBrace)
    (hfunction : s.current.kind ≠ .kwFunction) :
    (assignment inner turns .noBrace).run s = (assignment inner turns .normal).run s := by
  unfold assignment
  rw [EStateM.run_bind, EStateM.run_bind, run_kind]
  dsimp only
  simp only [operatorsRest_noBrace, assignmentRest_noBrace]
  split
  · rw [EStateM.run_bind, EStateM.run_bind, unary_noBrace hbrace hfunction]
  · rw [EStateM.run_bind, EStateM.run_bind, leftHandSide_noBrace hbrace hfunction]

end NoBrace

/-- Only a brace and `function` at the head of an expression make a difference. -/
theorem expression_noBrace (hbrace : s.current.kind ≠ .openBrace)
    (hfunction : s.current.kind ≠ .kwFunction) :
    (expression (rule turns room) turns .noBrace).run s =
      (expression (rule turns room) turns .normal).run s := by
  have hrule : (rule turns room (.assignment .noBrace)).run s =
      (rule turns room (.assignment .normal)).run s := by
    cases room with
    | zero => rfl
    | succ room =>
        have hbody : (assignment (rule turns room) turns .noBrace).run (atDepth s (s.depth + 1)) =
            (assignment (rule turns room) turns .normal).run (atDepth s (s.depth + 1)) :=
          assignment_noBrace hbrace hfunction
        rw [run_assignment_succ, run_assignment_succ, run_deepen, run_deepen, hbody]
  unfold expression
  rw [EStateM.run_bind, EStateM.run_bind, hrule]
  rfl

/-- Some tokens that start no expression are refused. -/
theorem rule_assignment_refused {g : Grammar} (hk : s.current.kind = .endOfInput ∨
    g = .noBrace ∧ (s.current.kind = .openBrace ∨ s.current.kind = .kwFunction)) :
    (rule turns room (.assignment g)).run s = .error
      (if room = 0 then ⟨.tooDeep s.depth, s.current.place⟩ else .ofToken s.current) s := by
  cases room with
  | zero => rfl
  | succ room =>
      have hbody : (assignment (rule turns room) turns g).run (atDepth s (s.depth + 1)) =
          .error (.ofToken s.current) (atDepth s (s.depth + 1)) := by
        unfold assignment leftHandSide chainHead primary
        obtain hk | ⟨rfl, hk | hk⟩ := hk <;> simp [EStateM.run_bind, hk,
          TokenKind.isPrefixOperator, TokenKind.prefixOperator?]
      rw [run_assignment_succ, run_deepen, hbody]
      rfl

/-- A brace or `function` at the head of an expression is refused. -/
theorem expression_noBrace_refused
    (hk : s.current.kind = .openBrace ∨ s.current.kind = .kwFunction) :
    (expression (rule turns room) turns .noBrace).run s = .error
      (if room = 0 then ⟨.tooDeep s.depth, s.current.place⟩ else .ofToken s.current) s := by
  unfold expression
  rw [EStateM.run_bind, rule_assignment_refused (.inr ⟨rfl, hk⟩)]

/-! ## Runs that are cut at `in` -/

/-- Two results are the same, or the first one stops at an `in` that the second one takes if it
succeeds. -/
inductive CutAtIn :
    EStateM.Result Failure ParserState α → EStateM.Result Failure ParserState α → Prop
  | same (r : EStateM.Result Failure ParserState α) : CutAtIn r r
  | cut {a : α} {s : ParserState} {r : EStateM.Result Failure ParserState α} :
      s.current.kind = .kwIn →
      (∀ b s', r = .ok b s' → ∃ text after, Moves s (.taken .kwIn text :: after) s' []) →
      CutAtIn (.ok a s) r

/-- Whatever a parser takes when it succeeds is a list of items. -/
def Progresses (p : Parser α) : Prop := ∀ s a s', p.run s = .ok a s' → ∃ its, Moves s its s' []

theorem Progresses.of_yields {p : Parser α} {Q : TokenKind → List Item → α → List Item → Prop}
    (h : ∀ last s, Yields last s p (Q last)) : Progresses p := by
  intro s a s' hrun
  obtain ⟨its, hm, -⟩ := h s'.current.kind s a s' hrun [] rfl
  exact ⟨its, hm⟩

theorem progresses_pure (a : α) : Progresses (pure a) := by
  intro s b s' h
  cases h
  exact ⟨[], .refl⟩

/-- A cut goes through a sequence if the second parser takes nothing at `in`. -/
theorem CutAtIn.bind {p p' : Parser α} {f f' : α → Parser β}
    (hp : CutAtIn (p.run s) (p'.run s))
    (hf : ∀ a s₁, p.run s = .ok a s₁ → CutAtIn ((f a).run s₁) ((f' a).run s₁))
    (hstays : ∀ a s₁, p.run s = .ok a s₁ → s₁.current.kind = .kwIn → ∃ b, (f a).run s₁ = .ok b s₁)
    (hprogresses : ∀ a, Progresses (f' a)) : CutAtIn ((p >>= f).run s) ((p' >>= f').run s) := by
  rw [EStateM.run_bind, EStateM.run_bind]
  generalize p.run s = r at *
  generalize p'.run s = r' at *
  cases hp with
  | same =>
      cases r with
      | ok a s₁ => exact hf a s₁ rfl
      | error f s₁ => exact .same _
  | @cut a s₁ _ hin hgoes =>
      obtain ⟨b, hb⟩ := hstays a s₁ rfl hin
      dsimp only
      rw [hb]
      refine .cut hin fun c s' hc => ?_
      cases r' with
      | error f s₂ => cases hc
      | ok a' s₂ =>
          obtain ⟨text, after, hm⟩ := hgoes a' s₂ rfl
          obtain ⟨its, hm'⟩ := hprogresses a' s₂ c s' hc
          exact ⟨text, after ++ its, hm.seq hm'⟩

/-- The same first parser decides nothing. -/
theorem CutAtIn.bind_same (p : Parser α) {f f' : α → Parser β}
    (hf : ∀ a s₁, p.run s = .ok a s₁ → CutAtIn ((f a).run s₁) ((f' a).run s₁)) :
    CutAtIn ((p >>= f).run s) ((p >>= f').run s) := by
  rw [EStateM.run_bind, EStateM.run_bind]
  cases hrun : p.run s with
  | ok a s₁ => exact hf a s₁ hrun
  | error => exact .same _

/-- A cut goes through a result that takes nothing. -/
theorem CutAtIn.map {p p' : Parser α} (f : α → β) (hp : CutAtIn (p.run s) (p'.run s)) :
    CutAtIn ((p >>= fun a => pure (f a)).run s) ((p' >>= fun a => pure (f a)).run s) :=
  hp.bind (fun _ _ _ => .same _) (fun a _ _ _ => ⟨f a, rfl⟩) fun a => progresses_pure (f a)

theorem CutAtIn.deepen {p p' : Parser α}
    (h : CutAtIn (p.run (atDepth s (s.depth + 1))) (p'.run (atDepth s (s.depth + 1)))) :
    CutAtIn ((Parser.deepen p).run s) ((Parser.deepen p').run s) := by
  rw [run_deepen, run_deepen]
  generalize p.run (atDepth s (s.depth + 1)) = r at h
  generalize p'.run (atDepth s (s.depth + 1)) = r' at h
  cases h with
  | same => exact .same _
  | cut hin hgoes =>
      refine .cut hin fun b s' hb => ?_
      cases r' with
      | error => cases hb
      | ok b s₂ =>
          cases hb
          obtain ⟨text, after, hm⟩ := hgoes b s₂ rfl
          exact ⟨text, after, hm.withDepth _ _⟩

/-! ## No `in` between operands -/

theorem infixOperator?_noIn {minPower : Nat} {k : TokenKind} (hk : k ≠ .kwIn) :
    infixOperator? minPower .noIn k = infixOperator? minPower .normal k := by
  simp [infixOperator?, hk]

section NoIn

variable {inner : Inner}

theorem leftHandSide_noIn :
    leftHandSide inner turns .noIn = leftHandSide inner turns .normal := by
  unfold leftHandSide chainHead primary
  simp

theorem unary_noIn (hinner : inner (.operand .noIn) = inner (.operand .normal)) :
    unary inner turns .noIn = unary inner turns .normal := by
  unfold unary
  rw [leftHandSide_noIn]
  simp only [Grammar.operand, hinner]

end NoIn

/-- An operand has no operators between operands. -/
theorem rule_operand_noIn :
    rule turns room (.operand .noIn) = rule turns room (.operand .normal) := by
  induction room with
  | zero => rfl
  | succ room ih =>
      show deepen (unary _ _ _) = deepen (unary _ _ _)
      rw [unary_noIn ih]

/-- An `in` between operands is not looked behind. -/
theorem binary_at_in {fuel : Nat} (left : Expression) (minPower : Nat) (hfuel : fuel ≠ 0)
    (hk : s.current.kind = .kwIn) :
    (binary (rule turns room) turns fuel left minPower .noIn).run s = .ok left s := by
  obtain ⟨fuel, rfl⟩ := Nat.exists_eq_succ_of_ne_zero hfuel
  exact run_binary_none (by rw [hk]; rfl)

theorem progresses_binary (fuel : Nat) (left : Expression) (minPower : Nat) (g : Grammar) :
    Progresses (binary (rule turns room) turns fuel left minPower g) :=
  .of_yields (Q := fun last => Derives last room (.binary left minPower g)) fun _ s =>
    yields_binary (yields_rule turns room) fuel left minPower g s

/-- Operators are read up to an `in`. -/
theorem binary_cutAtIn (fuel : Nat) (left : Expression) (minPower : Nat) (s : ParserState) :
    CutAtIn ((binary (rule turns room) turns fuel left minPower .noIn).run s)
      ((binary (rule turns room) turns fuel left minPower .normal).run s) := by
  induction fuel generalizing left minPower s with
  | zero => exact .same _
  | succ fuel ih =>
      cases hop : infixOperator? minPower .normal s.current.kind with
      | none =>
          have hnone : infixOperator? minPower .noIn s.current.kind = none := by
            by_cases hk : s.current.kind = .kwIn
            · rw [hk]
              rfl
            · exact (infixOperator?_noIn hk).trans hop
          rw [run_binary_none hop, run_binary_none hnone]
          exact .same _
      | some op =>
          by_cases hk : s.current.kind = .kwIn
          · rw [binary_at_in left minPower fuel.succ_ne_zero hk]
            refine .cut hk fun e s' h => ?_
            obtain ⟨input, hm, hd⟩ := yields_binary (yields_rule turns room) _ _ _ _ _ e s' h [] rfl
            have hpeek : peek s'.current.kind input = s.current.kind := hm.peek_eq rfl
            cases hd with
            | binaryEnd hnone =>
                rw [hpeek, hop] at hnone
                cases hnone
            | @binaryMore _ _ _ _ _ _ _ k text _ i =>
                obtain rfl : k = .kwIn := hpeek.trans hk
                exact ⟨text, i, hm⟩
          · rw [run_binary_some hop, run_binary_some ((infixOperator?_noIn hk).trans hop)]
            refine .bind_same take fun _ s₁ _ => ?_
            have hunary : unary (rule turns room) turns Grammar.noIn.operand =
                unary (rule turns room) turns Grammar.normal.operand := unary_noIn rule_operand_noIn
            rw [hunary]
            refine .bind_same _ fun operand s₂ _ => ?_
            refine (ih operand _ s₂).bind (fun right s₃ _ => ih _ _ s₃) (fun right s₃ h hin => ?_)
              fun right => progresses_binary fuel _ _ _
            refine ⟨_, binary_at_in _ _ ?_ hin⟩
            rintro rfl
            cases h

/-- An assignment is read up to an `in`. -/
def AssignmentCutAtIn (turns room : Nat) : Prop := ∀ s : ParserState,
  CutAtIn ((rule turns room (.assignment .noIn)).run s)
    ((rule turns room (.assignment .normal)).run s)

section Assignments

theorem conditionalRest_at_in (test : Expression) (g : Grammar) (hk : s.current.kind = .kwIn) :
    (conditionalRest (rule turns room) test g).run s = .ok test s := by
  unfold conditionalRest
  rw [EStateM.run_bind, run_eat_of_ne (by rw [hk]; nofun)]
  rfl

theorem conditionalRest_cutAtIn (h : AssignmentCutAtIn turns room) (test : Expression)
    (s : ParserState) : CutAtIn ((conditionalRest (rule turns room) test .noIn).run s)
      ((conditionalRest (rule turns room) test .normal).run s) := by
  unfold conditionalRest
  refine .bind_same _ fun b s₁ _ => ?_
  cases b with
  | false => exact .same _
  | true => exact .bind_same _ fun consequent s₂ _ => .bind_same _ fun _ s₃ _ => (h s₃).map _

theorem operatorsRest_cutAtIn (h : AssignmentCutAtIn turns room) (operand : Expression)
    (s : ParserState) : CutAtIn ((operatorsRest (rule turns room) turns operand .noIn).run s)
      ((operatorsRest (rule turns room) turns operand .normal).run s) :=
  (binary_cutAtIn turns operand 0 s).bind (fun test s₁ _ => conditionalRest_cutAtIn h test s₁)
    (fun test _ _ hin => ⟨test, conditionalRest_at_in test .noIn hin⟩) fun test =>
      .of_yields (Q := fun last => Derives last room (.conditionalRest test .normal)) fun _ s =>
        yields_conditionalRest (yields_rule turns room) test .normal s

theorem assignmentRest_cutAtIn (h : AssignmentCutAtIn turns room) (left : Expression)
    (s : ParserState) : CutAtIn ((assignmentRest (rule turns room) turns left .noIn).run s)
      ((assignmentRest (rule turns room) turns left .normal).run s) := by
  unfold assignmentRest
  refine .bind_same _ fun k s₁ _ => ?_
  cases k.assignOperator? with
  | some op => exact .bind_same _ fun _ s₂ _ => (h s₂).map _
  | none => exact .bind_same _ fun operand s₂ _ => operatorsRest_cutAtIn h operand s₂

end Assignments

theorem rule_assignment_cutAtIn (turns room : Nat) : AssignmentCutAtIn turns room := by
  induction room with
  | zero => exact fun s => .same _
  | succ room ih =>
      intro s
      rw [run_assignment_succ, run_assignment_succ]
      refine .deepen ?_
      unfold assignment
      refine .bind_same _ fun k s₁ _ => ?_
      rw [unary_noIn rule_operand_noIn, leftHandSide_noIn]
      split
      · exact .bind_same _ fun operand s₂ _ => operatorsRest_cutAtIn ih operand s₂
      · exact .bind_same _ fun left s₂ _ => assignmentRest_cutAtIn ih left s₂

/-! ## Sequences -/

/-- Whoever takes a token of the source leaves fewer characters, or has come to the end. -/
theorem Held.take_less {t : Token} (h : Held s) (hk : s.current.kind ≠ .insertedSemicolon)
    (ht : take.run s = .ok t s₁) :
    s₁.stream.scanner.rest.length < s.stream.scanner.rest.length ∨
      s₁.current.kind = .endOfInput := by
  obtain ⟨-, following, stream, hnext, rfl⟩ := run_take_ok.mp ht
  obtain ⟨-, hless, hnil⟩ := h.steady.next_ok hnext
  by_cases h₀ : s.stream.left = 0
  · exact .inr (hnil h₀).1
  · have := hless h₀
    simp only [TokenStream.left, (h.justRead hk).1] at this
    refine .inl ?_
    show stream.scanner.rest.length < _
    simp at this
    omega

/-- An assignment leaves no more characters than there were. -/
theorem assignment_le {g : Grammar} {e : Expression} (hs : Held s)
    (h : (rule turns room (.assignment g)).run s = .ok e s₁) :
    Held s₁ ∧ s₁.stream.scanner.rest.length ≤ s.stream.scanner.rest.length := by
  have hleaves := rule_leaves turns room (.assignment g) hs
  rw [h] at hleaves
  cases hleaves with
  | ok hs₁ _ hle =>
      refine ⟨hs₁, ?_⟩
      simp only [TokenStream.left] at hle
      split at hle <;> split at hle <;> omega

/-- An operand behind a comma leaves fewer characters than there were in front of the comma. -/
theorem operand_less {g : Grammar} {e : Expression} {s₂ : ParserState} (hs : Held s)
    (hcomma : s.current.kind = .comma) (htake : take.run s = .ok s.current s₁)
    (h : (rule turns room (.assignment g)).run s₁ = .ok e s₂) :
    Held s₂ ∧ s₂.stream.scanner.rest.length < s.stream.scanner.rest.length := by
  have htaken := take_leaves hs.steady
  rw [htake] at htaken
  obtain hless | hend := hs.take_less (by rw [hcomma]; nofun) htake
  · cases htaken with
    | ok hs₁ =>
        obtain ⟨hs₂, hle⟩ := assignment_le hs₁ h
        exact ⟨hs₂, Nat.lt_of_le_of_lt hle hless⟩
  · rw [rule_assignment_refused (.inl hend)] at h
    cases h

/-- Operands behind commas are read up to an `in`, and they do not use up the turns. -/
theorem operands_cutAtIn (fuel : Nat) (s : ParserState) (hs : Held s)
    (hfuel : s.stream.scanner.rest.length < fuel) :
    CutAtIn
      ((itemsUntil (do return !(← eat .comma)) (rule turns room (.assignment .noIn)) fuel).run s)
      ((itemsUntil (do return !(← eat .comma)) (rule turns room (.assignment .normal)) fuel).run
        s) := by
  induction fuel generalizing s with
  | zero => cases hfuel
  | succ fuel ih =>
      unfold itemsUntil
      refine .bind_same _ fun b s₁ hb => ?_
      cases b with
      | true => exact .same _
      | false =>
          obtain ⟨hcomma, htake⟩ := run_afterComma_ok hb
          refine (rule_assignment_cutAtIn turns room s₁).bind (fun e s₂ h => ?_)
            (fun e s₂ h hin => ?_) fun e => ?_
          · obtain ⟨hs₂, hless⟩ := operand_less hs hcomma htake h
            exact (ih s₂ hs₂ (by omega)).map fun rest => e :: rest
          · obtain ⟨hs₂, hless⟩ := operand_less hs hcomma htake h
            obtain ⟨fuel, rfl⟩ := Nat.exists_eq_succ_of_ne_zero (show fuel ≠ 0 by omega)
            refine ⟨[e], ?_⟩
            unfold itemsUntil
            rw [EStateM.run_bind, EStateM.run_bind, EStateM.run_bind,
              run_eat_of_ne (by rw [hin]; nofun)]
            rfl
          · exact .of_yields (Q := fun _ _ _ _ => True) fun _ s => .bind (P := fun _ _ _ => True)
              (.itemsUntil .afterComma (yields_rule turns room _) (fun _ _ _ => trivial)
                (fun _ _ _ _ _ _ _ _ _ => trivial) fuel s)
              fun _ _ => .pure fun _ _ _ _ _ => trivial

/-- A sequence goes on only behind a comma. -/
theorem sequenceRest_of_ne {inner : Inner} (first : Expression) (g : Grammar)
    (hk : s.current.kind ≠ .comma) : (sequenceRest inner turns first g).run s = .ok first s := by
  unfold sequenceRest
  rw [EStateM.run_bind, run_isAt]
  simp [hk]

theorem sequenceRest_cutAtIn (first : Expression) (hs : Held s)
    (hturns : s.stream.scanner.rest.length < turns) :
    CutAtIn ((sequenceRest (rule turns room) turns first .noIn).run s)
      ((sequenceRest (rule turns room) turns first .normal).run s) := by
  unfold sequenceRest
  rw [EStateM.run_bind, EStateM.run_bind, run_isAt]
  dsimp only
  split
  · exact (operands_cutAtIn turns s hs hturns).map fun rest => Expression.sequence (first :: rest)
  · exact .same _

/-- An expression is read up to an `in`. -/
theorem expression_cutAtIn (hs : Held s) (hturns : turnsFor s ≤ turns) :
    CutAtIn ((expression (rule turns room) turns .noIn).run s)
      ((expression (rule turns room) turns .normal).run s) := by
  refine (rule_assignment_cutAtIn turns room s).bind (fun first s₁ h => ?_)
    (fun first s₁ _ hin => ?_) fun first => ?_
  · obtain ⟨hs₁, hle⟩ := assignment_le hs h
    unfold turnsFor at hturns
    exact sequenceRest_cutAtIn first hs₁ (by omega)
  · exact ⟨first, sequenceRest_of_ne first .noIn (by simp [hin])⟩
  · exact .of_yields (Q := fun last => Derives last room (.sequenceRest first .normal)) fun _ s =>
      yields_sequenceRest (yields_rule turns room) first .normal s

/-- What stands behind an `in` that one variant stops at and the other one takes: the first variant
has closed all brackets and conditionals that it has opened. -/
theorem expression_at_bare_in {e : Expression}
    (h : (expression (rule turns room) turns .noIn).run s = .ok e s₁) :
    ∃ before, Moves s before s₁ [] ∧ opened [] before = [] := by
  obtain ⟨before, hm, hd⟩ := yields_expression (yields_rule turns room) .noIn s e s₁ h [] rfl
  exact ⟨before, hm, hd.opened_eq [] nofun⟩

/-- The variants of an expression are the ordinary one restricted, wherever a parser stands.

Without a brace at its head, an expression is read in the same way, unless a brace or `function`
stands there, which is refused.  Without `in` as an operator, an expression that fails fails in the
same way, and one that does not stop at `in` is the same.  If an expression is read in another way,
an `in` stands outside of all its brackets and outside of the middle operand of all its
conditionals. -/
theorem variants_restrict (room : Nat) (hs : Held s) (hturns : turnsFor s ≤ turns) :
    (s.current.kind ≠ .openBrace → s.current.kind ≠ .kwFunction →
      (expression (rule turns room) turns .noBrace).run s =
        (expression (rule turns room) turns .normal).run s) ∧
    (s.current.kind = .openBrace ∨ s.current.kind = .kwFunction →
      (expression (rule turns room) turns .noBrace).run s = .error
        (if room = 0 then ⟨.tooDeep s.depth, s.current.place⟩ else .ofToken s.current) s) ∧
    (∀ f s', (expression (rule turns room) turns .noIn).run s = .error f s' →
      (expression (rule turns room) turns .normal).run s = .error f s') ∧
    (∀ e s', (expression (rule turns room) turns .noIn).run s = .ok e s' →
      s'.current.kind ≠ .kwIn → (expression (rule turns room) turns .normal).run s = .ok e s') ∧
    (∀ e s', (expression (rule turns room) turns .normal).run s = .ok e s' →
      (expression (rule turns room) turns .noIn).run s = .ok e s' ∨
        ∃ e₁ s₁ before text after, (expression (rule turns room) turns .noIn).run s = .ok e₁ s₁ ∧
          Moves s before s₁ [] ∧ opened [] before = [] ∧
          Moves s₁ (.taken .kwIn text :: after) s' []) := by
  have hcut : CutAtIn ((expression (rule turns room) turns .noIn).run s) _ :=
    expression_cutAtIn hs hturns
  refine ⟨expression_noBrace, expression_noBrace_refused, fun f s' h => ?_, fun e s' h hne => ?_,
    fun e s' h => ?_⟩
  · rw [h] at hcut
    generalize (expression (rule turns room) turns .normal).run s = r at hcut
    cases hcut
    rfl
  · rw [h] at hcut
    generalize (expression (rule turns room) turns .normal).run s = r at hcut
    cases hcut with
    | same => rfl
    | cut hin => exact absurd hin hne
  · rw [h] at hcut
    cases hnoIn : (expression (rule turns room) turns .noIn).run s with
    | error f s₁ =>
        rw [hnoIn] at hcut
        cases hcut
    | ok e₁ s₁ =>
        rw [hnoIn] at hcut
        cases hcut with
        | same => exact .inl rfl
        | cut hin hgoes =>
            obtain ⟨text, after, hm⟩ := hgoes e s' rfl
            obtain ⟨before, hbefore, hclosed⟩ := expression_at_bare_in hnoIn
            exact .inr ⟨e₁, s₁, before, text, after, rfl, hbefore, hclosed, hm⟩

/-- The kind of the token at hand after a run that succeeds. -/
def kindAfter? : EStateM.Result Failure ParserState α → Option TokenKind
  | .ok _ s => some s.current.kind
  | .error _ _ => none

theorem exists_of_kindAfter? {r : EStateM.Result Failure ParserState α} {k : TokenKind}
    (h : kindAfter? r = some k) : ∃ a s, r = .ok a s ∧ s.current.kind = k := by
  cases r with
  | ok a s => exact ⟨a, s, rfl, Option.some.inj h⟩
  | error => cases h

/-- A parser at the beginning of a source. -/
def atStart (source : Text) : ParserState := finalState (take.run (ParserState.ofText source))

theorem held_atStart {source : Text} {k : TokenKind}
    (h : kindAfter? (take.run (ParserState.ofText source)) = some k) : Held (atStart source) := by
  obtain ⟨t, s, hrun, -⟩ := exists_of_kindAfter? h
  have hleaves : Leaves _ (take.run (ParserState.ofText source)) :=
    take_leaves (TokenStream.steady_ofText source)
  unfold atStart
  rw [hrun] at hleaves ⊢
  cases hleaves with
  | ok hs => exact hs

/-- An `in` in parentheses and one behind a question mark do not stand outside. -/
theorem variants_restrict_conditional : ∃ e s',
    (expression (rule 25 40) 25 .noIn).run (atStart "(a in b) ? c in d : e;".toList) = .ok e s' ∧
      (expression (rule 25 40) 25 .normal).run (atStart "(a in b) ? c in d : e;".toList) =
        .ok e s' := by
  have hs : Held (atStart "(a in b) ? c in d : e;".toList) :=
    held_atStart (k := .openParen) (by decide +kernel)
  have hend : kindAfter? ((expression (rule 25 40) 25 .noIn).run
      (atStart "(a in b) ? c in d : e;".toList)) = some .semicolon := by decide +kernel
  obtain ⟨e, s', h, hk⟩ := exists_of_kindAfter? hend
  refine ⟨e, s', h, (variants_restrict 40 hs (by decide +kernel)).2.2.2.1 e s' h ?_⟩
  rw [hk]
  nofun

end Parser
end EcmaSyntax
