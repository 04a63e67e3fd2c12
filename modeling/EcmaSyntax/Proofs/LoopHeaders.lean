import EcmaSyntax.Proofs.Variants

/-!
# Loop headers

**Headers.**  What follows `for (` is read in pieces: a left-hand side, and the rest of an
expression unless an `in` follows.  Only behind a prefix operator it is read as one expression.

**Levels.**  An expression opens a rule for its first operand, and the pieces in a header open none.
`Outlives` compares a run with one that has more room for rules: they end in the same way, unless
the former nests too deep.

**Readings.**  `HeaderRead` lists how a loop goes on, by what the expression in its header gives.
It is read off here in both directions.

**Results.**
* `run_expression_cases`: an expression nests too deep, or its first operand may be read without a
  rule of its own.
* `headerRead_forLoop`: a loop whose header starts with an expression is read as that says.
* `loop_header_agrees`: the same in terms of the functions of the parser alone.
-/

namespace EcmaSyntax
namespace Parser

variable {α β : Type} {turns room : Nat} {s s' s₁ : ParserState}

/-! ## Runs with more open rules -/

/-- A result with some open rules and a result with others are the same, or the first one nests too
deep. -/
inductive Outlives (n n' : Nat) :
    EStateM.Result Failure ParserState α → EStateM.Result Failure ParserState α → Prop
  | ok (a : α) (s : ParserState) : Outlives n n' (.ok a (atDepth s n)) (.ok a (atDepth s n'))
  | error (f : Failure) (s : ParserState) :
      Outlives n n' (.error f (atDepth s n)) (.error f (atDepth s n'))
  | tooDeep {f : Failure} {k : Nat} (s : ParserState)
      {r : EStateM.Result Failure ParserState α} : f.cause = .tooDeep k →
      Outlives n n' (.error f s) r

section Steps

variable {n n' : Nat}

theorem Outlives.bind {p p' : Parser α} {f f' : α → Parser β}
    (hp : Outlives n n' (p.run (atDepth s n)) (p'.run (atDepth s n')))
    (hf : ∀ a s₁, p.run (atDepth s n) = .ok a (atDepth s₁ n) →
      Outlives n n' ((f a).run (atDepth s₁ n)) ((f' a).run (atDepth s₁ n'))) :
    Outlives n n' ((p >>= f).run (atDepth s n)) ((p' >>= f').run (atDepth s n')) := by
  rw [EStateM.run_bind, EStateM.run_bind]
  generalize p.run (atDepth s n) = r at *
  generalize p'.run (atDepth s n') = r' at *
  cases hp with
  | ok a s₁ => exact hf a s₁ rfl
  | error f s₁ => exact .error f s₁
  | tooDeep s₁ hdeep => exact .tooDeep s₁ hdeep

theorem take_outlives (n n' : Nat) (s : ParserState) :
    Outlives n n' (take.run (atDepth s n)) (take.run (atDepth s n')) := by
  rw [run_take, run_take, stream_atDepth, stream_atDepth]
  cases TokenStream.next.run s.stream with
  | ok t stream => exact .ok s.current (advance s t stream)
  | error f stream => exact .error f (advance s s.current stream)

theorem endStatement_outlives (n n' : Nat) (s : ParserState) :
    Outlives n n' (endStatement.run (atDepth s n)) (endStatement.run (atDepth s n')) := by
  have htake := take_outlives n n' (atSemicolon s)
  rw [run_endStatement, run_endStatement, atSemicolon_atDepth, atSemicolon_atDepth, current_atDepth,
    current_atDepth]
  split
  · generalize take.run (atDepth (atSemicolon s) n) = r at htake
    generalize take.run (atDepth (atSemicolon s) n') = r' at htake
    cases htake with
    | ok t s₁ => exact .ok () s₁
    | error f s₁ => exact .error f s₁
    | tooDeep s₁ hdeep => exact .tooDeep s₁ hdeep
  · exact .error _ s

theorem regex_outlives (n n' : Nat) (slash : Token) (s : ParserState) :
    Outlives n n' ((regex slash).run (atDepth s n)) ((regex slash).run (atDepth s n')) := by
  unfold regex
  rw [EStateM.run_bind, EStateM.run_bind, run_step, run_step, stream_atDepth, stream_atDepth]
  cases (TokenStream.rescan slash).run s.stream with
  | error f stream => exact .error f { s with stream }
  | ok t stream =>
      have htake := take_outlives n n' { s with stream, current := t }
      exact Outlives.bind htake fun _ s₁ _ => .ok _ s₁

/-- Parsers in lockstep end in the same way if the rules inside them do. -/
theorem Lockstep.outlives {inner inner' : Inner} {credit : Nat} {known : Option Token}
    {p p' : Parser α} (h : Lockstep inner inner' credit known p p')
    (hinner : ∀ (r : Rule) (s : ParserState),
      Outlives n n' ((inner r).run (atDepth s n)) ((inner' r).run (atDepth s n')))
    (hknown : ∀ t ∈ known, s.current = t) :
    Outlives n n' (p.run (atDepth s n)) (p'.run (atDepth s n')) := by
  induction h generalizing s with
  | pure a => exact .ok a s
  | bind _ _ ihp ihf => exact (ihp hknown).bind fun a s₁ _ => ihf a (fun _ => nofun)
  | unexpected => exact .error (.ofToken s.current) s
  | look _ ih => exact ih s.current s.lastEnd fun t ht => Option.some.inj ht
  | take _ _ ih =>
      obtain rfl := hknown _ rfl
      refine (take_outlives n n' s).bind fun t s₁ ht => ?_
      obtain rfl := (run_take_ok.mp ht).1
      exact ih (fun _ => nofun)
  | @regex _ slash => exact regex_outlives n n' slash s
  | badNumber => exact .error _ s
  | endStatement => exact endStatement_outlives n n' s
  | pendingComments => exact .ok _ { s with stream.scanner.comments := [] }
  | inner r => exact hinner r s

theorem Outlives.deepen {p p' : Parser α}
    (h : Outlives (n + 1) (n' + 1) (p.run (atDepth s (n + 1))) (p'.run (atDepth s (n' + 1)))) :
    Outlives n n' ((Parser.deepen p).run (atDepth s n))
      ((Parser.deepen p').run (atDepth s n')) := by
  have hrun : p.run (atDepth (atDepth s n) ((atDepth s n).depth + 1)) =
      p.run (atDepth s (n + 1)) := rfl
  have hrun' : p'.run (atDepth (atDepth s n') ((atDepth s n').depth + 1)) =
      p'.run (atDepth s (n' + 1)) := rfl
  rw [run_deepen, run_deepen, hrun, hrun']
  generalize p.run (atDepth s (n + 1)) = r at h
  generalize p'.run (atDepth s (n' + 1)) = r' at h
  cases h with
  | ok a s₁ => exact .ok a s₁
  | error f s₁ => exact .error f s₁
  | tooDeep s₁ hdeep => exact .tooDeep _ hdeep

end Steps

/-- A rule with less room ends as the rule with more room, or it nests too deep. -/
theorem rule_outlives (turns room n n' : Nat) (r : Rule) (s : ParserState) :
    Outlives n n' ((rule turns room r).run (atDepth s n))
      ((rule turns (room + 1) r).run (atDepth s n')) := by
  induction room generalizing n n' r s with
  | zero => exact .tooDeep _ rfl
  | succ room ih =>
      have hbody : Lockstep (rule turns room) (rule turns (room + 1)) (r.weight - 1) none
          (ruleBody (rule turns room) turns r) (ruleBody (rule turns (room + 1)) turns r) :=
        lockstep_ruleBody r
      exact Outlives.deepen (hbody.outlives (fun r s => ih (n + 1) (n' + 1) r s) (fun _ => nofun))

/-- A run nests too deep. -/
def NestsTooDeep (r : EStateM.Result Failure ParserState α) : Prop :=
  ∃ f s k, r = .error f s ∧ f.cause = .tooDeep k

/-- An assignment nests too deep, or it is read as it is without opening a rule for it. -/
theorem run_assignment_cases (turns room : Nat) (g : Grammar) (s : ParserState) :
    NestsTooDeep ((rule turns room (.assignment g)).run s) ∨
      (rule turns room (.assignment g)).run s = (assignment (rule turns room) turns g).run s := by
  cases room with
  | zero => exact .inl ⟨_, s, _, rfl, rfl⟩
  | succ room =>
      have hbody : Lockstep (rule turns room) (rule turns (room + 1)) 1 none
          (assignment (rule turns room) turns g) (assignment (rule turns (room + 1)) turns g) :=
        lockstep_assignment (Nat.le_refl 1) g
      have houtlives : Outlives (s.depth + 1) s.depth
          ((assignment (rule turns room) turns g).run (atDepth s (s.depth + 1)))
          ((assignment (rule turns (room + 1)) turns g).run (atDepth s s.depth)) :=
        hbody.outlives (rule_outlives turns room _ _) (fun _ => nofun)
      rw [atDepth_depth] at houtlives
      rw [run_assignment_succ, run_deepen]
      generalize (assignment (rule turns room) turns g).run (atDepth s (s.depth + 1)) = r
        at houtlives
      generalize (assignment (rule turns (room + 1)) turns g).run s = r' at houtlives
      cases houtlives with
      | ok a s₁ => exact .inr rfl
      | error f s₁ => exact .inr rfl
      | tooDeep s₁ hdeep => exact .inl ⟨_, _, _, rfl, hdeep⟩

/-- An expression nests too deep, or its first operand is read without opening a rule for it. -/
theorem run_expression_cases (turns room : Nat) (g : Grammar) (s : ParserState) :
    NestsTooDeep ((expression (rule turns room) turns g).run s) ∨
      (expression (rule turns room) turns g).run s =
        (assignment (rule turns room) turns g >>= fun first =>
          sequenceRest (rule turns room) turns first g).run s := by
  unfold expression
  rw [EStateM.run_bind, EStateM.run_bind]
  obtain ⟨f, s₁, k, hrun, hcause⟩ | heq := run_assignment_cases turns room g s
  · rw [hrun]
    exact .inl ⟨f, s₁, k, rfl, hcause⟩
  · rw [heq]
    exact .inr rfl

/-! ## Pieces of a header -/

section Pieces

variable {inner : Inner}

/-- Behind an opening parenthesis, a header starts with an expression unless a semicolon or `var`
stands there. -/
theorem run_forLoop_expression {s₀ : ParserState} {t t₁ : Token}
    (hfor : (expect .kwFor).run s₀ = .ok t s₁) (hparen : (expect .openParen).run s₁ = .ok t₁ s)
    (hsemicolon : s.current.kind ≠ .semicolon) (hvar : s.current.kind ≠ .kwVar) :
    (forLoop inner turns).run s₀ =
      (if s.current.kind.isPrefixOperator then forPrefixed inner turns
        else forTarget inner turns).run s := by
  unfold forLoop
  rw [EStateM.run_bind, hfor]
  dsimp only
  rw [EStateM.run_bind, hparen]
  dsimp only
  rw [EStateM.run_bind, run_kind]
  dsimp only
  rw [if_neg hsemicolon, if_neg hvar]

/-- Behind a prefix operator, a header is an expression with the rest of a header of three
clauses. -/
theorem forPrefixed_eq : forPrefixed inner turns =
    expression inner turns .noIn >>= fun e => forRest inner turns (some (.expression e)) := by
  unfold forPrefixed expression
  rw [bind_assoc]

/-- What starts with a prefix operator is no left-hand side. -/
theorem leftHandSide_prefixed {g : Grammar} (hk : s.current.kind.isPrefixOperator = true) :
    (leftHandSide inner turns g).run s = .error (.ofToken s.current) s := by
  unfold leftHandSide chainHead primary
  cases hkind : s.current.kind <;> rw [hkind] at hk <;> first
    | exact absurd hk Bool.false_ne_true
    | simp [EStateM.run_bind, hkind]

/-- A chain of calls takes a turn for its end. -/
theorem turns_ne_zero_of_leftHandSide {g : Grammar} {e : Expression}
    (h : (leftHandSide inner turns g).run s = .ok e s') : turns ≠ 0 := by
  rintro rfl
  obtain ⟨head, s₁, -, h⟩ := run_bind_ok.mp h
  obtain ⟨base, s₂, hbase, -⟩ := run_bind_ok.mp h
  cases hbase

/-- An `in` behind a left-hand side is neither an assignment nor an operator of the variant. -/
theorem assignmentRest_at_in (left : Expression) (hturns : turns ≠ 0)
    (hk : s.current.kind = .kwIn) :
    (assignmentRest (rule turns room) turns left .noIn).run s = .ok left s := by
  unfold assignmentRest postfixed operatorsRest
  rw [EStateM.run_bind, run_kind, hk]
  simp [EStateM.run_bind, hk, TokenKind.assignOperator?, TokenKind.postfixOperator?,
    binary_at_in left 0 hturns hk, conditionalRest_at_in left .noIn hk]

theorem run_expect_of_ne {k : TokenKind} (h : s.current.kind ≠ k) :
    (expect k).run s = .error (.ofToken s.current) s := by
  unfold expect
  rw [EStateM.run_bind, run_isAt]
  simp [h]

/-- A header of three clauses does not go on at `in`. -/
theorem forRest_at_in (init : Option ForInit) (hk : s.current.kind = .kwIn) :
    (forRest inner turns init).run s = .error (.ofToken s.current) s := by
  unfold forRest
  rw [EStateM.run_bind, run_expect_of_ne (by rw [hk]; nofun)]

/-- The rest of a header of three clauses makes a loop with the clause it was given. -/
theorem forRest_ok {init : Option ForInit} {loop : Statement}
    (h : (forRest inner turns init).run s = .ok loop s') :
    ∃ test update body, loop = .forLoop init test update body := by
  obtain ⟨_, _, -, h⟩ := run_bind_ok.mp h
  obtain ⟨test, _, -, h⟩ := run_bind_ok.mp h
  obtain ⟨_, _, -, h⟩ := run_bind_ok.mp h
  obtain ⟨update, _, -, h⟩ := run_bind_ok.mp h
  obtain ⟨_, _, -, h⟩ := run_bind_ok.mp h
  obtain ⟨body, _, -, h⟩ := run_bind_ok.mp h
  cases h
  exact ⟨test, update, body, rfl⟩

/-- The rest of an enumeration makes a loop with the target it was given. -/
theorem forInRest_ok {target : ForTarget} {loop : Statement}
    (h : (forInRest inner turns target).run s = .ok loop s') :
    ∃ object body, loop = .forIn target object body := by
  obtain ⟨object, _, -, h⟩ := run_bind_ok.mp h
  obtain ⟨_, _, -, h⟩ := run_bind_ok.mp h
  obtain ⟨body, _, -, h⟩ := run_bind_ok.mp h
  cases h
  exact ⟨object, body, rfl⟩

end Pieces

/-! ## Headers -/

/-- How a loop is read, by the result for the expression that its header starts with at a state. -/
inductive HeaderRead (turns room : Nat) (s : ParserState) :
    EStateM.Result Failure ParserState Expression → EStateM.Result Failure ParserState Statement →
      Prop
  /-- Nothing is said of an expression that nests too deep. -/
  | tooDeep {f : Failure} {s' : ParserState} {k : Nat}
      {loop : EStateM.Result Failure ParserState Statement} : f.cause = .tooDeep k →
      HeaderRead turns room s (.error f s') loop
  | fails (f : Failure) (s' : ParserState) : HeaderRead turns room s (.error f s') (.error f s')
  | target {e : Expression} {s' : ParserState} :
      (leftHandSide (rule turns room) turns .noIn).run s = .ok e s' → s'.current.kind = .kwIn →
      HeaderRead turns room s (.ok e s')
        ((take >>= fun _ => forInRest (rule turns room) turns (.expression e)).run s')
  | clause {e : Expression} {s' : ParserState} :
      (s'.current.kind = .kwIn → (leftHandSide (rule turns room) turns .noIn).run s ≠ .ok e s') →
      HeaderRead turns room s (.ok e s')
        ((forRest (rule turns room) turns (some (.expression e))).run s')

/-- A parser with the rest of a header of three clauses, if no `in` stands right behind a left-hand
side. -/
theorem HeaderRead.of_bind {p : Parser Expression}
    (hnone : ∀ left s', (leftHandSide (rule turns room) turns .noIn).run s = .ok left s' →
      s'.current.kind ≠ .kwIn) :
    HeaderRead turns room s (p.run s₁)
      ((p >>= fun e => forRest (rule turns room) turns (some (.expression e))).run s₁) := by
  rw [EStateM.run_bind]
  cases p.run s₁ with
  | ok e s' => exact .clause fun hin hleft => hnone e s' hleft hin
  | error f s' => exact .fails f s'

theorem run_forPrefixed (hprefixed : s.current.kind.isPrefixOperator = true) :
    HeaderRead turns room s ((expression (rule turns room) turns .noIn).run s)
      ((forPrefixed (rule turns room) turns).run s) := by
  rw [forPrefixed_eq]
  refine .of_bind fun left s' hleft => ?_
  rw [leftHandSide_prefixed hprefixed] at hleft
  cases hleft

theorem run_forTarget (hprefixed : ¬ s.current.kind.isPrefixOperator = true) :
    HeaderRead turns room s ((expression (rule turns room) turns .noIn).run s)
      ((forTarget (rule turns room) turns).run s) := by
  obtain ⟨f, s', k, hdeep, hcause⟩ | hflat := run_expression_cases turns room .noIn s
  · rw [hdeep]
    exact .tooDeep hcause
  have hpieces : (expression (rule turns room) turns .noIn).run s =
      (leftHandSide (rule turns room) turns .noIn >>= fun left =>
        assignmentRest (rule turns room) turns left .noIn >>= fun first =>
          sequenceRest (rule turns room) turns first .noIn).run s := by
    rw [hflat, assignment, bind_assoc, EStateM.run_bind, run_kind]
    dsimp only
    rw [if_neg hprefixed, bind_assoc]
  rw [hpieces]
  unfold forTarget
  rw [EStateM.run_bind, EStateM.run_bind]
  cases hleft : (leftHandSide (rule turns room) turns .noIn).run s with
  | error f s' => exact .fails f s'
  | ok left s₂ =>
      dsimp only
      by_cases hin : s₂.current.kind = .kwIn
      · have hflat : (assignmentRest (rule turns room) turns left .noIn >>= fun first =>
            sequenceRest (rule turns room) turns first .noIn).run s₂ = .ok left s₂ := by
          rw [EStateM.run_bind,
            assignmentRest_at_in left (turns_ne_zero_of_leftHandSide hleft) hin]
          exact sequenceRest_of_ne left .noIn (by rw [hin]; nofun)
        have heat : (eat .kwIn).run s₂ = (take >>= fun _ => pure true).run s₂ := by
          unfold eat
          rw [EStateM.run_bind, run_isAt]
          simp only [hin, decide_true, if_true]
        rw [hflat, EStateM.run_bind, heat, ← EStateM.run_bind, bind_assoc]
        exact .target hleft hin
      · rw [EStateM.run_bind (eat .kwIn), run_eat_of_ne hin]
        simp only [Bool.false_eq_true, if_false]
        rw [← bind_assoc]
        refine .of_bind fun left' s' hleft' => ?_
        cases hleft.symm.trans hleft'
        exact hin

/-- A loop whose header starts with an expression is read as the expression says. -/
theorem headerRead_forLoop {s₀ : ParserState} {t t₁ : Token}
    (hfor : (expect .kwFor).run s₀ = .ok t s₁) (hparen : (expect .openParen).run s₁ = .ok t₁ s)
    (hsemicolon : s.current.kind ≠ .semicolon) (hvar : s.current.kind ≠ .kwVar) :
    HeaderRead turns room s ((expression (rule turns room) turns .noIn).run s)
      ((forLoop (rule turns room) turns).run s₀) := by
  rw [run_forLoop_expression hfor hparen hsemicolon hvar]
  by_cases hprefixed : s.current.kind.isPrefixOperator = true
  · rw [if_pos hprefixed]
    exact run_forPrefixed hprefixed
  · rw [if_neg hprefixed]
    exact run_forTarget hprefixed

section Readings

variable {e : Expression} {loop : EStateM.Result Failure ParserState Statement}
  {head : EStateM.Result Failure ParserState Expression}

theorem HeaderRead.clause_of_ne (h : HeaderRead turns room s (.ok e s') loop)
    (hne : s'.current.kind ≠ .kwIn) :
    loop = (forRest (rule turns room) turns (some (.expression e))).run s' := by
  cases h with
  | target _ hin => exact absurd hin hne
  | clause => rfl

theorem HeaderRead.target_of_leftHandSide (h : HeaderRead turns room s (.ok e s') loop)
    (hin : s'.current.kind = .kwIn)
    (hleft : (leftHandSide (rule turns room) turns .noIn).run s = .ok e s') :
    loop = (take >>= fun _ => forInRest (rule turns room) turns (.expression e)).run s' := by
  cases h with
  | target => rfl
  | clause hnone => exact absurd hleft (hnone hin)

theorem HeaderRead.refused (h : HeaderRead turns room s (.ok e s') loop)
    (hin : s'.current.kind = .kwIn)
    (hleft : (leftHandSide (rule turns room) turns .noIn).run s ≠ .ok e s') :
    loop = .error (.ofToken s'.current) s' := by
  cases h with
  | target hleft' => exact absurd hleft' hleft
  | clause => exact forRest_at_in _ hin

theorem HeaderRead.fails_of_error {f : Failure} (h : HeaderRead turns room s (.error f s') loop)
    (hcause : ∀ k, f.cause ≠ .tooDeep k) : loop = .error f s' := by
  cases h with
  | tooDeep hdeep => exact absurd hdeep (hcause _)
  | fails => rfl

theorem HeaderRead.clause_ok {test update : Option Expression} {body : Statement}
    (h : HeaderRead turns room s head loop)
    (hloop : loop = .ok (.forLoop (some (.expression e)) test update body) s') :
    NestsTooDeep head ∨ ∃ s₁, head = .ok e s₁ ∧
      (forRest (rule turns room) turns (some (.expression e))).run s₁ =
        .ok (.forLoop (some (.expression e)) test update body) s' := by
  cases h with
  | tooDeep hdeep => exact .inl ⟨_, _, _, rfl, hdeep⟩
  | fails => cases hloop
  | target =>
      obtain ⟨_, _, -, hrest⟩ := run_bind_ok.mp hloop
      obtain ⟨_, _, heq⟩ := forInRest_ok hrest
      cases heq
  | @clause _ s₁ =>
      obtain ⟨_, _, _, heq⟩ := forRest_ok hloop
      cases heq
      exact .inr ⟨s₁, rfl, hloop⟩

theorem HeaderRead.target_ok {object : Expression} {body : Statement}
    (h : HeaderRead turns room s head loop)
    (hloop : loop = .ok (.forIn (.expression e) object body) s') :
    NestsTooDeep head ∨ ∃ s₁, head = .ok e s₁ ∧ s₁.current.kind = .kwIn ∧
      (take >>= fun _ => forInRest (rule turns room) turns (.expression e)).run s₁ =
        .ok (.forIn (.expression e) object body) s' := by
  cases h with
  | tooDeep hdeep => exact .inl ⟨_, _, _, rfl, hdeep⟩
  | fails => cases hloop
  | @target _ s₁ _ hin =>
      obtain ⟨_, _, -, hrest⟩ := run_bind_ok.mp hloop
      obtain ⟨_, _, heq⟩ := forInRest_ok hrest
      cases heq
      exact .inr ⟨s₁, rfl, hin, hloop⟩
  | clause =>
      obtain ⟨_, _, _, heq⟩ := forRest_ok hloop
      cases heq

end Readings

/-- A loop whose header starts with an expression does what the expression says, read as a whole and
without `in` as an operator.

The expression is the first of three clauses unless it stops at `in`.  If it stops there, it is a
target if it is a left-hand side, and the `in` is refused if it is not.  If it fails, so does the
loop, unless it nests too deep: the pieces in the header have one more rule open to them.  The other
way round, a clause or a target that a loop has is what the expression gives, with the same
exception. -/
theorem loop_header_agrees (turns room : Nat) {s₀ s₁ s : ParserState} {t t₁ : Token}
    (hfor : (expect .kwFor).run s₀ = .ok t s₁) (hparen : (expect .openParen).run s₁ = .ok t₁ s)
    (hsemicolon : s.current.kind ≠ .semicolon) (hvar : s.current.kind ≠ .kwVar) :
    (∀ e s', (expression (rule turns room) turns .noIn).run s = .ok e s' →
      s'.current.kind ≠ .kwIn →
      (forLoop (rule turns room) turns).run s₀ =
        (forRest (rule turns room) turns (some (.expression e))).run s') ∧
    (∀ e s', (expression (rule turns room) turns .noIn).run s = .ok e s' →
      s'.current.kind = .kwIn → (leftHandSide (rule turns room) turns .noIn).run s = .ok e s' →
      (forLoop (rule turns room) turns).run s₀ =
        (take >>= fun _ => forInRest (rule turns room) turns (.expression e)).run s') ∧
    (∀ e s', (expression (rule turns room) turns .noIn).run s = .ok e s' →
      s'.current.kind = .kwIn → (leftHandSide (rule turns room) turns .noIn).run s ≠ .ok e s' →
      (forLoop (rule turns room) turns).run s₀ = .error (.ofToken s'.current) s') ∧
    (∀ f s', (expression (rule turns room) turns .noIn).run s = .error f s' →
      (∀ k, f.cause ≠ .tooDeep k) → (forLoop (rule turns room) turns).run s₀ = .error f s') ∧
    (∀ e test update body s', (forLoop (rule turns room) turns).run s₀ =
        .ok (.forLoop (some (.expression e)) test update body) s' →
      NestsTooDeep ((expression (rule turns room) turns .noIn).run s) ∨
        ∃ s₂, (expression (rule turns room) turns .noIn).run s = .ok e s₂ ∧
          (forRest (rule turns room) turns (some (.expression e))).run s₂ =
            .ok (.forLoop (some (.expression e)) test update body) s') ∧
    (∀ e object body s', (forLoop (rule turns room) turns).run s₀ =
        .ok (.forIn (.expression e) object body) s' →
      NestsTooDeep ((expression (rule turns room) turns .noIn).run s) ∨
        ∃ s₂, (expression (rule turns room) turns .noIn).run s = .ok e s₂ ∧
          s₂.current.kind = .kwIn ∧
          (take >>= fun _ => forInRest (rule turns room) turns (.expression e)).run s₂ =
            .ok (.forIn (.expression e) object body) s') := by
  have hread : HeaderRead turns room s ((expression (rule turns room) turns .noIn).run s)
      ((forLoop (rule turns room) turns).run s₀) :=
    headerRead_forLoop hfor hparen hsemicolon hvar
  refine ⟨fun e s' he => ?_, fun e s' he => ?_, fun e s' he => ?_, fun f s' he => ?_,
    fun e test update body s' => hread.clause_ok, fun e object body s' => hread.target_ok⟩
  all_goals rw [he] at hread
  · exact hread.clause_of_ne
  · exact hread.target_of_leftHandSide
  · exact hread.refused
  · exact hread.fails_of_error

/-- An `in` behind a sum is refused, since a sum is no target. -/
theorem loop_header_agrees_sum : ∃ s', s'.current.kind = .kwIn ∧
    (forLoop (rule 30 40) 30).run (atStart "for (a + b in c) d;".toList) =
      .error (.ofToken s'.current) s' := by
  have hopen : kindAfter? ((expect .kwFor >>= fun _ => expect .openParen).run
      (atStart "for (a + b in c) d;".toList)) = some .identifier := by decide +kernel
  have hsum : kindAfter? (((expect .kwFor >>= fun _ => expect .openParen) >>= fun _ =>
      expression (rule 30 40) 30 .noIn).run (atStart "for (a + b in c) d;".toList)) =
        some .kwIn := by
    decide +kernel
  have hleft : kindAfter? (((expect .kwFor >>= fun _ => expect .openParen) >>= fun _ =>
      leftHandSide (rule 30 40) 30 .noIn).run (atStart "for (a + b in c) d;".toList)) =
        some .plus := by
    decide +kernel
  obtain ⟨t₁, s, h, hk⟩ := exists_of_kindAfter? hopen
  obtain ⟨t, s₁, hfor, hparen⟩ := run_bind_ok.mp h
  rw [EStateM.run_bind, h] at hsum hleft
  obtain ⟨e, s', he, hin⟩ := exists_of_kindAfter? hsum
  refine ⟨s', hin, (loop_header_agrees 30 40 hfor hparen (by rw [hk]; nofun)
    (by rw [hk]; nofun)).2.2.1 e s' he hin fun hleft' => ?_⟩
  dsimp only at hleft
  rw [hleft', kindAfter?, hin] at hleft
  cases hleft

end Parser
end EcmaSyntax
