import EcmaSyntax.Proofs.Completion.Expressions

/-!
# Completions of statements

**Results.**
* Each function that parses a statement or a part of one completes what it leaves unfinished, if
  the rules one level deeper do.
* `completes_rule`: every rule completes what it leaves unfinished, with one more level of room.
-/

namespace EcmaSyntax
namespace Parser

open Printer (sign ending)
open Completion (name)

variable {room turns : Nat} {inner : Inner}

section Statements

variable (hinner : Completing room inner)
include hinner

/-! ## Simple statements -/

theorem completes_declarator (g : Grammar) (s : ParserState) :
    CompletesBy [name] s (declarator inner g) follows
      (Derives .endOfInput room (.declarator g)) := by
  unfold declarator
  refine .bind .bindingName fun name s₁ => .orNothing (a := ⟨name, none⟩)
    (.ifEat rfl (fun s₂ => .bindBefore (hinner (.assignment g) s₂) (fun value s₃ => .pure ?_)
      fun _ hk => hk) fun h => .pure ?_) ?_
  · rintro r m hv t i rfl
    exact .declaratorInit hv
  · rintro r hr i rfl
    exact .declaratorPlain (by rwa [hr])
  · rintro r hr i rfl
    exact .declaratorPlain (ne_of_follows hr rfl)

theorem completes_declarators (g : Grammar) (s : ParserState) :
    CompletesBy [name] s (declarators inner turns g) follows
      (Derives .endOfInput room (.declarators g)) := by
  unfold declarators
  refine .bindBefore (completes_declarator hinner g s) (fun d s₁ =>
    .bindBefore (.afterCommas (L := Derives .endOfInput room (.declaratorsRest g))
      (completes_declarator hinner g) (by decide) (fun _ => .declaratorsEnd)
      (fun _ _ _ _ _ _ => .declaratorsMore) turns s₁) (fun ds s₂ => .pure ?_) fun _ hk => hk)
      fun _ hk => hk
  intro r m hds i hd
  exact .declarators hd hds

theorem completes_varDeclaration (s : ParserState) :
    CompletesBy [sign .kwVar, name, ending] s (varDeclaration inner turns) anyKind
      (Derives .endOfInput room (.body .statement)) := by
  unfold varDeclaration
  refine .bind (.expect rfl) fun t s₁ => .bindBefore (completes_declarators hinner .normal s₁)
    (fun ds s₂ => .bind (.endStatement room) fun _ s₃ => .pure ?_) fun _ _ => rfl
  rintro r m hend m' hds i rfl
  exact .declare hds hend

omit hinner in
theorem completes_empty (s : ParserState) (hk : s.current.kind = .semicolon) :
    Completes s empty anyKind (Derives .endOfInput room (.body .statement)) := by
  unfold empty
  refine .bind (P := fun i t r => i = .taken .semicolon s.current.text :: r)
    (.take (by rw [hk]; rfl) fun _ => by rw [hk]) fun t s₁ => .pure ?_
  rintro r i - rfl
  exact .empty

omit hinner in
theorem completes_debugger (s : ParserState) (hk : s.current.kind = .kwDebugger) :
    Completes s debugger anyKind (Derives .endOfInput room (.body .statement)) := by
  unfold debugger
  refine .bind (P := fun i t r => i = .taken .kwDebugger s.current.text :: r)
    (.take (by rw [hk]; rfl) fun _ => by rw [hk]) fun t s₁ =>
      .bind (.endStatement room) fun _ s₂ => .pure ?_
  rintro r m hend i - rfl
  exact .debugger hend

/-! ## Branches and loops -/

theorem completes_ifElse (s : ParserState) :
    CompletesBy [sign .kwIf, sign .openParen, name, sign .closeParen, sign .semicolon] s
      (ifElse inner turns) follows (Derives .endOfInput room (.body .statement)) := by
  unfold ifElse
  refine .bind (.expect rfl) fun t s₁ => .bind (completes_parenthesized hinner s₁) fun test s₂ =>
    .bindBefore (hinner .statement s₂) (fun consequent s₃ => .orNothing
      (a := .ifElse test consequent none) (.ifEat rfl (fun s₄ => .bindBefore (hinner .statement s₄)
        (fun alternate s₅ => .pure ?_) fun _ hk => hk) fun h => .pure ?_) ?_) fun _ hk => hk
  · rintro r m ha t' m' hc i htest i' rfl
    exact .ifElse htest hc ha
  · rintro r hr m hc i htest i' rfl
    exact .ifThen htest hc (by rwa [hr])
  · rintro r hr m hc i htest i' rfl
    exact .ifThen htest hc (ne_of_follows hr rfl)

theorem completes_doWhile (s : ParserState) :
    CompletesBy [sign .kwDo, sign .semicolon, sign .kwWhile, sign .openParen, name,
        sign .closeParen, ending] s (doWhile inner turns) anyKind
      (Derives .endOfInput room (.body .statement)) := by
  unfold doWhile
  refine .bind (.expect rfl) fun t s₁ => .bindBefore (hinner .statement s₁) (fun body s₂ =>
    .bind (.expect rfl) fun t' s₃ => .bind (completes_parenthesized hinner s₃) fun test s₄ =>
      .bind (.endStatement room) fun _ s₅ => .pure ?_) fun _ _ => rfl
  rintro r m' hend m htest i rfl i' hb i'' rfl
  exact .doWhile hb htest hend

theorem completes_whileDo (s : ParserState) :
    CompletesBy [sign .kwWhile, sign .openParen, name, sign .closeParen, sign .semicolon] s
      (whileDo inner turns) follows (Derives .endOfInput room (.body .statement)) := by
  unfold whileDo
  refine .bind (.expect rfl) fun t s₁ => .bind (completes_parenthesized hinner s₁) fun test s₂ =>
    .bindBefore (hinner .statement s₂) (fun body s₃ => .pure ?_) fun _ hk => hk
  rintro r m hb i htest i' rfl
  exact .whileDo htest hb

theorem completes_expressionBefore {close : TokenKind} (hclose : follows close) (s : ParserState) :
    CompletesBy [] s (expressionBefore inner turns close) (fun k => k = close)
      (Derives .endOfInput room (.expressionBefore close)) := by
  refine .orNothing (a := none) ?_ fun r hr => .expressionAbsent (by simpa using hr)
  unfold expressionBefore
  refine .isAt ?_
  by_cases h : s.current.kind = close
  · simp only [h, decide_true, if_true]
    exact .pure fun r hr => .expressionAbsent (hr.trans h)
  · simp only [h, decide_false, Bool.false_eq_true, if_false]
    refine .map ((completes_expression hinner .normal s).toCompletes.mono (fun k hk => ?_)
      fun _ _ _ _ he => he) fun i e r hi he => .expressionPresent ?_ he
    · rwa [of_decide_eq_true hk]
    · rwa [hi]

/-- A word of the rest of a header with three clauses, with a body behind it. -/
def forRestSample : List Item :=
  [sign .semicolon, sign .semicolon, sign .closeParen, sign .semicolon]

theorem completes_forRest (init : Option ForInit) (s : ParserState) :
    CompletesBy forRestSample s (forRest inner turns init) follows
      (Derives .endOfInput room (.forRest init)) := by
  unfold forRest
  refine .bind (.expect rfl) fun t s₁ => .bindBefore (completes_expressionBefore hinner rfl s₁)
    (fun test s₂ => .bind (.expect rfl) fun t' s₃ => .bindBefore
      (completes_expressionBefore hinner rfl s₃) (fun update s₄ => .bind (.expect rfl)
        fun t'' s₅ => .bindBefore (hinner .statement s₅) (fun body s₆ => .pure ?_)
          fun _ hk => hk) fun _ _ => rfl) fun _ _ => rfl
  rintro r m hb m₁ rfl m₂ hu m₃ rfl m₄ htest i rfl
  exact .forRest htest hu hb

theorem completes_forInRest (target : ForTarget) (s : ParserState) :
    CompletesBy [name, sign .closeParen, sign .semicolon] s (forInRest inner turns target) follows
      (Derives .endOfInput room (.forInRest target)) := by
  unfold forInRest
  refine .bindBefore (completes_expression hinner .normal s) (fun object s₁ => .bind (.expect rfl)
    fun t s₂ => .bindBefore (hinner .statement s₂) (fun body s₃ => .pure ?_) fun _ hk => hk)
    fun _ _ => rfl
  rintro r m hb m' rfl i ho
  exact .forInRest ho hb

theorem completes_forVariables (s : ParserState) (hk : s.current.kind = .kwVar) :
    Completes s (forVariables inner turns) follows (Derives .endOfInput room .forHeader) := by
  unfold forVariables
  refine .bind (P := fun i t r => i = .taken .kwVar s.current.text :: r)
    (.take (by rw [hk]; rfl) fun _ => by rw [hk]) fun t s₁ =>
      .bindBefore (completes_declarators hinner .noIn s₁) (fun ds s₂ =>
        (⟨?_, fun rest hrest => ?_⟩ : CompletesBy forRestSample s₂ _ _ _)) fun _ _ => rfl
  · by_cases hd : ∃ d, ds = [d]
    · obtain ⟨d, rfl⟩ := hd
      refine .ifEat rfl (fun s₃ => (completes_forInRest hinner (.declared d) s₃).mono ?_)
        fun hne => (completes_forRest hinner _ s₂).toCompletes.mono (fun _ hk => hk) ?_
      · rintro m a r ha t' i hd i' - rfl
        exact .forInVariable hd ha
      · rintro m a r hm ha i hd i' - rfl
        exact .forVariables hd (fun h => hne (hm.symm.trans h.2)) ha
    · have hrest : Completes s₂ (forRest inner turns (some (.declared ds))) follows
          fun mid b rest => ∀ i, Derives .endOfInput room (.declarators .noIn) i ds mid →
            ∀ i', peek .endOfInput i' = s.current.kind → i' = .taken .kwVar s.current.text :: i →
              Derives .endOfInput room .forHeader i' b rest := by
        refine (completes_forRest hinner _ s₂).toCompletes.mono (fun _ hk => hk) ?_
        rintro m a r - ha i hds i' - rfl
        refine .forVariables hds (fun h => hd ?_) ha
        exact List.length_eq_one_iff.mp h.1
      match ds, hd, hrest with
      | [], _, hrest => exact hrest
      | [d], hd, _ => exact absurd ⟨d, rfl⟩ hd
      | _ :: _ :: _, _, hrest => exact hrest
  · have hrestOf : CompletesBy _ s₂ (forRest inner turns (some (.declared ds))) _ _ :=
      completes_forRest hinner _ s₂
    obtain ⟨hw, b, hb⟩ := hrestOf.whole rest hrest
    refine ⟨hw, b, ?_⟩
    rintro i hds i' - rfl
    exact .forVariables hds (fun h => absurd h.2 (show TokenKind.semicolon ≠ _ by decide)) hb

theorem completes_forPrefixed (s : ParserState) (hk : s.current.kind.isPrefixOperator) :
    Completes s (forPrefixed inner turns) follows (Derives .endOfInput room .forHeader) := by
  unfold forPrefixed
  refine .bindBefore (hinner (.assignment .noIn) s).toCompletes (fun first s₁ =>
    .bindBefore (completes_sequenceRest hinner first .noIn s₁) (fun e s₂ =>
      (completes_forRest hinner (some (.expression e)) s₂).mono ?_) fun _ _ => rfl) fun _ _ => rfl
  rintro m' a r ha m he i hi hfirst
  exact .forPrefixed (by rw [hi]; exact hk) hfirst he ha

theorem completes_forTarget (s : ParserState) (hs : s.current.kind ≠ .semicolon)
    (hv : s.current.kind ≠ .kwVar) (hp : s.current.kind.isPrefixOperator = false) :
    Completes s (forTarget inner turns) follows (Derives .endOfInput room .forHeader) := by
  have hplain (left : Expression) (s₁ : ParserState) : CompletesBy forRestSample s₁ (do
      let first ← assignmentRest inner turns left .noIn
      let e ← sequenceRest inner turns first .noIn
      forRest inner turns (some (.expression e))) follows fun m a r =>
        peek .endOfInput m ≠ .kwIn → ∀ i, peek .endOfInput i = s.current.kind →
          Derives .endOfInput room (.leftHandSide .noIn) i left m →
            Derives .endOfInput room .forHeader i a r := by
    refine .bindBefore (completes_assignmentRest hinner left .noIn s₁) (fun first s₂ =>
      .bindBefore (completes_sequenceRest hinner first .noIn s₂) (fun e s₃ =>
        (completes_forRest hinner (some (.expression e)) s₃).mono ?_) fun _ _ => rfl)
        fun _ _ => rfl
    rintro m₂ a r ha m₁ he m hfirst hne i hi hl
    exact .forExpression (by rwa [hi]) (by rwa [hi]) (by rwa [hi]) hl hne hfirst he ha
  unfold forTarget
  refine .bindBefore (completes_leftHandSide hinner .noIn s).toCompletes (fun left s₁ =>
    (⟨?_, fun rest hrest => ?_⟩ : CompletesBy forRestSample s₁ _ _ _)) fun _ _ => rfl
  · refine .ifEat rfl (fun s₂ => (completes_forInRest hinner (.expression left) s₂).mono ?_)
      fun hne => (hplain left s₁).toCompletes.mono (fun _ hk => hk) ?_
    · rintro m a r ha t i hi hl
      exact .forInExpression (by rwa [hi]) (by rwa [hi]) (by rwa [hi]) hl ha
    · intro m a r hm ha
      exact ha (by rwa [hm])
  · obtain ⟨hw, b, hb⟩ := (hplain left s₁).whole rest hrest
    exact ⟨hw, b, hb (show TokenKind.semicolon ≠ _ by decide)⟩

theorem completes_forLoop (s : ParserState) :
    CompletesBy (sign .kwFor :: sign .openParen :: forRestSample) s (forLoop inner turns) follows
      (Derives .endOfInput room (.body .statement)) := by
  have hheader (s : ParserState) : CompletesBy forRestSample s (do
      let k ← kind
      if k = .semicolon then forRest inner turns none
      else if k = .kwVar then forVariables inner turns
      else if k.isPrefixOperator then forPrefixed inner turns
      else forTarget inner turns) follows (Derives .endOfInput room .forHeader) := by
    constructor
    · refine .kind ?_
      by_cases h₁ : s.current.kind = .semicolon
      · rw [if_pos h₁]
        exact (completes_forRest hinner none s).toCompletes.mono (fun _ hk => hk) fun i a r hi ha =>
          .forNothing (hi.trans h₁) ha
      · by_cases h₂ : s.current.kind = .kwVar
        · rw [if_neg h₁, if_pos h₂]
          exact completes_forVariables hinner s h₂
        · by_cases h₃ : s.current.kind.isPrefixOperator
          · rw [if_neg h₁, if_neg h₂, if_pos h₃]
            exact completes_forPrefixed hinner s h₃
          · rw [if_neg h₁, if_neg h₂, if_neg h₃]
            exact completes_forTarget hinner s h₁ h₂ (by simpa using h₃)
    · intro rest hrest
      have hrestOf : CompletesBy _ s (forRest inner turns none) _ _ :=
        completes_forRest hinner none s
      obtain ⟨hw, b, hb⟩ := hrestOf.whole rest hrest
      exact ⟨hw, b, .forNothing rfl hb⟩
  unfold forLoop
  refine .bind (.expect rfl) fun t s₁ => .bind (.expect rfl) fun t' s₂ => (hheader s₂).mono ?_
  rintro i a r ha i' rfl i'' rfl
  exact .forLoop ha

/-! ## Jumps -/

omit hinner in
theorem completes_jump (s : ParserState)
    (hk : s.current.kind = .kwContinue ∨ s.current.kind = .kwBreak) :
    Completes s jump anyKind (Derives .endOfInput room (.body .statement)) := by
  have hplain : isPlain s.current.kind := by
    obtain hk | hk := hk <;> rw [hk] <;> rfl
  have hbare (t : Token) (s₁ : ParserState) : CompletesBy [ending] s₁ (do
      let _ ← endStatement
      return if t.kind = .kwContinue then Statement.continueTo none else .breakTo none)
      anyKind fun m a r => peek .endOfInput m ≠ .identifier → t = s.current →
        Derives .endOfInput room (.body .statement)
          (.taken s.current.kind s.current.text :: m) a r := by
    refine .bind (.endStatement room) fun _ s₂ => .pure ?_
    rintro r m hend hm rfl
    exact .jumpBare hk hm hend
  unfold jump
  refine .bind (P := fun i t r => i = .taken s.current.kind s.current.text :: r ∧ t = s.current)
    (.take hplain fun _ => ⟨rfl, rfl⟩) fun t s₁ =>
      (⟨.isAt ?_, fun rest hrest => ?_⟩ : CompletesBy [ending] s₁ _ _ _)
  · by_cases h : s₁.current.kind = .identifier
    · simp only [h, decide_true, if_true]
      refine .bind (.map (R := fun i o r => ∃ label, i = .taken .identifier label :: r ∧
        o = some label) (P := fun i name r => i = .taken .identifier name :: r)
          CompletesBy.bindingName.toCompletes fun i label r _ hi => ⟨label, hi, rfl⟩) fun o s₂ =>
            .bind (.endStatement room) fun _ s₃ => .pure ?_
      rintro r m hend m' - ⟨label, rfl, rfl⟩ i - ⟨rfl, rfl⟩
      exact .jumpLabel hk hend
    · simp only [h, decide_false, Bool.false_eq_true, if_false]
      rw [pure_bind]
      refine (hbare t s₁).toCompletes.mono (fun _ hk => hk) ?_
      rintro m a r hm ha i - ⟨rfl, ht⟩
      exact ha (by rwa [hm]) ht
  · obtain ⟨hw, b, hb⟩ := (hbare t s₁).whole rest hrest
    refine ⟨hw, b, ?_⟩
    rintro i - ⟨rfl, ht⟩
    exact hb (show TokenKind.semicolon ≠ _ by decide) ht

theorem completes_returnWith (s : ParserState) :
    CompletesBy [sign .kwReturn, ending] s (returnWith inner turns) anyKind
      (Derives .endOfInput room (.body .statement)) := by
  have hnothing (s₁ : ParserState) : CompletesBy [ending] s₁ (do
      let _ ← endStatement
      return Statement.returnWith none) anyKind fun m a r => endsReturn (peek .endOfInput m) →
        ∀ t, Derives .endOfInput room (.body .statement) (.taken .kwReturn t :: m) a r := by
    refine .bind (.endStatement room) fun _ s₂ => .pure ?_
    intro r m hend hm t
    exact .returnNothing hm hend
  unfold returnWith
  refine .bind (.expect rfl) fun t s₁ =>
    (⟨.kind ?_, fun rest hrest => ?_⟩ : CompletesBy [ending] s₁ _ _ _)
  · by_cases h : endsReturn s₁.current.kind
    · simp only [h, if_true]
      rw [pure_bind]
      refine (hnothing s₁).toCompletes.mono (fun _ hk => hk) ?_
      rintro m a r hm ha i rfl
      exact ha (by rw [hm]; exact h) _
    · simp only [h, Bool.false_eq_true, if_false]
      refine .bindBefore (.map (R := fun i o r => ∃ e, o = some e ∧
        Derives .endOfInput room (.expression .normal) i e r)
          (completes_expression hinner .normal s₁).toCompletes fun i e r _ he => ⟨e, rfl, he⟩)
        (fun o s₂ => .bind (.endStatement room) fun _ s₃ => .pure ?_) fun _ _ => rfl
      rintro r m hend m' hm' ⟨e, rfl, he⟩ i rfl
      refine .returnValue ?_ he hend
      rw [hm']
      simpa using h
  · obtain ⟨hw, b, hb⟩ := (hnothing s₁).whole rest hrest
    refine ⟨hw, b, ?_⟩
    rintro i rfl
    exact hb rfl _

theorem completes_throwWith (s : ParserState) :
    CompletesBy [sign .kwThrow, name, ending] s (throwWith inner turns) anyKind
      (Derives .endOfInput room (.body .statement)) := by
  unfold throwWith
  refine .bind (.expect rfl) fun t s₁ => .bindBefore (completes_expression hinner .normal s₁)
    (fun value s₂ => .bind (.endStatement room) fun _ s₃ => .pure ?_) fun _ _ => rfl
  rintro r m hend m' hv i rfl
  exact .throwValue hv hend

/-! ## Compound statements -/

theorem completes_withObject (s : ParserState) :
    CompletesBy [sign .kwWith, sign .openParen, name, sign .closeParen, sign .semicolon] s
      (withObject inner turns) follows (Derives .endOfInput room (.body .statement)) := by
  unfold withObject
  refine .bind (.expect rfl) fun t s₁ => .bind (completes_parenthesized hinner s₁) fun object s₂ =>
    .bindBefore (hinner .statement s₂) (fun body s₃ => .pure ?_) fun _ hk => hk
  rintro r m hb i ho i' rfl
  exact .withObject ho hb

theorem completes_clauseTest (seen : Bool) (s : ParserState) :
    Completes s (clauseTest inner turns seen) follows fun i test r =>
      (∃ t m e, test = some e ∧ i = .taken .kwCase t :: m ∧
        Derives .endOfInput room (.expression .normal) m e r) ∨
      ∃ t, test = none ∧ seen = false ∧ i = .taken .kwDefault t :: r := by
  unfold clauseTest
  refine .kind ?_
  by_cases h₁ : s.current.kind = .kwCase
  · rw [if_pos h₁]
    refine .bind (P := fun i t r => i = .taken .kwCase s.current.text :: r)
      (.take (by rw [h₁]; rfl) fun _ => by rw [h₁]) fun t s₁ =>
        .map (completes_expression hinner .normal s₁) ?_
    rintro m e r he i - rfl
    exact .inl ⟨_, m, e, rfl, rfl, he⟩
  · rw [if_neg h₁]
    by_cases h₂ : s.current.kind = .kwDefault ∧ !seen
    · rw [if_pos h₂]
      refine .bind (P := fun i t r => i = .taken .kwDefault s.current.text :: r)
        (.take (by rw [h₂.1]; rfl) fun _ => by rw [h₂.1]) fun t s₁ => .pure ?_
      rintro r i - rfl
      exact .inr ⟨_, rfl, by simpa using h₂.2, rfl⟩
    · rw [if_neg h₂]
      exact .unexpected

theorem completes_clauses (fuel : Nat) (seen : Bool) (s : ParserState) :
    CompletesBy [sign .closeBrace] s (clauses inner turns seen fuel) anyKind
      (Derives .endOfInput room (.clauses seen)) := by
  have hwhole (seen : Bool) : ∀ rest, anyKind (peek .endOfInput rest) →
      (∀ it ∈ [sign .closeBrace], it.IsWritten) ∧
        ∃ cs, Derives .endOfInput room (.clauses seen) ([sign .closeBrace] ++ rest) cs rest :=
    fun rest _ => ⟨List.forall_mem_singleton.mpr (written_sign rfl), [], .clausesEnd⟩
  refine ⟨?_, hwhole seen⟩
  induction fuel generalizing seen s with
  | zero => exact .unexpected
  | succ fuel ih =>
      unfold clauses
      refine .ifEat rfl (fun s₁ => .pure fun r t => .clausesEnd) fun h => ?_
      refine .bindBefore (completes_clauseTest hinner seen s) (fun test s₁ => .bind (.expect rfl)
        fun t s₂ => .bindBefore (completes_elements hinner clauseStops turns s₂) (fun ss s₃ =>
          .bind ⟨ih _ s₃, hwhole _⟩ fun cs s₄ => .pure ?_) fun _ _ => rfl) fun _ _ => rfl
      rintro r m hcs m' hss m'' rfl i - (⟨t', i', e, rfl, rfl, he⟩ | ⟨t', rfl, rfl, rfl⟩)
      · refine .clausesCase he hss ?_
        rwa [Option.isNone_some, Bool.or_false] at hcs
      · exact .clausesDefault hss hcs

theorem completes_switch (s : ParserState) :
    CompletesBy [sign .kwSwitch, sign .openParen, name, sign .closeParen, sign .openBrace,
        sign .closeBrace] s (switch inner turns) anyKind
      (Derives .endOfInput room (.body .statement)) := by
  unfold switch
  refine .bind (.expect rfl) fun t s₁ => .bind (completes_parenthesized hinner s₁)
    fun discriminant s₂ => .bind (.expect rfl) fun t' s₃ =>
      .bind (completes_clauses hinner turns false s₃) fun cs s₄ => .pure ?_
  rintro r m hcs i rfl i' hd i'' rfl
  exact .switch hd hcs

theorem completes_handler (s : ParserState) :
    CompletesBy [] s (handler inner turns) (fun k => k ≠ .kwCatch)
      (Derives .endOfInput room .handler) := by
  refine .orNothing (a := none) ?_ fun r hr => .handlerAbsent (by simpa using hr)
  unfold handler
  refine .ifEat rfl (fun s₁ => .bind (.expect rfl) fun t s₂ => .bind .bindingName fun param s₃ =>
    .bind (.expect rfl) fun t' s₄ => .bind (completes_blockBody hinner s₄) fun ss s₅ => .pure ?_)
      fun h => .pure fun r hr => .handlerAbsent (by rwa [hr])
  rintro r m hss m₁ rfl m₂ rfl i rfl t''
  exact .handlerPresent hss

theorem completes_block (s : ParserState) :
    CompletesBy [sign .openBrace, .comments [], sign .closeBrace] s (block inner turns) anyKind
      fun i b r => ∃ ss, b = .block ss ∧ Derives .endOfInput room .blockBody i ss r := by
  unfold block
  exact .bind (completes_blockBody hinner s) fun ss s₁ => .pure fun r i hss => ⟨ss, rfl, hss⟩

theorem completes_tryCatch (s : ParserState) :
    CompletesBy [sign .kwTry, sign .openBrace, .comments [], sign .closeBrace, sign .kwFinally,
        sign .openBrace, .comments [], sign .closeBrace] s (tryCatch inner turns) follows
      (Derives .endOfInput room (.body .statement)) := by
  have hfinalizer (guarded : Statement) (handler : Option CatchClause) (s₁ : ParserState) :
      CompletesBy [sign .openBrace, .comments [], sign .closeBrace] s₁ (do
        let finalizer ← some <$> block inner turns
        if handler.isNone ∧ finalizer.isNone then unexpected
        else return Statement.tryCatch guarded handler finalizer) anyKind fun m a r => ∀ t,
          ∃ finalizer, a = .tryCatch guarded handler finalizer ∧ finalizer.isSome ∧
            Derives .endOfInput room .finalizer (.taken .kwFinally t :: m) finalizer r := by
    refine .bind (.map (R := fun i o r => ∃ ss, o = some (.block ss) ∧
      Derives .endOfInput room .blockBody i ss r) (completes_block hinner s₁) ?_) fun o s₂ =>
        .orNothing (a := .tryCatch guarded handler o) ?_ ?_
    · rintro i _ r ⟨ss, rfl, hss⟩
      exact ⟨ss, rfl, hss⟩
    · by_cases h : handler.isNone ∧ o.isNone
      · rw [if_pos h]
        exact .unexpected
      · rw [if_neg h]
        refine .pure ?_
        rintro r - m ⟨ss, rfl, hss⟩ t
        exact ⟨_, rfl, rfl, .finalizerPresent hss⟩
    · rintro r - m ⟨ss, rfl, hss⟩ t
      exact ⟨_, rfl, rfl, .finalizerPresent hss⟩
  unfold tryCatch
  refine .bind (.expect rfl) fun t s₁ => .bind (completes_block hinner s₁) fun guarded s₂ =>
    .bindBefore (completes_handler hinner s₂) (fun handler s₃ =>
      (⟨?_, fun rest hrest => ?_⟩ : CompletesBy [sign .kwFinally, sign .openBrace, .comments [],
        sign .closeBrace] s₃ _ _ _)) fun _ _ => rfl
  · refine .ifEat rfl (fun s₄ => (?_ : CompletesBy [sign .openBrace, .comments [],
      sign .closeBrace] s₄ _ _ _)) fun hne => ?_
    · simp only [if_true]
      refine (hfinalizer guarded handler s₄).ofAny.mono ?_
      rintro m a r ha t' m' hhan i ⟨ss, rfl, hss⟩ i' rfl
      obtain ⟨finalizer, rfl, hsome, hfin⟩ := ha t'
      exact .tryCatch hss hhan hfin (.inr hsome)
    · simp only [Bool.false_eq_true, if_false, pure_bind]
      by_cases h : handler.isNone
      · rw [if_pos ⟨h, rfl⟩]
        exact .unexpected
      · rw [if_neg fun h' => h h'.1]
        refine .pure ?_
        rintro r hr m hhan i ⟨ss, rfl, hss⟩ i' rfl
        refine .tryCatch hss hhan (.finalizerAbsent (by rwa [hr])) (.inl ?_)
        cases handler <;> simp at h ⊢
  · obtain ⟨hw, b, hb⟩ := (hfinalizer guarded handler s₃).whole rest rfl
    obtain ⟨finalizer, rfl, hsome, hfin⟩ := hb TokenKind.kwFinally.display
    refine ⟨List.forall_mem_cons.mpr ⟨written_sign rfl, hw⟩, .tryCatch guarded handler finalizer,
      ?_⟩
    rintro m' hhan i ⟨ss, rfl, hss⟩ i' rfl
    exact .tryCatch hss hhan hfin (.inr hsome)

theorem completes_expressionOrLabelled (s : ParserState)
    (hk : opensStatement s.current.kind = false) :
    Completes s (expressionOrLabelled inner turns) follows
      (Derives .endOfInput room (.body .statement)) := by
  refine ⟨yields_expressionOrLabelled (fun r s => (hinner r s).yields) s hk, fun s' hs => ?_⟩
  -- a completion of the expression is a statement with a semicolon behind it
  have hfirst (h : Completable s s' follows (Derives .endOfInput room (.expression .noBrace))) :
      Completable s s' follows (Derives .endOfInput room (.body .statement)) := by
    have hfollows : ∀ k, follows k → follows (peek k [ending]) := fun _ _ => rfl
    refine h.andWord hfollows fun e rest _ =>
      ⟨List.forall_mem_singleton.mpr .ended, .expression e, fun input hi he => ?_⟩
    refine .expressionStatement (by rw [hi, hk]) he ?_ .ended
    rintro ⟨-, -, hcolon⟩
    cases hcolon
  have hexpression : CompletesBy _ s (expression inner turns .noBrace) follows _ :=
    completes_expression hinner .noBrace s
  unfold expressionOrLabelled at hs
  obtain ⟨_, _, _, hrun, -⟩ | ⟨_, _, hrun, hs⟩ := hs.of_bind
  · cases hrun
  cases hrun
  obtain hs | ⟨e, s₁, h₁, hs⟩ := hs.of_bind
  · exact hfirst (hexpression.stops s' (.inr hs))
  obtain ⟨_, _, _, hrun, -⟩ | ⟨_, _, hrun, hs⟩ := hs.of_bind
  · cases hrun
  cases hrun
  by_cases hl : isName e ∧ s.current.kind = .identifier ∧ s₁.lastEnd = s.current.stop ∧
      s₁.current.kind = .colon
  · obtain ⟨hname, hlabel⟩ := hl
    obtain ⟨label, rfl⟩ := isName_iff.mp hname
    simp only [hlabel, and_self, if_true] at hs
    have hbody : Completes s₁
        (do let _ ← take; let body ← inner .statement; return Statement.labelled label body)
        follows fun i a r => ∃ t m body, i = .taken .colon t :: m ∧
          Derives .endOfInput room (.rule .statement) m body r ∧
            a = Statement.labelled label body := by
      refine .bind (P := fun i t r => i = .taken .colon s₁.current.text :: r)
        (.take (by rw [hlabel.2.2]; rfl) fun _ => by rw [hlabel.2.2]) fun t s₂ =>
          .bindBefore (hinner .statement s₂) (fun body s₃ => .pure ?_) fun _ hk => hk
      rintro r m hb i - rfl
      exact ⟨_, m, body, rfl, hb, rfl⟩
    obtain hi | h := hbody.stops s' hs
    · exact hfirst ((hexpression.stops s₁ (.inl ⟨_, h₁⟩)).idle hi)
    · refine .inr (h.after hexpression.yields h₁ ?_)
      rintro input _ _ rest hm hmid he ⟨t, m, body, rfl, hb, rfl⟩
      obtain rfl := he.eq_name ((hm.peek_eq hmid).trans hlabel.1)
      exact .labelled he hb
  · have hs : Stops (do endStatement; return Statement.expression e : Parser Statement) s₁ s' := by
      cases e with
      | identifier name =>
          have hnot : ¬(s.current.kind = .identifier ∧ s₁.lastEnd = s.current.stop ∧
              s₁.current.kind = .colon) := fun h => hl ⟨rfl, h⟩
          simp only [hnot, if_false] at hs
          exact hs
      | _ => exact hs
    have hend : Completes s₁ (do endStatement; return Statement.expression e) follows
        fun m a r => Derives .endOfInput room .terminator m () r ∧ a = Statement.expression e :=
      .bind (CompletesBy.endStatement room).toCompletes fun _ s₂ => .pure fun r m _ ht => ⟨ht, rfl⟩
    obtain hi | h := hend.stops s' hs
    · exact hfirst ((hexpression.stops s₁ (.inl ⟨_, h₁⟩)).idle hi)
    · refine .inr (h.after hexpression.yields h₁ ?_)
      rintro input mid _ rest hm hmid he ⟨ht, rfl⟩
      have hi := hm.peek_eq hmid
      refine .expressionStatement (by rw [hi, hk]) he ?_ ht
      rintro ⟨hid, hname, hcolon⟩
      obtain ⟨label, rfl⟩ := isName_iff.mp hname
      obtain rfl := he.eq_name hid
      -- the name is the last token taken, so a colon would have made it a label
      exact hl ⟨rfl, hi.symm.trans hid, hm.lastEnd_eq, hmid.symm.trans hcolon⟩

/-! ## Rules -/

theorem completes_statement (s : ParserState) :
    Completes s (statement inner turns) follows (Derives .endOfInput room (.body .statement)) := by
  unfold statement
  refine .kind ?_
  cases hk : s.current.kind with
  | openBrace =>
      refine (completes_block hinner s).toCompletes.mono (fun _ _ => rfl) ?_
      rintro i _ r hi ⟨ss, rfl, hss⟩
      exact .block (hi.trans hk) hss
  | kwVar => exact (completes_varDeclaration hinner s).toCompletes.ofAny
  | semicolon => exact (completes_empty s hk).ofAny
  | kwIf => exact (completes_ifElse hinner s).toCompletes
  | kwDo => exact (completes_doWhile hinner s).toCompletes.ofAny
  | kwWhile => exact (completes_whileDo hinner s).toCompletes
  | kwFor => exact (completes_forLoop hinner s).toCompletes
  | kwContinue => exact (completes_jump s (.inl hk)).ofAny
  | kwBreak => exact (completes_jump s (.inr hk)).ofAny
  | kwReturn => exact (completes_returnWith hinner s).toCompletes.ofAny
  | kwWith => exact (completes_withObject hinner s).toCompletes
  | kwSwitch => exact (completes_switch hinner s).toCompletes.ofAny
  | kwThrow => exact (completes_throwWith hinner s).toCompletes.ofAny
  | kwTry => exact (completes_tryCatch hinner s).toCompletes
  | kwDebugger => exact (completes_debugger s hk).ofAny
  | _ => exact completes_expressionOrLabelled hinner s (by rw [hk]; rfl)

theorem completes_declaration (s : ParserState) :
    CompletesBy (Rule.sample .declaration) s (declaration inner turns) anyKind
      (Derives .endOfInput room (.body .declaration)) := by
  unfold declaration
  exact .bind (completes_function hinner true s) fun f s₁ => .pure fun r i hf => .declaration hf

theorem completes_ruleBody (r : Rule) (s : ParserState) :
    Completes s (ruleBody inner turns r) follows (Derives .endOfInput room (.body r)) := by
  cases r with
  | statement => exact completes_statement hinner s
  | declaration => exact (completes_declaration hinner s).toCompletes.ofAny
  | assignment g => exact completes_assignment hinner g s
  | operand g => exact (completes_unary hinner g s).toCompletes
  | construction => exact (completes_construction hinner s).toCompletes

end Statements

/-- The sample of a rule takes one level of room. -/
theorem Derives.sample (room : Nat) (r : Rule) {rest : List Item}
    (h : follows (peek .endOfInput rest)) :
    ∃ tree, Derives .endOfInput (room + 1) (.rule r) (r.sample ++ rest) tree rest := by
  have hhead (g : Grammar) : Derives .endOfInput room (.chainHead g) (name :: rest)
      (.identifier ['a']) rest :=
    .headPrimary (show TokenKind.identifier ≠ _ by decide) .primaryName
  have hmember (base : Expression) : Derives .endOfInput room (.memberTail base) rest base rest :=
    .memberEnd (ne_of_follows h rfl) (ne_of_follows h rfl)
  have hleft (g : Grammar) : Derives .endOfInput room (.leftHandSide g) (name :: rest)
      (.identifier ['a']) rest :=
    .leftHandSide (hhead g) (hmember _) (.callEnd (ne_of_follows h rfl))
  have hpostfixed (operand : Expression) :
      Derives .endOfInput room (.postfixed operand) rest operand rest :=
    .postfixEnd (postfixOperator?_of_follows h)
  cases r with
  | statement => exact ⟨_, .nested .empty⟩
  | declaration =>
      refine ⟨_, .nested (.declaration (.functionNamed .parametersNone (.blockBody
        (.elementsEnd ?_))))⟩
      exact List.mem_singleton.mpr rfl
  | assignment g =>
      refine ⟨_, .nested (.assignmentPlain rfl (hleft g) (.assignEnd ?_ (hpostfixed _)
        (.operatorsRest (.binaryEnd ?_) (.conditionalEnd (ne_of_follows h rfl)))))⟩
      · exact assignOperator?_of_follows h
      · exact infixOperator?_of_follows h 0 g
  | operand g => exact ⟨_, .nested (.unaryPostfix rfl (hleft g) (hpostfixed _))⟩
  | construction =>
      exact ⟨_, .nested (.constructionBare (hhead _) (hmember _) (ne_of_follows h rfl))⟩

theorem written_sample (r : Rule) : ∀ it ∈ r.sample, it.IsWritten := by
  cases r with
  | statement => exact List.forall_mem_singleton.mpr (written_sign rfl)
  | declaration =>
      simp only [Rule.sample, List.forall_mem_cons]
      exact ⟨written_sign rfl, written_name, written_sign rfl, written_sign rfl, written_sign rfl,
        .comments, written_sign rfl, List.forall_mem_nil _⟩
  | assignment g => exact List.forall_mem_singleton.mpr written_name
  | operand g => exact List.forall_mem_singleton.mpr written_name
  | construction =>
      exact List.forall_mem_cons.mpr ⟨written_sign rfl, List.forall_mem_singleton.mpr written_name⟩

/-- A rule completes what it leaves unfinished, with one more level of room. -/
theorem completes_rule (turns room : Nat) : Completing (room + 1) (rule turns room) := by
  induction room with
  | zero =>
      refine fun r s => ⟨⟨?_, ?_⟩, fun rest hrest => ⟨written_sample r, Derives.sample 0 r hrest⟩⟩
      · intro a s' hrun
        cases hrun
      · rintro s' (⟨a, hrun⟩ | ⟨f, k, text, hrun, hf⟩)
        · cases hrun
        · cases hrun
          cases hf
  | succ room ih =>
      exact fun r s => ⟨.deepen (completes_ruleBody ih r _) fun i a r hd => .nested hd,
        fun rest hrest => ⟨written_sample r, Derives.sample _ r hrest⟩⟩

end Parser
end EcmaSyntax
