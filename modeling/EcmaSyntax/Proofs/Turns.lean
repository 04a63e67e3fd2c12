import EcmaSyntax.Proofs.Standing

/-!
# Repetitions never use up their turns

**Measure.**  No more tokens of the source are ahead of a parser than there are characters left, and
one for each token that waits or is at hand.  Whoever takes a token of the source leaves fewer of
them.

**Method.**  Each turn of a repetition takes a token of the source.  Two numbers of turns that
exceed the number of tokens ahead are therefore as good as each other: neither of them ever runs
out, and the parsers that are given them do the same.

**Results.**
* `Parallel.agrees`: parallel parsers that have more turns than there are tokens ahead do the same,
  if the rules inside them do.
* `agrees_rule`: so do the rules of the grammar.
* `run_programElements_turns`: the statements of a program are the same with any larger number of
  turns than their run is given.
-/

namespace EcmaSyntax

/-! ## Tokens ahead -/

/-- A token of the source counts, and no other one does. -/
def TokenKind.count (k : TokenKind) : Nat := if isReal k then 1 else 0

theorem TokenKind.count_le (k : TokenKind) : k.count ≤ 1 := by
  unfold count
  split <;> omega

namespace TokenStream

variable {s s' : TokenStream} {t : Token}

/-- The characters left, and one more if a token of the source waits. -/
def ahead (s : TokenStream) : Nat :=
  s.scanner.rest.length + (s.requeued.map (·.kind.count)).getD 0

/-- A token that is handed out was ahead. -/
theorem Steady.next_ahead (h : s.Steady) (hnext : next.run s = .ok t s') :
    s'.ahead + t.kind.count ≤ s.ahead := by
  obtain ⟨hq, rfl⟩ | ⟨hq, u, sc, hscan, rfl, rfl⟩ := run_next_ok hnext
  · simp [ahead, hq]
  · obtain ⟨before, htracks⟩ := h.tracks
    obtain ⟨-, hless, hnil⟩ := htracks.next_ok hscan
    have hscanned : sc.rest.length + u.kind.count ≤ s.scanner.rest.length := by
      by_cases hrest : s.scanner.rest = []
      · obtain ⟨hend, -, hrest', -⟩ := hnil hrest
        rw [hend, hrest']
        exact Nat.zero_le _
      · have := hless hrest
        have := u.kind.count_le
        omega
    simp only [ahead, hq, Option.map_none, Option.getD_none, Nat.add_zero]
    unfold delivered kept
    -- the token that was scanned is handed out, or it waits behind a semicolon
    split
    · exact hscanned
    · exact hscanned

end TokenStream

namespace Parser

variable {α β : Type} {s s' s₁ : ParserState} {t : Token} {n turns turns' : Nat} {takes : Bool}

/-- The tokens ahead of a stream, and the one at hand. -/
def ahead (s : ParserState) : Nat := s.stream.ahead + s.current.kind.count

@[simp] theorem ahead_atDepth (s : ParserState) (n : Nat) : ahead (atDepth s n) = ahead s := rfl

/-- A token that is taken was ahead. -/
theorem Held.take_ahead (h : Held s) (ht : take.run s = .ok t s') :
    Held s' ∧ ahead s' + s.current.kind.count ≤ ahead s := by
  obtain ⟨-, following, stream, hnext, rfl⟩ := run_take_ok.mp ht
  have hless := h.steady.next_ahead hnext
  refine ⟨(h.steady.next_ok hnext).1, ?_⟩
  show stream.ahead + following.kind.count + s.current.kind.count ≤
    s.stream.ahead + s.current.kind.count
  omega

/-- A semicolon is inserted in front of a token that waits from then on. -/
theorem Held.atSemicolon (h : Held s) :
    Held (atSemicolon s) ∧ ahead (Parser.atSemicolon s) = ahead s := by
  unfold Parser.atSemicolon
  split
  · exact ⟨h, rfl⟩
  · split
    · exact ⟨h, rfl⟩
    · next hk =>
        obtain ⟨hq, hread⟩ := h.justRead hk
        refine ⟨.inr ⟨s.current, rfl, rfl, hread⟩, ?_⟩
        simp [ahead, TokenStream.ahead, hq, Token.semicolonBefore, TokenKind.count, isReal]

theorem isReal_atLiteral {slash literal : Token} {sc sc' : Scanner}
    (hscan : (Scanner.rescan slash).run sc = .ok literal sc') : isReal literal.kind := by
  rw [Scanner.kind_of_rescan hscan]
  rfl

/-- A literal in the place of a slash leaves no more tokens ahead. -/
theorem Held.ahead_atLiteral {literal : Token} {sc : Scanner} (h : Held s)
    (hk : opensRegex s.current.kind)
    (hscan : (Scanner.rescan s.current).run s.stream.scanner = .ok literal sc) :
    ahead (Parser.atLiteral s literal sc) ≤ ahead s := by
  have hcount : s.current.kind.count = 1 := by
    generalize s.current.kind = k at hk
    cases k <;> first | rfl | cases hk
  obtain ⟨-, hq, hle⟩ := h.atLiteral hk hscan
  have := literal.kind.count_le
  simp only [ahead, TokenStream.ahead, Parser.atLiteral, hq, hcount]
  omega

/-! ## Agreement -/

/-- What a parser leaves when it succeeds: no more tokens ahead than there were, and fewer if it
takes one. -/
structure Spends (takes : Bool) (s s' : ParserState) : Prop where
  held : Held s'
  le : ahead s' ≤ ahead s
  lt : takes = true → ahead s' < ahead s

namespace Spends

theorem refl (h : Held s) : Spends false s s := ⟨h, Nat.le_refl _, nofun⟩

theorem trans (h : Spends takes s s₁) (h' : Spends false s₁ s') : Spends takes s s' :=
  ⟨h'.held, Nat.le_trans h'.le h.le, fun ht => Nat.lt_of_le_of_lt h'.le (h.lt ht)⟩

theorem weaken (h : Spends true s s') : Spends takes s s' := ⟨h.held, h.le, fun _ => h.lt rfl⟩

theorem take (h : Held s) (hk : takes = true → isReal s.current.kind)
    (ht : take.run s = .ok t s') : Spends takes s s' := by
  obtain ⟨hheld, hle⟩ := h.take_ahead ht
  refine ⟨hheld, by omega, fun htakes => ?_⟩
  rw [TokenKind.count, if_pos (hk htakes)] at hle
  omega

theorem endStatement (h : Held s) (hrun : endStatement.run s = .ok () s') : Spends false s s' := by
  obtain ⟨-, t, ht⟩ := run_endStatement_ok.mp hrun
  obtain ⟨hsemicolon, hahead⟩ := h.atSemicolon
  have hspends : Spends false _ s' := Spends.take hsemicolon nofun ht
  exact ⟨hspends.held, hahead ▸ hspends.le, nofun⟩

theorem regex {e : Expression} (h : Held s) (hk : opensRegex s.current.kind)
    (hrun : (regex s.current).run s = .ok e s') : Spends takes s s' := by
  rw [run_regex] at hrun
  cases hscan : (Scanner.rescan s.current).run s.stream.scanner with
  | error f sc =>
      rw [hscan] at hrun
      cases hrun
  | ok literal sc =>
      rw [hscan] at hrun
      obtain ⟨u, s₁, htake, hrun⟩ := run_bind_ok.mp hrun
      cases hrun
      have hspends : Spends true _ s' :=
        Spends.take (h.atLiteral hk hscan).1 (fun _ => isReal_atLiteral hscan) htake
      have hahead := h.ahead_atLiteral hk hscan
      have hless := hspends.lt rfl
      exact ⟨hspends.held, by omega, fun _ => by omega⟩

end Spends

/-- Two parsers do the same from a state, and they leave no more tokens ahead. -/
structure Agrees (takes : Bool) (s : ParserState) (p p' : Parser α) : Prop where
  same : p.run s = p'.run s
  spends : ∀ {a s'}, p.run s = .ok a s' → Spends takes s s'

/-- Two parsers agree from each state with at most so many tokens ahead. -/
def AgreesUpTo (n : Nat) (takes : Bool) (p p' : Parser α) : Prop :=
  ∀ s, Held s → ahead s ≤ n → Agrees takes s p p'

namespace Agrees

variable {p p' : Parser α} {f f' : α → Parser β}

theorem pure (h : Held s) (a : α) : Agrees false s (pure a) (pure a) where
  same := rfl
  spends hrun := by
    cases hrun
    exact .refl h

theorem error {f : Failure} (h : p.run s = .error f s₁) (h' : p'.run s = .error f s₁) :
    Agrees takes s p p' where
  same := h.trans h'.symm
  spends hrun := by
    rw [h] at hrun
    cases hrun

theorem weaken (h : Agrees true s p p') : Agrees takes s p p' :=
  ⟨h.same, fun hrun => (h.spends hrun).weaken⟩

theorem congr {q r : Parser α} (hp : p.run s = q.run s) (hp' : p'.run s = r.run s)
    (h : Agrees takes s q r) : Agrees takes s p p' where
  same := hp.trans (h.same.trans hp'.symm)
  spends hrun := h.spends (hp ▸ hrun)

theorem bind (hp : Agrees takes s p p')
    (hf : ∀ a s₁, p.run s = .ok a s₁ → Spends takes s s₁ → Agrees false s₁ (f a) (f' a)) :
    Agrees takes s (p >>= f) (p' >>= f') where
  same := by
    rw [EStateM.run_bind, EStateM.run_bind, ← hp.same]
    cases hrun : p.run s with
    | ok a s₁ => exact (hf a s₁ hrun (hp.spends hrun)).same
    | error => rfl
  spends hrun := by
    obtain ⟨a, s₁, ha, hrun⟩ := run_bind_ok.mp hrun
    exact (hp.spends ha).trans ((hf a s₁ ha (hp.spends ha)).spends hrun)

theorem take (h : Held s) (hk : takes = true → isReal s.current.kind) :
    Agrees takes s take take :=
  ⟨rfl, .take h hk⟩

theorem expect (h : Held s) (k : TokenKind) : Agrees false s (expect k) (expect k) := by
  have hexpect : (Parser.expect k).run s =
      (if s.current.kind = k then Parser.take else unexpected : Parser Token).run s := by
    unfold Parser.expect
    rw [EStateM.run_bind, run_isAt]
    simp only [decide_eq_true_eq]
  refine .congr hexpect hexpect ?_
  split
  · exact .take h nofun
  · exact .error rfl rfl

/-- A choice by whether a token of some kind can be taken. -/
theorem ifEat {q q' : Parser α} {k : TokenKind} (h : Held s) (hk : isReal k)
    (hp : ∀ s₁, Spends true s s₁ → Agrees false s₁ p p') (hq : Agrees false s q q') :
    Agrees false s (do if ← eat k then p else q) (do if ← eat k then p' else q') := by
  rw [ifEat_eq, ifEat_eq]
  by_cases hat : s.current.kind = k
  · have hrun : ∀ p q : Parser α, (do if ← isAt k then (do let _ ← Parser.take; p) else q).run s =
        (Parser.take >>= fun _ => p).run s := by
      intro p q
      rw [EStateM.run_bind, run_isAt]
      simp only [hat, decide_true, if_true]
    refine .congr (hrun p q) (hrun p' q') (Agrees.weaken ?_)
    exact (Agrees.take h fun _ => hat ▸ hk).bind fun _ s₁ _ hs₁ => hp s₁ hs₁
  · have hrun : ∀ p q : Parser α, (do if ← isAt k then (do let _ ← Parser.take; p) else q).run s =
        q.run s := by
      intro p q
      rw [EStateM.run_bind, run_isAt]
      simp only [hat, decide_false, Bool.false_eq_true, if_false]
    exact .congr (hrun p q) (hrun p' q') hq

theorem eat {k : TokenKind} (h : Held s) (hk : isReal k) : Agrees false s (eat k) (eat k) := by
  have heat : Parser.eat k = (do if ← Parser.eat k then return true else return false) := by
    conv => lhs; rw [← bind_pure (Parser.eat k)]
    congr
    funext b
    cases b <;> rfl
  rw [heat]
  exact .ifEat h hk (fun s₁ hs₁ => .pure hs₁.held true) (.pure h false)

theorem pendingComments (h : Held s) : Agrees false s pendingComments pendingComments where
  same := rfl
  spends hrun := by
    have hleaves := pendingComments_leaves h
    rw [hrun] at hleaves
    rw [run_pendingComments] at hrun
    cases hrun
    cases hleaves with
    | ok hs => exact ⟨hs, Nat.le_refl _, nofun⟩

theorem deepen (h : Agrees takes (atDepth s (s.depth + 1)) p p') :
    Agrees takes s (deepen p) (deepen p') where
  same := by
    rw [run_deepen, run_deepen, h.same]
  spends hrun := by
    obtain ⟨s₁, hbody, rfl⟩ := run_deepen_ok.mp hrun
    obtain ⟨hheld, hle, hlt⟩ := h.spends hbody
    exact ⟨hheld, hle, hlt⟩

end Agrees

/-! ## Repetitions -/

/-- A number of turns that exceeds the number of tokens ahead is not zero, and one turn less exceeds
the number of tokens ahead when one is taken. -/
theorem exists_turn (h : ahead s < turns) :
    ∃ n, turns = n + 1 ∧ ∀ s', ahead s' < ahead s → ahead s' < n := by
  obtain ⟨n, rfl⟩ := Nat.exists_eq_succ_of_ne_zero (Nat.ne_of_gt (Nat.zero_lt_of_lt h))
  exact ⟨n, rfl, fun s' hs' => by omega⟩

section Repetitions

variable {inner inner' : Inner}

/-- Items agree if each turn takes a token, be it before the item or in it. -/
theorem agrees_itemsUntil {atEnd : Parser Bool} {p p' : Parser α}
    (hend : AgreesUpTo n false atEnd atEnd) (hitem : AgreesUpTo n false p p')
    (hturn : ∀ s s₁ a s₂, Held s → ahead s ≤ n → atEnd.run s = .ok false s₁ →
      p.run s₁ = .ok a s₂ → ahead s₂ < ahead s)
    (hs : Held s) (hn : ahead s ≤ n) (hturns : ahead s < turns) (hturns' : ahead s < turns') :
    Agrees false s (itemsUntil atEnd p turns) (itemsUntil atEnd p' turns') := by
  induction turns generalizing turns' s with
  | zero => cases hturns
  | succ turns ih =>
      obtain ⟨turns', rfl, hnext'⟩ := exists_turn hturns'
      refine (hend s hs hn).bind fun b s₁ hb hs₁ => ?_
      cases b with
      | true => exact .pure hs₁.held []
      | false =>
          have hn₁ := Nat.le_trans hs₁.le hn
          refine (hitem s₁ hs₁.held hn₁).bind fun a s₂ ha hs₂ => ?_
          have hless := hturn s s₁ a s₂ hs hn hb ha
          exact (ih hs₂.held (Nat.le_trans hs₂.le hn₁) (by omega) (hnext' s₂ hless)).bind
            fun as s₃ _ hs₃ => .pure hs₃.held (a :: as)

theorem agrees_iterate {extend extend' : α → Parser (Option α)}
    (hextend : ∀ a, AgreesUpTo n false (extend a) (extend' a))
    (hturn : ∀ a s b s₁, Held s → ahead s ≤ n → (extend a).run s = .ok (some b) s₁ →
      ahead s₁ < ahead s)
    (a : α) (hs : Held s) (hn : ahead s ≤ n) (hturns : ahead s < turns)
    (hturns' : ahead s < turns') :
    Agrees false s (iterate extend turns a) (iterate extend' turns' a) := by
  induction turns generalizing turns' s a with
  | zero => cases hturns
  | succ turns ih =>
      obtain ⟨turns', rfl, hnext'⟩ := exists_turn hturns'
      refine (hextend a s hs hn).bind fun o s₁ ho hs₁ => ?_
      cases o with
      | none => exact .pure hs₁.held a
      | some b =>
          have hless := hturn a s b s₁ hs hn ho
          exact ih b hs₁.held (Nat.le_trans hs₁.le hn) (by omega) (hnext' s₁ hless)

theorem agrees_elements (stops : List TokenKind)
    (hitem : AgreesUpTo n true (element inner) (element inner'))
    (hs : Held s) (hn : ahead s ≤ n) (hturns : ahead s < turns) (hturns' : ahead s < turns') :
    Agrees false s (elements inner stops turns) (elements inner' stops turns') := by
  induction turns generalizing turns' s with
  | zero => cases hturns
  | succ turns ih =>
      obtain ⟨turns', rfl, hnext'⟩ := exists_turn hturns'
      refine (Agrees.pendingComments hs).bind fun comments s₁ _ hs₁ => ?_
      have hn₁ := Nat.le_trans hs₁.le hn
      by_cases hstop : stops.contains s₁.current.kind
      · refine .congr (q := pure comments) (r := pure comments) ?_ ?_ (.pure hs₁.held comments)
        · rw [EStateM.run_bind, run_kind]
          simp only [hstop, if_true]
        · rw [EStateM.run_bind, run_kind]
          simp only [hstop, if_true]
      · have hrun : ∀ (inner : Inner) (turns : Nat),
            (do if stops.contains (← kind) then return comments
                else
                  let s ← element inner
                  let rest ← elements inner stops turns
                  return comments ++ s :: rest).run s₁ =
              (do let s ← element inner
                  let rest ← elements inner stops turns
                  return comments ++ s :: rest).run s₁ := by
          intro inner turns
          rw [EStateM.run_bind, run_kind]
          simp only [hstop, Bool.false_eq_true, if_false]
        refine .congr (hrun inner turns) (hrun inner' turns') (Agrees.weaken ?_)
        refine (hitem s₁ hs₁.held hn₁).bind fun a s₂ _ hs₂ => ?_
        have hless := Nat.lt_of_lt_of_le (hs₂.lt rfl) hs₁.le
        exact (ih hs₂.held (Nat.le_trans hs₂.le hn₁) (by omega) (hnext' s₂ hless)).bind
          fun rest s₃ _ hs₃ => .pure hs₃.held _

theorem agrees_binary (fuel fuel' : Nat) (left : Expression) (minPower : Nat) (g : Grammar)
    (hoperand : ∀ g, AgreesUpTo n false (unary inner turns g) (unary inner' turns' g))
    (hs : Held s) (hn : ahead s ≤ n) (hfuel : ahead s < fuel) (hfuel' : ahead s < fuel') :
    Agrees false s (binary inner turns fuel left minPower g)
      (binary inner' turns' fuel' left minPower g) := by
  induction fuel generalizing fuel' s left minPower g with
  | zero => cases hfuel
  | succ fuel ih =>
      obtain ⟨fuel', rfl, hnext'⟩ := exists_turn hfuel'
      cases hop : infixOperator? minPower g s.current.kind with
      | none => exact .congr (run_binary_none hop) (run_binary_none hop) (.pure hs left)
      | some op =>
          have hreal : isReal s.current.kind := isReal_of_isPlain (isPlain_of_infixOperator? hop)
          refine .congr (run_binary_some hop) (run_binary_some hop)
            (Agrees.weaken ?_)
          refine (Agrees.take hs fun _ => hreal).bind fun _ s₁ _ hs₁ => ?_
          have hn₁ := Nat.le_trans hs₁.le hn
          refine (hoperand _ s₁ hs₁.held hn₁).bind fun operand s₂ _ hs₂ => ?_
          have hless₂ := Nat.lt_of_le_of_lt hs₂.le (hs₁.lt rfl)
          have hn₂ := Nat.le_trans hs₂.le hn₁
          refine (ih fuel' operand _ _ hs₂.held hn₂ (by omega) (hnext' s₂ hless₂)).bind
            fun right s₃ _ hs₃ => ?_
          have hless₃ := Nat.lt_of_le_of_lt hs₃.le hless₂
          exact ih fuel' _ _ _ hs₃.held (Nat.le_trans hs₃.le hn₂) (by omega) (hnext' s₃ hless₃)

theorem agrees_clauses (fuel fuel' : Nat) (seenDefault : Bool)
    (htest : ∀ seenDefault, AgreesUpTo n true (clauseTest inner turns seenDefault)
      (clauseTest inner' turns' seenDefault))
    (hbody : AgreesUpTo n false (elements inner [.kwCase, .kwDefault, .closeBrace] turns)
      (elements inner' [.kwCase, .kwDefault, .closeBrace] turns'))
    (hs : Held s) (hn : ahead s ≤ n) (hfuel : ahead s < fuel) (hfuel' : ahead s < fuel') :
    Agrees false s (clauses inner turns seenDefault fuel)
      (clauses inner' turns' seenDefault fuel') := by
  induction fuel generalizing fuel' s seenDefault with
  | zero => cases hfuel
  | succ fuel ih =>
      obtain ⟨fuel', rfl, hnext'⟩ := exists_turn hfuel'
      refine .ifEat hs rfl (fun s₁ hs₁ => .pure hs₁.held []) (Agrees.weaken ?_)
      refine (htest seenDefault s hs hn).bind fun test s₁ _ hs₁ => ?_
      refine (Agrees.expect hs₁.held .colon).bind fun _ s₂ _ hs₂ => ?_
      have hn₂ := Nat.le_trans hs₂.le (Nat.le_trans hs₁.le hn)
      refine (hbody s₂ hs₂.held hn₂).bind fun body s₃ _ hs₃ => ?_
      have hless : ahead s₃ < ahead s :=
        Nat.lt_of_le_of_lt (Nat.le_trans hs₃.le hs₂.le) (hs₁.lt rfl)
      exact (ih fuel' _ hs₃.held (Nat.le_trans hs₃.le hn₂) (by omega) (hnext' s₃ hless)).bind
        fun rest s₄ _ hs₄ => .pure hs₄.held _

end Repetitions

/-! ## Parsers -/

/-- Parallel parsers agree if the rules inside them do, and if they have more turns than there are
tokens ahead. -/
theorem Parallel.agrees {inner inner' : Inner} {credit : Nat} {entry exit : Bool}
    {known : Option Token} {p p' : Parser α}
    (h : Parallel inner inner' turns turns' credit takes entry exit known p p')
    (hturns : n < turns) (hturns' : n < turns')
    (hinner : ∀ r : Rule, AgreesUpTo n true (inner r) (inner' r))
    (hs : Held s) (hn : ahead s ≤ n) (hknown : ∀ t ∈ known, s.current = t) :
    Agrees takes s p p' := by
  induction h generalizing s with
  | pure a => exact .pure hs a
  | bind _ _ ihp ihf =>
      exact (ihp hs hn hknown).bind
        fun a s₁ _ hs₁ => ihf a hs₁.held (Nat.le_trans hs₁.le hn) (fun _ => nofun)
  | unexpected => exact .error rfl rfl
  | weaken _ ih => exact ih hs hn hknown
  | @look _ _ _ _ _ _ f f' _ ih =>
      exact .congr (q := f s.current s.lastEnd) (r := f' s.current s.lastEnd) rfl rfl
        (ih s.current s.lastEnd hs hn fun t ht => Option.some.inj ht)
  | take hk _ ih =>
      obtain rfl := hknown _ rfl
      refine (Agrees.take hs fun _ => hk).bind fun t s₁ ht hs₁ => ?_
      obtain rfl := (run_take_ok.mp ht).1
      exact ih hs₁.held (Nat.le_trans hs₁.le hn) (fun _ => nofun)
  | regex hk =>
      obtain rfl := hknown _ rfl
      exact ⟨rfl, .regex hs hk⟩
  | badNumber => exact .error rfl rfl
  | endStatement => exact ⟨rfl, .endStatement hs⟩
  | pendingComments => exact .pendingComments hs
  | inner r => exact (hinner r s hs hn).weaken
  | itemsUntil _ _ ihend ihitem =>
      refine agrees_itemsUntil (fun s hs hn => ihend none hs hn (fun _ => nofun))
        (fun s hs hn => (ihitem hs hn (fun _ => nofun)).weaken) (fun s s₁ a s₂ hs hn hb ha => ?_) hs hn
        (by omega) (by omega)
      have hs₁ := (ihend none hs hn (fun _ => nofun)).spends hb
      have hs₂ := (ihitem hs₁.held (Nat.le_trans hs₁.le hn) (fun _ => nofun)).spends ha
      exact Nat.lt_of_lt_of_le (hs₂.lt rfl) hs₁.le
  | itemsAfterCommas _ ihitem =>
      refine agrees_itemsUntil
        (fun s hs _ => (Agrees.eat hs rfl).bind fun b s₁ _ hs₁ => .pure hs₁.held _)
        (fun s hs hn => ihitem hs hn (fun _ => nofun)) (fun s s₁ a s₂ hs hn hb ha => ?_) hs hn (by omega)
        (by omega)
      obtain ⟨hcomma, ht⟩ := run_afterComma_ok hb
      have hs₁ : Spends true s s₁ := .take hs (fun _ => by rw [hcomma]; rfl) ht
      have hs₂ := (ihitem hs₁.held (Nat.le_trans hs₁.le hn) (fun _ => nofun)).spends ha
      exact Nat.lt_of_le_of_lt hs₂.le (hs₁.lt rfl)
  | @iterate _ _ goesOn extend extend' a _ hstops ih =>
      have hextend : ∀ a s, Held s → ahead s ≤ n → goesOn s.current = true →
          Agrees true s (extend a s.current) (extend' a s.current) := fun a s hs hn hgoes =>
        ih a s.current hgoes hs hn fun t ht => Option.some.inj ht
      refine agrees_iterate (fun a s hs hn => ?_) (fun a s b s₁ hs hn hb => ?_) a hs hn (by omega)
        (by omega)
      · refine .congr (q := extend a s.current) (r := extend' a s.current) rfl rfl ?_
        cases hgoes : goesOn s.current with
        | true => exact (hextend a s hs hn hgoes).weaken
        | false =>
            obtain ⟨h, h'⟩ := hstops a s.current hgoes
            rw [h, h']
            exact .pure hs none
      · have hb : (extend a s.current).run s = .ok (some b) s₁ := hb
        cases hgoes : goesOn s.current with
        | true => exact ((hextend a s hs hn hgoes).spends hb).lt rfl
        | false =>
            rw [(hstops a s.current hgoes).1] at hb
            cases hb
  | elements stops _ ih =>
      exact agrees_elements stops
        (fun s hs hn => ih true none hs hn (fun _ => nofun)) hs hn (by omega)
        (by omega)
  | binary left minPower g _ ih =>
      exact agrees_binary _ _ left minPower g
        (fun g s hs hn => ih g hs hn (fun _ => nofun)) hs hn (by omega)
        (by omega)
  | clauses seenDefault _ _ ihtest ihbody =>
      exact agrees_clauses _ _ seenDefault
        (fun b s hs hn => ihtest 0 true none b hs hn (fun _ => nofun))
        (fun s hs hn => ihbody hs hn (fun _ => nofun)) hs hn (by omega) (by omega)

/-- Whatever turns the rules of the grammar are given beyond the tokens ahead make no difference. -/
theorem agrees_rule (room : Nat) (hturns : n < turns) (hturns' : n < turns') (r : Rule) :
    AgreesUpTo n true (rule turns room r) (rule turns' room r) := by
  induction room generalizing r with
  | zero => exact fun s _ _ => .error rfl rfl
  | succ room ih =>
      intro s hs hn
      have hbody : Parallel (rule turns room) (rule turns' room) turns turns' (r.weight - 1) true
          true r.exit none (ruleBody (rule turns room) turns r)
          (ruleBody (rule turns' room) turns' r) :=
        parallel_ruleBody r
      exact (hbody.agrees (s := atDepth s (s.depth + 1)) hturns hturns'
        ih hs hn (fun _ => nofun)).deepen

theorem run_elements_turns (room : Nat) (stops : List TokenKind) (hs : Held s)
    (hturns : ahead s < turns) (hturns' : ahead s < turns') :
    (elements (rule turns room) stops turns).run s =
      (elements (rule turns' room) stops turns').run s := by
  have helements : Parallel (rule turns room) (rule turns' room) turns turns' fullCredit false true
      false none (elements (rule turns room) stops turns)
      (elements (rule turns' room) stops turns') :=
    parallel_elements (Nat.le_refl _) stops
  exact (helements.agrees hturns hturns' (agrees_rule room hturns hturns') hs (Nat.le_refl _)
    (fun _ => nofun)).same

/-- Once the first token is at hand, there are no more tokens ahead than characters in the
source. -/
theorem ahead_le_length {source : Text}
    (h : take.run (ParserState.ofText source) = .ok t s) : Held s ∧ ahead s ≤ source.length := by
  obtain ⟨-, following, stream, hnext, rfl⟩ := run_take_ok.mp h
  have hsteady := TokenStream.steady_ofText source
  exact ⟨(hsteady.next_ok hnext).1, hsteady.next_ahead hnext⟩

/-- The statements of a program are the same with any larger number of turns. -/
theorem run_programElements_turns (limit : Nat) {source : Text}
    (h : take.run (ParserState.ofText source) = .ok t s) (hturns : source.length < turns) :
    (programElements limit source).run s =
      (elements (rule turns limit) [.endOfInput] turns).run s := by
  obtain ⟨hs, hle⟩ := ahead_le_length h
  exact run_elements_turns limit _ hs (by omega) (by omega)

end Parser
end EcmaSyntax
