import EcmaSyntax.Parser

/-!
# Runs of a parser

**Steps.**  A run succeeds step by step: `run_bind_ok` takes a run of two parsers apart, and
each of the basic parsers has an equation that gives its result in one expression.

**Changes.**  Only `take`, `endStatement`, `pendingComments` and the reading of a regular
expression change what a parser reads from.  None of them looks at the number of open
rules, so each of them does the same at every depth.
-/

namespace EcmaSyntax
namespace Parser

variable {α β : Type}

/-! ## Sequences -/

theorem run_bind_ok {p : Parser α} {f : α → Parser β} {s s' : ParserState} {b : β} :
    (p >>= f).run s = .ok b s' ↔
      ∃ a s₁, p.run s = .ok a s₁ ∧ (f a).run s₁ = .ok b s' := by
  rw [EStateM.run_bind]
  cases p.run s with
  | ok a s₁ =>
      constructor
      · intro h
        exact ⟨a, s₁, rfl, h⟩
      · rintro ⟨_, _, h, h'⟩
        cases h
        exact h'
  | error => simp

theorem run_map_ok {p : Parser α} {f : α → β} {s s' : ParserState} {b : β} :
    (f <$> p).run s = .ok b s' ↔ ∃ a, p.run s = .ok a s' ∧ f a = b := by
  rw [map_eq_pure_bind, run_bind_ok]
  simp

/-! ## Basic parsers -/

@[simp] theorem run_current (s : ParserState) : current.run s = .ok s.current s := rfl

@[simp] theorem run_kind (s : ParserState) : kind.run s = .ok s.current.kind s := rfl

@[simp] theorem run_isAt (k : TokenKind) (s : ParserState) :
    (isAt k).run s = .ok (decide (s.current.kind = k)) s := rfl

@[simp] theorem run_unexpected (s : ParserState) :
    (unexpected : Parser α).run s = .error (.ofToken s.current) s := rfl

@[simp] theorem run_throw (f : Failure) (s : ParserState) :
    (throw f : Parser α).run s = .error f s := rfl

theorem run_step (action : Stream α) (s : ParserState) :
    (step action).run s = match action.run s.stream with
      | .ok a stream => .ok a { s with stream }
      | .error f stream => .error f { s with stream } := rfl

/-- The state after the token at hand was taken and another one was delivered. -/
def advance (s : ParserState) (following : Token) (stream : TokenStream) : ParserState :=
  { s with
    stream
    current := following
    lastEnd := if s.current.kind = .insertedSemicolon then s.lastEnd else s.current.stop }

theorem run_take (s : ParserState) :
    take.run s = match TokenStream.next.run s.stream with
      | .ok following stream => .ok s.current (advance s following stream)
      | .error f stream => .error f (advance s s.current stream) := by
  unfold take advance
  by_cases hk : s.current.kind = .insertedSemicolon
  · simp only [EStateM.run_bind, run_current, run_step, hk, ne_eq, not_true_eq_false, if_false,
      if_true]
    cases TokenStream.next.run s.stream <;> simp
  · simp only [EStateM.run_bind, run_current, run_step, hk, ne_eq, not_false_eq_true, if_false,
      if_true, EStateM.run_modify]
    cases TokenStream.next.run s.stream <;> simp

theorem run_take_ok {s s' : ParserState} {t : Token} :
    take.run s = .ok t s' ↔ t = s.current ∧ ∃ following stream,
      TokenStream.next.run s.stream = .ok following stream ∧ s' = advance s following stream := by
  rw [run_take]
  cases h : TokenStream.next.run s.stream with
  | ok following stream =>
      constructor
      · intro h'
        cases h'
        exact ⟨rfl, following, stream, rfl, rfl⟩
      · rintro ⟨rfl, _, _, h', rfl⟩
        cases h'
        rfl
  | error => simp

theorem run_take_error {s s' : ParserState} {f : Failure} :
    take.run s = .error f s' ↔ ∃ stream,
      TokenStream.next.run s.stream = .error f stream ∧ s' = advance s s.current stream := by
  rw [run_take]
  cases h : TokenStream.next.run s.stream with
  | ok => simp
  | error f' stream =>
      constructor
      · intro h'
        cases h'
        exact ⟨stream, rfl, rfl⟩
      · rintro ⟨_, h', rfl⟩
        cases h'
        rfl

/-- Whoever goes on with the token that was taken goes on with the token at hand. -/
theorem run_take_bind (f : Token → Parser α) (s : ParserState) :
    (take >>= f).run s = (take >>= fun _ => f s.current).run s := by
  rw [EStateM.run_bind, EStateM.run_bind, run_take]
  cases TokenStream.next.run s.stream <;> rfl

theorem run_pendingComments (s : ParserState) : pendingComments.run s =
    .ok ((s.stream.scanner.comments.reverse.filter fun c =>
        s.lastEnd ≤ c.offset && c.offset < s.current.place.offset).map
          fun c => .comment c.toComment)
      { s with stream.scanner.comments := [] } := rfl

/-! ## Commas and operators -/

theorem run_eat_of_ne {s : ParserState} {k : TokenKind}
    (h : s.current.kind ≠ k) : (eat k).run s = .ok false s := by
  unfold eat
  rw [EStateM.run_bind, run_isAt]
  simp [h]

theorem run_afterComma_ok {s s₁ : ParserState}
    (h : (do return !(← eat .comma) : Parser Bool).run s = .ok false s₁) :
    s.current.kind = .comma ∧ take.run s = .ok s.current s₁ := by
  by_cases hk : s.current.kind = .comma
  · refine ⟨hk, ?_⟩
    unfold eat at h
    rw [bind_assoc, EStateM.run_bind, run_isAt, hk] at h
    obtain ⟨b, s₂, heat, hb⟩ := run_bind_ok.mp h
    obtain ⟨t, s₃, ht, heq⟩ := run_bind_ok.mp heat
    cases heq
    cases hb
    rw [ht, (run_take_ok.mp ht).1]
  · rw [EStateM.run_bind, run_eat_of_ne hk] at h
    cases h

section Operators

variable {inner : Inner} {turns fuel minPower : Nat} {g : Grammar} {left : Expression}
  {s : ParserState}

theorem run_binary_none (h : infixOperator? minPower g s.current.kind = none) :
    (binary inner turns (fuel + 1) left minPower g).run s = .ok left s := by
  unfold binary infixOperator
  rw [bind_assoc, EStateM.run_bind, run_kind]
  dsimp only
  rw [pure_bind, h]
  rfl

theorem run_binary_some {op : InfixOperator}
    (h : infixOperator? minPower g s.current.kind = some op) :
    (binary inner turns (fuel + 1) left minPower g).run s =
      (take >>= fun _ => unary inner turns g.operand >>= fun operand =>
        binary inner turns fuel operand op.rightPower g.operand >>= fun right =>
          binary inner turns fuel (op.apply left right) minPower g).run s := by
  conv => lhs; unfold binary infixOperator
  rw [bind_assoc, EStateM.run_bind, run_kind]
  dsimp only
  rw [pure_bind, h]

end Operators

/-! ## Ends of statements -/

/-- Kinds of semicolons. -/
def isSemicolon (k : TokenKind) : Bool :=
  k = .semicolon || k = .insertedSemicolon

/-- A state with a semicolon at hand, which is inserted where there is none. -/
def atSemicolon (s : ParserState) : ParserState :=
  if s.current.kind = .semicolon then
    { s with stream.journal := .ended s.current :: s.stream.journal }
  else if s.current.kind = .insertedSemicolon then s
  else
    { s with
      stream.journal := .insertedBefore s.current :: s.stream.journal
      stream.requeued := some s.current
      current := s.current.semicolonBefore }

theorem run_insertSemicolon (t : Token) (stream : TokenStream) :
    (TokenStream.insertSemicolon t).run stream =
      if TokenStream.admitsSemicolon t then
        .ok (some t.semicolonBefore)
          { stream with journal := .insertedBefore t :: stream.journal, requeued := some t }
      else .ok none stream := by
  unfold TokenStream.insertSemicolon
  split <;> rfl

theorem run_endStatement (s : ParserState) : endStatement.run s =
    if isSemicolon s.current.kind ∨ TokenStream.admitsSemicolon s.current then
      match take.run (atSemicolon s) with
      | .ok _ s' => .ok () s'
      | .error f s' => .error f s'
    else .error (.ofToken s.current) s := by
  have discard : ∀ s₁ : ParserState, (do let _ ← take : Parser Unit).run s₁ =
      match take.run s₁ with
      | .ok _ s' => .ok () s'
      | .error f s' => .error f s' := by
    intro s₁
    rw [EStateM.run_bind]
    cases take.run s₁ <;> rfl
  unfold endStatement
  rw [EStateM.run_bind]
  simp only [run_current]
  by_cases h₁ : s.current.kind = .semicolon
  · simp only [h₁, isSemicolon, atSemicolon, if_true, decide_true, Bool.true_or, true_or]
    exact discard _
  · by_cases h₂ : s.current.kind = .insertedSemicolon
    · simp only [h₂, isSemicolon, atSemicolon, if_true, decide_true, Bool.or_true, true_or,
        reduceCtorEq, if_false]
      exact discard _
    · simp only [h₁, h₂, isSemicolon, atSemicolon, if_false, decide_false, Bool.or_self,
        Bool.false_eq_true, false_or]
      rw [EStateM.run_bind, run_step, run_insertSemicolon]
      by_cases h₃ : TokenStream.admitsSemicolon s.current
      · simp only [h₃, if_true]
        rw [EStateM.run_bind, EStateM.run_modify]
        exact discard _
      · simp only [h₃, if_false, Bool.false_eq_true]
        rfl

theorem run_endStatement_ok {s s' : ParserState} :
    endStatement.run s = .ok () s' ↔
      (isSemicolon s.current.kind ∨ TokenStream.admitsSemicolon s.current) ∧
        ∃ t, take.run (atSemicolon s) = .ok t s' := by
  rw [run_endStatement]
  split
  · next hk =>
      cases take.run (atSemicolon s) with
      | ok t s₁ => simp [hk]
      | error => simp
  · next hk => simp [hk]

/-! ## Depth -/

/-- A state with another number of open rules. -/
def atDepth (s : ParserState) (n : Nat) : ParserState := { s with depth := n }

section Depth

variable (s : ParserState) (n : Nat)

@[simp] theorem current_atDepth : (atDepth s n).current = s.current := rfl

@[simp] theorem lastEnd_atDepth : (atDepth s n).lastEnd = s.lastEnd := rfl

@[simp] theorem stream_atDepth : (atDepth s n).stream = s.stream := rfl

@[simp] theorem atDepth_atDepth (m : Nat) : atDepth (atDepth s m) n = atDepth s n := rfl

@[simp] theorem atDepth_depth : atDepth s s.depth = s := rfl

theorem atSemicolon_atDepth : atSemicolon (atDepth s n) = atDepth (atSemicolon s) n := by
  unfold atSemicolon
  by_cases h₁ : s.current.kind = .semicolon
  · simp only [current_atDepth, h₁, if_true]
    rfl
  · by_cases h₂ : s.current.kind = .insertedSemicolon
    · simp only [current_atDepth, h₂, if_true, reduceCtorEq, if_false]
    · simp only [current_atDepth, h₁, h₂, if_false]
      rfl

end Depth

theorem run_take_atDepth {s s' : ParserState} {t : Token} (h : take.run s = .ok t s') (n : Nat) :
    take.run (atDepth s n) = .ok t (atDepth s' n) := by
  obtain ⟨rfl, following, stream, hn, rfl⟩ := run_take_ok.mp h
  exact run_take_ok.mpr ⟨rfl, following, stream, hn, rfl⟩

theorem run_endStatement_atDepth {s s' : ParserState} (h : endStatement.run s = .ok () s')
    (n : Nat) : endStatement.run (atDepth s n) = .ok () (atDepth s' n) := by
  obtain ⟨hk, t, ht⟩ := run_endStatement_ok.mp h
  refine run_endStatement_ok.mpr ⟨hk, t, ?_⟩
  rw [atSemicolon_atDepth]
  exact run_take_atDepth ht n

theorem run_step_atDepth {action : Stream α} {s s' : ParserState} {a : α}
    (h : (step action).run s = .ok a s') (n : Nat) :
    (step action).run (atDepth s n) = .ok a (atDepth s' n) := by
  rw [run_step] at h ⊢
  rw [stream_atDepth]
  cases ha : action.run s.stream with
  | ok b stream =>
      rw [ha] at h
      cases h
      rfl
  | error =>
      rw [ha] at h
      cases h

theorem run_pendingComments_atDepth {s s' : ParserState} {cs : List Statement}
    (h : pendingComments.run s = .ok cs s') (n : Nat) :
    pendingComments.run (atDepth s n) = .ok cs (atDepth s' n) := by
  rw [run_pendingComments] at h ⊢
  cases h
  rfl

theorem run_deepen (p : Parser α) (s : ParserState) :
    (deepen p).run s = match p.run (atDepth s (s.depth + 1)) with
      | .ok a s => .ok a (atDepth s (s.depth - 1))
      | .error f s => .error f (atDepth s (s.depth - 1)) := rfl

/-- A rule does what its body does. -/
theorem run_deepen_ok {p : Parser α} {s s' : ParserState} {a : α} :
    (deepen p).run s = .ok a s' ↔
      ∃ s₁, p.run (atDepth s (s.depth + 1)) = .ok a s₁ ∧ s' = atDepth s₁ (s₁.depth - 1) := by
  rw [run_deepen]
  cases p.run (atDepth s (s.depth + 1)) with
  | ok b s₁ =>
      constructor
      · intro h
        cases h
        exact ⟨s₁, rfl, rfl⟩
      · rintro ⟨_, h, rfl⟩
        cases h
        rfl
  | error => simp

@[simp] theorem run_tooDeep (s : ParserState) :
    (tooDeep : Parser α).run s = .error ⟨.tooDeep s.depth, s.current.place⟩ s := rfl

/-! ## Programs -/

/-- The statements of a program, from behind its first token to its end. -/
def programElements (limit : Nat) (source : Text) : Parser (List Statement) :=
  elements (rule (source.length + 3) limit) [.endOfInput] (source.length + 3)

/-- The end of a run is noted. -/
def noteProgram (body : List Statement) (s : ParserState) : ParserState :=
  { s with stream.journal := .parsed body.length :: s.stream.journal }

/-- A run drops the token at hand and parses what comes behind it. -/
theorem run_program (limit : Nat) (s : ParserState) : (program limit).run s =
    match take.run s with
    | .ok _ s₁ =>
        match (elements (rule (turnsFor s) (limit - s.depth)) [.endOfInput] (turnsFor s)).run s₁ with
        | .ok body s₂ => .ok ⟨body⟩ (noteProgram body s₂)
        | .error f s₂ => .error f s₂
    | .error f s₁ => .error f s₁ := by
  unfold program
  rw [EStateM.run_bind, EStateM.run_get]
  simp only
  rw [EStateM.run_bind]
  cases take.run s with
  | error => rfl
  | ok t s₁ =>
      simp only
      rw [EStateM.run_bind]
      cases (elements (rule (turnsFor s) (limit - s.depth)) [.endOfInput] (turnsFor s)).run s₁ <;> rfl

theorem run_eq (limit : Nat) (source : Text) : EcmaSyntax.run limit source =
    match take.run (ParserState.ofText source) with
    | .ok _ s =>
        match (programElements limit source).run s with
        | .ok body s => .ok ⟨body⟩ (noteProgram body s)
        | .error f s => .error f s
    | .error f s => .error f s :=
  run_program limit (ParserState.ofText source)

end Parser

/-! ## Answers -/

/-- A run succeeds if its answer is a program. -/
theorem exists_run (limit : Nat) (source : Text) (h : (parse limit source).isOk) :
    ∃ P s, run limit source = .ok P s := by
  unfold parse at h
  cases hrun : run limit source with
  | ok P s => exact ⟨P, s, rfl⟩
  | error f s =>
      rw [hrun] at h
      cases h

/-- The answer is a program if a run yields it. -/
theorem parse_eq_ok_iff {limit : Nat} {source : Text} {P : Program} :
    parse limit source = .ok P ↔ ∃ s, run limit source = .ok P s := by
  unfold parse
  cases run limit source with
  | ok Q s =>
      simp only [outcome, Except.ok.injEq, EStateM.Result.ok.injEq]
      exact ⟨fun h => ⟨s, h, rfl⟩, fun ⟨_, h, _⟩ => h⟩
  | error f s => simp [outcome]

/-- The answer is a failure if a run ends with it. -/
theorem parse_eq_error_iff {limit : Nat} {source : Text} {f : Failure} :
    parse limit source = .error f ↔ ∃ s, run limit source = .error f s := by
  unfold parse
  cases run limit source with
  | ok P s => simp [outcome]
  | error f' s =>
      simp only [outcome, Except.error.injEq, EStateM.Result.error.injEq]
      exact ⟨fun h => ⟨s, h, rfl⟩, fun ⟨_, h, _⟩ => h⟩

end EcmaSyntax
