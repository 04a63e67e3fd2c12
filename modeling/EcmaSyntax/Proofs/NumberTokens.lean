import EcmaSyntax.Proofs.Machine
import EcmaSyntax.Proofs.Numerals

/-!
# Numbers at hand

**Strict runs.**  A code is executed strictly if it breaks off where the token at hand is a number
without a value, and where it fails for a number because it has none.

**Results.**
* `TokenStream.next_valued`: the numbers that a stream delivers have values.
* `Parser.Lockstep.exists_strict`: all that is built from the steps of the grammar is the parser of
  a code that never breaks off.
* `strictRuns_eq`: nor does any of the runs that follow each other, whatever the source and the
  limit.
-/

namespace EcmaSyntax

/-- A token is a number only if it has a value. -/
def Token.HasValue (t : Token) : Prop := t.kind = .number → (numberValue? t.text).isSome

instance : DecidablePred Token.HasValue := fun t =>
  inferInstanceAs (Decidable (t.kind = .number → (numberValue? t.text).isSome))

/-! ## Strict runs -/

/-- A step that is not checked. -/
def Checked.unchecked {σ α : Type} (step : EStateM Failure σ α) : Checked σ α := fun s =>
  match step s with
  | .ok a s => .ok a s
  | .error f s => .error (some f) s

namespace Checked

variable {σ α : Type} {step : EStateM Failure σ α} {s s' : σ}

theorem run_unchecked (step : EStateM Failure σ α) (s : σ) : (unchecked step).run s =
    match step.run s with
      | .ok a s => .ok a s
      | .error f s => .error (some f) s := rfl

theorem run_unchecked_ok {a : α} (h : step.run s = .ok a s') :
    (unchecked step).run s = .ok a s' := by
  rw [run_unchecked, h]

theorem run_unchecked_error {f : Failure} (h : step.run s = .error f s') :
    (unchecked step).run s = .error (some f) s' := by
  rw [run_unchecked, h]

end Checked

namespace Code

/-- A code, executed by the parser, except that it breaks off at a number without a value. -/
def strict : {α : Type} → Code α → Checked ParserState α
  | _, .pure a => Pure.pure a
  | _, .bind first rest => first.strict >>= fun a => (rest a).strict
  | _, .unexpected => Checked.unchecked Parser.unexpected
  | _, .look f => do
      let s ← get
      Checked.assert s.current.HasValue
      (f s.current s.lastEnd).strict
  | _, .take => Checked.unchecked Parser.take
  | _, .regex slash => Checked.unchecked (Parser.regex slash)
  | _, .badNumber _ => Checked.breakOff
  | _, .endStatement => Checked.unchecked Parser.endStatement
  | _, .pendingComments => Checked.unchecked Parser.pendingComments
  | _, .tooDeep => Checked.unchecked Parser.tooDeep
  | _, .deepen body => fun s =>
      match body.strict { s with depth := s.depth + 1 } with
      | .ok a s => .ok a { s with depth := s.depth - 1 }
      | .error e s => .error e { s with depth := s.depth - 1 }

end Code

/-- A program, from behind the token at hand to the end of the input. -/
def strictProgram (elements : Machine.Elements) (limit : Nat) : Checked ParserState Program := do
  let s ← get
  let _ ← Checked.unchecked Parser.take
  let body ← (elements (Parser.turnsFor s) (limit - s.depth)).strict
  Checked.unchecked (Parser.step (TokenStream.note (.parsed body.length)))
  return ⟨body⟩

/-- The answers of a number of strict runs, each from the state that the one before left.  A run
that breaks off has none. -/
def strictRuns (elements : Machine.Elements) (limit : Nat) :
    Nat → ParserState → List (Option (Except Failure Program))
  | 0, _ => []
  | n + 1, s =>
      match strictProgram elements limit s with
      | .ok P s => some (.ok P) :: strictRuns elements limit n s
      | .error (some f) s => some (.error f) :: strictRuns elements limit n s
      | .error none s => none :: strictRuns elements limit n s

/-! ## Tokens at hand -/

/-- The numbers at hand and in waiting have values. -/
structure ParserState.Valued (s : ParserState) : Prop where
  current : s.current.HasValue
  requeued : ∀ t ∈ s.stream.requeued, t.HasValue

/-- A number or a string is what the scanner finds behind the gap. -/
theorem Site.Valid.tokenAt {p : Site} (hp : p.Valid)
    (hk : p.kindHere = .number ∨ p.kindHere = .string) : TokenAt p.kindHere p.text p.rest := by
  have hkind : p.kindHere = p.kind := by
    change Scanner.kindAfterGap p.newline p.kind = .number ∨
      Scanner.kindAfterGap p.newline p.kind = .string at hk
    show Scanner.kindAfterGap p.newline p.kind = p.kind
    generalize p.kind = k, p.newline = newline at hk
    cases newline <;> cases k <;> first | rfl | (obtain hk | hk := hk <;> cases hk)
  rw [hkind] at hk ⊢
  obtain ⟨hend, -⟩ | htoken := hp.token
  · rw [hend] at hk
    obtain hk | hk := hk <;> cases hk
  · exact htoken

theorem Scanner.next_hasValue {s s' : Scanner} {t : Token} (h : next.run s = .ok t s') :
    t.HasValue := by
  intro hk
  obtain ⟨p, hp, hs⟩ := exists_site h
  rw [next_of_valid hp hs.symm] at h
  cases h
  have hk : p.kindHere = .number := hk
  have htoken := hp.tokenAt (.inl hk)
  rw [hk] at htoken
  exact htoken.numberValue?_isSome

/-- Numbers that a stream delivers, or keeps, have values. -/
theorem TokenStream.next_valued {s : TokenStream} (h : ∀ t ∈ s.requeued, t.HasValue) :
    match next.run s with
    | .ok t s' => t.HasValue ∧ ∀ u ∈ s'.requeued, u.HasValue
    | .error _ s' => ∀ u ∈ s'.requeued, u.HasValue := by
  cases hq : s.requeued with
  | some t =>
      rw [run_next_requeued hq]
      exact ⟨h t hq, fun _ => nofun⟩
  | none =>
      cases hscan : Scanner.next.run s.scanner with
      | error f sc =>
          rw [run_next_error hq hscan]
          exact h
      | ok t sc =>
          have ht := Scanner.next_hasValue hscan
          rw [run_next_scan hq hscan]
          refine ⟨?_, fun u hu => ?_⟩
          · unfold delivered
            split
            · exact nofun
            · exact ht
          · have hu : kept s.afterRestrictedKeyword t = some u := hu
            unfold kept at hu
            split at hu
            · cases hu
              exact ht
            · cases hu

namespace Parser

variable {α β : Type} {s : ParserState}

theorem bind_valued {p : Parser α} {f : α → Parser β} (hp : (finalState (p.run s)).Valued)
    (hf : ∀ a s', p.run s = .ok a s' → s'.Valued → (finalState ((f a).run s')).Valued) :
    (finalState ((p >>= f).run s)).Valued := by
  rw [EStateM.run_bind]
  cases hrun : p.run s with
  | ok a s' =>
      rw [hrun] at hp
      exact hf a s' hrun hp
  | error f s' => rwa [hrun] at hp

theorem take_valued (hs : s.Valued) : (finalState (take.run s)).Valued := by
  have hnext := TokenStream.next_valued hs.requeued
  rw [run_take]
  cases hrun : TokenStream.next.run s.stream with
  | ok t stream =>
      rw [hrun] at hnext
      exact ⟨hnext.1, hnext.2⟩
  | error f stream =>
      rw [hrun] at hnext
      exact ⟨hs.current, hnext⟩

theorem endStatement_valued (hs : s.Valued) : (finalState (endStatement.run s)).Valued := by
  rw [run_endStatement]
  split
  · have hat : (atSemicolon s).Valued := by
      unfold atSemicolon
      split
      · exact ⟨hs.current, hs.requeued⟩
      · split
        · exact hs
        · exact ⟨nofun, fun t ht => Option.some.inj ht ▸ hs.current⟩
    have htake := take_valued hat
    cases hrun : take.run (atSemicolon s) with
    | ok t s' => rwa [hrun] at htake
    | error f s' => rwa [hrun] at htake
  · exact hs

/-- What is read in the place of a slash is no number. -/
theorem regex_valued (slash : Token) (hs : s.Valued) :
    (finalState ((regex slash).run s)).Valued := by
  unfold regex
  rw [EStateM.run_bind, run_step, TokenStream.run_rescan_scan]
  cases hscan : (Scanner.rescan slash).run s.stream.scanner with
  | error f sc => exact ⟨hs.current, hs.requeued⟩
  | ok t sc =>
      obtain ⟨-, hkind⟩ := Cursor.head_rescan hscan
      have ht : t.HasValue := fun hnumber => by
        rw [hkind] at hnumber
        cases hnumber
      refine bind_valued ⟨ht, hs.requeued⟩ fun _ s' hrun hs' => ?_
      exact bind_valued (take_valued hs') fun _ _ _ hs => hs

/-! ## Codes -/

/-- A code stands for a parser with a known token at hand, and it does not break off. -/
structure Strictly (known : Option Token) (code : Code α) (p : Parser α) : Prop where
  parser : ∀ s : ParserState, (∀ t ∈ known, s.current = t) → code.parser.run s = p.run s
  strict : ∀ s : ParserState, s.Valued → (∀ t ∈ known, s.current = t) →
    code.strict.run s = (Checked.unchecked p).run s
  valued : ∀ s : ParserState, s.Valued → (∀ t ∈ known, s.current = t) →
    (finalState (p.run s)).Valued

theorem Strictly.intro {code : Code α} {known : Option Token} (h : ∀ s : ParserState, s.Valued →
    (∀ t ∈ known, s.current = t) → code.strict.run s = (Checked.unchecked code.parser).run s ∧
      (finalState (code.parser.run s)).Valued) : Strictly known code code.parser :=
  ⟨fun _ _ => rfl, fun s hs ht => (h s hs ht).1, fun s hs ht => (h s hs ht).2⟩

theorem Strictly.bind {known : Option Token} {first : Code α} {rest : α → Code β} {p : Parser α}
    {f : α → Parser β} (hfirst : Strictly known first p)
    (hrest : ∀ a, Strictly none (rest a) (f a)) :
    Strictly known (.bind first rest) (p >>= f) := by
  refine ⟨fun s ht => ?_, fun s hs ht => ?_, fun s hs ht => ?_⟩
  · show (first.parser >>= fun a => (rest a).parser).run s = _
    rw [EStateM.run_bind, EStateM.run_bind, hfirst.parser s ht]
    cases p.run s with
    | ok a s' => exact (hrest a).parser s' (fun _ => nofun)
    | error => rfl
  · show (first.strict >>= fun a => (rest a).strict).run s = _
    have hvalued := hfirst.valued s hs ht
    rw [EStateM.run_bind, hfirst.strict s hs ht]
    cases hrun : p.run s with
    | ok a s' =>
        rw [hrun] at hvalued
        rw [Checked.run_unchecked_ok hrun, Checked.run_unchecked, EStateM.run_bind, hrun]
        exact (hrest a).strict s' hvalued (fun _ => nofun)
    | error f s' =>
        rw [Checked.run_unchecked_error hrun, Checked.run_unchecked, EStateM.run_bind, hrun]
  · exact bind_valued (hfirst.valued s hs ht) fun a s' _ hs' =>
      (hrest a).valued s' hs' (fun _ => nofun)

theorem Strictly.congr {known : Option Token} {code : Code α} {p q : Parser α}
    (h : Strictly known code p)
    (hpq : ∀ s : ParserState, (∀ t ∈ known, s.current = t) → p.run s = q.run s) :
    Strictly known code q := by
  refine ⟨fun s ht => (h.parser s ht).trans (hpq s ht), fun s hs ht => ?_, fun s hs ht => ?_⟩
  · rw [h.strict s hs ht, Checked.run_unchecked, Checked.run_unchecked, hpq s ht]
  · rw [← hpq s ht]
    exact h.valued s hs ht

theorem Strictly.deepen {code : Code α} {p : Parser α} (h : Strictly none code p) :
    Strictly none (.deepen code) (deepen p) := by
  refine ⟨fun s _ => ?_, fun s hs _ => ?_, fun s hs _ => ?_⟩
  · show (Parser.deepen code.parser).run s = _
    rw [run_deepen, run_deepen, h.parser _ (fun _ => nofun)]
  · have hdeep : (atDepth s (s.depth + 1)).Valued := ⟨hs.current, hs.requeued⟩
    show (match code.strict.run (atDepth s (s.depth + 1)) with
      | .ok a s => .ok a (atDepth s (s.depth - 1))
      | .error e s => .error e (atDepth s (s.depth - 1)) : EStateM.Result _ _ α) = _
    rw [h.strict _ hdeep (fun _ => nofun), Checked.run_unchecked, Checked.run_unchecked, run_deepen]
    cases p.run (atDepth s (s.depth + 1)) <;> rfl
  · have hbody := h.valued (atDepth s (s.depth + 1)) ⟨hs.current, hs.requeued⟩ (fun _ => nofun)
    rw [run_deepen]
    cases hrun : p.run (atDepth s (s.depth + 1)) with
    | ok a s' =>
        rw [hrun] at hbody
        exact ⟨hbody.current, hbody.requeued⟩
    | error f s' =>
        rw [hrun] at hbody
        exact ⟨hbody.current, hbody.requeued⟩

/-- Whatever is built from the steps of the grammar can be written out and does not break off. -/
theorem Lockstep.exists_strict {inner inner' : Inner} {credit : Nat} {known : Option Token}
    {p p' : Parser α} (h : Lockstep inner inner' credit known p p')
    (hinner : ∀ r, ∃ code, Strictly none code (inner r)) : ∃ code, Strictly known code p := by
  induction h with
  | pure a => exact ⟨.pure a, .intro fun s hs _ => ⟨rfl, hs⟩⟩
  | bind _ _ ihp ihf =>
      obtain ⟨first, hfirst⟩ := ihp
      obtain ⟨rest, hrest⟩ := Classical.axiomOfChoice ihf
      exact ⟨.bind first rest, hfirst.bind hrest⟩
  | unexpected => exact ⟨.unexpected, .intro fun s hs _ => ⟨rfl, hs⟩⟩
  | look _ ih =>
      obtain ⟨code, hcode⟩ := Classical.axiomOfChoice fun t => Classical.axiomOfChoice (ih t)
      have hat : ∀ (s : ParserState), ∀ t ∈ some s.current, s.current = t :=
        fun s t ht => Option.some.inj ht
      refine ⟨.look code, fun s _ => (hcode s.current s.lastEnd).parser s (hat s),
        fun s hs _ => ?_, fun s hs _ => (hcode s.current s.lastEnd).valued s hs (hat s)⟩
      show (do
        let s ← get
        Checked.assert s.current.HasValue
        (code s.current s.lastEnd).strict : Checked ParserState _).run s = _
      rw [EStateM.run_bind, EStateM.run_get]
      dsimp only
      rw [Checked.run_bind (Checked.run_assert hs.current s)]
      exact (hcode s.current s.lastEnd).strict s hs (hat s)
  | @take _ t _ f f' _ _ ih =>
      obtain ⟨rest, hrest⟩ := ih
      have htake : Strictly (some t) .take Parser.take := .intro fun s hs _ => ⟨rfl, take_valued hs⟩
      refine ⟨.bind .take fun _ => rest, (htake.bind fun _ => hrest).congr fun s ht => ?_⟩
      obtain rfl := ht t rfl
      rw [EStateM.run_bind, EStateM.run_bind]
      cases hrun : Parser.take.run s with
      | ok t s' =>
          obtain rfl := (run_take_ok.mp hrun).1
          rfl
      | error => rfl
  | @regex _ slash => exact ⟨.regex slash, .intro fun s hs _ => ⟨rfl, regex_valued _ hs⟩⟩
  | @badNumber _ t _ hk hnone =>
      -- the token at hand would be a number without a value
      refine ⟨.badNumber t, .intro fun s hs ht => absurd (hs.current ?_) ?_⟩
      · rw [ht t rfl, hk]
      · rw [ht t rfl, hnone]
        exact Bool.false_ne_true
  | endStatement => exact ⟨.endStatement, .intro fun s hs _ => ⟨rfl, endStatement_valued hs⟩⟩
  | pendingComments =>
      exact ⟨.pendingComments, .intro fun s hs _ => ⟨rfl, hs.current, hs.requeued⟩⟩
  | inner r =>
      obtain ⟨code, hcode⟩ := hinner r
      exact ⟨code, fun s _ => hcode.parser s (fun _ => nofun),
        fun s hs _ => hcode.strict s hs (fun _ => nofun),
        fun s hs _ => hcode.valued s hs (fun _ => nofun)⟩

theorem exists_strict_rule (turns room : Nat) (r : Rule) :
    ∃ code, Strictly none code (rule turns room r) := by
  induction room generalizing r with
  | zero => exact ⟨.tooDeep, .intro fun s hs _ => ⟨rfl, hs⟩⟩
  | succ room ih =>
      have hlockstep : Lockstep (rule turns room) (rule turns room) (r.weight - 1) none
          (ruleBody (rule turns room) turns r) (ruleBody (rule turns room) turns r) :=
        lockstep_ruleBody r
      obtain ⟨code, hcode⟩ := hlockstep.exists_strict ih
      exact ⟨.deepen code, hcode.deepen⟩

theorem exists_strict_elements (turns room : Nat) (stops : List TokenKind) (fuel : Nat) :
    ∃ code, Strictly none code (elements (rule turns room) stops fuel) := by
  have hlockstep : Lockstep (rule turns room) (rule turns room) fullCredit none
      (elements (rule turns room) stops fuel) (elements (rule turns room) stops fuel) :=
    lockstep_elements (Nat.le_refl _) stops fuel
  exact hlockstep.exists_strict (exists_strict_rule turns room)

end Parser

/-! ## Runs -/

/-- The codes stand for the elements of programs, and they do not break off. -/
def StrictlyWritten (elements : Machine.Elements) : Prop := ∀ turns room,
  Parser.Strictly none (elements turns room)
    (Parser.elements (Parser.rule turns room) [.endOfInput] turns)

variable {elements : Machine.Elements} {limit : Nat} {s : ParserState}

theorem strictProgram_eq (limit : Nat) (helements : StrictlyWritten elements) (hs : s.Valued) :
    (strictProgram elements limit).run s = (Checked.unchecked (Parser.program limit)).run s ∧
      (finalState ((Parser.program limit).run s)).Valued := by
  have htake := Parser.take_valued hs
  unfold strictProgram
  rw [Checked.run_unchecked, Parser.run_program, EStateM.run_bind, EStateM.run_get]
  dsimp only
  cases hrun : Parser.take.run s with
  | error f s₁ =>
      rw [hrun] at htake
      rw [EStateM.run_bind, Checked.run_unchecked_error hrun]
      exact ⟨rfl, htake⟩
  | ok t s₁ =>
      rw [hrun] at htake
      rw [Checked.run_bind (Checked.run_unchecked_ok hrun), EStateM.run_bind]
      obtain ⟨-, hstrict, hvalued⟩ := helements (Parser.turnsFor s) (limit - s.depth)
      rw [hstrict s₁ htake (fun _ => nofun), Checked.run_unchecked]
      have hbody := hvalued s₁ htake (fun _ => nofun)
      dsimp only
      cases hrun' : (Parser.elements (Parser.rule (Parser.turnsFor s) (limit - s.depth))
          [.endOfInput] (Parser.turnsFor s)).run s₁ with
      | ok body s₂ =>
          rw [hrun'] at hbody
          exact ⟨rfl, hbody.current, hbody.requeued⟩
      | error f s₂ =>
          rw [hrun'] at hbody
          exact ⟨rfl, hbody⟩

/-- None of the runs that follow each other breaks off. -/
theorem strictRuns_eq (helements : StrictlyWritten elements) (n : Nat) (hs : s.Valued) :
    strictRuns elements limit n s = (runs limit n s).map some := by
  induction n generalizing s with
  | zero => rfl
  | succ n ih =>
      obtain ⟨hrun, hvalued⟩ := strictProgram_eq limit helements hs
      rw [Checked.run_unchecked] at hrun
      unfold strictRuns runs
      cases hresult : (Parser.program limit).run s with
      | ok P s' =>
          rw [hresult] at hrun hvalued
          rw [show strictProgram elements limit s = .ok P s' from hrun,
            show Parser.program limit s = .ok P s' from hresult]
          exact congrArg (_ :: ·) (ih hvalued)
      | error f s' =>
          rw [hresult] at hrun hvalued
          rw [show strictProgram elements limit s = .error (some f) s' from hrun,
            show Parser.program limit s = .error f s' from hresult]
          exact congrArg (_ :: ·) (ih hvalued)

/-- The elements of a program can be written out once and for all, so that no run breaks off. -/
theorem exists_strictlyWritten : ∃ elements, StrictlyWritten elements := by
  obtain ⟨elements, helements⟩ := Classical.axiomOfChoice fun turns =>
    Classical.axiomOfChoice fun room => Parser.exists_strict_elements turns room [.endOfInput] turns
  exact ⟨elements, helements⟩

theorem StrictlyWritten.parser_eq (h : StrictlyWritten elements) (turns room : Nat) :
    (elements turns room).parser = Parser.elements (Parser.rule turns room) [.endOfInput] turns :=
  funext fun s => (h turns room).parser s (fun _ => nofun)

theorem valued_ofText (source : Text) : (ParserState.ofText source).Valued :=
  ⟨nofun, nofun⟩

end EcmaSyntax
