import EcmaSyntax.Proofs.Grammar.Yields
import EcmaSyntax.Proofs.Printing.Printer
import EcmaSyntax.Proofs.Endings
import EcmaSyntax.Proofs.Lockstep
import EcmaSyntax.Proofs.Steps

/-!
# Where runs of a parser stop

**Stops.**  A run fails for a fault of the scanner, for its depth, or at the token at hand.
`Stops p s s'` says that a run of a parser succeeds in a state or fails at the token at hand.

**Tokens taken.**  `Leads s done s'` says what was taken from one state to another: the items
`done`, up to the last token of the source.  What was inserted or claimed behind this token is
left out.  If the token is a point, a name is put behind it, so that the two are an item.

**Results.**
* `isLexical_of_take` and the lemmas before it: no token is unexpected to the scanner.
* `Lockstep.blames`: if a token is unexpected, it is the one at hand.
* `Stops.of_bind`: a sequence fails in its first part, or it stops in its second part.
* `Leads.peek_eq`: what was taken shows the token that was at hand.
-/

namespace EcmaSyntax

/-! ## Faults of the scanner -/

/-- A fault of the scanner. -/
def Failure.IsLexical (f : Failure) : Prop := ∃ fault text, f.cause = .lexical fault text

theorem Scanner.isLexical_of_next {s s' : Scanner} {f : Failure} (h : next.run s = .error f s') :
    f.IsLexical := by
  obtain ⟨p, hp, hs⟩ | ⟨p, hp, hs⟩ := next_cases s
  · rw [next_of_valid hp hs] at h
    cases h
  · rw [next_of_fault hp hs] at h
    cases h
    exact ⟨_, _, rfl⟩

theorem Scanner.isLexical_of_rescan {s s' : Scanner} {slash : Token} {f : Failure}
    (h : (rescan slash).run s = .error f s') : f.IsLexical := by
  unfold rescan EStateM.run at h
  dsimp only at h
  split at h
  · cases h
  · cases h
    exact ⟨_, _, rfl⟩

theorem TokenStream.isLexical_of_next {s s' : TokenStream} {f : Failure}
    (h : next.run s = .error f s') : f.IsLexical := by
  obtain ⟨-, sc, hscan, -⟩ := run_next_failed h
  exact Scanner.isLexical_of_next hscan

theorem TokenStream.isLexical_of_rescan {s s' : TokenStream} {slash : Token} {f : Failure}
    (h : (rescan slash).run s = .error f s') : f.IsLexical := by
  obtain ⟨sc, hscan, -⟩ := run_rescan_failed h
  exact Scanner.isLexical_of_rescan hscan

namespace Parser

variable {α β : Type}

theorem isLexical_of_take {s s' : ParserState} {f : Failure} (h : take.run s = .error f s') :
    f.IsLexical := by
  obtain ⟨stream, hnext, -⟩ := run_take_error.mp h
  exact TokenStream.isLexical_of_next hnext

theorem isLexical_of_step {action : Stream α} {s s' : ParserState} {f : Failure}
    (ha : ∀ f s', action.run s.stream = .error f s' → f.IsLexical)
    (h : (step action).run s = .error f s') : f.IsLexical := by
  rw [run_step] at h
  cases hrun : action.run s.stream with
  | ok a stream =>
      rw [hrun] at h
      cases h
  | error f' stream =>
      rw [hrun] at h
      cases h
      exact ha f stream hrun

/-! ## The token that is blamed -/

/-- If a token is unexpected, it is the one at hand. -/
def Blames (s : ParserState) (f : Failure) : Prop :=
  ∀ k text, f.cause = .unexpected k text → f = .ofToken s.current

theorem blames_of_isLexical {s : ParserState} {f : Failure} (h : f.IsLexical) : Blames s f := by
  obtain ⟨fault, text, h⟩ := h
  intro k text' hf
  rw [h] at hf
  cases hf

theorem blames_of_bind {p : Parser α} {f : α → Parser β} {s s' : ParserState} {e : Failure}
    (hp : p.run s = .error e s' → Blames s' e)
    (hf : ∀ a s₁, p.run s = .ok a s₁ → (f a).run s₁ = .error e s' → Blames s' e)
    (h : (p >>= f).run s = .error e s') : Blames s' e := by
  rw [EStateM.run_bind] at h
  cases hrun : p.run s with
  | ok a s₁ =>
      rw [hrun] at h
      exact hf a s₁ hrun h
  | error e' s₁ =>
      rw [hrun] at h
      cases h
      exact hp hrun

/-- Parsers blame the token at hand if the rules inside them do. -/
theorem Lockstep.blames {inner inner' : Inner} {credit : Nat} {known : Option Token}
    {p p' : Parser α} (h : Lockstep inner inner' credit known p p')
    (hinner : ∀ (r : Rule) s f s', (inner r).run s = .error f s' → Blames s' f)
    {s s' : ParserState} {f : Failure} (hknown : ∀ t ∈ known, s.current = t)
    (hrun : p.run s = .error f s') : Blames s' f := by
  induction h generalizing s s' with
  | pure a => cases hrun
  | bind _ _ ihp ihf =>
      exact blames_of_bind (ihp hknown) (fun a s₁ _ hrun => ihf a (fun _ => nofun) hrun) hrun
  | unexpected =>
      cases hrun
      exact fun _ _ _ => rfl
  | look _ ih => exact ih s.current s.lastEnd (fun t ht => Option.some.inj ht) hrun
  | take _ _ ih =>
      obtain rfl := hknown _ rfl
      refine blames_of_bind (fun hrun => blames_of_isLexical (isLexical_of_take hrun)) ?_ hrun
      intro t s₁ ht hrun
      obtain rfl := (run_take_ok.mp ht).1
      exact ih (fun _ => nofun) hrun
  | regex hk =>
      refine blames_of_bind (fun hrun => ?_) (fun t s₁ _ hrun => ?_) hrun
      · exact blames_of_isLexical
          (isLexical_of_step (fun _ _ => TokenStream.isLexical_of_rescan) hrun)
      refine blames_of_bind (fun hrun => ?_) (fun _ s₂ _ hrun => ?_) hrun
      · cases hrun
      refine blames_of_bind (fun hrun => ?_) (fun _ s₃ _ hrun => ?_) hrun
      · exact blames_of_isLexical (isLexical_of_take hrun)
      · cases hrun
  | badNumber =>
      cases hrun
      exact blames_of_isLexical ⟨_, _, rfl⟩
  | endStatement =>
      rw [run_endStatement] at hrun
      split at hrun
      · cases htake : Parser.take.run (atSemicolon s) with
        | ok t s₁ =>
            rw [htake] at hrun
            cases hrun
        | error e s₁ =>
            rw [htake] at hrun
            cases hrun
            exact blames_of_isLexical (isLexical_of_take htake)
      · cases hrun
        exact fun _ _ _ => rfl
  | pendingComments => cases hrun
  | inner r => exact hinner r s f s' hrun

/-- The rules of the grammar blame the token at hand. -/
theorem rule_blames (turns room : Nat) (r : Rule) (s : ParserState) (f : Failure)
    (s' : ParserState) (h : (rule turns room r).run s = .error f s') : Blames s' f := by
  induction room generalizing r s f s' with
  | zero =>
      cases h
      exact fun _ => nofun
  | succ room ih =>
      have hlockstep : Lockstep (rule turns room) (rule turns room) (r.weight - 1) none
          (ruleBody (rule turns room) turns r) (ruleBody (rule turns room) turns r) :=
        lockstep_ruleBody r
      change (deepen (ruleBody (rule turns room) turns r)).run s = _ at h
      rw [run_deepen] at h
      cases hbody : (ruleBody (rule turns room) turns r).run (atDepth s (s.depth + 1)) with
      | ok a s₁ =>
          rw [hbody] at h
          cases h
      | error e s₁ =>
          rw [hbody] at h
          cases h
          have hblames : Blames s₁ f := hlockstep.blames ih (fun _ => nofun) hbody
          exact hblames

theorem elements_blames (turns room : Nat) (stops : List TokenKind) (fuel : Nat)
    {s s' : ParserState} {f : Failure}
    (h : (elements (rule turns room) stops fuel).run s = .error f s') : Blames s' f := by
  have hlockstep : Lockstep (rule turns room) (rule turns room) fullCredit none
      (elements (rule turns room) stops fuel) (elements (rule turns room) stops fuel) :=
    lockstep_elements (Nat.le_refl _) stops fuel
  exact hlockstep.blames (rule_blames turns room) (fun _ => nofun) h

/-! ## Moves over a part of the items -/

theorem peek_append (last : TokenKind) (its more : List Item) :
    peek last (its ++ more) = peek (peek last more) its := by
  induction its with
  | nil => rfl
  | cons it its ih => cases it <;> first | rfl | exact ih

namespace Moves

variable {s s₁ s' : ParserState} {its mid rest : List Item}

/-- The items moved over come before the rest. -/
theorem exists_taken (h : Moves s its s' rest) : ∃ i, its = i ++ rest ∧ Moves s i s' [] := by
  induction h with
  | here n => exact ⟨[], rfl, .here n⟩
  | taken ht hk htext hp _ ih =>
      obtain ⟨i, rfl, h⟩ := ih
      exact ⟨_ :: i, rfl, .taken ht hk htext hp h⟩
  | member ht hk ht₁ hk₁ htext hname _ ih =>
      obtain ⟨i, rfl, h⟩ := ih
      exact ⟨_ :: i, rfl, .member ht hk ht₁ hk₁ htext hname h⟩
  | literal hs hk ho htext ht _ ih =>
      obtain ⟨i, rfl, h⟩ := ih
      exact ⟨_ :: i, rfl, .literal hs hk ho htext ht h⟩
  | ended he hk hs _ ih =>
      obtain ⟨i, rfl, h⟩ := ih
      exact ⟨_ :: i, rfl, .ended he hk hs h⟩
  | inserted he hk hs _ ih =>
      obtain ⟨i, rfl, h⟩ := ih
      exact ⟨_ :: i, rfl, .inserted he hk hs h⟩
  | comments hc _ ih =>
      obtain ⟨i, rfl, h⟩ := ih
      exact ⟨_ :: i, rfl, .comments hc h⟩

end Moves

/-! ## Where a run stops -/

/-- A run of a parser fails at the token at hand. -/
def Fails (p : Parser α) (s s' : ParserState) : Prop :=
  ∃ f k text, p.run s = .error f s' ∧ f.cause = .unexpected k text

/-- A run of a parser stops in a state: it succeeds there, or it fails at the token at hand. -/
def Stops (p : Parser α) (s s' : ParserState) : Prop :=
  (∃ a, p.run s = .ok a s') ∨ Fails p s s'

theorem Fails.of_bind {p : Parser α} {f : α → Parser β} {s s' : ParserState}
    (h : Fails (p >>= f) s s') :
    Fails p s s' ∨ ∃ a s₁, p.run s = .ok a s₁ ∧ Fails (f a) s₁ s' := by
  obtain ⟨e, k, text, hrun, he⟩ := h
  rw [EStateM.run_bind] at hrun
  cases hp : p.run s with
  | ok a s₁ =>
      rw [hp] at hrun
      exact .inr ⟨a, s₁, rfl, e, k, text, hrun, he⟩
  | error e' s₁ =>
      rw [hp] at hrun
      cases hrun
      exact .inl ⟨e, k, text, hp, he⟩

/-- A sequence fails in its first part, or it stops in its second part. -/
theorem Stops.of_bind {p : Parser α} {f : α → Parser β} {s s' : ParserState}
    (h : Stops (p >>= f) s s') :
    Fails p s s' ∨ ∃ a s₁, p.run s = .ok a s₁ ∧ Stops (f a) s₁ s' := by
  obtain ⟨b, hrun⟩ | hs := h
  · obtain ⟨a, s₁, h₁, h₂⟩ := run_bind_ok.mp hrun
    exact .inr ⟨a, s₁, h₁, .inl ⟨b, h₂⟩⟩
  · obtain hs | ⟨a, s₁, h₁, h₂⟩ := hs.of_bind
    · exact .inl hs
    · exact .inr ⟨a, s₁, h₁, .inr h₂⟩

theorem Fails.not_lexical {p : Parser α} {s s' : ParserState} (h : Fails p s s') :
    ¬∀ f s', p.run s = .error f s' → f.IsLexical := by
  intro hp
  obtain ⟨f, k, text, hrun, hf⟩ := h
  obtain ⟨fault, text', hf'⟩ := hp f s' hrun
  rw [hf] at hf'
  cases hf'

theorem Fails.not_take {s s' : ParserState} (h : Fails take s s') : False :=
  h.not_lexical fun _ _ => isLexical_of_take

theorem Fails.eq_of_unexpected {s s' : ParserState} (h : Fails (unexpected : Parser α) s s') :
    s' = s := by
  obtain ⟨f, k, text, hrun, -⟩ := h
  rw [run_unexpected] at hrun
  cases hrun
  rfl

/-! ## What a run took -/

/-- Items for which a token of the source is taken. -/
def Item.isReal (it : Item) : Bool := it.isToken || it = .ended .semicolon

/-- No token of the source is taken from one state to another. -/
def Idle (s s' : ParserState) : Prop :=
  ∃ its : List Item, (∀ it ∈ its, it.isReal = false) ∧ Moves s its s' []

theorem Idle.refl (s : ParserState) : Idle s s := ⟨[], List.forall_mem_nil _, .refl⟩

theorem Idle.trans {s s₁ s' : ParserState} (h : Idle s s₁) (h' : Idle s₁ s') : Idle s s' := by
  obtain ⟨its, hits, hm⟩ := h
  obtain ⟨its', hits', hm'⟩ := h'
  exact ⟨its ++ its', List.forall_mem_append.mpr ⟨hits, hits'⟩, hm.seq hm'⟩

theorem Idle.withDepth {s s' : ParserState} (h : Idle s s') (m n : Nat) :
    Idle (atDepth s m) (atDepth s' n) := by
  obtain ⟨its, hits, hm⟩ := h
  exact ⟨its, hits, hm.withDepth m n⟩

namespace Completion

/-- A name. -/
def name : Item := Printer.name ['a']

/-- A name after a point. -/
def member : Item := .member .identifier ['a']

end Completion

/-- From one state to another some items are taken, up to the last token of the source; if it is a
point without a name, a name is put after it. -/
inductive Leads (s : ParserState) : List Item → ParserState → Prop
  | token {its : List Item} {it : Item} {s₁ s₂ s' : ParserState} :
      Moves s its s₁ [] → Moves s₁ [it] s₂ [] → it.isReal → Idle s₂ s' → Leads s (its ++ [it]) s'
  | point {its : List Item} {t : Token} {s₁ s₂ s' : ParserState} :
      Moves s its s₁ [] → s₁.current.kind = .dot → take.run s₁ = .ok t s₂ →
      s₂.current.kind.isIdentifierName = false → Idle s₂ s' →
      Leads s (its ++ [Completion.member]) s'

namespace Leads

variable {s s₁ s' : ParserState} {its done : List Item}

theorem idle (h : Leads s done s₁) (h' : Idle s₁ s') : Leads s done s' := by
  cases h with
  | token hm ht hit hi => exact .token hm ht hit (hi.trans h')
  | point hm hk ht hn hi => exact .point hm hk ht hn (hi.trans h')

theorem after (h : Moves s its s₁ []) (h' : Leads s₁ done s') : Leads s (its ++ done) s' := by
  cases h' with
  | token hm ht hit hi =>
      rw [← List.append_assoc]
      exact .token (h.seq hm) ht hit hi
  | point hm hk ht hn hi =>
      rw [← List.append_assoc]
      exact .point (h.seq hm) hk ht hn hi

theorem withDepth (h : Leads s done s') (m n : Nat) : Leads (atDepth s m) done (atDepth s' n) := by
  cases h with
  | token hm ht hit hi =>
      exact .token (hm.withDepth m n) (ht.withDepth n n) hit (hi.withDepth n n)
  | point hm hk ht hn hi =>
      exact .point (hm.withDepth m n) hk (run_take_atDepth ht n) hn (hi.withDepth n n)

/-- The first item taken shows the token at hand. -/
theorem peek_eq (h : Leads s done s') (last : TokenKind) (more : List Item) :
    peek last (done ++ more) = s.current.kind := by
  cases h with
  | @token its it s₁ s₂ _ hm ht hit =>
      have hpeek : peek last ([it] ++ more) = peek s₂.current.kind [it] := by
        cases it <;> first | rfl | cases hit
      rw [List.append_assoc, peek_append, hpeek, ht.peek_eq rfl]
      exact hm.peek_eq rfl
  | point hm hk =>
      rw [List.append_assoc, peek_append]
      exact hm.peek_eq hk.symm

end Leads

end Parser
end EcmaSyntax
