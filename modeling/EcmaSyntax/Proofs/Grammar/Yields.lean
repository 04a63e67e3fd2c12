import EcmaSyntax.Proofs.Grammar

/-!
# What successful runs have taken

**Judgement.**  `Yields last s p Q` says of a parser `p` in a state `s`: if it succeeds, it
has moved over some items, and `Q` holds of the items, of its result and of what follows.
What follows is arbitrary, as long as it shows the token at hand after the run.

**Composition.**  A sequence is taken apart by `Yields.bind`.  What is known of its first
part becomes a premise of what has to be shown of its second part, so that at the end of a
parser everything that its parts have taken is at hand.
-/

namespace EcmaSyntax
namespace Parser

variable {α β : Type}

/-- If a parser succeeds, it has moved over items of which a relation holds. -/
def Yields (last : TokenKind) (s : ParserState) (p : Parser α)
    (Q : List Item → α → List Item → Prop) : Prop :=
  ∀ a s', p.run s = .ok a s' → ∀ rest, peek last rest = s'.current.kind →
    ∃ input, Moves s input s' rest ∧ Q input a rest

namespace Yields

variable {last : TokenKind} {room : Nat} {s : ParserState} {p : Parser α}
variable {P Q : List Item → α → List Item → Prop} {R : List Item → β → List Item → Prop}

theorem mono (hp : Yields last s p P)
    (h : ∀ i a r, peek last i = s.current.kind → P i a r → Q i a r) : Yields last s p Q := by
  intro a s' hrun rest hrest
  obtain ⟨input, hm, hP⟩ := hp a s' hrun rest hrest
  exact ⟨input, hm, h input a rest (hm.peek_eq hrest) hP⟩

theorem pure {a : α} (h : ∀ r, peek last r = s.current.kind → Q r a r) :
    Yields last s (pure a) Q := by
  intro b s' hrun rest hrest
  rw [EStateM.run_pure] at hrun
  cases hrun
  exact ⟨rest, .refl, h rest hrest⟩

theorem bind {f : α → Parser β} (hp : Yields last s p P)
    (hf : ∀ a s₁, Yields last s₁ (f a) fun mid b rest =>
      ∀ input, peek last input = s.current.kind → P input a mid → R input b rest) :
    Yields last s (p >>= f) R := by
  intro b s' hrun rest hrest
  obtain ⟨a, s₁, hrun₁, hrun₂⟩ := run_bind_ok.mp hrun
  obtain ⟨mid, hm₂, hR⟩ := hf a s₁ b s' hrun₂ rest hrest
  obtain ⟨input, hm₁, hP⟩ := hp a s₁ hrun₁ mid (hm₂.peek_eq hrest)
  have hm := hm₁.trans hm₂
  exact ⟨input, hm, hR input (hm.peek_eq hrest) hP⟩

theorem map {f : α → β} (hp : Yields last s p P)
    (h : ∀ i a r, peek last i = s.current.kind → P i a r → R i (f a) r) :
    Yields last s (f <$> p) R := by
  intro b s' hrun rest hrest
  obtain ⟨a, hrun₁, rfl⟩ := run_map_ok.mp hrun
  obtain ⟨input, hm, hP⟩ := hp a s' hrun₁ rest hrest
  exact ⟨input, hm, h input a rest (hm.peek_eq hrest) hP⟩

/-! ## Looking at the token at hand -/

theorem kind {f : TokenKind → Parser β} (h : Yields last s (f s.current.kind) R) :
    Yields last s (kind >>= f) R := h

theorem isAt {k : TokenKind} {f : Bool → Parser β}
    (h : Yields last s (f (decide (s.current.kind = k))) R) :
    Yields last s (isAt k >>= f) R := h

theorem current {f : Token → Parser β} (h : Yields last s (f s.current) R) :
    Yields last s (current >>= f) R := h

theorem unexpected : Yields last s unexpected Q := by
  intro a s' h
  rw [run_unexpected] at h
  cases h

theorem unexpected_bind {f : α → Parser β} : Yields last s (Parser.unexpected >>= f) R := by
  intro b s' h
  obtain ⟨a, s₁, h, -⟩ := run_bind_ok.mp h
  cases h

theorem throw {f : Failure} : Yields last s (throw f : Parser α) Q := by
  intro a s' h
  rw [run_throw] at h
  cases h

/-! ## Taking tokens -/

theorem take {P : List Item → Token → List Item → Prop} (hk : isPlain s.current.kind)
    (h : ∀ r, P (.taken s.current.kind s.current.text :: r) s.current r) :
    Yields last s take P := by
  intro t s' hrun rest hrest
  have ht := (run_take_ok.mp hrun).1
  subst ht
  exact ⟨.taken s.current.kind s.current.text :: rest, .taken hrun rfl rfl hk .refl, h rest⟩

theorem expect {k : TokenKind} (hk : isPlain k) :
    Yields last s (expect k) fun i t r => i = .taken k t.text :: r := by
  unfold Parser.expect
  refine .isAt ?_
  by_cases h : s.current.kind = k
  · subst h
    simp only [decide_true, if_true]
    exact .take hk fun _ => rfl
  · simp only [h, decide_false, Bool.false_eq_true, if_false]
    exact .unexpected

theorem eat {k : TokenKind} (hk : isPlain k) :
    Yields last s (eat k) fun i b r =>
      b = true ∧ (∃ t, i = .taken k t :: r) ∨ b = false ∧ i = r ∧ peek last r ≠ k := by
  unfold Parser.eat
  refine .isAt ?_
  by_cases h : s.current.kind = k
  · subst h
    simp only [decide_true, if_true]
    refine .bind (P := fun i t r => i = .taken s.current.kind t.text :: r)
      (.take hk fun _ => rfl) fun t s₁ => .pure fun r _ i _ hi => ?_
    exact .inl ⟨rfl, t.text, hi⟩
  · simp only [h, decide_false, Bool.false_eq_true, if_false]
    refine .pure fun r hr => .inr ⟨rfl, rfl, ?_⟩
    rw [hr]
    exact h

theorem bindingName :
    Yields last s bindingName fun i name r => i = .taken .identifier name :: r :=
  .bind (.expect rfl) fun _ _ => .pure fun _ _ _ _ hi => hi

/-- A point and the name of a property after it. -/
theorem member {f : Text → Parser β} (hk : s.current.kind = .dot)
    (hf : ∀ name s₁, Yields last s₁ (f name) fun mid b rest =>
      ∀ k : TokenKind, k.isIdentifierName → R (.member k name :: mid) b rest) :
    Yields last s (do let _ ← Parser.take; let name ← propertyName; f name) R := by
  intro b s' hrun rest hrest
  obtain ⟨t, s₁, h₁, hrun⟩ := run_bind_ok.mp hrun
  obtain ⟨name, s₂, h₂, hrun⟩ := run_bind_ok.mp hrun
  unfold propertyName at h₂
  rw [EStateM.run_bind] at h₂
  by_cases hn : s₁.current.kind.isIdentifierName
  · simp only [run_kind, hn, if_true] at h₂
    obtain ⟨t₁, s₃, h₃, h₂⟩ := run_bind_ok.mp h₂
    cases h₂
    have ht₁ := (run_take_ok.mp h₃).1
    subst ht₁
    obtain ⟨mid, hm, hR⟩ := hf _ s₂ b s' hrun rest hrest
    exact ⟨.member s₁.current.kind s₁.current.text :: mid, .member h₁ hk h₃ rfl rfl hn hm,
      hR _ hn⟩
  · simp only [run_kind, hn, Bool.false_eq_true, if_false] at h₂
    cases h₂

theorem pendingComments : Yields last s pendingComments fun i a r =>
    ∃ cs : List Comment, i = .comments cs :: r ∧ a = cs.map .comment := by
  intro a s' hrun rest hrest
  have hcs : a = ((s.stream.scanner.comments.reverse.filter fun c => s.lastEnd ≤ c.offset &&
      c.offset < s.current.place.offset).map (·.toComment)).map .comment := by
    rw [run_pendingComments] at hrun
    injection hrun with ha
    rw [← ha, List.map_map]
    rfl
  subst hcs
  exact ⟨.comments _ :: rest, .comments hrun .refl, _, rfl, rfl⟩

theorem endStatement (room : Nat) :
    Yields last s endStatement (Derives last room .terminator) := by
  intro a s' hrun rest hrest
  by_cases h : isSemicolon s.current.kind
  · exact ⟨.ended s.current.kind :: rest, .ended hrun rfl h .refl, .ended⟩
  · refine ⟨.inserted s.current.kind :: rest, .inserted hrun rfl ?_ .refl, .inserted⟩
    simpa using h

/-- A choice by whether a token of some kind can be taken. -/
theorem ifEat {k : TokenKind} {p q : Parser β} (hk : isPlain k)
    (hp : ∀ s₁, Yields last s₁ p fun mid b rest => ∀ t, R (.taken k t :: mid) b rest)
    (hq : ∀ s₁, Yields last s₁ q fun mid b rest => peek last mid ≠ k → R mid b rest) :
    Yields last s (Parser.eat k >>= fun b => if b = true then p else q) R := by
  refine .bind (.eat hk) fun b s₁ => ?_
  cases b with
  | true =>
      refine (hp s₁).mono fun mid b rest _ hR input _ h => ?_
      obtain ⟨-, t, rfl⟩ | ⟨h, -⟩ := h
      · exact hR t
      · cases h
  | false =>
      refine (hq s₁).mono fun mid b rest _ hR input _ h => ?_
      obtain ⟨h, -⟩ | ⟨-, rfl, h⟩ := h
      · cases h
      · exact hR h

/-! ## Repetition -/

/-- The end of a list that goes on after each comma. -/
theorem afterComma (s : ParserState) :
    Yields last s (return !(← Parser.eat .comma)) fun i b r =>
      b = false ∧ (∃ t, i = .taken .comma t :: r) ∨ b = true ∧ i = r ∧ peek last r ≠ .comma := by
  refine .bind (.eat rfl) fun b s₁ => .pure fun r _ i _ hi => ?_
  obtain ⟨rfl, ht⟩ | ⟨rfl, hr⟩ := hi
  · exact .inl ⟨rfl, ht⟩
  · exact .inr ⟨rfl, hr⟩

/-- Items up to the end of a list, from what one look for the end and one item take. -/
theorem itemsUntil {atEnd : Parser Bool} {item : Parser α}
    {E : List Item → Bool → List Item → Prop} {L : List Item → List α → List Item → Prop}
    (hend : ∀ s, Yields last s atEnd E) (hitem : ∀ s, Yields last s item P)
    (hnil : ∀ i r, E i true r → L i [] r)
    (hcons : ∀ i m m' r a as, E i false m → P m a m' → L m' as r → L i (a :: as) r)
    (turns : Nat) (s : ParserState) : Yields last s (itemsUntil atEnd item turns) L := by
  induction turns generalizing s with
  | zero => exact .unexpected
  | succ turns ih =>
      refine .bind (hend s) fun b s₁ => ?_
      cases b with
      | true => exact .pure fun r _ i _ hE => hnil i r hE
      | false =>
          refine .bind (hitem s₁) fun a s₂ => .bind (ih s₂) fun as s₃ => .pure ?_
          intro r _ m' _ hL m _ hP i _ hE
          exact hcons i m m' r a as hE hP hL

/-- Items with commas between them: none, or a first one and others that a relation holds of. -/
theorem commaList {close : TokenKind} {item : Parser α}
    {L : List Item → List α → List Item → Prop}
    (hclose : isPlain close) (hitem : ∀ s, Yields last s item P)
    (hnil : ∀ t r, L (.taken close t :: r) [] r)
    (hcons : ∀ t i m r a as, P i a m → L m as r → L (.taken .comma t :: i) (a :: as) r)
    (turns : Nat) (s : ParserState) :
    Yields last s (commaList close item turns) fun i as r =>
      as = [] ∧ (∃ t, i = .taken close t :: r) ∨
        ∃ a as' m, as = a :: as' ∧ peek last i ≠ close ∧ P i a m ∧ L m as' r := by
  refine .ifEat hclose (fun s₁ => ?_) fun s₁ => ?_
  · exact .pure fun r _ t => .inl ⟨rfl, t, rfl⟩
  · refine .bind (hitem s₁) fun a s₂ => .bind (P := L) ?_ fun as s₃ => .pure ?_
    · refine .itemsUntil (fun _ => .eat hclose) (P := fun i a r => ∃ t m, i = .taken .comma t :: m ∧
        P m a r) (fun s₃ => ?_) ?_ ?_ turns s₂
      · refine .bind (.expect rfl) fun t s₄ => (hitem s₄).mono fun m a r _ hP i _ hi => ?_
        exact ⟨t.text, m, hi, hP⟩
      · rintro i r (⟨-, t, rfl⟩ | ⟨h, -⟩)
        · exact hnil t r
        · cases h
      · rintro i m m' r a as (⟨h, -⟩ | ⟨-, rfl, -⟩) ⟨t, m₁, rfl, hP⟩ hL
        · cases h
        · exact hcons t m₁ m' r a as hP hL
    · intro r _ m _ hL i _ hP hne
      exact .inr ⟨a, as, m, rfl, hne, hP, hL⟩

/-- Steps up to one that adds nothing, from what one step takes. -/
theorem iterate {extend : α → Parser (Option α)}
    {X : α → List Item → Option α → List Item → Prop} {L : α → List Item → α → List Item → Prop}
    (hstep : ∀ a s, Yields last s (extend a) (X a))
    (hstop : ∀ a i r, X a i none r → L a i a r)
    (hmore : ∀ a b c i m r, X a i (some b) m → L b m c r → L a i c r)
    (turns : Nat) (a : α) (s : ParserState) : Yields last s (iterate extend turns a) (L a) := by
  induction turns generalizing a s with
  | zero => exact .unexpected
  | succ turns ih =>
      refine .bind (hstep a s) fun o s₁ => ?_
      cases o with
      | none => exact .pure fun r _ i _ hX => hstop a i r hX
      | some b =>
          refine (ih b s₁).mono fun m c r _ hL i _ hX => ?_
          exact hmore a b c i m r hX hL

end Yields

end Parser
end EcmaSyntax
