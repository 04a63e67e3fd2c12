import EcmaSyntax.Proofs.Grammar

/-!
# Runs that have to succeed

**Judgement.**  `Accepts last p input a rest` says of a parser `p`: in each state from which
one can move over all of `input`, with `last` at hand at the end, the parser succeeds,
yields `a` and has moved over the items before `rest`.

**Composition.**  There is one rule for each of the basic parsers, in front of whatever
comes next.  The items say which token is at hand, so each choice of a parser is settled.
-/

namespace EcmaSyntax
namespace Parser

variable {α β : Type}

/-- A parser that can move over some items takes those before some others and succeeds. -/
def Accepts (last : TokenKind) (p : Parser α) (input : List Item) (a : α) (rest : List Item) :
    Prop :=
  ∀ s e, Moves s input e [] → e.current.kind = last →
    ∃ s', p.run s = .ok a s' ∧ Moves s input s' rest ∧ Moves s' rest e []

namespace Accepts

variable {last k : TokenKind} {p : Parser α} {input mid its rest : List Item} {a : α} {b : β}
variable {t : Text}

theorem pure : Accepts last (pure a) input a input :=
  fun s _ hm _ => ⟨s, rfl, .refl, hm⟩

theorem bind {f : α → Parser β} (hp : Accepts last p input a mid)
    (hf : Accepts last (f a) mid b rest) : Accepts last (p >>= f) input b rest := by
  intro s e hm he
  obtain ⟨s₁, h₁, hm₁, hm₁'⟩ := hp s e hm he
  obtain ⟨s₂, h₂, hm₂, hm₂'⟩ := hf s₁ e hm₁' he
  exact ⟨s₂, run_bind_ok.mpr ⟨a, s₁, h₁, h₂⟩, hm₁.trans hm₂, hm₂'⟩

theorem map {f : α → β} (hp : Accepts last p input a rest) :
    Accepts last (f <$> p) input (f a) rest := by
  intro s e hm he
  obtain ⟨s₁, h₁, hm₁, hm₁'⟩ := hp s e hm he
  exact ⟨s₁, run_map_ok.mpr ⟨a, h₁, rfl⟩, hm₁, hm₁'⟩

/-- A rule accepts what its body accepts. -/
theorem deepen (hp : Accepts last p input a rest) : Accepts last (deepen p) input a rest := by
  intro s e hm he
  obtain ⟨s₁, h₁, hm₁, hm₁'⟩ := hp (atDepth s (s.depth + 1)) e (hm.withDepth _ e.depth) he
  refine ⟨_, run_deepen_ok.mpr ⟨s₁, h₁, rfl⟩, ?_, ?_⟩
  · have := hm₁.withDepth s.depth (s₁.depth - 1)
    simpa using this
  · have := hm₁'.withDepth (s₁.depth - 1) e.depth
    simpa using this

/-! ## Looking at the token at hand -/

theorem kind {f : TokenKind → Parser β} (h : Accepts last (f (peek last input)) input b rest) :
    Accepts last (kind >>= f) input b rest := by
  intro s e hm he
  have hk : peek last input = s.current.kind := hm.peek_eq he.symm
  rw [EStateM.run_bind, run_kind, ← hk]
  exact h s e hm he

theorem isAt {f : Bool → Parser β} (h : Accepts last (f (peek last input = k)) input b rest) :
    Accepts last (isAt k >>= f) input b rest := by
  intro s e hm he
  have hk : peek last input = s.current.kind := hm.peek_eq he.symm
  rw [EStateM.run_bind, run_isAt, ← hk]
  exact h s e hm he

theorem current {f : Token → Parser β}
    (h : ∀ tok : Token, tok.kind = k → tok.text = t → Accepts last (f tok) (.taken k t :: its) b
      rest) :
    Accepts last (current >>= f) (.taken k t :: its) b rest := by
  intro s e hm he
  cases hm with
  | taken ht hk htext hp hm => exact h s.current hk htext s e (.taken ht hk htext hp hm) he

theorem currentKind {f : Token → Parser β}
    (h : ∀ tok : Token, tok.kind = peek last input → Accepts last (f tok) input b rest) :
    Accepts last (Parser.current >>= f) input b rest := by
  intro s e hm he
  exact h s.current (hm.peek_eq he.symm).symm s e hm he

/-! ## Taking tokens -/

theorem take {f : Token → Parser β}
    (h : ∀ tok : Token, tok.kind = k → tok.text = t → Accepts last (f tok) its b rest) :
    Accepts last (take >>= f) (.taken k t :: its) b rest := by
  intro s e hm he
  cases hm with
  | @taken _ s₁ _ tok _ _ _ _ ht hk htext hp hm =>
      obtain rfl := (run_take_ok.mp ht).1
      obtain ⟨s₂, h₂, hm₂, hm₂'⟩ := h s.current hk htext s₁ e hm he
      exact ⟨s₂, run_bind_ok.mpr ⟨_, s₁, ht, h₂⟩, .taken ht hk htext hp hm₂, hm₂'⟩

theorem expect {f : Token → Parser β}
    (h : ∀ tok : Token, tok.text = t → Accepts last (f tok) its b rest) :
    Accepts last (expect k >>= f) (.taken k t :: its) b rest := by
  unfold Parser.expect
  rw [bind_assoc]
  refine .isAt ?_
  simp only [peek_taken, decide_true, if_true]
  exact .take fun tok _ htext => h tok htext

theorem eat {f : Bool → Parser β} (h : Accepts last (f true) its b rest) :
    Accepts last (eat k >>= f) (.taken k t :: its) b rest := by
  unfold Parser.eat
  rw [bind_assoc]
  refine .isAt ?_
  simp only [peek_taken, decide_true, if_true, bind_assoc, pure_bind]
  exact .take fun _ _ _ => h

theorem eatNot {f : Bool → Parser β} (hne : peek last input ≠ k)
    (h : Accepts last (f false) input b rest) : Accepts last (Parser.eat k >>= f) input b rest := by
  unfold Parser.eat
  rw [bind_assoc]
  refine .isAt ?_
  simp only [hne, decide_false, Bool.false_eq_true, if_false, pure_bind]
  exact h

theorem bindingName {f : Text → Parser β} (h : Accepts last (f t) its b rest) :
    Accepts last (bindingName >>= f) (.taken .identifier t :: its) b rest := by
  unfold Parser.bindingName
  rw [bind_assoc]
  refine .expect fun tok htext => ?_
  rw [pure_bind, htext]
  exact h

/-- A point and the name of a property after it. -/
theorem member {f : Text → Parser β} (h : Accepts last (f t) its b rest) :
    Accepts last (do let _ ← Parser.take; let name ← propertyName; f name) (.member k t :: its) b
      rest := by
  intro s e hm he
  cases hm with
  | @member _ s₁ s₂ _ tok tok₁ _ _ _ _ ht hk ht₁ hk₁ htext hname hm =>
      obtain rfl := (run_take_ok.mp ht₁).1
      obtain ⟨s₃, h₃, hm₃, hm₃'⟩ := h s₂ e hm he
      refine ⟨s₃, run_bind_ok.mpr ⟨tok, s₁, ht, run_bind_ok.mpr ⟨t, s₂, ?_, h₃⟩⟩,
        .member ht hk ht₁ hk₁ htext hname hm₃, hm₃'⟩
      unfold propertyName
      rw [EStateM.run_bind, run_kind]
      simp only [hk₁, hname, if_true]
      exact run_bind_ok.mpr ⟨s₁.current, s₂, ht₁, by rw [htext]; rfl⟩

theorem endStatement {f : Unit → Parser β} {item : Item}
    (hitem : (∃ k, item = .ended k) ∨ ∃ k, item = .inserted k)
    (h : Accepts last (f ()) its b rest) :
    Accepts last (endStatement >>= f) (item :: its) b rest := by
  intro s e hm he
  obtain ⟨k, rfl⟩ | ⟨k, rfl⟩ := hitem
  · cases hm with
    | @ended _ s₁ _ _ _ _ hend hk hs hm =>
        obtain ⟨s₂, h₂, hm₂, hm₂'⟩ := h s₁ e hm he
        exact ⟨s₂, run_bind_ok.mpr ⟨(), s₁, hend, h₂⟩, .ended hend hk hs hm₂, hm₂'⟩
  · cases hm with
    | @inserted _ s₁ _ _ _ _ hend hk hs hm =>
        obtain ⟨s₂, h₂, hm₂, hm₂'⟩ := h s₁ e hm he
        exact ⟨s₂, run_bind_ok.mpr ⟨(), s₁, hend, h₂⟩, .inserted hend hk hs hm₂, hm₂'⟩

theorem pendingComments {f : List Statement → Parser β} {cs : List Comment}
    (h : Accepts last (f (cs.map .comment)) its b rest) :
    Accepts last (pendingComments >>= f) (.comments cs :: its) b rest := by
  intro s e hm he
  cases hm with
  | @comments _ s₁ _ _ _ _ hc hm =>
      obtain ⟨s₂, h₂, hm₂, hm₂'⟩ := h s₁ e hm he
      exact ⟨s₂, run_bind_ok.mpr ⟨_, s₁, hc, h₂⟩, .comments hc hm₂, hm₂'⟩

end Accepts

end Parser
end EcmaSyntax
