import EcmaSyntax.Proofs.Completion.Stops
import EcmaSyntax.Proofs.Printing.Spelled

/-!
# What unfinished runs can be completed to

**Judgements.**  `Completes s p follow R` says of a parser `p` in a state `s` that it yields what
`R` says, and that wherever a run stops, written items can be put behind what it took, so that
`R` holds of the whole.  What comes after the whole is arbitrary, as long as it shows a token of
a kind that may follow.  `CompletesBy word s p follow R` adds that `word` alone is such a whole.

**Composition.**  `Completes.bindBefore` takes a sequence apart.  Either its second part took a
token, and its first part is what it was in the run; or the second part is replaced by its word,
and the first part is completed.

Whatever the parser saw of the token it stopped at is forgotten: a completion need not go on with
this token, nor with an insertion that it allowed.
-/

namespace EcmaSyntax
namespace Parser

variable {α β : Type}

/-- Whatever kind of token follows. -/
def anyKind : TokenKind → Bool := fun _ => true

/-- Kinds of tokens with one spelling that the grammar takes one by one. -/
def isSign (k : TokenKind) : Bool :=
  isPlain k && (k ∈ TokenKind.keywords || k ∈ TokenKind.punctuators)

theorem written_sign {k : TokenKind} (hk : isSign k) : (Printer.sign k).IsWritten := by
  simp only [isSign, Bool.and_eq_true, Bool.or_eq_true, decide_eq_true_eq] at hk
  exact .taken (tokenAt_sign hk.2) hk.1

theorem written_name : Completion.name.IsWritten :=
  .taken (tokenAt_name (by decide +kernel)) rfl

/-- Written items can be put behind what is taken from one state to another, so that a relation
holds of the whole and of whatever follows. -/
def Extendable (s s' : ParserState) (follow : TokenKind → Bool)
    (R : List Item → α → List Item → Prop) : Prop :=
  ∀ rest, follow (peek .endOfInput rest) → ∃ done more a, Leads s done s' ∧
    (∀ it ∈ more, it.IsWritten) ∧ R (done ++ (more ++ rest)) a rest

/-- From one state to another no token is taken, or what is taken can be extended. -/
def Completable (s s' : ParserState) (follow : TokenKind → Bool)
    (R : List Item → α → List Item → Prop) : Prop :=
  Idle s s' ∨ Extendable s s' follow R

/-- A parser yields what a relation says, and wherever a run stops, what it took can be
completed. -/
structure Completes (s : ParserState) (p : Parser α) (follow : TokenKind → Bool)
    (R : List Item → α → List Item → Prop) : Prop where
  yields : Yields .endOfInput s p R
  stops : ∀ s', Stops p s s' → Completable s s' follow R

/-- Besides, the relation holds of a word alone. -/
structure CompletesBy (word : List Item) (s : ParserState) (p : Parser α)
    (follow : TokenKind → Bool) (R : List Item → α → List Item → Prop) : Prop
    extends Completes s p follow R where
  whole : ∀ rest, follow (peek .endOfInput rest) →
    (∀ it ∈ word, it.IsWritten) ∧ ∃ a, R (word ++ rest) a rest

section

variable {s s' : ParserState} {p : Parser α} {follow follow₁ : TokenKind → Bool}
variable {word word₁ : List Item}
variable {P Q : List Item → α → List Item → Prop} {R : List Item → β → List Item → Prop}

/-- What was taken shows the token at hand. -/
theorem Completable.map {f : α → β} (h : Completable s s' follow P)
    (hF : ∀ k, follow₁ k → follow k)
    (hR : ∀ i a r, peek .endOfInput i = s.current.kind → P i a r → R i (f a) r) :
    Completable s s' follow₁ R := by
  refine h.imp_right fun h rest hrest => ?_
  obtain ⟨done, more, a, hl, hw, hP⟩ := h rest (hF _ hrest)
  exact ⟨done, more, f a, hl, hw, hR _ a rest (hl.peek_eq _ _) hP⟩

/-- Nothing is taken after what can be completed. -/
theorem Completable.idle {s₁ : ParserState} (h : Completable s s₁ follow P) (hi : Idle s₁ s') :
    Completable s s' follow P := by
  obtain hi₁ | h := h
  · exact .inl (hi₁.trans hi)
  · refine .inr fun rest hrest => ?_
    obtain ⟨done, more, a, hl, hw, hP⟩ := h rest hrest
    exact ⟨done, more, a, hl.idle hi, hw, hP⟩

/-- A word stands behind a completion. -/
theorem Completable.andWord (h : Completable s s' follow₁ P)
    (hF : ∀ k, follow k → follow₁ (peek k word))
    (hword : ∀ a rest, follow (peek .endOfInput rest) → (∀ it ∈ word, it.IsWritten) ∧
      ∃ b, ∀ input, peek .endOfInput input = s.current.kind → P input a (word ++ rest) →
        R input b rest) : Completable s s' follow R := by
  refine h.imp_right fun h rest hrest => ?_
  obtain ⟨done, more, a, hl, hw, hP⟩ := h (word ++ rest) (by
    rw [peek_append]
    exact hF _ hrest)
  obtain ⟨hw', b, hR⟩ := hword a rest hrest
  refine ⟨done, more ++ word, b, hl, List.forall_mem_append.mpr ⟨hw, hw'⟩, ?_⟩
  rw [List.append_assoc]
  exact hR _ (hl.peek_eq _ _) hP

/-- What a parser has yielded stands before what is extended. -/
theorem Extendable.after {s₁ : ParserState} {a : α} {R₁ : List Item → β → List Item → Prop}
    (h : Extendable s₁ s' follow R₁) (hy : Yields .endOfInput s p P) (hrun : p.run s = .ok a s₁)
    (hR : ∀ input mid b rest, Moves s input s₁ mid → peek .endOfInput mid = s₁.current.kind →
      P input a mid → R₁ mid b rest → R input b rest) : Extendable s s' follow R := by
  intro rest hrest
  obtain ⟨done, more, b, hl, hw, hR₁⟩ := h rest hrest
  have hpeek := hl.peek_eq .endOfInput (more ++ rest)
  obtain ⟨input, hm, hP⟩ := hy a s₁ hrun _ hpeek
  obtain ⟨i, rfl, hi⟩ := hm.exists_taken
  refine ⟨i ++ done, more, b, .after hi hl, hw, ?_⟩
  rw [List.append_assoc]
  exact hR _ _ b rest hm hpeek hP hR₁

theorem Completes.mono (h : Completes s p follow P) (hF : ∀ k, follow₁ k → follow k)
    (hR : ∀ i a r, peek .endOfInput i = s.current.kind → P i a r → Q i a r) :
    Completes s p follow₁ Q :=
  ⟨h.yields.mono hR, fun s' hs => (h.stops s' hs).map (f := id) hF hR⟩

theorem Completes.ofAny (h : Completes s p anyKind P) : Completes s p follow P :=
  h.mono (fun _ _ => rfl) fun _ _ _ _ hP => hP

theorem CompletesBy.mono (h : CompletesBy word s p follow P) (hR : ∀ i a r, P i a r → Q i a r) :
    CompletesBy word s p follow Q where
  toCompletes := h.toCompletes.mono (fun _ hk => hk) fun i a r _ => hR i a r
  whole rest hrest := (h.whole rest hrest).imp_right fun ⟨a, hP⟩ => ⟨a, hR _ a rest hP⟩

theorem CompletesBy.ofAny (h : CompletesBy word s p anyKind P) : CompletesBy word s p follow P :=
  ⟨h.toCompletes.ofAny, fun rest _ => h.whole rest rfl⟩

namespace Completes

/-! ## Sequences -/

theorem pure {a : α} (h : ∀ r, peek .endOfInput r = s.current.kind → P r a r) :
    Completes s (pure a) follow P := by
  refine ⟨.pure h, ?_⟩
  rintro s' (⟨b, hrun⟩ | ⟨f, k, text, hrun, -⟩)
  · cases hrun
    exact .inl (.refl s)
  · cases hrun

theorem unexpected : Completes s unexpected follow P := by
  refine ⟨.unexpected, ?_⟩
  rintro s' (⟨b, hrun⟩ | hs)
  · cases hrun
  · exact .inl (hs.eq_of_unexpected ▸ .refl s)

theorem unexpected_bind {f : α → Parser β} :
    Completes s (Parser.unexpected >>= f) follow R := by
  refine ⟨.unexpected_bind, fun s' hs => ?_⟩
  obtain hs | ⟨a, s₁, hrun, -⟩ := hs.of_bind
  · exact .inl (hs.eq_of_unexpected ▸ .refl s)
  · cases hrun

/-- A run that stops in the second part of a sequence is that of the first part with a completion
of the second one, or a completion of the first part with the word of the second one. -/
theorem bindBefore {f : α → Parser β} (hp : Completes s p follow₁ P)
    (hf : ∀ a s₁, CompletesBy word s₁ (f a) follow fun mid b rest =>
      ∀ input, peek .endOfInput input = s.current.kind → P input a mid → R input b rest)
    (hF : ∀ k, follow k → follow₁ (peek k word)) : Completes s (p >>= f) follow R := by
  refine ⟨hp.yields.bind fun a s₁ => (hf a s₁).yields, fun s' hs => ?_⟩
  have hfirst (h : Completable s s' follow₁ P) : Completable s s' follow R :=
    h.andWord hF fun a rest hrest => (hf a s).whole rest hrest
  obtain hs | ⟨a, s₁, hrun, hs₁⟩ := hs.of_bind
  · exact hfirst (hp.stops s' (.inr hs))
  · obtain hi | h := (hf a s₁).stops s' hs₁
    · exact hfirst ((hp.stops s₁ (.inl ⟨a, hrun⟩)).idle hi)
    · exact .inr (h.after hp.yields hrun fun input mid b rest hm hmid hP hR =>
        hR input (hm.peek_eq hmid) hP)

theorem bind {f : α → Parser β} (hp : Completes s p anyKind P)
    (hf : ∀ a s₁, CompletesBy word s₁ (f a) follow fun mid b rest =>
      ∀ input, peek .endOfInput input = s.current.kind → P input a mid → R input b rest) :
    Completes s (p >>= f) follow R :=
  hp.bindBefore hf fun _ _ => rfl

theorem map {f : α → β} (h : Completes s p follow P) (hR : ∀ i a r,
    peek .endOfInput i = s.current.kind → P i a r → R i (f a) r) :
    Completes s (f <$> p) follow R := by
  refine ⟨h.yields.map hR, fun s' hs => ?_⟩
  have hs : Stops p s s' := by
    obtain ⟨b, hrun⟩ | hs := hs
    · obtain ⟨a, hrun, -⟩ := run_map_ok.mp hrun
      exact .inl ⟨a, hrun⟩
    · rw [map_eq_pure_bind] at hs
      obtain hs | ⟨a, s₁, -, f, k, text, hrun, -⟩ := hs.of_bind
      · exact .inr hs
      · cases hrun
  exact (h.stops s' hs).map (fun _ hk => hk) hR

/-- A rule is completed as its body is. -/
theorem deepen (h : Completes (atDepth s (s.depth + 1)) p follow P)
    (hR : ∀ i a r, P i a r → Q i a r) : Completes s (deepen p) follow Q := by
  constructor
  · intro a s' hrun rest hrest
    obtain ⟨s₁, h₁, rfl⟩ := run_deepen_ok.mp hrun
    obtain ⟨input, hm, hP⟩ := h.yields a s₁ h₁ rest hrest
    exact ⟨input, by simpa using hm.withDepth s.depth (s₁.depth - 1), hR _ _ _ hP⟩
  · intro s' hs
    obtain ⟨s₁, hs₁, rfl⟩ : ∃ s₁, Stops p (atDepth s (s.depth + 1)) s₁ ∧
        s' = atDepth s₁ (s₁.depth - 1) := by
      obtain ⟨a, hrun⟩ | ⟨f, k, text, hrun, hf⟩ := hs
      · obtain ⟨s₁, h₁, rfl⟩ := run_deepen_ok.mp hrun
        exact ⟨s₁, .inl ⟨a, h₁⟩, rfl⟩
      · rw [run_deepen] at hrun
        cases hp : p.run (atDepth s (s.depth + 1)) with
        | ok a s₁ =>
            rw [hp] at hrun
            cases hrun
        | error f' s₁ =>
            rw [hp] at hrun
            cases hrun
            exact ⟨s₁, .inr ⟨f, k, text, hp, hf⟩, rfl⟩
    refine (h.stops s₁ hs₁).imp (fun hi => ?_) fun h rest hrest => ?_
    · simpa using hi.withDepth s.depth (s₁.depth - 1)
    · obtain ⟨done, more, a, hl, hw, hP⟩ := h rest hrest
      exact ⟨done, more, a, by simpa using hl.withDepth s.depth (s₁.depth - 1), hw, hR _ _ _ hP⟩

/-! ## Looking at the token at hand -/

theorem kind {f : TokenKind → Parser β} (h : Completes s (f s.current.kind) follow R) :
    Completes s (Parser.kind >>= f) follow R := ⟨h.yields, h.stops⟩

theorem isAt {k : TokenKind} {f : Bool → Parser β}
    (h : Completes s (f (decide (s.current.kind = k))) follow R) :
    Completes s (Parser.isAt k >>= f) follow R := ⟨h.yields, h.stops⟩

theorem current {f : Token → Parser β} (h : Completes s (f s.current) follow R) :
    Completes s (Parser.current >>= f) follow R := ⟨h.yields, h.stops⟩

/-! ## Taking tokens -/

theorem take {P : List Item → Token → List Item → Prop} (hk : isPlain s.current.kind)
    (h : ∀ r, P (.taken s.current.kind s.current.text :: r) s.current r) :
    Completes s take anyKind P := by
  refine ⟨.take hk h, ?_⟩
  rintro s' (⟨t, hrun⟩ | hs)
  · have ht := (run_take_ok.mp hrun).1
    subst ht
    exact .inr fun rest _ => ⟨[.taken s.current.kind s.current.text], [], s.current,
      .token .refl (.taken hrun rfl rfl hk .refl) rfl (.refl s'), List.forall_mem_nil _,
      h rest⟩
  · exact hs.not_take.elim

/-- A choice by whether a token of some kind can be taken. -/
theorem ifEat {k : TokenKind} {f : Bool → Parser β} (hk : isPlain k)
    (hp : ∀ s₁, CompletesBy word s₁ (f true) follow fun mid b rest =>
      ∀ t, R (.taken k t :: mid) b rest)
    (hq : s.current.kind ≠ k → Completes s (f false) follow R) :
    Completes s (eat k >>= f) follow R := by
  unfold Parser.eat
  rw [bind_assoc]
  refine .isAt ?_
  by_cases h : s.current.kind = k
  · subst h
    simp only [decide_true, if_true, bind_assoc, pure_bind]
    refine .bind (P := fun i t r => i = .taken s.current.kind s.current.text :: r)
      (.take hk fun _ => rfl) fun t s₁ => (hp s₁).mono ?_
    rintro i b r hR _ - rfl
    exact hR _
  · simp only [h, decide_false, Bool.false_eq_true, if_false, pure_bind]
    exact hq h

/-- A point and the name of a property after it. -/
theorem member {f : Text → Parser β} (hk : s.current.kind = .dot)
    (hf : ∀ name s₁, CompletesBy word s₁ (f name) follow fun mid b rest =>
      ∀ k : TokenKind, R (.member k name :: mid) b rest) :
    Completes s (do let _ ← Parser.take; let name ← propertyName; f name) follow R := by
  refine ⟨.member hk fun name s₁ => (hf name s₁).yields.mono fun _ _ _ _ hR k _ => hR k,
    fun s' hs => ?_⟩
  obtain hs | ⟨t, s₁, h₁, hs⟩ := hs.of_bind
  · exact hs.not_take.elim
  refine .inr fun rest hrest => ?_
  unfold propertyName at hs
  rw [bind_assoc] at hs
  change Stops ((if s₁.current.kind.isIdentifierName then do return (← Parser.take).text
    else Parser.unexpected) >>= f) s₁ s' at hs
  by_cases hn : s₁.current.kind.isIdentifierName
  · simp only [hn, if_true, bind_assoc, pure_bind] at hs
    obtain hs | ⟨t₁, s₂, h₂, hs⟩ := hs.of_bind
    · exact hs.not_take.elim
    have ht₁ := (run_take_ok.mp h₂).1
    subst ht₁
    have hm : Moves s [.member s₁.current.kind s₁.current.text] s₂ [] :=
      .member h₁ hk h₂ rfl rfl hn .refl
    obtain hi | h := (hf _ s₂).stops s' hs
    · obtain ⟨hw, b, hR⟩ := (hf s₁.current.text s₂).whole rest hrest
      exact ⟨_, word, b, .token .refl hm rfl hi, hw, hR _⟩
    · obtain ⟨done, more, b, hl, hw, hR⟩ := h rest hrest
      exact ⟨_, more, b, .after hm hl, hw, hR _⟩
  · simp only [hn, Bool.false_eq_true, if_false] at hs
    obtain hs | ⟨a, s₂, hrun, -⟩ := hs.of_bind
    · obtain rfl := hs.eq_of_unexpected
      obtain ⟨hw, b, hR⟩ := (hf ['a'] s').whole rest hrest
      exact ⟨_, word, b, .point .refl hk h₁ (by simpa using hn) (.refl s'), hw, hR _⟩
    · cases hrun

/-- The reading of a slash as a literal. -/
theorem regex {P : List Item → Expression → List Item → Prop} (hk : opensRegex s.current.kind)
    (h : ∀ text r, P (.literal s.current.kind text :: r)
      (.regex (regexParts text).1 (regexParts text).2) r) :
    Completes s (regex s.current) anyKind P := by
  unfold Parser.regex
  constructor
  · intro e s' hrun rest _
    obtain ⟨t, s₁, h₁, hrun⟩ := run_bind_ok.mp hrun
    obtain ⟨_, s₂, h₂, hrun⟩ := run_bind_ok.mp hrun
    cases h₂
    obtain ⟨t', s₃, h₃, hrun⟩ := run_bind_ok.mp hrun
    cases hrun
    exact ⟨_, .literal h₁ rfl hk rfl h₃ .refl, h _ rest⟩
  · intro s' hs
    obtain hs | ⟨t, s₁, h₁, hs⟩ := hs.of_bind
    · refine (hs.not_lexical fun f s₁ hrun => ?_).elim
      exact isLexical_of_step (fun _ _ => TokenStream.isLexical_of_rescan) hrun
    obtain ⟨f, k, text, hrun, -⟩ | ⟨_, s₂, h₂, hs⟩ := hs.of_bind
    · cases hrun
    cases h₂
    obtain hs | ⟨t', s₃, h₃, hs⟩ := hs.of_bind
    · exact hs.not_take.elim
    obtain rfl : s' = s₃ := by
      obtain ⟨e, hrun⟩ | ⟨f, k, text, hrun, -⟩ := hs
      · cases hrun
        rfl
      · cases hrun
    exact .inr fun rest _ => ⟨_, [], _, .token .refl (.literal h₁ rfl hk rfl h₃ .refl) rfl
      (.refl s'), List.forall_mem_nil _, h _ _⟩

end Completes

namespace CompletesBy

theorem pure {a : α} (h : ∀ r, P r a r) : CompletesBy [] s (pure a) follow P where
  toCompletes := .pure fun r _ => h r
  whole rest _ := ⟨List.forall_mem_nil _, a, h rest⟩

theorem bindBefore {f : α → Parser β} (hp : CompletesBy word₁ s p follow₁ P)
    (hf : ∀ a s₁, CompletesBy word s₁ (f a) follow fun mid b rest =>
      ∀ input, P input a mid → R input b rest)
    (hF : ∀ k, follow k → follow₁ (peek k word)) :
    CompletesBy (word₁ ++ word) s (p >>= f) follow R where
  toCompletes := hp.toCompletes.bindBefore
    (fun a s₁ => (hf a s₁).mono fun _ _ _ hR input _ hP => hR input hP) hF
  whole rest hrest := by
    obtain ⟨hw, a, hP⟩ := hp.whole (word ++ rest) (by
      rw [peek_append]
      exact hF _ hrest)
    obtain ⟨hw', b, hR⟩ := (hf a s).whole rest hrest
    refine ⟨List.forall_mem_append.mpr ⟨hw, hw'⟩, b, ?_⟩
    rw [List.append_assoc]
    exact hR _ hP

theorem bind {f : α → Parser β} (hp : CompletesBy word₁ s p anyKind P)
    (hf : ∀ a s₁, CompletesBy word s₁ (f a) follow fun mid b rest =>
      ∀ input, P input a mid → R input b rest) :
    CompletesBy (word₁ ++ word) s (p >>= f) follow R :=
  hp.bindBefore hf fun _ _ => rfl

theorem map {f : α → β} (h : CompletesBy word s p follow P)
    (hR : ∀ i a r, P i a r → R i (f a) r) : CompletesBy word s (f <$> p) follow R where
  toCompletes := h.toCompletes.map fun i a r _ => hR i a r
  whole rest hrest := (h.whole rest hrest).imp_right fun ⟨a, hP⟩ => ⟨f a, hR _ a rest hP⟩

/-! ## Signs, names and the ends of statements -/

theorem expect {k : TokenKind} (hk : isSign k) :
    CompletesBy [Printer.sign k] s (expect k) anyKind fun i t r => i = .taken k t.text :: r := by
  constructor
  · unfold Parser.expect
    refine .isAt ?_
    by_cases h : s.current.kind = k
    · subst h
      simp only [decide_true, if_true]
      exact .take (Bool.and_eq_true_iff.mp hk).1 fun _ => rfl
    · simp only [h, decide_false, Bool.false_eq_true, if_false]
      exact .unexpected
  · exact fun rest _ => ⟨List.forall_mem_singleton.mpr (written_sign hk),
      { Token.beforeStart with text := k.display }, rfl⟩

theorem bindingName : CompletesBy [Completion.name] s bindingName anyKind
    fun i name r => i = .taken .identifier name :: r := by
  constructor
  · refine .map (f := Token.text) (P := fun i t r => i = .taken .identifier t.text :: r) ?_
      fun i t r _ hi => hi
    refine .isAt ?_
    by_cases h : s.current.kind = .identifier
    · simp only [h, decide_true, if_true]
      exact .take (by rw [h]; rfl) fun _ => by rw [h]
    · simp only [h, decide_false, Bool.false_eq_true, if_false]
      exact .unexpected
  · exact fun rest _ => ⟨List.forall_mem_singleton.mpr written_name, ['a'], rfl⟩

theorem endStatement (room : Nat) : CompletesBy [Printer.ending] s endStatement anyKind
    (Derives .endOfInput room .terminator) := by
  constructor
  · refine ⟨.endStatement room, ?_⟩
    rintro s' (⟨u, hrun⟩ | ⟨f, k, text, hrun, hf⟩)
    · by_cases hk : isSemicolon s.current.kind
      · have hm : Moves s [.ended s.current.kind] s' [] := .ended hrun rfl hk .refl
        by_cases hr : s.current.kind = .semicolon
        · rw [hr] at hm
          exact .inr fun rest _ => ⟨[.ended .semicolon], [], (), .token .refl hm rfl
            (.refl s'), List.forall_mem_nil _, .ended⟩
        · refine .inl ⟨_, List.forall_mem_singleton.mpr ?_, hm⟩
          simp [Item.isReal, Item.isToken, hr]
      · refine .inl ⟨[.inserted s.current.kind], List.forall_mem_singleton.mpr rfl, ?_⟩
        exact .inserted hrun rfl (by simpa using hk) .refl
    · rw [run_endStatement] at hrun
      split at hrun
      · cases ht : take.run (atSemicolon s) with
        | ok t s₁ =>
            rw [ht] at hrun
            cases hrun
        | error f' s₁ =>
            rw [ht] at hrun
            cases hrun
            obtain ⟨fault, text', hf'⟩ := isLexical_of_take ht
            rw [hf] at hf'
            cases hf'
      · cases hrun
        exact .inl (.refl s)
  · exact fun _ _ => ⟨List.forall_mem_singleton.mpr .ended, (), .ended⟩

theorem pendingComments : CompletesBy [.comments []] s pendingComments anyKind fun i a r =>
    ∃ cs : List Comment, i = .comments cs :: r ∧ a = cs.map .comment := by
  constructor
  · refine ⟨.pendingComments, ?_⟩
    rintro s' (⟨cs, hrun⟩ | ⟨f, k, text, hrun, -⟩)
    · have hyields : Yields s'.current.kind s Parser.pendingComments _ := .pendingComments
      obtain ⟨input, hm, cs, rfl, -⟩ := hyields cs s' hrun [] rfl
      exact .inl ⟨_, List.forall_mem_singleton.mpr rfl, hm⟩
    · cases hrun
  · exact fun _ _ => ⟨List.forall_mem_singleton.mpr .comments, [], [], rfl, rfl⟩

/-! ## Repetition -/

/-- Items after commas. -/
theorem afterCommas {item : Parser α} {L : List Item → List α → List Item → Prop}
    (hitem : ∀ s, CompletesBy word s item follow P) (hcomma : ¬follow .comma)
    (hnil : ∀ r, peek .endOfInput r ≠ .comma → L r [] r)
    (hcons : ∀ t i m r a as, P i a m → L m as r → L (.taken .comma t :: i) (a :: as) r)
    (turns : Nat) (s : ParserState) :
    CompletesBy [] s (itemsUntil (return !(← eat .comma)) item turns) follow L := by
  have hwhole : ∀ rest, follow (peek .endOfInput rest) = true →
      (∀ it ∈ ([] : List Item), it.IsWritten) ∧ ∃ as, L ([] ++ rest) as rest :=
    fun rest hrest => ⟨List.forall_mem_nil _, [], hnil rest fun h => hcomma (h ▸ hrest)⟩
  refine ⟨?_, hwhole⟩
  induction turns generalizing s with
  | zero => exact .unexpected
  | succ turns ih =>
      have hmore : ∀ s₁, CompletesBy (word ++ ([] ++ [])) s₁ (do
          let a ← item
          let rest ← itemsUntil (return !(← eat .comma)) item turns
          return a :: rest) follow fun i as r => ∀ t, L (.taken .comma t :: i) as r := by
        refine fun s₁ => .bindBefore (hitem s₁) (fun a s₂ =>
          .bindBefore ⟨ih s₂, hwhole⟩ (fun as s₃ => .pure ?_) fun _ hk => hk) fun _ hk => hk
        exact fun r m hL i hP t => hcons t i m r a as hP hL
      unfold itemsUntil
      rw [bind_assoc]
      refine .ifEat rfl hmore fun h => ?_
      rw [pure_bind]
      exact .pure fun r hr => hnil r (by rwa [hr])

/-- Items after commas, up to a closing token. -/
theorem commasUntil {close : TokenKind} {item : Parser α}
    {L : List Item → List α → List Item → Prop} (hclose : isSign close)
    (hitem : ∀ s, CompletesBy word s item follow₁ P) (hfollow : follow₁ close)
    (hnil : ∀ t r, L (.taken close t :: r) [] r)
    (hcons : ∀ t i m r a as, P i a m → L m as r → L (.taken .comma t :: i) (a :: as) r)
    (turns : Nat) (s : ParserState) :
    CompletesBy [Printer.sign close] s
      (itemsUntil (eat close) (do let _ ← Parser.expect .comma; item) turns) anyKind L := by
  have hplain : isPlain close := (Bool.and_eq_true_iff.mp hclose).1
  have hwhole : ∀ rest, anyKind (peek .endOfInput rest) = true →
      (∀ it ∈ [Printer.sign close], it.IsWritten) ∧
        ∃ as, L ([Printer.sign close] ++ rest) as rest := fun rest _ =>
    ⟨List.forall_mem_singleton.mpr (written_sign hclose), [], hnil _ rest⟩
  refine ⟨?_, hwhole⟩
  induction turns generalizing s with
  | zero => exact .unexpected
  | succ turns ih =>
      have hmore : ∀ s, CompletesBy ([Printer.sign .comma] ++ word) s
          (do let _ ← Parser.expect .comma; item) follow₁ fun i a r =>
            ∃ t m, i = .taken .comma t :: m ∧ P m a r := by
        refine fun s => .bind (expect rfl) fun t s₁ =>
          (hitem s₁).mono fun m a r hP i hi => ?_
        exact ⟨t.text, m, hi, hP⟩
      refine .ifEat hplain (fun s₁ => .pure fun r t => hnil t r) fun h => ?_
      refine .bindBefore (hmore s).toCompletes (fun a s₁ =>
        .bind ⟨ih s₁, hwhole⟩ fun as s₂ => .pure ?_) fun _ _ => hfollow
      rintro r m hL _ - ⟨t, i, rfl, hP⟩
      exact hcons t i m r a as hP hL

/-- Items with commas between them, up to a closing token. -/
theorem commaList {close : TokenKind} {item : Parser α}
    {L : List Item → List α → List Item → Prop} (hclose : isSign close)
    (hitem : ∀ s, CompletesBy word s item follow₁ P) (hfollow : follow₁ close)
    (hnil : ∀ t r, L (.taken close t :: r) [] r)
    (hcons : ∀ t i m r a as, P i a m → L m as r → L (.taken .comma t :: i) (a :: as) r)
    (turns : Nat) (s : ParserState) :
    CompletesBy [Printer.sign close] s (commaList close item turns) anyKind fun i as r =>
      as = [] ∧ (∃ t, i = .taken close t :: r) ∨
        ∃ a as' m, as = a :: as' ∧ peek .endOfInput i ≠ close ∧ P i a m ∧ L m as' r := by
  have hplain : isPlain close := (Bool.and_eq_true_iff.mp hclose).1
  constructor
  · refine .ifEat hplain (fun s₁ => .pure fun r t => .inl ⟨rfl, t, rfl⟩) fun h => ?_
    refine .bindBefore (hitem s).toCompletes (fun a s₁ => .bind
      (commasUntil hclose hitem hfollow hnil hcons turns s₁) fun as s₂ => .pure ?_)
        fun _ _ => hfollow
    intro r m hL i hi hP
    exact .inr ⟨a, as, m, rfl, by rwa [hi], hP, hL⟩
  · exact fun rest _ => ⟨List.forall_mem_singleton.mpr (written_sign hclose), [],
      .inl ⟨rfl, _, rfl⟩⟩

/-- Items up to a closing token, which is not taken. -/
theorem itemsBefore {close : TokenKind} {item : Parser α}
    {L : List Item → List α → List Item → Prop}
    (hitem : ∀ s, Completes s item (fun k => k = close) P)
    (hnil : ∀ r, peek .endOfInput r = close → L r [] r)
    (hcons : ∀ i m r a as, peek .endOfInput i ≠ close → P i a m → L m as r → L i (a :: as) r)
    (turns : Nat) (s : ParserState) :
    CompletesBy [] s (itemsUntil (isAt close) item turns) (fun k => k = close) L := by
  have hwhole : ∀ rest, decide (peek .endOfInput rest = close) = true →
      (∀ it ∈ ([] : List Item), it.IsWritten) ∧ ∃ as, L ([] ++ rest) as rest :=
    fun rest hrest => ⟨List.forall_mem_nil _, [], hnil rest (by simpa using hrest)⟩
  refine ⟨?_, hwhole⟩
  induction turns generalizing s with
  | zero => exact .unexpected
  | succ turns ih =>
      unfold itemsUntil
      refine .isAt ?_
      by_cases h : s.current.kind = close
      · simp only [h, decide_true, if_true]
        exact .pure fun r hr => hnil r (hr.trans h)
      · simp only [h, decide_false, Bool.false_eq_true, if_false]
        refine .bindBefore (hitem s) (fun a s₁ =>
          .bindBefore ⟨ih s₁, hwhole⟩ (fun as s₂ => .pure ?_) fun _ hk => hk) fun _ hk => hk
        intro r m hL i hi hP
        exact hcons i m r a as (by rwa [hi]) hP hL

/-- Steps up to one that adds nothing. -/
theorem iterate {extend : α → Parser (Option α)}
    {X : α → List Item → Option α → List Item → Prop} {L : α → List Item → α → List Item → Prop}
    (hstep : ∀ a s, Completes s (extend a) follow (X a))
    (hstop : ∀ a i r, X a i none r → L a i a r)
    (hend : ∀ a r, follow (peek .endOfInput r) → L a r a r)
    (hmore : ∀ a b c i m r, X a i (some b) m → L b m c r → L a i c r)
    (turns : Nat) (a : α) (s : ParserState) :
    CompletesBy [] s (iterate extend turns a) follow (L a) := by
  have hwhole : ∀ a rest, follow (peek .endOfInput rest) = true →
      (∀ it ∈ ([] : List Item), it.IsWritten) ∧ ∃ b, L a ([] ++ rest) b rest :=
    fun a rest hrest => ⟨List.forall_mem_nil _, a, hend a rest hrest⟩
  refine ⟨?_, hwhole a⟩
  induction turns generalizing a s with
  | zero => exact .unexpected
  | succ turns ih =>
      refine .bindBefore (hstep a s) (fun o s₁ => (?_ : CompletesBy [] s₁ _ _ _)) fun _ hk => hk
      cases o with
      | none => exact .pure fun r i _ hX => hstop a i r hX
      | some b =>
          have h : CompletesBy [] s₁ (Parser.iterate extend turns b) follow (L b) :=
            ⟨ih b s₁, hwhole b⟩
          exact h.mono fun m c r hL i _ hX => hmore a b c i m r hX hL

end CompletesBy

end

end Parser
end EcmaSyntax
