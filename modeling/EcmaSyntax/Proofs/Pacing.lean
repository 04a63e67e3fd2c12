import EcmaSyntax.Proofs.Offers
import EcmaSyntax.Proofs.Turns

/-!
# How often semicolons are inserted

**Invariant.**  A parser is paced if each semicolon inserted so far has its own tokens of the source
around it, and if the tokens offered and those ahead together are no more than there are characters,
and the end of the input.

**Endings.**  Where a statement may end, a token of the source was taken last.  So the token at hand
comes directly behind it and has no semicolon in front of it yet, unless this semicolon is itself at
hand.

**Results.**
* `Parallel.paces`: the functions of the grammar keep parsers paced, whether they fail or not.
* `rule_paces`: so do its rules.
* `run_accounts`: at the end of any run the offers are spaced, and no more tokens of the source were
  offered than there are characters, and the end of the input.
* `Accounts.asks_le`: so there were at most twice as many requests.
-/

namespace EcmaSyntax
namespace Parser

variable {α β : Type} {source : Text} {entry mid exit : Bool} {s s' : ParserState} {t : Token}

/-- Semicolons were inserted between tokens of the source, and if a statement may end, another one
may be inserted in front of the token at hand. -/
structure Paced (source : Text) (entry : Bool) (s : ParserState) : Prop where
  held : Held s
  spaced : Spaced s.stream.offers
  started : 0 < sourceTokens s.stream.offers
  le : sourceTokens s.stream.offers + ahead s ≤ source.length + 1
  adjoined : entry = true → s.current.kind ≠ .insertedSemicolon → Adjoined s.stream.offers
  requests : ∃ n, TokenStream.Requests (.ofText source) n s.stream

/-- A parser that succeeds is paced, and one that fails was. -/
inductive Paces (source : Text) (exit : Bool) :
    EStateM.Result Failure ParserState α → Prop
  | ok {a : α} {s : ParserState} : Paced source exit s → Paces source exit (.ok a s)
  | error {f : Failure} {s : ParserState} : Spaced s.stream.offers →
      sourceTokens s.stream.offers ≤ source.length + 1 →
      (∃ n, TokenStream.Asks (.ofText source) n s.stream) → Paces source exit (.error f s)

theorem Paced.weaken (h : Paced source entry s) : Paced source false s :=
  ⟨h.held, h.spaced, h.started, h.le, nofun, h.requests⟩

theorem Paced.mono (h : Paced source true s) : Paced source exit s :=
  ⟨h.held, h.spaced, h.started, h.le, fun _ => h.adjoined rfl, h.requests⟩

theorem Paces.mono {r : EStateM.Result Failure ParserState α} (h : Paces source true r) :
    Paces source exit r := by
  cases h with
  | ok hs => exact .ok hs.mono
  | error hspaced hle hasks => exact .error hspaced hle hasks

theorem Paces.bind {p : Parser α} {f : α → Parser β} (hp : Paces source mid (p.run s))
    (hf : ∀ a s', Paced source mid s' → Paces source exit ((f a).run s')) :
    Paces source exit ((p >>= f).run s) := by
  rw [EStateM.run_bind]
  cases hrun : p.run s with
  | ok a s' =>
      rw [hrun] at hp
      cases hp with
      | ok hs => exact hf a s' hs
  | error f s' =>
      rw [hrun] at hp
      cases hp with
      | error hspaced hle hasks => exact .error hspaced hle hasks

namespace Paced

theorem offers_ne (h : Paced source entry s) : s.stream.offers ≠ [] :=
  ne_nil_of_sourceTokens h.started

theorem error (h : Paced source entry s) (f : Failure) :
    Paces source exit (.error f s : EStateM.Result Failure ParserState α) :=
  .error h.spaced (Nat.le_trans (Nat.le_add_right _ _) h.le)
    (h.requests.imp fun _ => .succeeded)

/-- Behind a token of the source comes a token that no semicolon stands in front of yet, or its
semicolon. -/
theorem take (h : Paced source entry s) (hk : isReal s.current.kind) :
    Paces source true (take.run s) := by
  have hcount : s.current.kind.count = 1 := if_pos hk
  have hq : s.stream.requeued = none := by
    refine (h.held.justRead ?_).1
    rintro hs
    rw [hs] at hk
    cases hk
  have hle := h.le
  rw [run_take]
  cases hnext : TokenStream.next.run s.stream with
  | error f stream =>
      have hoffers := TokenStream.next_error_offers hnext
      obtain ⟨n, hrequests⟩ := h.requests
      exact .error (hoffers ▸ h.spaced) (Nat.le_trans (Nat.le_add_right _ _) (hoffers ▸ h.le))
        ⟨n + 1, .failedNext hrequests hnext⟩
  | ok following stream =>
      obtain ⟨hheld, hahead⟩ := h.held.take_ahead (run_take_ok.mpr ⟨rfl, _, _, hnext, rfl⟩)
      obtain ⟨hspaced, hsame, hadjoined⟩ :=
        TokenStream.next_spaced hq hnext h.spaced h.started
      obtain ⟨n, hrequests⟩ := h.requests
      refine .ok ⟨hheld, hspaced, Nat.lt_of_lt_of_eq (Nat.succ_pos _) hsame.symm, ?_,
        fun _ => hadjoined, n + 1, hrequests.next hnext⟩
      show sourceTokens stream.offers + _ ≤ source.length + 1
      omega

/-- Behind an inserted semicolon comes the token that waited. -/
theorem takeInserted (h : Paced source entry s) (hk : s.current.kind = .insertedSemicolon) :
    Paces source false (Parser.take.run s) := by
  obtain ⟨-, hread⟩ | ⟨u, -, hq, -⟩ := h.held
  · exact absurd hk hread.real
  · have hnext := TokenStream.run_next_requeued hq
    obtain ⟨hheld, hahead⟩ := h.held.take_ahead (run_take_ok.mpr ⟨rfl, _, _, hnext, rfl⟩)
    obtain ⟨n, hrequests⟩ := h.requests
    rw [run_take, hnext]
    exact .ok ⟨hheld, h.spaced, h.started,
      Nat.le_trans (Nat.add_le_add_left (Nat.le_of_add_right_le hahead) _) h.le, nofun,
      n + 1, hrequests.next hnext⟩

/-- Where a statement may end there is a semicolon at hand, or one may be inserted. -/
theorem atSemicolon (h : Paced source true s)
    (hends : isSemicolon s.current.kind ∨ TokenStream.admitsSemicolon s.current) :
    Paced source false (atSemicolon s) := by
  obtain ⟨hheld, hahead⟩ := h.held.atSemicolon
  obtain ⟨n, hrequests⟩ := h.requests
  obtain ⟨hspaced, hsame, hrequests⟩ : Spaced (Parser.atSemicolon s).stream.offers ∧
      sourceTokens (Parser.atSemicolon s).stream.offers = sourceTokens s.stream.offers ∧
      TokenStream.Requests (.ofText source) n (Parser.atSemicolon s).stream := by
    unfold Parser.atSemicolon
    split
    · rw [TokenStream.offers_of_journal rfl]
      exact ⟨h.spaced, rfl, hrequests.note rfl rfl⟩
    · split
      · exact ⟨h.spaced, rfl, hrequests⟩
      · next hwritten hk =>
          have hadmits : TokenStream.admitsSemicolon s.current :=
            hends.resolve_left (by simp [isSemicolon, hwritten, hk])
          have hinsert : (TokenStream.insertSemicolon s.current).run s.stream = _ :=
            (run_insertSemicolon _ _).trans (if_pos hadmits)
          have hq := (h.held.justRead hk).1
          rw [TokenStream.offers_of_journal rfl]
          obtain ⟨hspaced, hsame⟩ := (h.adjoined rfl hk).withSemicolon
          exact ⟨hspaced, hsame, hrequests.insertSemicolon hq h.offers_ne hinsert⟩
  exact ⟨hheld, hspaced, hsame ▸ h.started, by rw [hsame, hahead]; exact h.le, Bool.noConfusion, n,
    hrequests⟩

theorem endStatement (h : Paced source true s) : Paces source false (endStatement.run s) := by
  rw [run_endStatement]
  split
  · next hends =>
    have htake : Paces source false (Parser.take.run (Parser.atSemicolon s)) := by
      by_cases hk : s.current.kind = .semicolon
      · refine ((h.atSemicolon hends).take ?_).mono
        rw [Parser.atSemicolon, if_pos hk]
        show isReal s.current.kind
        rw [hk]
        rfl
      · refine (h.atSemicolon hends).takeInserted ?_
        rw [Parser.atSemicolon, if_neg hk]
        split
        · assumption
        · rfl
    generalize Parser.take.run (Parser.atSemicolon s) = result at htake
    cases htake with
    | ok hs => exact .ok hs
    | error hspaced hle hasks => exact .error hspaced hle hasks
  · exact h.error _

theorem pendingComments (h : Paced source entry s) :
    Paces source entry (pendingComments.run s) := by
  have hleaves := pendingComments_leaves h.held
  rw [run_pendingComments] at hleaves ⊢
  cases hleaves with
  | ok hs =>
      exact .ok ⟨hs, h.spaced, h.started, h.le, h.adjoined,
        h.requests.imp fun _ hrequests => hrequests.takeComments rfl⟩

/-- A literal takes the place of the slash that it was read from. -/
theorem regex (h : Paced source entry s) (hk : opensRegex s.current.kind) :
    Paces source exit ((regex s.current).run s) := by
  rw [run_regex]
  have hrescan := TokenStream.run_rescan_scan s.current s.stream
  cases hscan : (Scanner.rescan s.current).run s.stream.scanner with
  | error f sc =>
      rw [Scanner.rescan_error hscan]
      exact h.error _
  | ok literal sc =>
      rw [hscan] at hrescan
      have hliteral : literal.isInserted = false := by
        rw [Token.isInserted, Scanner.kind_of_rescan hscan]
        rfl
      have hoffers : (atLiteral s literal sc).stream.offers = offer s.stream.offers _ :=
        TokenStream.offers_of_journal rfl
      obtain ⟨hspaced, hsame⟩ := h.spaced.replaced hliteral h.offers_ne
      have hahead := h.held.ahead_atLiteral hk hscan
      have hle := h.le
      have hpaced : Paced source false (atLiteral s literal sc) :=
        ⟨(h.held.atLiteral hk hscan).1, hoffers ▸ hspaced, hoffers ▸ hsame ▸ h.started,
          by rw [hoffers, offer, hsame]; omega, nofun,
          h.requests.imp fun _ hrequests => hrequests.rescan h.offers_ne hrescan⟩
      exact ((hpaced.take (isReal_atLiteral hscan)).bind fun _ _ hs => .ok hs).mono

end Paced

/-! ## Choices -/

section Choices

variable {p q : Parser α} {k : TokenKind}

theorem Paced.expect (h : Paced source entry s) (hk : isReal k) :
    Paces source true ((expect k).run s) := by
  unfold Parser.expect
  rw [EStateM.run_bind, run_isAt]
  by_cases hat : s.current.kind = k
  · simp only [hat, decide_true, if_true]
    exact h.take (hat ▸ hk)
  · simp only [hat, decide_false, Bool.false_eq_true, if_false]
    exact h.error _

/-- A choice by whether a token of some kind can be taken. -/
theorem Paced.ifEat (h : Paced source entry s) (hk : isReal k)
    (hp : ∀ s', Paced source true s' → Paces source exit (p.run s'))
    (hq : Paces source exit (q.run s)) :
    Paces source exit ((do if ← eat k then p else q).run s) := by
  rw [ifEat_eq, EStateM.run_bind, run_isAt]
  by_cases hat : s.current.kind = k
  · simp only [hat, decide_true, if_true]
    exact (h.take (hat ▸ hk)).bind fun _ s' hs' => hp s' hs'
  · simp only [hat, decide_false, Bool.false_eq_true, if_false]
    exact hq

end Choices

/-! ## Repetitions -/

section Repetitions

variable {inner : Inner} {turns : Nat}

theorem paces_itemsUntil {atEnd : Parser Bool} {p : Parser α}
    (hend : ∀ s, Paced source true s → Paces source true (atEnd.run s))
    (hitem : ∀ s, Paced source true s → Paces source true (p.run s)) (turns : Nat)
    (h : Paced source true s) : Paces source true ((itemsUntil atEnd p turns).run s) := by
  induction turns generalizing s with
  | zero => exact h.error _
  | succ turns ih =>
      refine (hend s h).bind fun b s₁ hs₁ => ?_
      cases b with
      | true => exact .ok hs₁
      | false =>
          exact (hitem s₁ hs₁).bind fun a s₂ hs₂ => (ih hs₂).bind fun as s₃ hs₃ => .ok hs₃

theorem paces_iterate {extend : α → Parser (Option α)}
    (hextend : ∀ a s, Paced source true s → Paces source true ((extend a).run s))
    (turns : Nat) (a : α) (h : Paced source true s) :
    Paces source true ((iterate extend turns a).run s) := by
  induction turns generalizing s a with
  | zero => exact h.error _
  | succ turns ih =>
      refine (hextend a s h).bind fun o s₁ hs₁ => ?_
      cases o with
      | none => exact .ok hs₁
      | some b => exact ih b hs₁

theorem paces_elements (stops : List TokenKind)
    (hitem : ∀ entry s, Paced source entry s → Paces source false ((element inner).run s))
    (turns : Nat) (h : Paced source entry s) :
    Paces source false ((elements inner stops turns).run s) := by
  induction turns generalizing s entry with
  | zero => exact h.error _
  | succ turns ih =>
      refine h.pendingComments.bind fun comments s₁ hs₁ => ?_
      rw [EStateM.run_bind, run_kind]
      dsimp only
      split
      · exact .ok hs₁.weaken
      · exact (hitem entry s₁ hs₁).bind fun a s₂ hs₂ => (ih hs₂).bind fun rest s₃ hs₃ => .ok hs₃

theorem paces_binary
    (hoperand : ∀ g s, Paced source true s → Paces source true ((unary inner turns g).run s))
    (fuel : Nat) (left : Expression) (minPower : Nat) (g : Grammar) (h : Paced source true s) :
    Paces source true ((binary inner turns fuel left minPower g).run s) := by
  induction fuel generalizing s left minPower g with
  | zero => exact h.error _
  | succ fuel ih =>
      cases hop : infixOperator? minPower g s.current.kind with
      | none =>
          rw [run_binary_none hop]
          exact .ok h
      | some op =>
          rw [run_binary_some hop]
          refine (h.take (isReal_of_isPlain (isPlain_of_infixOperator? hop))).bind
            fun _ s₁ hs₁ => ?_
          refine (hoperand _ s₁ hs₁).bind fun operand s₂ hs₂ => ?_
          exact (ih operand _ _ hs₂).bind fun right s₃ hs₃ => ih _ _ _ hs₃

theorem paces_clauses
    (htest : ∀ entry seenDefault s, Paced source entry s →
      Paces source true ((clauseTest inner turns seenDefault).run s))
    (hbody : ∀ s, Paced source true s →
      Paces source false ((elements inner [.kwCase, .kwDefault, .closeBrace] turns).run s))
    (fuel : Nat) (seenDefault : Bool) (h : Paced source entry s) :
    Paces source false ((clauses inner turns seenDefault fuel).run s) := by
  induction fuel generalizing s entry seenDefault with
  | zero => exact h.error _
  | succ fuel ih =>
      refine h.ifEat rfl (fun s₁ hs₁ => .ok hs₁.weaken) ?_
      refine (htest entry seenDefault s h).bind fun test s₁ hs₁ => ?_
      refine (hs₁.expect rfl).bind fun _ s₂ hs₂ => ?_
      exact (hbody s₂ hs₂).bind fun body s₃ hs₃ =>
        (ih _ hs₃).bind fun rest s₄ hs₄ => .ok hs₄

end Repetitions

/-! ## Parsers -/

/-- The functions of the grammar keep parsers paced if the rules inside them do. -/
theorem Parallel.paces {inner inner' : Inner} {turns turns' credit : Nat} {takes : Bool}
    {known : Option Token} {p p' : Parser α}
    (h : Parallel inner inner' turns turns' credit takes entry exit known p p')
    (hinner : ∀ r entry s, Paced source entry s → Paces source r.exit ((inner r).run s))
    (hs : Paced source entry s) (hknown : ∀ t ∈ known, s.current = t) :
    Paces source exit (p.run s) := by
  induction h generalizing s with
  | pure a => exact .ok hs
  | bind _ _ ihp ihf => exact (ihp hs hknown).bind fun a s₁ hs₁ => ihf a hs₁ (fun _ => nofun)
  | unexpected => exact hs.error _
  | weaken _ ih => exact (ih hs hknown).mono
  | look _ ih => exact ih s.current s.lastEnd hs fun t ht => Option.some.inj ht
  | take hk _ ih =>
      obtain rfl := hknown _ rfl
      rw [EStateM.run_bind]
      have htake := hs.take hk
      cases hrun : Parser.take.run s with
      | ok t s₁ =>
          obtain rfl := (run_take_ok.mp hrun).1
          rw [hrun] at htake
          cases htake with
          | ok hs₁ => exact ih hs₁ (fun _ => nofun)
      | error f s₁ =>
          rw [hrun] at htake
          cases htake with
          | error hspaced hle hasks => exact .error hspaced hle hasks
  | regex hk =>
      obtain rfl := hknown _ rfl
      exact hs.regex hk
  | badNumber => exact hs.error _
  | endStatement => exact hs.endStatement
  | pendingComments => exact hs.pendingComments
  | inner r _ hr => exact hr ▸ hinner r _ s hs
  | itemsUntil _ _ ihend ihitem =>
      exact paces_itemsUntil (fun s hs => ihend none hs (fun _ => nofun))
        (fun s hs => ihitem hs (fun _ => nofun)) _ hs
  | itemsAfterCommas _ ihitem =>
      refine paces_itemsUntil (fun s hs => ?_) (fun s hs => ihitem hs (fun _ => nofun)) _ hs
      have hcomma : (do return !(← Parser.eat TokenKind.comma) : Parser Bool) =
          (do if ← Parser.eat TokenKind.comma then return false else return true) := by
        congr
        funext b
        cases b <;> rfl
      rw [hcomma]
      exact hs.ifEat rfl (fun s₁ hs₁ => .ok hs₁) (.ok hs)
  | @iterate _ _ goesOn extend extend' a _ hstops ih =>
      refine paces_iterate (fun a s hs => ?_) _ a hs
      show Paces source true ((extend a s.current).run s)
      cases hgoes : goesOn s.current with
      | true => exact ih a s.current hgoes hs fun t ht => Option.some.inj ht
      | false =>
          rw [(hstops a s.current hgoes).1]
          exact .ok hs
  | elements stops _ ih =>
      exact paces_elements stops (fun entry s hs => ih entry none hs (fun _ => nofun)) _ hs
  | binary left minPower g _ ih =>
      exact paces_binary (fun g s hs => ih g hs (fun _ => nofun)) _ left minPower g hs
  | clauses seenDefault _ _ ihtest ihbody =>
      exact paces_clauses (fun entry b s hs => ihtest 0 entry none b hs (fun _ => nofun))
        (fun s hs => ihbody hs (fun _ => nofun)) _ seenDefault hs

/-- The rules of the grammar keep parsers paced. -/
theorem rule_paces (turns room : Nat) (r : Rule) (h : Paced source entry s) :
    Paces source r.exit ((rule turns room r).run s) := by
  induction room generalizing r s entry with
  | zero => exact h.error _
  | succ room ih =>
      have hbody : Parallel (rule turns room) (rule turns room) turns turns (r.weight - 1) true
          entry r.exit none (ruleBody (rule turns room) turns r)
          (ruleBody (rule turns room) turns r) :=
        parallel_ruleBody r
      have hdeep : Paced source entry (atDepth s (s.depth + 1)) :=
        ⟨h.held, h.spaced, h.started, h.le, h.adjoined, h.requests⟩
      have hpaces := hbody.paces (fun r _ _ hs => ih r hs) hdeep (fun _ => nofun)
      show Paces source r.exit ((deepen (ruleBody (rule turns room) turns r)).run s)
      rw [run_deepen]
      generalize (ruleBody (rule turns room) turns r).run (atDepth s (s.depth + 1)) = result
        at hpaces
      cases hpaces with
      | ok hs => exact .ok ⟨hs.held, hs.spaced, hs.started, hs.le, hs.adjoined, hs.requests⟩
      | error hspaced hle hasks => exact .error hspaced hle hasks

/-! ## Runs -/

/-- Once the first token is at hand, a parser is paced. -/
theorem paced_ofText {source : Text} (h : take.run (ParserState.ofText source) = .ok t s) :
    Paced source false s := by
  obtain ⟨hheld, hle⟩ := ahead_le_length h
  obtain ⟨-, following, stream, hnext, rfl⟩ := run_take_ok.mp h
  obtain ⟨u, hu, hoffers⟩ := TokenStream.next_offers_ofText hnext
  have hoffers : (advance (ParserState.ofText source) following stream).stream.offers = [u] :=
    hoffers
  have hone : sourceTokens [u] = 1 := by simp [hu]
  refine ⟨hheld, hoffers ▸ .source .nil hu, ?_, ?_, nofun, 1, .next .none hnext⟩
  · rw [hoffers, hone]
    exact Nat.one_pos
  · rw [hoffers, hone]
    omega

/-- What is known of the offers and the requests of a run. -/
structure Accounts (source : Text) (stream : TokenStream) : Prop where
  spaced : Spaced stream.offers
  le : sourceTokens stream.offers ≤ source.length + 1
  asks : ∃ n, TokenStream.Asks (.ofText source) n stream

theorem run_accounts (limit : Nat) (source : Text) :
    Accounts source (finalState (run limit source)).stream := by
  rw [run_eq]
  cases htake : take.run (ParserState.ofText source) with
  | error f s =>
      obtain ⟨stream, hnext, rfl⟩ := run_take_error.mp htake
      have hoffers : stream.offers = [] := TokenStream.next_error_offers hnext
      show Accounts source stream
      exact ⟨hoffers ▸ .nil, by rw [hoffers]; exact Nat.zero_le _, 1, .failedNext .none hnext⟩
  | ok t s =>
      have hparallel : Parallel (rule (turnsFor (ParserState.ofText source)) limit)
          (rule (turnsFor (ParserState.ofText source)) limit) (turnsFor (ParserState.ofText source))
          (turnsFor (ParserState.ofText source)) fullCredit false false false none
          (programElements limit source) (programElements limit source) :=
        parallel_elements (Nat.le_refl _) _
      have helements := hparallel.paces (fun r _ _ hs => rule_paces _ _ r hs)
        (paced_ofText htake) (fun _ => nofun)
      dsimp only
      generalize (programElements limit source).run s = result at helements
      cases helements with
      | @ok body s hs =>
          have hoffers : (noteProgram body s).stream.offers = s.stream.offers :=
            TokenStream.offers_of_journal (s := s.stream) (e := .parsed body.length) rfl
          show Accounts source (noteProgram body s).stream
          refine ⟨hoffers ▸ hs.spaced, ?_, ?_⟩
          · rw [hoffers]
            exact Nat.le_trans (Nat.le_add_right _ _) hs.le
          · exact hs.requests.imp fun _ hrequests => .succeeded (hrequests.note rfl rfl)
      | error hspaced hle hasks => exact ⟨hspaced, hle, hasks⟩

/-- A run requests at most twice as many tokens as there are characters, and two more. -/
theorem Accounts.asks_le {source : Text} {stream : TokenStream} (h : Accounts source stream)
    {n : Nat} (hasks : TokenStream.Asks (.ofText source) n stream) :
    n ≤ 2 * (source.length + 1) := by
  have hn := hasks.le
  have hle := h.le
  by_cases hne : stream.offers = []
  · rw [hne, List.length_nil] at hn
    omega
  · have := h.spaced.length_lt hne
    omega

end Parser
end EcmaSyntax
