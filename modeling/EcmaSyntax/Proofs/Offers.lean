import EcmaSyntax.Proofs.Site

/-!
# What the grammar is offered

**Offers.**  The grammar is offered the tokens of the source, with each slash that was read again
replaced by its literal, and the semicolons that are inserted in front of them.  `offered` finds
this sequence in the events of a run.

**Requests.**  `TokenStream.next` hands out the next offer, and after a semicolon that was inserted
on request it hands out the token behind this semicolon a second time.  `TokenStream.Requests`
counts how often it is asked on the way from one state of a stream to another one, and
`TokenStream.Asks` does so for a way that may end with a failure.

**Results.**
* `TokenStream.next_offers`: a token that is scanned comes with at most one semicolon.
* `TokenStream.Requests.answered`: the state of a stream tells how often it was asked, whatever the
  way to this state.
* `Spaced.length_lt`: if each inserted semicolon has its own token of the source behind it, and one
  in front of it, the offers are less than twice as many as these tokens.
-/

namespace EcmaSyntax

/-! ## Offers -/

/-- Some tokens with an inserted semicolon in front of the last one. -/
def withSemicolon (tokens : List Token) : List Token :=
  tokens.dropLast ++ tokens.getLast?.toList.flatMap fun t => [t.semicolonBefore, t]

/-- Adds what an event offers to the offers before it. -/
def offer (tokens : List Token) : Event → List Token
  | .scanned t => tokens ++ [t]
  | .rescanned _ literal => tokens.dropLast ++ [literal]
  | .insertedAfterKeyword _ => withSemicolon tokens
  | .insertedBefore _ => withSemicolon tokens
  | .ended _ => tokens
  | .parsed _ => tokens

/-- The tokens that the grammar was offered in a run, the inserted semicolons among them. -/
def offered (events : List Event) : List Token := events.foldl offer []

@[simp] theorem withSemicolon_concat (ts : List Token) (t : Token) :
    withSemicolon (ts ++ [t]) = ts ++ [t.semicolonBefore, t] := by
  simp [withSemicolon]

theorem length_withSemicolon {ts : List Token} (h : ts ≠ []) :
    (withSemicolon ts).length = ts.length + 1 := by
  rw [← List.dropLast_concat_getLast h, withSemicolon_concat]
  simp

/-- Whether a token was inserted. -/
def Token.isInserted (t : Token) : Bool := t.kind = .insertedSemicolon

@[simp] theorem Token.isInserted_semicolonBefore (t : Token) :
    t.semicolonBefore.isInserted = true := rfl

/-- The number of tokens of the source among some tokens, the end of the input included. -/
def sourceTokens (tokens : List Token) : Nat := tokens.countP fun t => !t.isInserted

@[simp] theorem sourceTokens_nil : sourceTokens [] = 0 := rfl

@[simp] theorem sourceTokens_cons (t : Token) (ts : List Token) :
    sourceTokens (t :: ts) = sourceTokens ts + if t.isInserted then 0 else 1 := by
  cases ht : t.isInserted <;> simp [sourceTokens, ht]

@[simp] theorem sourceTokens_append (ts us : List Token) :
    sourceTokens (ts ++ us) = sourceTokens ts + sourceTokens us := List.countP_append

theorem ne_nil_of_sourceTokens {ts : List Token} (h : 0 < sourceTokens ts) : ts ≠ [] := by
  rintro rfl
  cases h

/-- At most one semicolon is inserted in front of each token of the source, none in front of the
first one, and none behind the last one. -/
inductive Spaced : List Token → Prop
  | nil : Spaced []
  | source {tokens : List Token} {t : Token} :
      Spaced tokens → t.isInserted = false → Spaced (tokens ++ [t])
  | inserted {tokens : List Token} {semicolon t : Token} :
      Spaced tokens → tokens ≠ [] → semicolon.isInserted → t.isInserted = false →
      Spaced (tokens ++ [semicolon, t])

namespace Spaced

variable {ts : List Token} {t : Token}

/-- Tokens of the source stand at the end, and another one may take the place of the last one. -/
theorem replaced (h : Spaced ts) (ht : t.isInserted = false) (hne : ts ≠ []) :
    Spaced (ts.dropLast ++ [t]) ∧ sourceTokens (ts.dropLast ++ [t]) = sourceTokens ts := by
  cases h with
  | nil => exact absurd rfl hne
  | @source ts u h hu =>
      rw [List.dropLast_concat]
      exact ⟨.source h ht, by simp [ht, hu]⟩
  | @inserted ts semicolon u h hts hsemicolon hu =>
      have hdrop : (ts ++ [semicolon, u]).dropLast ++ [t] = ts ++ [semicolon, t] := by simp
      rw [hdrop]
      exact ⟨.inserted h hts hsemicolon ht, by simp [ht, hu]⟩

/-- There are less than twice as many offers as tokens of the source. -/
theorem length_lt (h : Spaced ts) (hne : ts ≠ []) : ts.length < 2 * sourceTokens ts := by
  induction h with
  | nil => exact absurd rfl hne
  | @source ts u h hu ih =>
      have hone : sourceTokens [u] = 1 := by simp [hu]
      rw [List.length_append, sourceTokens_append, hone, List.length_singleton]
      by_cases hts : ts = []
      · rw [hts, List.length_nil]
        omega
      · have := ih hts
        omega
  | @inserted ts semicolon u h hts hsemicolon hu ih =>
      have hone : sourceTokens [semicolon, u] = 1 := by simp [hsemicolon, hu]
      have hlength : [semicolon, u].length = 2 := rfl
      rw [List.length_append, sourceTokens_append, hone, hlength]
      have := ih hts
      omega

end Spaced

/-- The last token is one of the source, and comes directly behind another one. -/
def Adjoined (tokens : List Token) : Prop :=
  ∃ ts t, tokens = ts ++ [t] ∧ Spaced ts ∧ ts ≠ [] ∧ t.isInserted = false

/-- A semicolon may be inserted between the two. -/
theorem Adjoined.withSemicolon {ts : List Token} (h : Adjoined ts) :
    Spaced (withSemicolon ts) ∧ sourceTokens (withSemicolon ts) = sourceTokens ts := by
  obtain ⟨ts, t, rfl, hspaced, hne, ht⟩ := h
  rw [withSemicolon_concat]
  exact ⟨.inserted hspaced hne rfl ht, by simp⟩

/-! ## The token stream -/

namespace TokenStream

variable {s s' : TokenStream} {t t' : Token}

/-- The tokens that a stream has offered so far. -/
def offers (s : TokenStream) : List Token := offered s.journal.reverse

theorem offers_of_journal {e : Event} (h : s'.journal = e :: s.journal) :
    s'.offers = offer s.offers e := by
  simp [offers, offered, h]

/-- A stream that scans a token offers it, alone or behind a semicolon. -/
theorem next_offers (hq : s.requeued = none) (hnext : next.run s = .ok t s') :
    ∃ u, u.isInserted = false ∧
      (t = u ∧ s'.requeued = none ∧ s'.offers = s.offers ++ [u] ∨
        t = u.semicolonBefore ∧ s'.requeued = some u ∧
          s'.offers = s.offers ++ [u.semicolonBefore, u]) := by
  obtain ⟨hwaits, -⟩ | ⟨-, u, sc, hscan, rfl, rfl⟩ := run_next_ok hnext
  · rw [hq] at hwaits
    cases hwaits
  · refine ⟨u, decide_eq_false (Scanner.kind_of_next hscan), ?_⟩
    unfold delivered kept
    cases s.afterRestrictedKeyword && u.newlineBefore with
    | false => exact .inl ⟨rfl, rfl, by simp [offers, offered, offer]⟩
    | true => exact .inr ⟨rfl, rfl, by simp [offers, offered, offer]⟩

/-- The first token that is offered is one of the source. -/
theorem next_offers_ofText {source : Text} (hnext : next.run (ofText source) = .ok t s') :
    ∃ u, u.isInserted = false ∧ s'.offers = [u] := by
  obtain ⟨hwaits, -⟩ | ⟨-, u, sc, hscan, rfl, rfl⟩ := run_next_ok hnext
  · cases hwaits
  · exact ⟨_, decide_eq_false (Scanner.kind_of_next hscan), rfl⟩

/-- Behind some offers, a token that is scanned is the next one of the source. -/
theorem next_spaced (hq : s.requeued = none) (hnext : next.run s = .ok t s')
    (hspaced : Spaced s.offers) (hpos : 0 < sourceTokens s.offers) :
    Spaced s'.offers ∧ sourceTokens s'.offers = sourceTokens s.offers + 1 ∧
      (t.kind ≠ .insertedSemicolon → Adjoined s'.offers) := by
  have hne := ne_nil_of_sourceTokens hpos
  obtain ⟨u, hu, ⟨rfl, -, hoffers⟩ | ⟨rfl, -, hoffers⟩⟩ := next_offers hq hnext
  · refine ⟨hoffers ▸ .source hspaced hu, ?_, fun _ => ⟨_, _, hoffers, hspaced, hne, hu⟩⟩
    simp [hoffers, hu]
  · refine ⟨hoffers ▸ .inserted hspaced hne rfl hu, ?_, fun hk => absurd rfl hk⟩
    simp [hoffers, hu]

/-- A stream that fails has offered nothing. -/
theorem next_error_offers {f : Failure} (hnext : next.run s = .error f s') :
    s'.offers = s.offers := by
  obtain ⟨-, sc, -, rfl⟩ := run_next_failed hnext
  rfl

/-! ## Requests -/

/-- A stream gets from one state to another by operations that succeed.  So many of them, and no
others, are requests for a token.  A semicolon is inserted and a slash is read again only once a
token was handed out, and a semicolon only while no token waits. -/
inductive Requests (start : TokenStream) : Nat → TokenStream → Prop
  | none : Requests start 0 start
  | next {n : Nat} {s s' : TokenStream} {t : Token} :
      Requests start n s → next.run s = .ok t s' → Requests start (n + 1) s'
  | insertSemicolon {n : Nat} {s s' : TokenStream} {t : Token} {semicolon : Option Token} :
      Requests start n s → s.requeued = .none → s.offers ≠ [] →
      (insertSemicolon t).run s = .ok semicolon s' → Requests start n s'
  | rescan {n : Nat} {s s' : TokenStream} {slash t : Token} :
      Requests start n s → s.offers ≠ [] → (rescan slash).run s = .ok t s' → Requests start n s'
  | takeComments {n : Nat} {s s' : TokenStream} {cs : List PlacedComment} :
      Requests start n s → takeComments.run s = .ok cs s' → Requests start n s'
  | note {n : Nat} {s s' : TokenStream} {e : Event} :
      Requests start n s → offer s.offers e = s.offers → (note e).run s = .ok () s' →
      Requests start n s'

/-- The same where the last operation may fail. -/
inductive Asks (start : TokenStream) : Nat → TokenStream → Prop
  | succeeded {n : Nat} {s : TokenStream} : Requests start n s → Asks start n s
  | failedNext {n : Nat} {s s' : TokenStream} {f : Failure} :
      Requests start n s → next.run s = .error f s' → Asks start (n + 1) s'
  | failedRescan {n : Nat} {s s' : TokenStream} {slash : Token} {f : Failure} :
      Requests start n s → (rescan slash).run s = .error f s' → Asks start n s'

/-- However a stream got to its state, its requests were answered with all that it has offered, but
for a token that waits. -/
theorem Requests.answered {source : Text} {n : Nat} (h : Requests (.ofText source) n s) :
    n + s.requeued.toList.length = s.offers.length := by
  induction h with
  | none => rfl
  | @next n s s' t _ hnext ih =>
      cases hq : s.requeued with
      | some u =>
          rw [run_next_requeued hq] at hnext
          cases hnext
          rw [hq] at ih
          exact ih
      | none =>
          rw [hq, Option.toList_none, List.length_nil, Nat.add_zero] at ih
          obtain ⟨u, -, ⟨-, hq', hoffers⟩ | ⟨-, hq', hoffers⟩⟩ := next_offers hq hnext
          · simp [hq', hoffers, ih]
          · simp [hq', hoffers, ih]
  | @insertSemicolon n s s' t semicolon _ hq hne hinsert ih =>
      rw [Parser.run_insertSemicolon] at hinsert
      split at hinsert
      · cases hinsert
        rw [hq, Option.toList_none, List.length_nil, Nat.add_zero] at ih
        rw [offers_of_journal rfl, offer, length_withSemicolon hne, ih]
        rfl
      · cases hinsert
        exact ih
  | @rescan n s s' slash t _ hne hrescan ih =>
      obtain ⟨sc, -, rfl⟩ := run_rescan_ok hrescan
      have hpos := List.length_pos_iff.mpr hne
      rw [offers_of_journal rfl, offer, List.length_append, List.length_dropLast,
        List.length_singleton, Nat.sub_add_cancel hpos, ← ih]
  | takeComments _ htake ih =>
      cases htake
      exact ih
  | note _ he hnote ih =>
      cases hnote
      rw [offers_of_journal rfl, he, ← ih]

/-- At most one request was not answered. -/
theorem Asks.le {source : Text} {n : Nat} (h : Asks (.ofText source) n s) :
    n ≤ s.offers.length + 1 := by
  cases h with
  | succeeded h =>
      have := h.answered
      omega
  | failedNext h hnext =>
      have := h.answered
      rw [next_error_offers hnext]
      omega
  | @failedRescan n s s' slash f h hrescan =>
      have := h.answered
      obtain ⟨sc, -, rfl⟩ := run_rescan_failed hrescan
      show n ≤ s.offers.length + 1
      omega

end TokenStream
end EcmaSyntax
