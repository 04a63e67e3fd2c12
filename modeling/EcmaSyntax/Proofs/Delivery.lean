import EcmaSyntax.Proofs.Steps

/-!
# What a token stream hands out

**Sessions.**  A session asks a token stream for tokens, for a semicolon before the token handed out
last, for the slash handed out last to be read again, and for comments, in any order.  It keeps what
was handed out.

**Courses.**  A course drives a scanner in the same way.  Of what a session has kept, the inserted
semicolons are left out, and what comes after a semicolon that was asked for, because it was handed
out before.

**Pairing.**  A session is paired with the course that has the same answers.  The scanners stand at
the same place, but for a token that the stream owes after a keyword at which no line may end.

**Results.**
* `Scanner.Same.next`, `Scanner.Same.rescan`: comments play no part in what a scanner reads.
* `Session.Paired.ask`: each request keeps a session paired.
* `sessions_faithful`: after any requests, a session has handed out what the scanner answers.
-/

namespace EcmaSyntax

/-! ## Scanners that differ in comments -/

namespace Scanner

/-- Two scanners stand at the same place of a source. -/
structure Same (s u : Scanner) : Prop where
  source : s.source = u.source
  rest : s.rest = u.rest
  place : s.place = u.place

/-- Two results of a step are the same, comments apart. -/
inductive SameResult :
    EStateM.Result Failure Scanner Token → EStateM.Result Failure Scanner Token → Prop
  | ok {t : Token} {s u : Scanner} : s.Same u → SameResult (.ok t s) (.ok t u)
  | error {f : Failure} {s u : Scanner} : s.Same u → SameResult (.error f s) (.error f u)

theorem SameResult.of_ok {t : Token} {s : Scanner} {r : EStateM.Result Failure Scanner Token}
    (h : SameResult (.ok t s) r) : ∃ u, r = .ok t u ∧ s.Same u := by
  cases h with
  | ok hsame => exact ⟨_, rfl, hsame⟩

theorem SameResult.of_error {f : Failure} {s : Scanner} {r : EStateM.Result Failure Scanner Token}
    (h : SameResult (.error f s) r) : ∃ u, r = .error f u ∧ s.Same u := by
  cases h with
  | error hsame => exact ⟨_, rfl, hsame⟩

namespace Same

variable {s u : Scanner}

theorem next (h : s.Same u) : SameResult (next.run s) (next.run u) := by
  obtain ⟨p, hp, hs⟩ | ⟨p, hp, hs⟩ := s.next_cases
  · rw [next_of_valid hp hs, next_of_valid hp (h.rest ▸ hs), h.place]
    exact .ok ⟨h.source, rfl, by rw [behindSite, behindSite, h.place]⟩
  · rw [next_of_fault hp hs, next_of_fault hp (h.rest ▸ hs), h.place]
    exact .error ⟨h.source, rfl, by rw [behindFault, behindFault, h.place]⟩

theorem rescan (h : s.Same u) (slash : Token) :
    SameResult ((rescan slash).run s) ((rescan slash).run u) := by
  unfold EStateM.run Scanner.rescan
  rw [h.source]
  dsimp only
  split
  · exact .ok ⟨rfl, rfl, by rw [h.place]⟩
  · exact .error h

end Same

end Scanner

/-! ## Courses of a scanner -/

/-- What a scanner is asked to do. -/
inductive Call where
  | next
  /-- To read the token answered last again, as a regular expression. -/
  | rescan
deriving DecidableEq

/-- A scanner and what it has answered, the latest first. -/
structure Course where
  scanner : Scanner
  answers : List (Except Failure Token)

namespace Course

/-- A course at the beginning of a text. -/
def ofText (source : Text) : Course := ⟨Scanner.ofText source, []⟩

/-- The token answered last. -/
def last? (c : Course) : Option Token := c.answers.findSome? Except.toOption

/-- The course after a result. -/
def answer (c : Course) : EStateM.Result Failure Scanner Token → Course
  | .ok t s => ⟨s, .ok t :: c.answers⟩
  | .error f s => ⟨s, .error f :: c.answers⟩

/-- The course after a call. -/
def call : Call → Course → Course
  | .next, c => c.answer (Scanner.next.run c.scanner)
  | .rescan, c =>
      match c.last? with
      | some slash => c.answer ((Scanner.rescan slash).run c.scanner)
      | none => c

end Course

/-! ## Sessions -/

/-- What a token stream is asked for. -/
inductive Request where
  | token
  /-- A semicolon before the token handed out last. -/
  | semicolon
  /-- The slash handed out last, read again. -/
  | regex
  | comments
deriving DecidableEq

/-- What a token stream hands out. -/
inductive Handed where
  /-- The answer to a request for a token. -/
  | token (answer : Except Failure Token)
  /-- The answer to a request for a regular expression. -/
  | literal (answer : Except Failure Token)
  /-- A semicolon, inserted on request before a token. -/
  | semicolon (inserted offending : Token)

/-- The token that was handed out, if there was one. -/
def Handed.token? : Handed → Option Token
  | .token answer => answer.toOption
  | .literal answer => answer.toOption
  | .semicolon inserted _ => some inserted

/-- A token stream and what it has handed out, the latest first. -/
structure Session where
  stream : TokenStream
  handed : List Handed

namespace Session

/-- A session at the beginning of a text. -/
def ofText (source : Text) : Session := ⟨TokenStream.ofText source, []⟩

/-- The tokens that were handed out, the latest first. -/
def tokens (σ : Session) : List Token := σ.handed.filterMap Handed.token?

/-- The token that a semicolon may be asked for: the one handed out last, unless it is an inserted
semicolon itself. -/
def offending? (σ : Session) : Option Token :=
  σ.tokens.head?.filter (·.kind ≠ .insertedSemicolon)

/-- The token that may be read again: the one handed out last, if it is a slash. -/
def slash? (σ : Session) : Option Token := σ.tokens.head?.filter (Parser.opensRegex ·.kind)

/-- The session after a result. -/
def answer (σ : Session) (hand : Except Failure Token → Handed) :
    EStateM.Result Failure TokenStream Token → Session
  | .ok t stream => ⟨stream, hand (.ok t) :: σ.handed⟩
  | .error f stream => ⟨stream, hand (.error f) :: σ.handed⟩

/-- The session after a request.  Nothing happens if there is no token to ask for. -/
def ask (σ : Session) : Request → Session
  | .token => σ.answer .token (TokenStream.next.run σ.stream)
  | .semicolon =>
      match σ.offending? with
      | none => σ
      | some t =>
          match (TokenStream.insertSemicolon t).run σ.stream with
          | .ok (some inserted) stream => ⟨stream, .semicolon inserted t :: σ.handed⟩
          | .ok none stream => { σ with stream }
          | .error _ stream => { σ with stream }
  | .regex =>
      match σ.slash? with
      | none => σ
      | some slash => σ.answer .literal ((TokenStream.rescan slash).run σ.stream)
  | .comments =>
      match TokenStream.takeComments.run σ.stream with
      | .ok _ stream => { σ with stream }
      | .error _ stream => { σ with stream }

end Session

/-- The calls to a scanner that have the answers which were handed out, with these answers, the
latest first.  Inserted semicolons are left out, and what was handed out next after a semicolon that
was asked for. -/
def scanned : List Handed → List (Call × Except Failure Token)
  | [] => []
  | .semicolon _ _ :: handed => scanned handed
  | .literal answer :: handed => (.rescan, answer) :: scanned handed
  | .token _ :: .semicolon _ _ :: handed => scanned handed
  | .token (.error f) :: handed => (.next, .error f) :: scanned handed
  | .token (.ok t) :: handed =>
      if t.kind = .insertedSemicolon then scanned handed else (.next, .ok t) :: scanned handed

/-- The course of a scanner with the calls of a session. -/
def Session.course (source : Text) (σ : Session) : Course :=
  ((scanned σ.handed).map (·.1)).foldr Course.call (Course.ofText source)

theorem scanned_token {handed : List Handed} (answer : Except Failure Token)
    (h : ∀ u t hs, handed ≠ .semicolon u t :: hs) :
    scanned (.token answer :: handed) =
      if answer.toOption.any (·.kind = .insertedSemicolon) then scanned handed
      else (.next, answer) :: scanned handed := by
  cases handed with
  | nil => cases answer <;> simp [scanned, Except.toOption]
  | cons first handed =>
      cases first with
      | semicolon u t => exact absurd rfl (h u t handed)
      | _ => cases answer <;> simp [scanned, Except.toOption]

/-! ## Pairing -/

namespace Session

variable {source : Text} {σ : Session} {c : Course} {t : Token}

/-- Nothing waits in the stream, and the scanners stand at the same place. -/
structure Settled (σ : Session) (c : Course) : Prop where
  requeued : σ.stream.requeued = none
  same : σ.stream.scanner.Same c.scanner
  last : c.last? = σ.tokens.head?
  real : ∀ t ∈ σ.tokens.head?, t.kind ≠ .insertedSemicolon
  unasked : ∀ u t hs, σ.handed ≠ .semicolon u t :: hs
  previous : σ.stream.previous = σ.tokens.head?.map (·.kind)
  restricted : σ.stream.afterRestrictedKeyword = endsRestricted (σ.tokens.reverse.map (·.kind))

/-- A semicolon was asked for, and the token at hand waits to be handed out once more. -/
structure Inserted (σ : Session) (c : Course) (t : Token) : Prop where
  handed : ∃ u hs, σ.handed = .semicolon u t :: hs ∧ u.kind = .insertedSemicolon ∧
    (hs.filterMap Handed.token?).head? = some t
  requeued : σ.stream.requeued = some t
  same : σ.stream.scanner.Same c.scanner
  last : c.last? = some t
  real : t.kind ≠ .insertedSemicolon
  previous : σ.stream.previous = some t.kind

/-- A line has ended after a keyword, and the token that was read there waits to be handed out. -/
structure Owed (σ : Session) (c : Course) (t : Token) : Prop where
  handed : ∃ u hs, σ.handed = .token (.ok u) :: hs ∧ u.kind = .insertedSemicolon
  requeued : σ.stream.requeued = some t
  same : ∃ s, Scanner.next.run c.scanner = .ok t s ∧ σ.stream.scanner.Same s
  real : t.kind ≠ .insertedSemicolon
  previous : σ.stream.previous = some .insertedSemicolon

/-- What a session and its course are about to do. -/
def Stance (σ : Session) (c : Course) : Prop :=
  σ.Settled c ∨ ∃ t, σ.Inserted c t ∨ σ.Owed c t

/-- A course has the answers of a session. -/
structure Paired (source : Text) (σ : Session) : Prop where
  answers : (σ.course source).answers = (scanned σ.handed).map (·.2)
  stance : σ.Stance (σ.course source)

theorem paired_ofText (source : Text) : (ofText source).Paired source :=
  ⟨rfl, .inl {
    requeued := rfl
    same := ⟨rfl, rfl, rfl⟩
    last := rfl
    real := by
      intro t h
      cases h
    unasked := by
      intro u t hs h
      cases h
    previous := rfl
    restricted := rfl }⟩

/-- A stream knows whether the tokens handed out end with a keyword at which no line may end, if it
knows the last one and whether a point comes before it. -/
theorem afterRestrictedKeyword_eq {stream : TokenStream} {tokens : List Token}
    (hprevious : stream.previous = some t.kind)
    (hbefore : TokenStream.isRestrictedKeyword t.kind →
      (stream.beforePrevious = some .dot ↔ tokens.head?.map (·.kind) = some .dot)) :
    stream.afterRestrictedKeyword = endsRestricted ((t :: tokens).reverse.map (·.kind)) := by
  rw [List.reverse_cons, List.map_append, List.map_singleton, endsRestricted_concat,
    List.getLast?_map, List.getLast?_reverse, TokenStream.afterRestrictedKeyword, hprevious,
    Option.any_some]
  cases hk : TokenStream.isRestrictedKeyword t.kind with
  | false => rfl
  | true => rw [Bool.true_and, Bool.true_and, Bool.eq_iff_iff, bne_iff_ne, bne_iff_ne, ne_eq,
      hbefore hk]

/-- A call that is not left out is made by the course. -/
theorem Paired.cons {σ' : Session} {call : Call} {answer : Except Failure Token} {s : Scanner}
    (h : σ.Paired source) (hscanned : scanned σ'.handed = (call, answer) :: scanned σ.handed)
    (hcall : (σ.course source).call call = ⟨s, answer :: (σ.course source).answers⟩)
    (hσ' : σ'.Settled ⟨s, answer :: (σ.course source).answers⟩) : σ'.Paired source := by
  have hcourse : σ'.course source = ⟨s, answer :: (σ.course source).answers⟩ := by
    rw [← hcall]
    unfold course
    rw [hscanned]
    rfl
  refine ⟨?_, .inl ?_⟩
  · rw [hcourse, hscanned, h.answers]
    rfl
  · rwa [hcourse]

/-- Nothing happens to the course otherwise. -/
theorem Paired.congr {σ' : Session} (h : σ.Paired source)
    (hscanned : scanned σ'.handed = scanned σ.handed) (hσ' : σ'.Stance (σ.course source)) :
    σ'.Paired source := by
  have hcourse : σ'.course source = σ.course source := by
    unfold course
    rw [hscanned]
  refine ⟨?_, ?_⟩
  · rw [hcourse, hscanned, h.answers]
  · rwa [hcourse]

/-! ## Requests for tokens -/

/-- A session is settled when it has handed out a token that is no inserted semicolon. -/
theorem settled_token {stream : TokenStream} {handed : List Handed}
    (hrequeued : stream.requeued = none) (hsame : stream.scanner.Same c.scanner)
    (hlast : c.last? = some t) (hreal : t.kind ≠ .insertedSemicolon)
    (hprevious : stream.previous = some t.kind)
    (hbefore : TokenStream.isRestrictedKeyword t.kind → (stream.beforePrevious = some .dot ↔
      (handed.filterMap Handed.token?).head?.map (·.kind) = some .dot)) :
    Settled ⟨stream, .token (.ok t) :: handed⟩ c := by
  refine ⟨hrequeued, hsame, hlast, ?_, by rintro _ _ _ ⟨⟩, hprevious,
    afterRestrictedKeyword_eq hprevious hbefore⟩
  rintro _ ⟨⟩
  exact hreal

theorem not_dot_of_isRestrictedKeyword {k : TokenKind} (h : TokenStream.isRestrictedKeyword k) :
    some k ≠ some .dot := by
  rintro ⟨⟩
  cases h

theorem Settled.ask_token (h : σ.Paired source) (hσ : σ.Settled (σ.course source)) :
    (σ.ask .token).Paired source := by
  have hnext := hσ.same.next
  rw [ask]
  cases hscan : Scanner.next.run σ.stream.scanner with
  | error f sc =>
      rw [hscan] at hnext
      obtain ⟨u, hcourse, hsame⟩ := hnext.of_error
      rw [TokenStream.run_next_error hσ.requeued hscan]
      refine h.cons (scanned_token _ hσ.unasked) (s := u) (by rw [Course.call, hcourse]; rfl) ?_
      exact ⟨hσ.requeued, hsame, hσ.last, hσ.real, by rintro _ _ _ ⟨⟩, hσ.previous, hσ.restricted⟩
  | ok t sc =>
      rw [hscan] at hnext
      obtain ⟨u, hcourse, hsame⟩ := hnext.of_ok
      have hreal := Scanner.kind_of_next hscan
      rw [TokenStream.run_next_scan hσ.requeued hscan]
      unfold answer TokenStream.delivered TokenStream.kept
      dsimp only
      by_cases hb : σ.stream.afterRestrictedKeyword && t.newlineBefore
      · -- the semicolon comes first, and the token is owed
        rw [if_pos hb, if_pos hb]
        exact h.congr (scanned_token _ hσ.unasked)
          (.inr ⟨t, .inr ⟨⟨_, _, rfl, rfl⟩, rfl, ⟨u, hcourse, hsame⟩, hreal, rfl⟩⟩)
      · rw [if_neg hb, if_neg hb]
        refine h.cons ((scanned_token _ hσ.unasked).trans (if_neg ?_)) (s := u)
          (by rw [Course.call, hcourse]; rfl)
          (settled_token rfl hsame rfl hreal rfl fun _ => ?_)
        · simpa [Except.toOption] using hreal
        · exact iff_of_eq (congrArg (· = some TokenKind.dot) hσ.previous)

theorem Inserted.ask_token (h : σ.Paired source) (hσ : σ.Inserted (σ.course source) t) :
    (σ.ask .token).Paired source := by
  obtain ⟨u, hs, hhanded, hu, -⟩ := hσ.handed
  rw [ask, TokenStream.run_next_requeued hσ.requeued]
  refine h.congr ?_ (.inl (settled_token rfl hσ.same hσ.last hσ.real rfl fun hk => ?_))
  · show scanned (.token (.ok t) :: σ.handed) = scanned σ.handed
    rw [hhanded]
    rfl
  · -- neither the token itself nor the semicolon before it is a point
    have htoken : ¬σ.stream.previous = some .dot := by
      rw [hσ.previous]
      exact not_dot_of_isRestrictedKeyword hk
    have hsemicolon : ¬(σ.handed.filterMap Handed.token?).head?.map (·.kind) = some .dot := by
      rw [hhanded]
      show ¬some u.kind = some .dot
      rw [hu]
      nofun
    exact iff_of_false htoken hsemicolon

theorem Owed.ask_token (h : σ.Paired source) (hσ : σ.Owed (σ.course source) t) :
    (σ.ask .token).Paired source := by
  obtain ⟨sc, hcourse, hsame⟩ := hσ.same
  obtain ⟨u, hs, hhanded, hu⟩ := hσ.handed
  rw [ask, TokenStream.run_next_requeued hσ.requeued]
  refine h.cons ((scanned_token _ ?_).trans (if_neg ?_)) (s := sc)
    (by rw [Course.call, hcourse]; rfl) (settled_token rfl hsame rfl hσ.real rfl fun hk => ?_)
  · rw [hhanded]
    rintro _ _ _ ⟨⟩
  · simpa [Except.toOption] using hσ.real
  · show σ.stream.previous = some .dot ↔ _
    rw [hσ.previous, hhanded]
    show _ ↔ some u.kind = some .dot
    rw [hu]

theorem Paired.ask_token (h : σ.Paired source) : (σ.ask .token).Paired source := by
  obtain hσ | ⟨t, hσ | hσ⟩ := h.stance
  · exact hσ.ask_token h
  · exact hσ.ask_token h
  · exact hσ.ask_token h

/-! ## Other requests -/

/-- An inserted semicolon was handed out last if a token waits in the stream. -/
theorem Stance.cases (hσ : σ.Stance c) : σ.Settled c ∨ ∃ u t, u.kind = .insertedSemicolon ∧
    σ.tokens.head? = some u ∧ σ.stream.requeued = some t ∧ t.kind ≠ .insertedSemicolon := by
  obtain hσ | ⟨t, hσ | hσ⟩ := hσ
  · exact .inl hσ
  · obtain ⟨u, hs, hhanded, hu, -⟩ := hσ.handed
    exact .inr ⟨u, t, hu, by rw [tokens, hhanded]; rfl, hσ.requeued, hσ.real⟩
  · obtain ⟨u, hs, hhanded, hu⟩ := hσ.handed
    exact .inr ⟨u, t, hu, by rw [tokens, hhanded]; rfl, hσ.requeued, hσ.real⟩

/-- A token that is no semicolon was handed out last only if nothing waits in the stream. -/
theorem Stance.settled (hσ : σ.Stance c) (ht : σ.tokens.head? = some t)
    (hreal : t.kind ≠ .insertedSemicolon) : σ.Settled c := by
  obtain hσ | ⟨u, t', hu, hlast, -⟩ := hσ.cases
  · exact hσ
  · rw [ht] at hlast
    cases hlast
    exact absurd hu hreal

theorem offending?_eq_some_iff :
    σ.offending? = some t ↔ σ.tokens.head? = some t ∧ t.kind ≠ .insertedSemicolon := by
  simp [offending?, Option.filter_eq_some_iff]

theorem slash?_eq_some_iff :
    σ.slash? = some t ↔ σ.tokens.head? = some t ∧ Parser.opensRegex t.kind := by
  simp [slash?, Option.filter_eq_some_iff]

theorem Paired.ask_semicolon (h : σ.Paired source) : (σ.ask .semicolon).Paired source := by
  rw [ask]
  cases hoffending : σ.offending? with
  | none => exact h
  | some t =>
      obtain ⟨ht, hreal⟩ := offending?_eq_some_iff.mp hoffending
      have hσ := h.stance.settled ht hreal
      dsimp only
      rw [Parser.run_insertSemicolon]
      by_cases hadmits : TokenStream.admitsSemicolon t
      · rw [if_pos hadmits]
        refine h.congr rfl (.inr ⟨t, .inl ⟨⟨_, _, rfl, rfl, ht⟩, rfl, hσ.same, hσ.last.trans ht,
          hreal, ?_⟩⟩)
        show σ.stream.previous = _
        rw [hσ.previous, ht]
        rfl
      · rw [if_neg hadmits]
        exact h

theorem Paired.ask_regex (h : σ.Paired source) : (σ.ask .regex).Paired source := by
  rw [ask]
  cases hslash : σ.slash? with
  | none => exact h
  | some slash =>
      obtain ⟨ht, hopens⟩ := slash?_eq_some_iff.mp hslash
      have hσ := h.stance.settled ht (by rintro hk; rw [hk] at hopens; cases hopens)
      have hlast : (σ.course source).last? = some slash := hσ.last.trans ht
      have hrescan := hσ.same.rescan slash
      dsimp only
      rw [TokenStream.run_rescan_scan]
      cases hscan : (Scanner.rescan slash).run σ.stream.scanner with
      | error f sc =>
          rw [hscan] at hrescan
          obtain ⟨u, hcourse, hsame⟩ := hrescan.of_error
          exact h.cons (s := u) rfl (by rw [Course.call, hlast]; dsimp only; rw [hcourse]; rfl)
            ⟨hσ.requeued, hsame, hσ.last, hσ.real, by rintro _ _ _ ⟨⟩, hσ.previous, hσ.restricted⟩
      | ok t sc =>
          rw [hscan] at hrescan
          obtain ⟨u, hcourse, hsame⟩ := hrescan.of_ok
          refine h.cons (s := u) rfl (by rw [Course.call, hlast]; dsimp only; rw [hcourse]; rfl)
            ⟨hσ.requeued, hsame, rfl, ?_, by rintro _ _ _ ⟨⟩, rfl,
              afterRestrictedKeyword_eq rfl fun hk => ?_⟩
          · rintro _ ⟨⟩
            rw [Scanner.kind_of_rescan hscan]
            nofun
          · rw [Scanner.kind_of_rescan hscan] at hk
            cases hk

theorem Paired.ask_comments (h : σ.Paired source) : (σ.ask .comments).Paired source := by
  refine h.congr rfl ?_
  obtain hσ | ⟨t, hσ | hσ⟩ := h.stance
  · exact .inl { hσ with same := ⟨hσ.same.source, hσ.same.rest, hσ.same.place⟩ }
  · exact .inr ⟨t, .inl { hσ with same := ⟨hσ.same.source, hσ.same.rest, hσ.same.place⟩ }⟩
  · obtain ⟨s, hs, hsame⟩ := hσ.same
    exact .inr ⟨t, .inr { hσ with same := ⟨s, hs, hsame.source, hsame.rest, hsame.place⟩ }⟩

theorem Paired.ask (h : σ.Paired source) (request : Request) : (σ.ask request).Paired source := by
  cases request with
  | token => exact h.ask_token
  | semicolon => exact h.ask_semicolon
  | regex => exact h.ask_regex
  | comments => exact h.ask_comments

theorem paired_foldl (source : Text) (requests : List Request) :
    (requests.foldl Session.ask (ofText source)).Paired source := by
  suffices h : ∀ σ : Session, σ.Paired source → (requests.foldl Session.ask σ).Paired source from
    h _ (paired_ofText source)
  induction requests with
  | nil => exact fun σ h => h
  | cons request requests ih => exact fun σ h => ih _ (h.ask request)

/-! ## Faithful sessions -/

/-- A session hands out what a scanner answers, and adds semicolons only where the rules say so. -/
structure Faithful (source : Text) (σ : Session) : Prop where
  /-- The inserted semicolons and the repeated tokens apart, these are the answers of a scanner. -/
  answers : (σ.course source).answers = (scanned σ.handed).map (·.2)
  /-- After a semicolon that was asked for comes the token that was handed out before it. -/
  repeated : ∀ u t hs, σ.handed = .semicolon u t :: hs →
    (hs.filterMap Handed.token?).head? = some t ∧
      (σ.ask .token).handed = .token (.ok t) :: σ.handed
  /-- A semicolon comes unasked exactly if a line ends after a keyword at which none may end. -/
  unasked : (∃ u, u.kind = .insertedSemicolon ∧
      (σ.ask .token).handed = .token (.ok u) :: σ.handed) ↔
    endsRestricted (σ.tokens.reverse.map (·.kind)) ∧
      ∃ t s, Scanner.next.run σ.stream.scanner = .ok t s ∧ t.newlineBefore
  /-- Nothing waits in the stream when a semicolon is asked for. -/
  requeued : ∀ t, σ.offending? = some t → σ.stream.requeued = none

/-- A token that waits is handed out next. -/
theorem handed_ask_of_requeued (h : σ.stream.requeued = some t) :
    (σ.ask .token).handed = .token (.ok t) :: σ.handed := by
  rw [Session.ask, TokenStream.run_next_requeued h]
  rfl

theorem handed_ask_of_scan {s : Scanner} (h : σ.stream.requeued = none)
    (hscan : Scanner.next.run σ.stream.scanner = .ok t s) : (σ.ask .token).handed =
      .token (.ok (TokenStream.delivered σ.stream.afterRestrictedKeyword t)) :: σ.handed := by
  rw [Session.ask, TokenStream.run_next_scan h hscan]
  rfl

/-- An inserted semicolon is no keyword. -/
theorem endsRestricted_semicolon {u : Token} (hu : u.kind = .insertedSemicolon)
    (h : σ.tokens.head? = some u) : endsRestricted (σ.tokens.reverse.map (·.kind)) = false := by
  rw [endsRestricted, List.getLast?_map, List.getLast?_reverse, h, Option.map_some, hu]
  rfl

theorem Settled.semicolon_iff (hσ : σ.Settled c) : (∃ u, u.kind = .insertedSemicolon ∧
      (σ.ask .token).handed = .token (.ok u) :: σ.handed) ↔
    endsRestricted (σ.tokens.reverse.map (·.kind)) ∧
      ∃ t s, Scanner.next.run σ.stream.scanner = .ok t s ∧ t.newlineBefore := by
  rw [← hσ.restricted]
  cases hscan : Scanner.next.run σ.stream.scanner with
  | error f s =>
      have hhanded : (σ.ask .token).handed = .token (.error f) :: σ.handed := by
        rw [Session.ask, TokenStream.run_next_error hσ.requeued hscan]
        rfl
      rw [hhanded]
      refine iff_of_false ?_ ?_
      · rintro ⟨u, -, ⟨⟩⟩
      · rintro ⟨-, t, s, ⟨⟩, -⟩
  | ok t s =>
      have hreal := Scanner.kind_of_next hscan
      rw [handed_ask_of_scan hσ.requeued hscan, TokenStream.delivered]
      constructor
      · rintro ⟨u, hu, hhanded⟩
        by_cases hb : σ.stream.afterRestrictedKeyword && t.newlineBefore
        · obtain ⟨hrestricted, hnewline⟩ := Bool.and_eq_true_iff.mp hb
          exact ⟨hrestricted, t, s, rfl, hnewline⟩
        · rw [if_neg hb] at hhanded
          obtain ⟨⟨⟨rfl⟩⟩, -⟩ := hhanded
          exact absurd hu hreal
      · rintro ⟨hrestricted, t', s', ⟨⟩, hnewline⟩
        exact ⟨t.semicolonBefore, rfl, by rw [hrestricted, hnewline]; rfl⟩

/-- Neither does a semicolon come when a token waits, nor is there a keyword before it. -/
theorem semicolon_iff_of_requeued {u : Token} (hu : u.kind = .insertedSemicolon)
    (hlast : σ.tokens.head? = some u) (h : σ.stream.requeued = some t)
    (hreal : t.kind ≠ .insertedSemicolon) : (∃ u, u.kind = .insertedSemicolon ∧
      (σ.ask .token).handed = .token (.ok u) :: σ.handed) ↔
    endsRestricted (σ.tokens.reverse.map (·.kind)) ∧
      ∃ t s, Scanner.next.run σ.stream.scanner = .ok t s ∧ t.newlineBefore := by
  rw [handed_ask_of_requeued h, endsRestricted_semicolon hu hlast]
  refine iff_of_false ?_ ?_
  · rintro ⟨u, hu, hhanded⟩
    obtain ⟨⟨⟨rfl⟩⟩, -⟩ := hhanded
    exact hreal hu
  · rintro ⟨h, -⟩
    cases h

theorem Paired.faithful (h : σ.Paired source) : σ.Faithful source := by
  refine ⟨h.answers, fun u t hs hhanded => ?_, ?_, fun t ht => ?_⟩
  · obtain hσ | ⟨t', hσ | hσ⟩ := h.stance
    · exact absurd hhanded (hσ.unasked u t hs)
    · obtain ⟨u', hs', hhanded', -, horiginal⟩ := hσ.handed
      rw [hhanded] at hhanded'
      obtain ⟨⟨rfl, rfl⟩, rfl⟩ := hhanded'
      exact ⟨horiginal, handed_ask_of_requeued hσ.requeued⟩
    · obtain ⟨u', hs', hhanded', -⟩ := hσ.handed
      rw [hhanded] at hhanded'
      cases hhanded'
  · obtain hσ | ⟨u, t, hu, hlast, hrequeued, hreal⟩ := h.stance.cases
    · exact hσ.semicolon_iff
    · exact semicolon_iff_of_requeued hu hlast hrequeued hreal
  · obtain ⟨hlast, hreal⟩ := offending?_eq_some_iff.mp ht
    exact (h.stance.settled hlast hreal).requeued

end Session

/-- Whatever is asked of a token stream, it hands out what a scanner answers, with semicolons added
where the rules say so. -/
theorem sessions_faithful (source : Text) (requests : List Request) :
    (requests.foldl Session.ask (Session.ofText source)).Faithful source :=
  (Session.paired_foldl source requests).faithful

end EcmaSyntax
