import EcmaSyntax.Proofs.Lexeme
import EcmaSyntax.Proofs.Transcript

/-!
# Where a parser stands in its source

**Sites.**  A site is a place in a source in front of a token: the gap before the token, the
token, and the text after it.  Offsets and kinds are all that is known of a site; lines and
columns play no part in what a parser does.

**States.**  `Stands s before bare claimed p` says that a parser has taken what is written in
`before`, and that the site `p` comes next.  If the last token taken was a keyword after
which no line may end (`bare`), and a line ends in the gap, then a semicolon is at hand and
the token of the site comes after it.  The comments of the gap are there unless they were
claimed.

**Marks.**  What a stream has noted of a run, without lines and columns.

**Results.**  `Ready.take` and the lemmas beside it say where a parser stands after each of its
steps.
-/

namespace EcmaSyntax

/-- A token with the gap before it and the text after it. -/
structure Site where
  gap : Gap
  /-- The kind of the token, whether it opens a line or not. -/
  kind : TokenKind
  text : Text
  rest : Text

namespace Site

/-- The text from the gap on. -/
def all (p : Site) : Text := p.gap.text ++ (p.text ++ p.rest)

/-- The scanner finds the gap and the token. -/
structure Valid (p : Site) : Prop where
  fits : p.gap.Fits (p.text ++ p.rest)
  settled : isSettled (p.text ++ p.rest)
  token : p.kind = .endOfInput ∧ p.text = [] ∧ p.rest = [] ∨ TokenAt p.kind p.text p.rest

/-- Whether the token opens a line. -/
def newline (p : Site) : Bool := p.gap.endsLine

/-- The kind of the token where it stands. -/
def kindHere (p : Site) : TokenKind := Scanner.kindAfterGap p.newline p.kind

/-- The offset of the token, given that of the gap. -/
def start (p : Site) (offset : Nat) : Nat := offset + p.gap.text.size

/-- The offset just past the token, given that of the gap. -/
def stop (p : Site) (offset : Nat) : Nat := p.start offset + p.text.size

/-- The token at a place. -/
def toToken (p : Site) (place : Place) : Token := ⟨p.kindHere, p.text, place, p.newline⟩

variable {p q : Site}

/-- The next site starts behind the token. -/
theorem all_eq (hall : q.all = p.rest) : p.all = p.gap.text ++ p.text ++ q.all := by
  rw [all, ← hall, List.append_assoc]

/-- If the token is read again as a literal, the next site starts behind the literal. -/
theorem all_eq_literal {after body : Text} (htext : p.text ++ p.rest = '/' :: after)
    (hall : after = body ++ q.all) : p.all = p.gap.text ++ '/' :: body ++ q.all := by
  rw [all, htext, hall, List.append_assoc]
  rfl

theorem size_past (before : Text) (p : Site) :
    Text.size (before ++ (p.gap.text ++ p.text)) = p.stop before.size := by
  simp [stop, start, Nat.add_assoc]

theorem size_pastLiteral (before body : Text) (p : Site) :
    Text.size (before ++ (p.gap.text ++ '/' :: body)) =
      p.start before.size + Text.size ('/' :: body) := by
  simp [start, Nat.add_assoc]

end Site

/-! ## The scanner -/

namespace Scanner

variable {s s' : Scanner} {p : Site}

/-- The scanner behind the token of a site. -/
def behindSite (s : Scanner) (p : Site) : Scanner :=
  { s.behind p.gap p.rest with place := (s.place.past p.gap.text).past p.text }

@[simp] theorem source_behindSite (s : Scanner) (p : Site) :
    (s.behindSite p).source = s.source := rfl

@[simp] theorem rest_behindSite (s : Scanner) (p : Site) : (s.behindSite p).rest = p.rest := rfl

@[simp] theorem comments_behindSite (s : Scanner) (p : Site) :
    (s.behindSite p).comments = (p.gap.placed s.place.offset).reverse ++ s.comments := rfl

@[simp] theorem offset_behindSite (s : Scanner) (p : Site) :
    (s.behindSite p).place.offset = p.stop s.place.offset := by
  simp [behindSite, Site.stop, Site.start]

theorem readToken_of_valid (hp : p.Valid) (newline : Bool) :
    readToken newline (s.behind p.gap (p.text ++ p.rest)) =
      .ok ⟨kindAfterGap newline p.kind, p.text, s.place.past p.gap.text, newline⟩
        (s.behindSite p) := by
  unfold readToken behindSite
  rw [rest_behind]
  obtain ⟨hk, ht, hr⟩ | ht := hp.token
  · rw [hk, ht, hr]
    rfl
  · rw [ht.lexeme?]
    simp [skipPast, behind]

theorem run_next (s : Scanner) : next.run s = match skipGap false s with
    | .ok newline s₁ => readToken newline s₁
    | .error f s₁ => .error f s₁ := by
  show EStateM.bind (skipGap false) readToken s = _
  unfold EStateM.bind
  cases skipGap false s <;> rfl

/-- The scanner finds the token of the site that comes next. -/
theorem next_of_valid (hp : p.Valid) (hs : s.rest = p.all) :
    next.run s = .ok (p.toToken (s.place.past p.gap.text)) (s.behindSite p) := by
  rw [run_next, skipGap_of_fits false hs hp.fits hp.settled]
  exact readToken_of_valid hp p.newline

theorem exists_site {t : Token} (h : next.run s = .ok t s') :
    ∃ p : Site, p.Valid ∧ p.all = s.rest := by
  rw [run_next] at h
  cases h₁ : skipGap false s with
  | error f s₁ =>
      rw [h₁] at h
      cases h
  | ok newline s₁ =>
      rw [h₁] at h
      obtain ⟨g, u, hu, hg, hset⟩ := exists_gap h₁
      have h₂ := skipGap_of_fits false hu hg hset
      rw [h₁] at h₂
      injection h₂ with _ heq
      have h' : readToken newline s₁ = .ok t s' := h
      unfold readToken at h'
      rw [heq, rest_behind] at h'
      cases hlex : lexeme? u with
      | none =>
          have hnil : u = [] := by
            cases u with
            | nil => rfl
            | cons => cases hlex
          subst hnil
          exact ⟨⟨g, .endOfInput, [], []⟩, ⟨hg, hset, .inl ⟨rfl, rfl, rfl⟩⟩, hu.symm⟩
      | some lex =>
          rw [hlex] at h'
          cases lex with
          | faulty => cases h'
          | token k w =>
              obtain ⟨r, rfl, ht⟩ := exists_tokenAt hlex
              exact ⟨⟨g, k, w, r⟩, ⟨hg, hset, .inr ht⟩, hu.symm⟩

theorem kind_of_rescan {slash t : Token} {s s' : Scanner} (h : (rescan slash).run s = .ok t s') :
    t.kind = .regex := by
  unfold EStateM.run rescan at h
  dsimp only at h
  split at h
  · injection h with ht
    rw [← ht]
  · cases h

end Scanner

/-! ## Marks -/

/-- What a stream notes, without lines and columns. -/
inductive Mark where
  /-- A token was scanned. -/
  | token (kind : TokenKind) (text : Text) (start : Nat) (newline : Bool)
  /-- The last token was read again as a regular expression. -/
  | literal (kind : TokenKind) (text : Text) (start : Nat)
  /-- A semicolon was inserted before the last token. -/
  | inserted
  /-- A semicolon of the source ended a statement. -/
  | ended (start : Nat)
deriving DecidableEq

/-- The mark of an event, unless it is the end of a run. -/
def Event.mark? : Event → Option Mark
  | .scanned t => some (.token t.kind t.text t.place.offset t.newlineBefore)
  | .rescanned _ literal => some (.literal literal.kind literal.text literal.place.offset)
  | .insertedAfterKeyword _ => some .inserted
  | .insertedBefore _ => some .inserted
  | .ended semicolon => some (.ended semicolon.place.offset)
  | .parsed _ => none

/-- The marks of some events. -/
def marksOf (events : List Event) : List Mark := events.filterMap Event.mark?

/-- What a stream has noted so far. -/
def TokenStream.marks (s : TokenStream) : List Mark := marksOf s.journal.reverse

/-- What a stream notes when it delivers the token of a site, after a keyword at which no line
may end or after another token. -/
def Site.marks (p : Site) (offset : Nat) (bare : Bool) : List Mark :=
  .token p.kindHere p.text (p.start offset) p.newline
    :: if bare && p.newline then [.inserted] else []

/-! ## The token stream -/

/-- Whether the last of some tokens is a keyword at which no line may end, and no name after a
point. -/
def endsRestricted (kinds : List TokenKind) : Bool :=
  kinds.getLast?.any TokenStream.isRestrictedKeyword && kinds.dropLast.getLast? != some .dot

theorem endsRestricted_concat (kinds : List TokenKind) (k : TokenKind) :
    endsRestricted (kinds ++ [k]) =
      (TokenStream.isRestrictedKeyword k && kinds.getLast? != some .dot) := by
  simp [endsRestricted]

namespace TokenStream

theorem marks_cons (s : TokenStream) (e : Event) {m : Mark} (h : e.mark? = some m) :
    marks { s with journal := e :: s.journal } = s.marks ++ [m] := by
  simp [marks, marksOf, h]

/-- The token that a stream delivers at a site: a semicolon if the rules demand one. -/
def delivered (bare : Bool) (t : Token) : Token :=
  if bare && t.newlineBefore then t.semicolonBefore else t

/-- What a stream keeps for later when it delivers a token. -/
def kept (bare : Bool) (t : Token) : Option Token :=
  if bare && t.newlineBefore then some t else none

theorem run_scan {α : Type} (step : Scan α) (s : TokenStream) :
    (scan step).run s = match step.run s.scanner with
      | .ok a scanner => .ok a { s with scanner }
      | .error f scanner => .error f { s with scanner } := rfl

theorem run_next_scan {s : TokenStream} {t : Token} {sc : Scanner} (hq : s.requeued = none)
    (h : Scanner.next.run s.scanner = .ok t sc) :
    next.run s = .ok (delivered s.afterRestrictedKeyword t)
      { scanner := sc
        previous := some (delivered s.afterRestrictedKeyword t).kind
        beforePrevious := s.previous
        requeued := kept s.afterRestrictedKeyword t
        journal := if s.afterRestrictedKeyword && t.newlineBefore then
            .insertedAfterKeyword t :: .scanned t :: s.journal
          else .scanned t :: s.journal } := by
  have hscan : (scan Scanner.next).run s = .ok t { s with scanner := sc } := by
    rw [run_scan, h]
  unfold next delivered kept
  rw [EStateM.run_bind, EStateM.run_get]
  simp only [hq]
  rw [EStateM.run_bind, hscan]
  -- noting a token does not change what was delivered before it
  show (if t.newlineBefore && s.afterRestrictedKeyword then do
      note (.insertedAfterKeyword t)
      requeue t
      deliver t.semicolonBefore
    else deliver t : Stream Token).run
      { s with scanner := sc, journal := .scanned t :: s.journal } = _
  rw [Bool.and_comm]
  by_cases hb : s.afterRestrictedKeyword && t.newlineBefore
  · simp only [hb, if_true]
    rfl
  · simp only [hb, Bool.false_eq_true, if_false]
    rw [← hq]
    rfl

theorem run_next_requeued {s : TokenStream} {t : Token} (h : s.requeued = some t) :
    next.run s =
      .ok t { s with requeued := none, previous := some t.kind, beforePrevious := s.previous } := by
  unfold next
  rw [EStateM.run_bind, EStateM.run_get]
  simp only [h]
  rfl

/-- Nothing changes but the scanner if it fails. -/
theorem run_next_error {s : TokenStream} {f : Failure} {sc : Scanner} (hq : s.requeued = none)
    (h : Scanner.next.run s.scanner = .error f sc) :
    next.run s = .error f { s with scanner := sc } := by
  unfold next
  rw [EStateM.run_bind, EStateM.run_get]
  simp only [hq]
  rw [EStateM.run_bind, run_scan, h, ← hq]

/-- A stream hands out the token that waits, or scans one. -/
theorem run_next_ok {s s' : TokenStream} {t : Token} (h : next.run s = .ok t s') :
    s.requeued = some t ∧
        s' = { s with
          requeued := none
          previous := some t.kind
          beforePrevious := s.previous } ∨
      s.requeued = none ∧ ∃ u sc, Scanner.next.run s.scanner = .ok u sc ∧
        t = delivered s.afterRestrictedKeyword u ∧
        s' =
          { scanner := sc
            previous := some (delivered s.afterRestrictedKeyword u).kind
            beforePrevious := s.previous
            requeued := kept s.afterRestrictedKeyword u
            journal := if s.afterRestrictedKeyword && u.newlineBefore then
                .insertedAfterKeyword u :: .scanned u :: s.journal
              else .scanned u :: s.journal } := by
  cases hq : s.requeued with
  | some u =>
      rw [run_next_requeued hq] at h
      cases h
      exact .inl ⟨rfl, rfl⟩
  | none =>
      cases hscan : Scanner.next.run s.scanner with
      | ok u sc =>
          rw [run_next_scan hq hscan] at h
          cases h
          exact .inr ⟨rfl, u, sc, rfl, rfl, rfl⟩
      | error f sc =>
          rw [run_next_error hq hscan] at h
          cases h

/-- A stream fails only where its scanner does, while no token waits. -/
theorem run_next_failed {s s' : TokenStream} {f : Failure} (h : next.run s = .error f s') :
    s.requeued = none ∧ ∃ sc, Scanner.next.run s.scanner = .error f sc ∧
      s' = { s with scanner := sc } := by
  cases hq : s.requeued with
  | some u =>
      rw [run_next_requeued hq] at h
      cases h
  | none =>
      cases hscan : Scanner.next.run s.scanner with
      | ok u sc =>
          rw [run_next_scan hq hscan] at h
          cases h
      | error f' sc =>
          rw [run_next_error hq hscan, hq] at h
          cases h
          exact ⟨rfl, sc, rfl, rfl⟩

/-- A slash is read again by the scanner, and the literal comes in its place. -/
theorem run_rescan_scan (slash : Token) (s : TokenStream) : (rescan slash).run s =
    match (Scanner.rescan slash).run s.scanner with
      | .ok t sc => .ok t
          { s with
            scanner := sc
            previous := some t.kind
            journal := .rescanned slash t :: s.journal }
      | .error f sc => .error f { s with scanner := sc } := by
  unfold rescan
  rw [EStateM.run_bind, run_scan]
  cases (Scanner.rescan slash).run s.scanner <;> rfl

theorem run_rescan_ok {s s' : TokenStream} {slash t : Token} (h : (rescan slash).run s = .ok t s') :
    ∃ sc, (Scanner.rescan slash).run s.scanner = .ok t sc ∧
      s' = { s with
        scanner := sc
        previous := some t.kind
        journal := .rescanned slash t :: s.journal } := by
  rw [run_rescan_scan] at h
  cases hscan : (Scanner.rescan slash).run s.scanner with
  | ok u sc =>
      rw [hscan] at h
      cases h
      exact ⟨sc, rfl, rfl⟩
  | error f sc =>
      rw [hscan] at h
      cases h

theorem run_rescan_failed {s s' : TokenStream} {slash : Token} {f : Failure}
    (h : (rescan slash).run s = .error f s') :
    ∃ sc, (Scanner.rescan slash).run s.scanner = .error f sc ∧ s' = { s with scanner := sc } := by
  rw [run_rescan_scan] at h
  cases hscan : (Scanner.rescan slash).run s.scanner with
  | ok u sc =>
      rw [hscan] at h
      cases h
  | error f' sc =>
      rw [hscan] at h
      cases h
      exact ⟨sc, rfl, rfl⟩

/-- A slash is read again as the regular expression that the source has there. -/
theorem run_rescan {s : TokenStream} {slash : Token} {text : Text}
    (h : regexLiteral? (s.scanner.source.dropBytes (slash.place.offset + 1)) = some text) :
    ∃ s', (rescan slash).run s = .ok { slash with kind := .regex, text } s' ∧
      s'.requeued = s.requeued ∧ s'.scanner.source = s.scanner.source ∧
      s'.scanner.rest =
        (s.scanner.source.dropBytes (slash.place.offset + 1)).drop (text.length - 1) ∧
      s'.scanner.place.offset = slash.place.offset + text.size ∧
      s'.scanner.comments = s.scanner.comments ∧ s'.previous = some .regex ∧
      s'.marks = s.marks ++ [.literal .regex text slash.place.offset] := by
  generalize hafter : s.scanner.source.dropBytes (slash.place.offset + 1) = after at h
  have hscan : (Scanner.rescan slash).run s.scanner =
      .ok { slash with kind := .regex, text }
        { s.scanner with
          rest := after.drop (text.length - 1)
          place := { slash.place.along text with line := s.scanner.place.line } } := by
    unfold EStateM.run Scanner.rescan
    simp only [hafter, h]
  rw [run_rescan_scan, hscan]
  refine ⟨_, rfl, rfl, rfl, rfl, rfl, rfl, rfl, ?_⟩
  exact marks_cons s (.rescanned slash { slash with kind := .regex, text }) rfl

/-- A slash is read again only if the source has a regular expression there. -/
theorem exists_regex {s s' : TokenStream} {slash t : Token} (h : (rescan slash).run s = .ok t s') :
    ∃ text,
      regexLiteral? (s.scanner.source.dropBytes (slash.place.offset + 1)) = some text := by
  cases hlit : regexLiteral? (s.scanner.source.dropBytes (slash.place.offset + 1)) with
  | some text => exact ⟨text, rfl⟩
  | none =>
      obtain ⟨f, hscan⟩ : ∃ f, (Scanner.rescan slash).run s.scanner = .error f s.scanner := by
        unfold EStateM.run Scanner.rescan
        simp only [hlit]
        exact ⟨_, rfl⟩
      obtain ⟨sc, hok, -⟩ := run_rescan_ok h
      rw [hscan] at hok
      cases hok

/-- The next token is that of the site that comes next. -/
theorem next_of_valid {s : TokenStream} {p : Site} (hq : s.requeued = none) (hp : p.Valid)
    (hs : s.scanner.rest = p.all) : ∃ place s', next.run s =
        .ok (delivered s.afterRestrictedKeyword (p.toToken place)) s' ∧
      place.offset = p.start s.scanner.place.offset ∧
      s'.requeued = kept s.afterRestrictedKeyword (p.toToken place) ∧
      s'.previous = some (delivered s.afterRestrictedKeyword (p.toToken place)).kind ∧
      s'.beforePrevious = s.previous ∧
      s'.marks = s.marks ++ p.marks s.scanner.place.offset s.afterRestrictedKeyword ∧
      s'.scanner.source = s.scanner.source ∧ s'.scanner.rest = p.rest ∧
      s'.scanner.place.offset = p.stop s.scanner.place.offset ∧
      s'.scanner.comments =
        (p.gap.placed s.scanner.place.offset).reverse ++ s.scanner.comments := by
  have hplace : (s.scanner.place.past p.gap.text).offset = p.start s.scanner.place.offset :=
    Place.offset_past _ _
  refine ⟨_, _, run_next_scan hq (Scanner.next_of_valid hp hs), hplace, rfl, rfl, rfl, ?_, rfl, rfl,
    Scanner.offset_behindSite _ _, rfl⟩
  generalize s.scanner.place.past p.gap.text = place at hplace ⊢
  unfold marks Site.marks
  by_cases hb : s.afterRestrictedKeyword && p.newline
  · have hb' : s.afterRestrictedKeyword && (p.toToken place).newlineBefore := hb
    simp only [hb, hb', if_true]
    simp [marksOf, Event.mark?, Site.toToken, hplace]
  · have hb' : ¬(s.afterRestrictedKeyword && (p.toToken place).newlineBefore) := hb
    simp only [hb, hb', Bool.false_eq_true, if_false]
    simp [marksOf, Event.mark?, Site.toToken, hplace]

/-- A stream delivers a token only if the scanner finds one. -/
theorem exists_site {s s' : TokenStream} {t : Token} (hq : s.requeued = none)
    (h : next.run s = .ok t s') : ∃ p : Site, p.Valid ∧ p.all = s.scanner.rest := by
  obtain ⟨hwaits, -⟩ | ⟨-, u, sc, hscan, -, -⟩ := run_next_ok h
  · rw [hq] at hwaits
    cases hwaits
  · exact Scanner.exists_site hscan

end TokenStream

/-! ## Where a parser stands -/

theorem Site.Valid.kindHere_ne {p : Site} (hp : p.Valid) : p.kindHere ≠ .insertedSemicolon := by
  have hk : p.kind = .endOfInput ∨ isLexical p.kind := hp.token.imp (·.1) (·.isLexical)
  unfold Site.kindHere
  intro h
  generalize p.kind = k at h hk
  cases k <;> simp [Scanner.kindAfterGap] at h hk
  · split at h <;> cases h
  · split at h <;> cases h
  · cases hk

theorem Scanner.kind_of_next {t : Token} {s s' : Scanner} (h : next.run s = .ok t s') :
    t.kind ≠ .insertedSemicolon := by
  obtain ⟨p, hp, hs⟩ := exists_site h
  rw [next_of_valid hp hs.symm] at h
  injection h with ht
  rw [← ht]
  exact hp.kindHere_ne

/-- Nothing is left at the end of the input. -/
theorem Site.Valid.rest_nil {p : Site} (hp : p.Valid) (hk : p.kindHere = .endOfInput) :
    p.text = [] ∧ p.rest = [] := by
  obtain ⟨-, ht, hr⟩ | ht := hp.token
  · exact ⟨ht, hr⟩
  · have hkind : p.kind = .endOfInput := by
      unfold Site.kindHere at hk
      generalize p.kind = k at hk
      cases hn : p.newline <;> rw [hn] at hk <;> cases k <;> first | rfl | cases hk
    have := ht.isLexical
    rw [hkind] at this
    cases this

theorem Site.Valid.text_ne_nil {p : Site} (hp : p.Valid) (hk : p.kindHere ≠ .endOfInput) :
    p.text ≠ [] := by
  obtain ⟨h, -⟩ | ht := hp.token
  · rw [Site.kindHere, h] at hk
    exact absurd rfl hk
  · exact ht.ne_nil

/-- The kind of a token tells its text unless it is a name, a literal or the end of the input. -/
theorem Site.Valid.text_eq {p : Site} (hp : p.Valid) (hend : p.kindHere ≠ .endOfInput)
    (hk : hasManyTexts p.kindHere = false) : p.text = p.kindHere.display := by
  obtain ⟨h, -⟩ | ht := hp.token
  · rw [Site.kindHere, h] at hend
    exact absurd rfl hend
  · have hdisplay : ∀ newline k, hasManyTexts (Scanner.kindAfterGap newline k) = hasManyTexts k ∧
        (Scanner.kindAfterGap newline k).display = k.display := by
      intro newline k
      cases newline <;> cases k <;> exact ⟨rfl, rfl⟩
    obtain ⟨hmany, hd⟩ := hdisplay p.newline p.kind
    rw [Site.kindHere, hmany] at hk
    rw [Site.kindHere, hd]
    exact ht.text_eq hk

namespace Parser

/-- The text up to a place was taken, or is at hand, and another text comes next. -/
structure Ready (s : ParserState) (before text : Text) : Prop where
  requeued : s.stream.requeued = none
  source : s.stream.scanner.source = before ++ text
  rest : s.stream.scanner.rest = text
  offset : s.stream.scanner.place.offset = before.size
  comments : ∀ c ∈ s.stream.scanner.comments, c.offset < before.size
  kind : s.current.kind ≠ .insertedSemicolon
  stop : s.current.stop = before.size

/-- The text up to a place was taken, and a site comes next. -/
structure Stands (s : ParserState) (before : Text) (bare claimed : Bool) (p : Site) : Prop where
  valid : p.Valid
  source : s.stream.scanner.source = before ++ p.all
  rest : s.stream.scanner.rest = p.rest
  offset : s.stream.scanner.place.offset = p.stop before.size
  lastEnd : s.lastEnd = before.size
  token : ∃ place : Place, place.offset = p.start before.size ∧
    s.current = TokenStream.delivered bare (p.toToken place) ∧
    s.stream.requeued = TokenStream.kept bare (p.toToken place)
  comments : ∃ old, s.stream.scanner.comments.reverse =
    old ++ (if claimed then [] else p.gap.placed before.size) ∧ ∀ c ∈ old, c.offset < before.size

/-- The token at hand was delivered last, and it is no restricted word after a point. -/
structure Fresh (s : ParserState) : Prop where
  previous : s.stream.previous = some s.current.kind
  no_point : TokenStream.isRestrictedKeyword s.current.kind → s.stream.beforePrevious ≠ some .dot

theorem Fresh.restricted {s : ParserState} (h : Fresh s) :
    s.stream.afterRestrictedKeyword = TokenStream.isRestrictedKeyword s.current.kind := by
  unfold TokenStream.afterRestrictedKeyword
  rw [h.previous, Option.any_some]
  cases hk : TokenStream.isRestrictedKeyword s.current.kind with
  | false => rfl
  | true =>
      have := h.no_point hk
      simpa using this

namespace Ready

variable {s s₁ : ParserState} {before text : Text} {p : Site} {t : Token}

theorem exists_site (h : Ready s before text) (ht : take.run s = .ok t s₁) :
    ∃ p : Site, p.Valid ∧ p.all = text := by
  obtain ⟨-, following, stream, hnext, -⟩ := run_take_ok.mp ht
  rw [← h.rest]
  exact TokenStream.exists_site h.requeued hnext

/-- A parser takes the token at hand, and stands at the site that comes next. -/
theorem take (h : Ready s before p.all) (hp : p.Valid) : ∃ s₁, take.run s = .ok s.current s₁ ∧
    Stands s₁ before s.stream.afterRestrictedKeyword false p ∧
    s₁.stream.previous = some s₁.current.kind ∧ s₁.stream.beforePrevious = s.stream.previous ∧
    s₁.stream.marks =
      s.stream.marks ++ p.marks before.size s.stream.afterRestrictedKeyword := by
  obtain ⟨place, stream, hnext, hplace, hkept, hprevious, hbefore, hmarks, hsource, hrest, hoffset,
    hcomments⟩ := TokenStream.next_of_valid h.requeued hp h.rest
  rw [h.offset] at hplace hoffset hcomments hmarks
  refine ⟨advance s _ stream, run_take_ok.mpr ⟨rfl, _, stream, hnext, rfl⟩,
    ⟨hp, hsource.trans h.source, hrest, hoffset, ?_, ⟨place, hplace, rfl, hkept⟩, ?_⟩, hprevious,
    hbefore, hmarks⟩
  · simp only [advance, h.kind, if_false]
    exact h.stop
  · refine ⟨s.stream.scanner.comments.reverse, ?_, fun c hc => h.comments c ?_⟩
    · show stream.scanner.comments.reverse = _
      rw [hcomments, List.reverse_append, List.reverse_reverse]
      rfl
    · exact List.mem_reverse.mp hc

end Ready

namespace Stands

variable {s s₁ : ParserState} {before : Text} {bare claimed : Bool} {p q : Site}

/-- No semicolon is demanded before the token of a site. -/
theorem current_eq (h : Stands s before bare claimed p) (hb : (bare && p.newline) = false) :
    ∃ place : Place, place.offset = p.start before.size ∧ s.current = p.toToken place ∧
      s.stream.requeued = none := by
  obtain ⟨place, hplace, hcurrent, hrequeued⟩ := h.token
  have hb' : (bare && (p.toToken place).newlineBefore) = false := hb
  refine ⟨place, hplace, ?_, ?_⟩
  · rw [hcurrent, TokenStream.delivered, hb', if_neg Bool.false_ne_true]
  · rw [hrequeued, TokenStream.kept, hb', if_neg Bool.false_ne_true]

/-- Whatever comment was read starts before the token of the site. -/
theorem comment_lt (h : Stands s before bare claimed p) {c : PlacedComment}
    (hc : c ∈ s.stream.scanner.comments) : c.offset < p.start before.size := by
  obtain ⟨old, hold, hlt⟩ := h.comments
  have hc' := List.mem_reverse.mpr hc
  rw [hold, List.mem_append] at hc'
  rw [Site.start]
  obtain hc' | hc' := hc'
  · have := hlt c hc'
    omega
  · cases claimed with
    | true => cases hc'
    | false => exact (Gap.placed_bounds hc').2

theorem ready (h : Stands s before bare claimed p) (hb : (bare && p.newline) = false) :
    Ready s (before ++ (p.gap.text ++ p.text)) p.rest := by
  obtain ⟨place, hplace, hcurrent, hrequeued⟩ := h.current_eq hb
  have hsize := Site.size_past before p
  refine ⟨hrequeued, ?_, h.rest, h.offset.trans hsize.symm, fun c hc => ?_, ?_, ?_⟩
  · rw [h.source, Site.all]
    simp
  · rw [hsize, Site.stop]
    have := h.comment_lt hc
    omega
  · rw [hcurrent]
    exact h.valid.kindHere_ne
  · rw [hcurrent, hsize, Site.stop, ← hplace]
    rfl

end Stands

end Parser

end EcmaSyntax
