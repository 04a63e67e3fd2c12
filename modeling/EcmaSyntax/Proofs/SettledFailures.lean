import EcmaSyntax.Proofs.Coherence
import EcmaSyntax.Proofs.LineFeeds
import EcmaSyntax.Proofs.Respelling
import EcmaSyntax.Proofs.Turns

/-!
# Failures that do not depend on what comes after them

**Input.**  Two sources that have their first lines in common, with a line feed behind them.  The
second source is read by a twin of whoever reads the first one.

**Method.**  As long as a run has read nothing behind the common lines, its twin is in the same
state but for the rest of its source.  A step either keeps the two together, or fails in both in the
same way, or the run strays: it has read a token that ends behind the common lines, and whatever it
fails at from there on does so as well.

**Results.**
* `Scanner.Twin.next`, `Scanner.Twin.rescan`: what one step of the scanner does to a pair of twins.
* `Parser.Lockstep.shares`: what a parser does to a pair of twins, by induction over its steps.
* `failure_settled`: a failure within the common lines is the same in both sources.
-/

namespace EcmaSyntax

/-! ## Failures and tokens behind a text -/

/-- A failure is about a piece of the source: about one that is no token, or about a token. -/
def Failure.blamesSource (f : Failure) : Bool :=
  match f.cause with
  | .lexical _ _ => true
  | .unexpected k _ => isReal k
  | .tooDeep _ => false

/-- A failure is about a piece of the source that ends within a text at its beginning. -/
def Failure.Within (t : Text) (f : Failure) : Prop :=
  f.blamesSource ∧ f.place.offset + f.text.size ≤ t.size

/-- A token ends behind a text.  It starts there, too, unless it is a string. -/
def Token.Past (t : Text) (token : Token) : Prop :=
  t.size < token.place.offset ∨ token.kind = .string ∧ t.size < token.stop

theorem Failure.not_within_of_lt {t : Text} {f : Failure} (h : t.size < f.place.offset) :
    ¬f.Within t := fun hf => by
  have := hf.2
  omega

theorem Token.Past.not_within {t : Text} {token : Token} (h : token.Past t) :
    ¬(Failure.ofToken token).Within t := by
  obtain h | ⟨-, h⟩ := h
  · exact Failure.not_within_of_lt h
  · exact fun hf => Nat.not_lt_of_le hf.2 h

/-- What two runs have in common: they end in twin states, or they fail in the same way, or the
first one strays. -/
inductive Shares {σ α : Type} (twin : σ → σ → Prop)
    (strayed : EStateM.Result Failure σ α → Prop) :
    EStateM.Result Failure σ α → EStateM.Result Failure σ α → Prop
  | ok (a : α) {s s' : σ} : twin s s' → Shares twin strayed (.ok a s) (.ok a s')
  | error (f : Failure) (s s' : σ) : Shares twin strayed (.error f s) (.error f s')
  | strayed {r r' : EStateM.Result Failure σ α} : strayed r → Shares twin strayed r r'

/-! ## Scanners -/

namespace Scanner

variable {lines b c before : Text} {s s' : Scanner} {t : Token}

/-- Two scanners that have read the same of the common lines, with more lines in front of them. -/
inductive Twin (lines b c : Text) : Scanner → Scanner → Prop
  | intro {s : Scanner} (unread : Text) :
      s.source = lines ++ '\n' :: b → s.rest = unread ++ '\n' :: b →
      Twin lines b c s { s with source := lines ++ '\n' :: c, rest := unread ++ '\n' :: c }

/-- A scanner has read a token behind the common lines, or fails there. -/
def Strayed (lines : Text) : EStateM.Result Failure Scanner Token → Prop
  | .ok t s => t.Past lines ∧ lines.size < s.place.offset
  | .error f _ => ¬f.Within lines

/-- A step of a scanner finds its token, or fails, no further to the left than where it stands. -/
theorem next_offset_le (s : Scanner) :
    (∃ t s', next.run s = .ok t s' ∧ s.place.offset ≤ t.place.offset ∧
      t.place.offset ≤ s'.place.offset) ∨
    ∃ f s', next.run s = .error f s' ∧ s.place.offset ≤ f.place.offset := by
  obtain ⟨p, hp, hs⟩ | ⟨p, hp, hs⟩ := s.next_cases
  · refine .inl ⟨_, _, next_of_valid hp hs, ?_, ?_⟩
    · show _ ≤ (s.place.past p.gap.text).offset
      rw [Place.offset_past]
      exact Nat.le_add_right _ _
    · show (s.place.past p.gap.text).offset ≤ (s.behindSite p).place.offset
      rw [Place.offset_past, offset_behindSite, Site.stop, Site.start]
      exact Nat.le_add_right _ _
  · refine .inr ⟨_, _, next_of_fault hp hs, ?_⟩
    show _ ≤ (s.place.past p.gap.text).offset
    rw [Place.offset_past]
    exact Nat.le_add_right _ _

theorem next_strayed (h : lines.size < s.place.offset) : Strayed lines (next.run s) := by
  obtain ⟨t, s', hnext, hle, hle'⟩ | ⟨f, s', hnext, hle⟩ := s.next_offset_le
  · rw [hnext]
    exact ⟨.inl (by omega), by omega⟩
  · rw [hnext]
    exact Failure.not_within_of_lt (by omega)

/-- What is unread of the common lines ends where they end. -/
theorem Tracks.unread {unread : Text} (h : s.Tracks before)
    (hsource : s.source = lines ++ '\n' :: b) (hrest : s.rest = unread ++ '\n' :: b) :
    lines = before ++ unread ∧ s.place.offset + unread.size = lines.size := by
  have hsplit : lines = before ++ unread := by
    have := hsource.symm.trans h.source
    rw [hrest, ← List.append_assoc] at this
    exact List.append_cancel_right this
  refine ⟨hsplit, ?_⟩
  rw [hsplit, Text.size_append, h.offset]

/-- What reaches over the line feed ends behind the common lines. -/
theorem size_lt_of_crosses {unread more : Text} {n : Nat} (h : n + unread.size = lines.size) :
    lines.size < n + Text.size (unread ++ '\n' :: more) := by
  rw [Text.size_append, Text.size_cons]
  have : 0 < '\n'.utf8Size := Char.utf8Size_pos _
  omega

theorem rescan_offset_le {slash : Token} (h : (rescan slash).run s = .ok t s') :
    t.place = slash.place ∧ slash.place.offset ≤ s'.place.offset := by
  unfold EStateM.run rescan at h
  dsimp only at h
  split at h
  · cases h
    exact ⟨rfl, Nat.le_add_right _ _⟩
  · cases h

theorem rescan_error_place {slash : Token} {f : Failure} (h : (rescan slash).run s = .error f s') :
    f.place = slash.place := by
  unfold EStateM.run rescan at h
  dsimp only at h
  split at h
  · cases h
  · cases h
    rfl

/-- Twins read the same lexeme, unless it reaches over the line feed. -/
theorem Twin.readToken (newline : Bool) {unread : Text} (hne : unread ≠ [])
    (hsource : s.source = lines ++ '\n' :: b) (hrest : s.rest = unread ++ '\n' :: b)
    (hoffset : s.place.offset + unread.size = lines.size) :
    Shares (Twin lines b c) (Strayed lines) (readToken newline s) (readToken newline
      { s with source := lines ++ '\n' :: c, rest := unread ++ '\n' :: c }) := by
  unfold Scanner.readToken
  obtain ⟨lexeme, hle, h⟩ | ⟨lexeme, h, hcrosses⟩ := lexeme?_lineFeed hne b
  · rw [hrest, h]
    dsimp only
    rw [h]
    cases lexeme with
    | faulty => exact .error _ _ _
    | token k text =>
        have hdrop : ∀ u, (unread ++ '\n' :: u).drop text.length =
            unread.drop text.length ++ '\n' :: u := fun u => List.drop_append_of_le_length hle
        have htwin : Twin lines b c (s.skipPast text) _ :=
          .intro (unread.drop text.length) hsource (by rw [rest_skipPast, hrest, hdrop])
        refine .ok _ ?_
        simp only [skipPast, hdrop]
        exact htwin
  · rw [hrest, h]
    cases hcrosses with
    | token more =>
        refine .strayed ⟨.inr ⟨rfl, size_lt_of_crosses hoffset⟩, ?_⟩
        show _ < (s.place.past _).offset
        rw [Place.offset_past]
        exact size_lt_of_crosses hoffset
    | faulty fault more =>
        refine .strayed fun hf => Nat.not_lt_of_le hf.2 ?_
        show _ < s.place.offset + Text.size (_ ++ [])
        rw [List.append_nil]
        exact size_lt_of_crosses hoffset

theorem readToken_strayed (newline : Bool) (h : lines.size < s.place.offset) :
    Strayed lines (readToken newline s) := by
  unfold Scanner.readToken
  split
  · exact ⟨.inl h, h⟩
  · refine ⟨.inl h, ?_⟩
    show _ < (s.place.past _).offset
    rw [Place.offset_past]
    omega
  · exact Failure.not_within_of_lt h

/-- Behind a gap stands a token, or a comment that is not closed. -/
theorem next_of_cut {g : Gap} {u : Text} (hr : s.rest = g.text ++ u) (hg : g.Fits u) :
    (isSettled u → next.run s = readToken g.endsLine (s.behind g u)) ∧
    (IsUnclosed u → ∃ s',
      next.run s = .error ⟨.lexical .unterminatedComment u, s.place.past g.text⟩ s') := by
  refine ⟨fun hu => ?_, fun hu => ?_⟩
  · rw [run_next, skipGap_of_fits false hr hg hu]
    rfl
  · obtain ⟨v, hv, hnone⟩ := hu
    have hrest : (s.behind g u).rest = '/' :: '*' :: v := hv
    rw [run_next, skipGap_append false hr hg, skipGap_unclosed _ hrest hnone]
    exact ⟨_, rfl⟩

theorem isSettled_lineFeed {u : Text} (hu : u ≠ []) (h : isSettled (u ++ '\n' :: b)) (c : Text) :
    isSettled (u ++ '\n' :: c) := by
  obtain ⟨d, u, rfl⟩ := List.exists_cons_of_ne_nil hu
  have hhead : (u ++ '\n' :: c).head? = (u ++ '\n' :: b).head? := by
    cases u <;> rfl
  simpa only [List.cons_append, isSettled, hhead] using h

/-- Twins take the same step, unless the first one goes behind the common lines. -/
theorem Twin.next (h : Twin lines b c s s') (htracks : s.Tracks before) :
    Shares (Twin lines b c) (Strayed lines) (next.run s) (next.run s') := by
  obtain ⟨unread, hsource, hrest⟩ := h
  obtain ⟨-, hoffset⟩ := htracks.unread hsource hrest
  obtain ⟨g, u, hcut, hg, hu⟩ := exists_cut false s
  obtain ⟨hsettled, hunclosed⟩ := next_of_cut hcut hg
  have hne : ∀ v, u ≠ '\n' :: v := by
    rintro v rfl
    obtain hu | ⟨_, hu, -⟩ := hu
    · exact absurd hu (by simp [isSettled, isLineTerminator])
    · exact absurd (List.cons.inj hu).1 (by decide)
  obtain ⟨extra, hextra, hb⟩ | ⟨text, rfl, rfl⟩ :=
    List.append_eq_append_iff.mp (hrest.symm.trans hcut)
  · -- the gap reaches over the line feed
    cases extra with
    | nil => exact absurd hb.symm (hne b)
    | cons d more =>
        obtain ⟨rfl, -⟩ := List.cons.inj hb
        have hlt : lines.size < (s.place.past g.text).offset := by
          rw [Place.offset_past, hextra]
          exact size_lt_of_crosses hoffset
        refine .strayed ?_
        obtain hu | hu := hu
        · rw [hsettled hu]
          exact readToken_strayed _ hlt
        · obtain ⟨s₁, hnext⟩ := hunclosed hu
          rw [hnext]
          exact Failure.not_within_of_lt hlt
  · have htext : text ≠ [] := by
      rintro rfl
      exact hne b rfl
    have hplace : (s.place.past g.text).offset + Text.size text = lines.size := by
      rw [Place.offset_past, ← hoffset, Text.size_append]
      omega
    obtain hu | hu := hu
    · have hg' : g.Fits (text ++ '\n' :: c) := hg.congr (by cases text <;> rfl)
      obtain ⟨hsettled', -⟩ := next_of_cut (s := { s with
        source := lines ++ '\n' :: c, rest := g.text ++ text ++ '\n' :: c })
        (List.append_assoc _ _ _) hg'
      rw [hsettled hu, hsettled' (isSettled_lineFeed htext hu c)]
      exact Twin.readToken _ htext hsource rfl hplace
    · obtain ⟨s₁, hnext⟩ := hunclosed hu
      rw [hnext]
      exact .strayed fun hf => Nat.not_lt_of_le hf.2 (size_lt_of_crosses hplace)

/-- A slash is read again in its line, and so twins read the same. -/
theorem Twin.rescan (h : Twin lines b c s s') {slash : Token} (hread : s.JustRead slash)
    (hk : Parser.opensRegex slash.kind)
    (strayed : EStateM.Result Failure Scanner Token → Prop) :
    Shares (Twin lines b c) strayed ((rescan slash).run s) ((rescan slash).run s') := by
  obtain ⟨unread, hsource, hrest⟩ := h
  obtain ⟨before, htracks, hoffset⟩ := hread.tracks
  obtain ⟨hlines, -⟩ := htracks.unread hsource hrest
  obtain ⟨hhead, -⟩ := display_of_opensRegex hk
  rw [← hread.slash hk] at hhead
  obtain ⟨more, hmore⟩ := List.head?_eq_some_iff.mp hhead
  rw [hmore] at hlines
  have hsplit : ∀ u : Text,
      lines ++ '\n' :: u = before ++ '/' :: (more ++ unread ++ '\n' :: u) := by
    intro u
    rw [hlines]
    simp
  rw [run_rescan (hsource.trans (hsplit b)) hoffset, run_rescan (hsplit c) hoffset,
    regexLiteral?_lineFeed, regexLiteral?_lineFeed]
  cases hregex : regexLiteral? (more ++ unread) with
  | none =>
      have hline : ∀ u : Text, ('/' :: (more ++ unread ++ '\n' :: u)).takeWhile
          (!isLineTerminator ·) = ('/' :: (more ++ unread)).takeWhile (!isLineTerminator ·) :=
        fun u => takeWhile_lineFeed ('/' :: (more ++ unread)) u (by decide)
      dsimp only
      rw [hline, hline]
      exact .error _ _ _
  | some text =>
      obtain ⟨body, r, rfl, hbody⟩ := regexLiteral?_split hregex
      have hdrop : ∀ u : Text, (more ++ unread ++ '\n' :: u).drop (('/' :: body).length - 1) =
          r ++ '\n' :: u := by
        intro u
        rw [hbody, List.append_assoc]
        exact List.drop_left
      refine .ok _ ?_
      simp only [hdrop]
      exact Twin.intro (s := { s with
        rest := r ++ '\n' :: b
        place := { slash.place.along ('/' :: body) with line := s.place.line } }) r hsource rfl

end Scanner

/-! ## Streams -/

namespace TokenStream

variable {lines b c : Text} {s s' : TokenStream} {t : Token}

/-- Two streams that differ in their scanners only, and these are twins. -/
inductive Twin (lines b c : Text) : TokenStream → TokenStream → Prop
  | intro {s : TokenStream} (sc : Scanner) :
      s.scanner.Twin lines b c sc → Twin lines b c s { s with scanner := sc }

/-- A stream has handed out a token, and whatever it may hand out next ends behind the common
lines. -/
structure Astray (lines : Text) (s : TokenStream) (t : Token) : Prop where
  scanner : lines.size < s.scanner.place.offset
  requeued : ∀ u ∈ s.requeued, u.Past lines
  token : t.kind = .insertedSemicolon ∨ t.Past lines

/-- A stream has handed out a token that ends behind the common lines, or fails there. -/
def Strayed (lines : Text) : EStateM.Result Failure TokenStream Token → Prop
  | .ok t s => s.Astray lines t
  | .error f _ => ¬f.Within lines

/-- A step of the stream strays if a step of its scanner does. -/
theorem strayed_of_scanner (hq : s.requeued = none)
    (h : Scanner.Strayed lines (Scanner.next.run s.scanner)) : Strayed lines (next.run s) := by
  cases hscan : Scanner.next.run s.scanner with
  | error f sc =>
      rw [hscan] at h
      rw [run_next_error hq hscan]
      exact h
  | ok t sc =>
      rw [hscan] at h
      obtain ⟨ht, hsc⟩ := h
      rw [run_next_scan hq hscan]
      refine ⟨hsc, fun u hu => ?_, ?_⟩
      · unfold kept at hu
        split at hu
        · cases hu
          exact ht
        · cases hu
      · unfold delivered
        split
        · exact .inl rfl
        · exact .inr ht

theorem Astray.next (h : s.Astray lines t) : Strayed lines (next.run s) := by
  cases hq : s.requeued with
  | some u =>
      rw [run_next_requeued hq]
      exact ⟨h.scanner, fun _ => nofun, .inr (h.requeued u hq)⟩
  | none => exact strayed_of_scanner hq (Scanner.next_strayed h.scanner)

theorem Twin.next (h : Twin lines b c s s') (hs : s.Steady) :
    Shares (Twin lines b c) (Strayed lines) (next.run s) (next.run s') := by
  obtain ⟨sc, hsc⟩ := h
  obtain hq | ⟨u, hq⟩ := Option.eq_none_or_eq_some s.requeued
  · have hq' : ({ s with scanner := sc } : TokenStream).requeued = none := hq
    obtain ⟨before, htracks⟩ := hs.tracks
    have hshares := hsc.next htracks
    have hstrayed : Scanner.Strayed lines (Scanner.next.run s.scanner) →
        Strayed lines (next.run s) := strayed_of_scanner hq
    generalize hscan : Scanner.next.run s.scanner = r at hshares hstrayed
    generalize hscan' : Scanner.next.run sc = r' at hshares
    cases hshares with
    | ok t hsc₁ =>
        rw [run_next_scan hq hscan, run_next_scan hq' hscan']
        exact .ok _ (.intro _ hsc₁)
    | error f =>
        rw [run_next_error hq hscan, run_next_error hq' hscan']
        exact .error f _ _
    | strayed hr => exact .strayed (hstrayed hr)
  · have hq' : ({ s with scanner := sc } : TokenStream).requeued = some u := hq
    rw [run_next_requeued hq, run_next_requeued hq']
    exact .ok _ (.intro sc hsc)

end TokenStream

/-! ## Parsers -/

namespace Parser

variable {lines b c : Text} {s s' : ParserState} {α β : Type}

/-- Two parsers that differ in their scanners only, and these are twins. -/
inductive Twin (lines b c : Text) : ParserState → ParserState → Prop
  | intro {s : ParserState} (sc : Scanner) :
      Held s → s.stream.scanner.Twin lines b c sc →
      Twin lines b c s { s with stream.scanner := sc }

/-- Whatever token is or will be at hand ends behind the common lines. -/
def Astray (lines : Text) (s : ParserState) : Prop := s.stream.Astray lines s.current

/-- A parser goes astray, or fails behind the common lines. -/
def Strayed (lines : Text) : EStateM.Result Failure ParserState α → Prop
  | .ok _ s => Astray lines s
  | .error f _ => ¬f.Within lines

/-! ### Parsers that have gone astray -/

theorem Strayed.bind {p : Parser α} {f : α → Parser β} (hp : Strayed lines (p.run s))
    (hf : ∀ a s₁, Astray lines s₁ → Strayed lines ((f a).run s₁)) :
    Strayed lines ((p >>= f).run s) := by
  rw [EStateM.run_bind]
  cases hrun : p.run s with
  | ok a s₁ =>
      rw [hrun] at hp
      exact hf a s₁ hp
  | error f s₁ =>
      rw [hrun] at hp
      exact hp

theorem Astray.take (h : Astray lines s) : Strayed lines (take.run s) := by
  have hnext := TokenStream.Astray.next h
  rw [run_take]
  generalize TokenStream.next.run s.stream = r at hnext
  cases r <;> exact hnext

theorem Astray.unexpected (h : Astray lines s) :
    Strayed lines ((unexpected : Parser α).run s) := by
  obtain hk | hpast := h.token
  · intro hf
    have hblames : isReal s.current.kind := hf.1
    rw [hk] at hblames
    cases hblames
  · exact hpast.not_within

theorem Astray.atSemicolon (h : Astray lines s) : Astray lines (atSemicolon s) := by
  unfold Parser.atSemicolon
  split
  · exact ⟨h.scanner, h.requeued, h.token⟩
  · split
    · exact h
    · next hk =>
        refine ⟨h.scanner, fun u hu => ?_, .inl rfl⟩
        cases hu
        exact h.token.resolve_left hk

theorem Astray.endStatement (h : Astray lines s) : Strayed lines (endStatement.run s) := by
  have htake := h.atSemicolon.take
  rw [run_endStatement]
  split
  · generalize Parser.take.run (Parser.atSemicolon s) = r at htake
    cases r <;> exact htake
  · exact h.unexpected (α := Unit)

/-- A slash that is not in the common lines is not read again there, either. -/
theorem Astray.regex (h : Astray lines s) (hk : opensRegex s.current.kind) :
    Strayed lines ((regex s.current).run s) := by
  have hslash : lines.size < s.current.place.offset := by
    obtain hk' | hlt | ⟨hk', -⟩ := h.token
    · rw [hk'] at hk
      cases hk
    · exact hlt
    · rw [hk'] at hk
      cases hk
  rw [run_regex]
  cases hscan : (Scanner.rescan s.current).run s.stream.scanner with
  | ok literal sc =>
      obtain ⟨hplace, hlt⟩ := Scanner.rescan_offset_le hscan
      have hliteral : Astray lines (atLiteral s literal sc) :=
        ⟨Nat.lt_of_lt_of_le hslash hlt, h.requeued, .inr (.inl (hplace ▸ hslash))⟩
      exact hliteral.take.bind fun _ _ hs₁ => hs₁
  | error f sc =>
      exact Failure.not_within_of_lt (Scanner.rescan_error_place hscan ▸ hslash)

/-- A parser that has gone astray stays so if the rules inside it do. -/
theorem Lockstep.strays {inner inner' : Inner} {credit : Nat} {known : Option Token}
    {p p' : Parser α} (h : Lockstep inner inner' credit known p p')
    (hinner : ∀ (r : Rule) (s : ParserState), Astray lines s → Strayed lines ((inner r).run s))
    (hs : Astray lines s) (hknown : ∀ t ∈ known, s.current = t) : Strayed lines (p.run s) := by
  induction h generalizing s with
  | pure a => exact hs
  | bind _ _ ihp ihf => exact (ihp hs hknown).bind fun a s₁ hs₁ => ihf a hs₁ (fun _ => nofun)
  | unexpected => exact hs.unexpected
  | look _ ih => exact ih s.current s.lastEnd hs fun t ht => Option.some.inj ht
  | take _ _ ih =>
      obtain rfl := hknown _ rfl
      rw [run_take_bind]
      exact hs.take.bind fun _ s₁ hs₁ => ih hs₁ (fun _ => nofun)
  | regex hk =>
      obtain rfl := hknown _ rfl
      exact hs.regex hk
  | badNumber hk =>
      obtain rfl := hknown _ rfl
      obtain hk' | hlt | ⟨hk', -⟩ := hs.token
      · rw [hk'] at hk
        cases hk
      · exact Failure.not_within_of_lt hlt
      · rw [hk'] at hk
        cases hk
  | endStatement => exact hs.endStatement
  | pendingComments =>
      rw [run_pendingComments]
      exact ⟨hs.scanner, hs.requeued, hs.token⟩
  | inner r => exact hinner r s hs

theorem Strayed.deepen {p : Parser α} (h : Strayed lines (p.run (atDepth s (s.depth + 1)))) :
    Strayed lines ((deepen p).run s) := by
  rw [run_deepen]
  generalize p.run (atDepth s (s.depth + 1)) = r at h
  cases r <;> exact h

theorem rule_strays (turns room : Nat) (r : Rule) (hs : Astray lines s) :
    Strayed lines ((rule turns room r).run s) := by
  induction room generalizing r s with
  | zero => exact fun hf => by cases hf.1
  | succ room ih =>
      have hbody : Lockstep (rule turns room) (rule turns room) (r.weight - 1) none
          (ruleBody (rule turns room) turns r) (ruleBody (rule turns room) turns r) :=
        lockstep_ruleBody r
      exact (hbody.strays (s := atDepth s (s.depth + 1))
        (fun r s hs => ih r hs) hs (fun _ => nofun)).deepen

theorem elements_strays (turns room : Nat) (stops : List TokenKind) (fuel : Nat)
    (hs : Astray lines s) : Strayed lines ((elements (rule turns room) stops fuel).run s) := by
  have helements : Lockstep (rule turns room) (rule turns room) fullCredit none
      (elements (rule turns room) stops fuel) (elements (rule turns room) stops fuel) :=
    lockstep_elements (Nat.le_refl _) stops fuel
  exact helements.strays (fun r s => rule_strays turns room r) hs (fun _ => nofun)

/-! ### Twins -/

theorem Twin.current_eq (h : Twin lines b c s s') : s'.current = s.current := by
  obtain ⟨sc, -, -⟩ := h
  rfl

theorem Twin.lastEnd_eq (h : Twin lines b c s s') : s'.lastEnd = s.lastEnd := by
  obtain ⟨sc, -, -⟩ := h
  rfl

theorem Twin.depth_eq (h : Twin lines b c s s') : s'.depth = s.depth := by
  obtain ⟨sc, -, -⟩ := h
  rfl

theorem Twin.atDepth (h : Twin lines b c s s') (n : Nat) :
    Twin lines b c (atDepth s n) (atDepth s' n) := by
  obtain ⟨sc, hs, hsc⟩ := h
  exact .intro (s := Parser.atDepth s n) sc hs hsc

/-- Twins take the token at hand, even if it is the one before the beginning. -/
theorem take_shares {sc : Scanner} (hs : s.stream.Steady)
    (hsc : s.stream.scanner.Twin lines b c sc) :
    Shares (Twin lines b c) (Strayed lines) (take.run s)
      (take.run { s with stream.scanner := sc }) := by
  have hshares := (TokenStream.Twin.intro sc hsc).next hs
  have hheld : ∀ {t : Token} {stream : TokenStream},
      TokenStream.next.run s.stream = .ok t stream → stream.HandedOut t :=
    fun hnext => (hs.next_ok hnext).1
  rw [run_take, run_take]
  generalize TokenStream.next.run s.stream = r at hshares hheld
  generalize TokenStream.next.run { s.stream with scanner := sc } = r' at hshares
  cases hshares with
  | ok t htwin =>
      obtain ⟨sc₁, hsc₁⟩ := htwin
      exact .ok _ (Twin.intro (s := advance s t _) sc₁ (hheld rfl) hsc₁)
  | error f => exact .error f _ _
  | strayed hr =>
      refine .strayed ?_
      cases r <;> exact hr

theorem Twin.take (h : Twin lines b c s s') :
    Shares (Twin lines b c) (Strayed lines) (take.run s) (take.run s') := by
  obtain ⟨sc, hs, hsc⟩ := h
  exact take_shares hs.steady hsc

theorem Shares.bind {p p' : Parser α} {f f' : α → Parser β}
    (hp : Shares (Twin lines b c) (Strayed lines) (p.run s) (p'.run s'))
    (hf : ∀ a s₁ s₁', Twin lines b c s₁ s₁' →
      Shares (Twin lines b c) (Strayed lines) ((f a).run s₁) ((f' a).run s₁'))
    (hstrays : ∀ a s₁, Astray lines s₁ → Strayed lines ((f a).run s₁)) :
    Shares (Twin lines b c) (Strayed lines) ((p >>= f).run s) ((p' >>= f').run s') := by
  have hstrayed : Strayed lines (p.run s) → Strayed lines ((p >>= f).run s) :=
    fun hp => hp.bind hstrays
  rw [EStateM.run_bind, EStateM.run_bind] at *
  generalize p.run s = r at *
  generalize p'.run s' = r' at *
  cases hp with
  | ok a htwin => exact hf a _ _ htwin
  | error f => exact .error f _ _
  | strayed hr => exact .strayed (hstrayed hr)

theorem Twin.atSemicolon (h : Twin lines b c s s') :
    Twin lines b c (atSemicolon s) (atSemicolon s') := by
  obtain ⟨sc, hs, hsc⟩ := h
  have hheld := hs.atSemicolon.1
  unfold Parser.atSemicolon at *
  dsimp only
  split
  · next hk =>
      rw [if_pos hk] at hheld
      exact .intro sc hheld hsc
  · next hk =>
      rw [if_neg hk] at hheld
      split
      · next hk' =>
          rw [if_pos hk'] at hheld
          exact .intro sc hheld hsc
      · next hk' =>
          rw [if_neg hk'] at hheld
          exact .intro sc hheld hsc

theorem Twin.endStatement (h : Twin lines b c s s') :
    Shares (Twin lines b c) (Strayed lines) (endStatement.run s) (endStatement.run s') := by
  have htake := h.atSemicolon.take
  rw [run_endStatement, run_endStatement, h.current_eq]
  split
  · generalize Parser.take.run (Parser.atSemicolon s) = r at *
    generalize Parser.take.run (Parser.atSemicolon s') = r' at *
    cases htake with
    | ok a htwin => exact .ok () htwin
    | error f => exact .error f _ _
    | strayed hr =>
        refine .strayed ?_
        cases r <;> exact hr
  · exact .error _ _ _

theorem Twin.regex (h : Twin lines b c s s') (hk : opensRegex s.current.kind) :
    Shares (Twin lines b c) (Strayed lines) ((regex s.current).run s)
      ((regex s.current).run s') := by
  obtain ⟨sc, hs, hsc⟩ := h
  have hliteral : ∀ {literal : Token} {sc₁ : Scanner},
      (Scanner.rescan s.current).run s.stream.scanner = .ok literal sc₁ →
      Held (atLiteral s literal sc₁) := fun hscan => (hs.atLiteral hk hscan).1
  have hreal : s.current.kind ≠ .insertedSemicolon := by
    rintro hk'
    rw [hk'] at hk
    cases hk
  have hshares := hsc.rescan (hs.justRead hreal).2 hk fun _ => False
  have hrun' := run_regex { s with stream.scanner := sc }
  dsimp only at hrun'
  rw [run_regex, hrun']
  generalize (Scanner.rescan s.current).run s.stream.scanner = r at hshares hliteral
  generalize (Scanner.rescan s.current).run sc = r' at hshares
  cases hshares with
  | ok literal htwin =>
      refine Shares.bind (Twin.intro (s := atLiteral s literal _) _ (hliteral rfl) htwin).take
        (fun _ _ _ hs₁ => .ok _ hs₁) fun _ _ hs₁ => hs₁
  | error f => exact .error f _ _
  | strayed hr => exact hr.elim

/-- Parsers in lockstep keep twins together, or the first one strays, if the rules inside them
do. -/
theorem Lockstep.shares {inner inner' : Inner} {credit : Nat} {known : Option Token}
    {p p' : Parser α} (h : Lockstep inner inner' credit known p p')
    (hinner : ∀ (r : Rule) (s s' : ParserState), Twin lines b c s s' →
      Shares (Twin lines b c) (Strayed lines) ((inner r).run s) ((inner' r).run s'))
    (hstrays : ∀ (r : Rule) (s : ParserState), Astray lines s → Strayed lines ((inner r).run s))
    (hs : Twin lines b c s s') (hknown : ∀ t ∈ known, s.current = t) :
    Shares (Twin lines b c) (Strayed lines) (p.run s) (p'.run s') := by
  induction h generalizing s s' with
  | pure a => exact .ok a hs
  | bind _ hf ihp ihf =>
      exact Shares.bind (ihp hs hknown)
        (fun a s₁ s₁' hs₁ => ihf a hs₁ (fun _ => nofun)) fun a s₁ hs₁ =>
        (hf a).strays hstrays hs₁ (fun _ => nofun)
  | unexpected =>
      rw [run_unexpected, run_unexpected, hs.current_eq]
      exact .error _ _ _
  | look _ ih =>
      have hshares := ih s.current s.lastEnd hs fun t ht => Option.some.inj ht
      rw [EStateM.run_bind, EStateM.run_bind, EStateM.run_get, EStateM.run_get]
      dsimp only
      rw [hs.current_eq, hs.lastEnd_eq]
      exact hshares
  | take _ hf ih =>
      obtain rfl := hknown _ rfl
      rw [run_take_bind, run_take_bind _ s', hs.current_eq]
      exact Shares.bind hs.take (fun _ s₁ s₁' hs₁ => ih hs₁ (fun _ => nofun)) fun _ s₁ hs₁ =>
        hf.strays hstrays hs₁ (fun _ => nofun)
  | regex hk =>
      obtain rfl := hknown _ rfl
      exact hs.regex hk
  | badNumber => exact .error _ _ _
  | endStatement => exact hs.endStatement
  | pendingComments =>
      obtain ⟨sc, hheld, hsc⟩ := hs
      have hleaves := pendingComments_leaves hheld
      rw [run_pendingComments] at hleaves ⊢
      rw [run_pendingComments]
      obtain ⟨unread, hsource, hrest⟩ := hsc
      cases hleaves with
      | ok hheld => exact .ok _ (.intro _ hheld (.intro unread hsource hrest))
  | inner r => exact hinner r s s' hs

theorem Shares.deepen {p p' : Parser α}
    (h : Shares (Twin lines b c) (Strayed lines) (p.run (atDepth s (s.depth + 1)))
      (p'.run (atDepth s' (s'.depth + 1)))) :
    Shares (Twin lines b c) (Strayed lines) ((Parser.deepen p).run s)
      ((Parser.deepen p').run s') := by
  rw [run_deepen, run_deepen]
  generalize p.run (atDepth s (s.depth + 1)) = r at h
  generalize p'.run (atDepth s' (s'.depth + 1)) = r' at h
  cases h with
  | ok a htwin =>
      dsimp only
      rw [htwin.depth_eq]
      exact .ok a (htwin.atDepth _)
  | error f => exact .error f _ _
  | strayed hr =>
      refine .strayed ?_
      cases r <;> exact hr

theorem rule_shares (turns room : Nat) (r : Rule) (hs : Twin lines b c s s') :
    Shares (Twin lines b c) (Strayed lines) ((rule turns room r).run s)
      ((rule turns room r).run s') := by
  induction room generalizing r s s' with
  | zero =>
      rw [rule, run_tooDeep, run_tooDeep, hs.depth_eq, hs.current_eq]
      exact .error _ _ _
  | succ room ih =>
      have hbody : Lockstep (rule turns room) (rule turns room) (r.weight - 1) none
          (ruleBody (rule turns room) turns r) (ruleBody (rule turns room) turns r) :=
        lockstep_ruleBody r
      refine Shares.deepen ?_
      rw [hs.depth_eq]
      exact hbody.shares (fun r s s' hs => ih r hs) (fun r s => rule_strays turns room r)
        (hs.atDepth _) (fun _ => nofun)

theorem elements_shares (turns room : Nat) (stops : List TokenKind) (hs : Twin lines b c s s') :
    Shares (Twin lines b c) (Strayed lines) ((elements (rule turns room) stops turns).run s)
      ((elements (rule turns room) stops turns).run s') := by
  have helements : Lockstep (rule turns room) (rule turns room) fullCredit none
      (elements (rule turns room) stops turns) (elements (rule turns room) stops turns) :=
    lockstep_elements (Nat.le_refl _) stops turns
  exact helements.shares (fun r s s' => rule_shares turns room r)
    (fun r s => rule_strays turns room r) hs (fun _ => nofun)

/-! ### Runs -/

/-- A failure within the common lines is the failure of each run that begins with them. -/
theorem run_error_of_within {limit : Nat} {f : Failure}
    (h : EcmaSyntax.run limit (lines ++ '\n' :: b) = .error f s) (hf : f.Within lines) :
    ∃ s', EcmaSyntax.run limit (lines ++ '\n' :: c) = .error f s' := by
  have htake : Shares (Twin lines b c) (Strayed lines)
      (take.run (ParserState.ofText (lines ++ '\n' :: b)))
      (take.run (ParserState.ofText (lines ++ '\n' :: c))) :=
    take_shares (TokenStream.steady_ofText _) (.intro lines rfl rfl)
  -- with as many turns in both runs, their parsers are the same
  let turns := (lines ++ '\n' :: b).length + (lines ++ '\n' :: c).length + 1
  have hturns : ∀ {t : Token} {s : ParserState},
      take.run (ParserState.ofText (lines ++ '\n' :: b)) = .ok t s →
      (programElements limit (lines ++ '\n' :: b)).run s =
        (elements (rule turns limit) [.endOfInput] turns).run s :=
    fun htake => run_programElements_turns limit htake (by omega)
  have hturns' : ∀ {t : Token} {s : ParserState},
      take.run (ParserState.ofText (lines ++ '\n' :: c)) = .ok t s →
      (programElements limit (lines ++ '\n' :: c)).run s =
        (elements (rule turns limit) [.endOfInput] turns).run s :=
    fun htake => run_programElements_turns limit htake (by omega)
  rw [run_eq] at h ⊢
  generalize take.run (ParserState.ofText (lines ++ '\n' :: b)) = r at h htake hturns
  generalize take.run (ParserState.ofText (lines ++ '\n' :: c)) = r' at htake hturns' ⊢
  cases htake with
  | error f' =>
      cases h
      exact ⟨_, rfl⟩
  | strayed hr =>
      cases r with
      | error f' =>
          cases h
          exact absurd hf hr
      | ok t s₁ =>
          have helements : Strayed lines ((programElements limit (lines ++ '\n' :: b)).run s₁) :=
            elements_strays _ limit _ _ hr
          dsimp only at h
          generalize (programElements limit (lines ++ '\n' :: b)).run s₁ = r at h helements
          cases r with
          | ok => cases h
          | error f' =>
              cases h
              exact absurd hf helements
  | @ok t s₁ s₁' htwin =>
      dsimp only at h ⊢
      rw [hturns rfl] at h
      rw [hturns' rfl]
      have helements := elements_shares turns limit [.endOfInput] htwin
      generalize (elements (rule turns limit) [.endOfInput] turns).run s₁ = r at h helements
      generalize (elements (rule turns limit) [.endOfInput] turns).run s₁' = r' at helements ⊢
      cases helements with
      | ok body => cases h
      | error f' =>
          cases h
          exact ⟨_, rfl⟩
      | strayed hr =>
          cases r with
          | ok => cases h
          | error f' =>
              cases h
              exact absurd hf hr

end Parser

/-- A failure does not depend on what comes after it.  If a text with a line feed and more behind it
is no program because of a piece of it that is no token, or because of a token that no rule allows,
and this piece or token ends within the text, then the answer is the same whatever comes behind the
line feed. -/
theorem failure_settled {limit : Nat} {lines b : Text} {f : Failure}
    (h : parse limit (lines ++ '\n' :: b) = .error f) (hf : f.Within lines) (c : Text) :
    parse limit (lines ++ '\n' :: c) = .error f := by
  obtain ⟨s, hrun⟩ := parse_eq_error_iff.mp h
  exact parse_eq_error_iff.mpr (Parser.run_error_of_within hrun hf)

/-- The semicolon is refused, be it in front of a string that is not closed or of a comment that is
not closed. -/
theorem failure_settled_point : ∃ f, parse 256 "a.;\n'b".toList = .error f ∧
    f.Within "a.;".toList ∧ parse 256 "a.;\n/*".toList = .error f := by
  have hfailure : (failure? (parse 256 "a.;\n'b".toList)).map (fun f => (f.cause, f.place.offset)) =
      some (.unexpected .semicolon [';'], 2) := by decide +kernel
  obtain ⟨f, h, hf⟩ := exists_failure hfailure
  obtain ⟨hcause, hoffset⟩ := Prod.mk.inj hf
  have hwithin : f.Within "a.;".toList := by
    refine ⟨?_, ?_⟩
    · rw [Failure.blamesSource, hcause]
      rfl
    · rw [Failure.text, hcause, hoffset]
      decide
  have hlines : "a.;\n'b".toList = "a.;".toList ++ '\n' :: "'b".toList := rfl
  have hsettled := failure_settled (hlines ▸ h) hwithin "/*".toList
  exact ⟨f, h, hwithin, hsettled⟩

end EcmaSyntax
