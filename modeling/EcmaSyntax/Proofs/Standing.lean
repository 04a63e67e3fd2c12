import EcmaSyntax.Proofs.Lockstep
import EcmaSyntax.Proofs.Positions

/-!
# What a parser stands on

**Tokens.**  A token was just read if the scanner stands right behind it.  A stream is steady if
the token that waits in it was just read, and it has handed out a token if this one was just read,
or is a semicolon in front of one that waits and was just read.  Lines and columns play no part in
this, so that it stays true when a run fails.

**Leftovers.**  What is left of a stream is two for each character and one for a token that waits.
Each token that is taken makes it less, unless it is the end of the input.

**Results.**
* `TokenStream.Steady.next`: a steady stream stays steady and hands out a token, or less is left.
* `Parser.Lockstep.leaves`: parsers start and end with the token at hand handed out last.  They keep
  the number of open rules, and leave no more than there was, whether they fail or not.
-/

namespace EcmaSyntax

/-! ## Scanners -/

namespace Scanner

variable {s s' : Scanner} {t : Token} {before : Text}

theorem hasManyTexts_of_opensRegex {k : TokenKind} (hk : Parser.opensRegex k) :
    hasManyTexts k = false := by
  cases k <;> first | rfl | cases hk

theorem display_of_opensRegex {k : TokenKind} (hk : Parser.opensRegex k) :
    k.display.head? = some '/' ∧ k.display.length ≤ 2 := by
  cases k <;> first | exact ⟨rfl, by decide⟩ | cases hk

/-- The scanner stands right behind a token. -/
structure JustRead (s : Scanner) (t : Token) : Prop where
  tracks : ∃ before, s.Tracks (before ++ t.text) ∧ t.place.offset = before.size
  real : t.kind ≠ .insertedSemicolon
  slash : Parser.opensRegex t.kind → t.text = t.kind.display
  ended : t.kind = .endOfInput → s.rest = []

/-- Whether its comments were claimed or not does not matter. -/
theorem JustRead.claimed (h : s.JustRead t) : JustRead { s with comments := [] } t := by
  obtain ⟨⟨before, htracks, hoffset⟩, hreal, hslash, hended⟩ := h
  exact ⟨⟨before, ⟨htracks.source, htracks.offset⟩, hoffset⟩, hreal, hslash, hended⟩

theorem Tracks.justRead {p : Site} (h : s.Tracks before) (hp : p.Valid) (hs : s.rest = p.all) :
    (s.behindSite p).JustRead (p.toToken (s.place.past p.gap.text)) := by
  refine ⟨⟨before ++ p.gap.text, ?_, ?_⟩, hp.kindHere_ne, fun hk => ?_, fun hk => (hp.rest_nil hk).2⟩
  · rw [List.append_assoc]
    exact h.behindSite hs
  · show (s.place.past p.gap.text).offset = _
    rw [Place.offset_past, h.offset, Text.size_append]
  · refine hp.text_eq ?_ (hasManyTexts_of_opensRegex hk)
    rintro hend
    rw [Site.toToken, hend] at hk
    cases hk

/-- A token was read, and there is less left behind it unless nothing was left. -/
theorem Tracks.next_ok (h : s.Tracks before) (hnext : next.run s = .ok t s') :
    s'.JustRead t ∧ (s.rest ≠ [] → s'.rest.length < s.rest.length) ∧
      (s.rest = [] → t.kind = .endOfInput ∧ t.newlineBefore = false ∧ s'.rest = [] ∧
        s'.comments = s.comments) := by
  obtain ⟨p, hp, hall⟩ := exists_site hnext
  rw [next_of_valid hp hall.symm] at hnext
  injection hnext with ht hs'
  subst ht hs'
  refine ⟨h.justRead hp hall.symm, fun hne => ?_, fun hnil => ?_⟩
  · have hlength := congrArg List.length hall
    simp only [Site.all, List.length_append] at hlength
    rw [rest_behindSite]
    by_cases hend : p.kindHere = .endOfInput
    · rw [(hp.rest_nil hend).2]
      exact List.length_pos_iff.mpr hne
    · have := List.length_pos_iff.mpr (hp.text_ne_nil hend)
      omega
  · rw [hnil, Site.all] at hall
    obtain ⟨hgap, htext⟩ := List.append_eq_nil_iff.mp hall
    obtain ⟨htext, hrest⟩ := List.append_eq_nil_iff.mp htext
    have hend : p.kindHere = .endOfInput :=
      Classical.byContradiction fun hend => hp.text_ne_nil hend htext
    rw [comments_behindSite, Gap.text_eq_nil_iff.mp hgap]
    refine ⟨hend, ?_, hrest, rfl⟩
    show p.gap.endsLine = false
    rw [Gap.text_eq_nil_iff.mp hgap]
    rfl

/-- A failure to read a token leaves less, too. -/
theorem Tracks.next_error {f : Failure} (h : s.Tracks before) (hnext : next.run s = .error f s') :
    (∃ before', s'.Tracks before') ∧ s'.rest.length < s.rest.length := by
  obtain ⟨p, hp, hs⟩ | ⟨p, hp, hs⟩ := s.next_cases
  · rw [next_of_valid hp hs] at hnext
    cases hnext
  · rw [next_of_fault hp hs] at hnext
    injection hnext with _ hs'
    subst hs'
    refine ⟨⟨_, h.behindFault hs⟩, ?_⟩
    have := List.length_pos_iff.mpr hp.fault.read_ne_nil
    rw [hs]
    simp only [rest_behindFault, FaultSite.all, List.length_append]
    omega

/-- A slash was just read, and is read again. -/
theorem JustRead.rescan_ok {slash : Token} (h : s.JustRead slash)
    (hk : Parser.opensRegex slash.kind) (hrescan : (rescan slash).run s = .ok t s') :
    s'.JustRead t ∧ s'.rest.length ≤ s.rest.length := by
  obtain ⟨before, htracks, hoffset⟩ := h.tracks
  obtain ⟨hhead, hle⟩ := display_of_opensRegex hk
  rw [← h.slash hk] at hhead hle
  obtain ⟨body, r, s'', htext, hbody, hrun, htracks', rfl, -⟩ | ⟨_, _, _, _, hrun⟩ :=
    rescan_cases slash htracks hhead hoffset
  · rw [hrun] at hrescan
    injection hrescan with ht hs'
    subst ht hs'
    refine ⟨⟨⟨before, htracks', hoffset⟩, nofun, nofun, nofun⟩, ?_⟩
    have hlength := congrArg List.length htext
    simp only [List.length_append, List.length_cons] at hlength
    omega
  · rw [hrun] at hrescan
    cases hrescan

/-- Nothing changes if it cannot be read again. -/
theorem rescan_error {slash : Token} {f : Failure} (h : (rescan slash).run s = .error f s') :
    s' = s := by
  unfold EStateM.run rescan at h
  dsimp only at h
  split at h
  · cases h
  · injection h with _ hs
    exact hs.symm

end Scanner

/-! ## Streams -/

namespace TokenStream

variable {s s' : TokenStream} {t : Token}

/-- Twice the characters left, and one more if a token waits. -/
def left (s : TokenStream) : Nat := 2 * s.scanner.rest.length + if s.requeued.isSome then 1 else 0

/-- The scanner stands behind a part of the source, and right behind the token that waits. -/
structure Steady (s : TokenStream) : Prop where
  tracks : ∃ before, s.scanner.Tracks before
  requeued : ∀ t ∈ s.requeued, s.scanner.JustRead t

/-- A token was handed out last: it was just read, or it is a semicolon before a token that was. -/
def HandedOut (s : TokenStream) (t : Token) : Prop :=
  s.requeued = none ∧ s.scanner.JustRead t ∨
    ∃ u, t = u.semicolonBefore ∧ s.requeued = some u ∧ s.scanner.JustRead u

theorem steady_ofText (source : Text) : (ofText source).Steady :=
  ⟨⟨[], Scanner.tracks_ofText source⟩, fun _ => nofun⟩

theorem HandedOut.steady (h : s.HandedOut t) : s.Steady := by
  obtain ⟨hq, hread⟩ | ⟨u, -, hq, hread⟩ := h
  · obtain ⟨before, htracks, -⟩ := hread.tracks
    refine ⟨⟨_, htracks⟩, fun u hu => ?_⟩
    rw [hq] at hu
    cases hu
  · obtain ⟨before, htracks, -⟩ := hread.tracks
    refine ⟨⟨_, htracks⟩, fun v hv => ?_⟩
    rw [hq] at hv
    cases hv
    exact hread

/-- A stream hands out a token, and less is left unless nothing was left. -/
theorem Steady.next_ok (h : s.Steady) (hnext : next.run s = .ok t s') : s'.HandedOut t ∧
    (s.left ≠ 0 → s'.left < s.left) ∧ (s.left = 0 →
      t.kind = .endOfInput ∧ s'.left = 0 ∧ s'.scanner.comments = s.scanner.comments) := by
  obtain ⟨hq, rfl⟩ | ⟨hq, u, sc, hscan, rfl, rfl⟩ := run_next_ok hnext
  · refine ⟨.inl ⟨rfl, h.requeued t hq⟩, ?_, ?_⟩
    · simp [left, hq]
    · simp [left, hq]
  · obtain ⟨before, htracks⟩ := h.tracks
    obtain ⟨hread, hless, hnil⟩ := htracks.next_ok hscan
    refine ⟨?_, fun hne => ?_, fun h₀ => ?_⟩
    · unfold HandedOut delivered kept
      split
      · exact .inr ⟨u, rfl, rfl, hread⟩
      · exact .inl ⟨rfl, hread⟩
    · have hrest : s.scanner.rest ≠ [] := by
        rintro hrest
        simp [left, hq, hrest] at hne
      have := hless hrest
      simp only [left, hq]
      split <;> simp <;> omega
    · have hrest : s.scanner.rest = [] := by
        rw [← List.length_eq_zero_iff]
        simp only [left, hq] at h₀
        omega
      obtain ⟨hend, hnewline, hrest', hcomments⟩ := hnil hrest
      have hnone : (s.afterRestrictedKeyword && u.newlineBefore) = false := by
        rw [hnewline, Bool.and_false]
      rw [delivered, kept, hnone]
      exact ⟨hend, by simp [left, hrest'], hcomments⟩

/-- Less is left after a failure, too. -/
theorem Steady.next_error {f : Failure} (h : s.Steady) (hnext : next.run s = .error f s') :
    s'.Steady ∧ s'.left < s.left := by
  obtain ⟨before, htracks⟩ := h.tracks
  obtain ⟨hq, sc, hscan, rfl⟩ := run_next_failed hnext
  obtain ⟨htracks', hless⟩ := htracks.next_error hscan
  refine ⟨⟨htracks', ?_⟩, ?_⟩
  · rw [hq]
    nofun
  · simp only [left, hq]
    omega

end TokenStream

/-! ## Parsers -/

namespace Parser

variable {α β : Type} {s s' : ParserState}

/-- The token at hand was handed out last. -/
def Held (s : ParserState) : Prop := s.stream.HandedOut s.current

/-- How a parser leaves a state: with a token at hand that was handed out last unless it fails, with
as many rules open, and with no more left. -/
inductive Leaves (s : ParserState) : EStateM.Result Failure ParserState α → Prop
  | ok {a : α} {s' : ParserState} : Held s' → s'.depth = s.depth →
      s'.stream.left ≤ s.stream.left → Leaves s (.ok a s')
  | error {f : Failure} {s' : ParserState} : s'.stream.Steady → s'.depth = s.depth →
      s'.stream.left ≤ s.stream.left → Leaves s (.error f s')

theorem Leaves.trans {r : EStateM.Result Failure ParserState α} (h : Leaves s' r)
    (hd : s'.depth = s.depth) (hle : s'.stream.left ≤ s.stream.left) : Leaves s r := by
  cases h with
  | ok hs hd' hle' => exact .ok hs (hd'.trans hd) (Nat.le_trans hle' hle)
  | error hs hd' hle' => exact .error hs (hd'.trans hd) (Nat.le_trans hle' hle)

theorem Leaves.bind {p : Parser α} {f : α → Parser β} (hp : Leaves s (p.run s))
    (hf : ∀ a s', Held s' → Leaves s' ((f a).run s')) : Leaves s ((p >>= f).run s) := by
  rw [EStateM.run_bind]
  cases hrun : p.run s with
  | ok a s' =>
      rw [hrun] at hp
      cases hp with
      | ok hs hd hle => exact (hf a s' hs).trans hd hle
  | error f s' =>
      rw [hrun] at hp
      cases hp with
      | error hs hd hle => exact .error hs hd hle

/-- Whoever takes a token takes something off the stream, unless nothing was left. -/
theorem left_advance (h : s.stream.Steady) {t : Token} {stream : TokenStream}
    (hnext : TokenStream.next.run s.stream = .ok t stream) : stream.left ≤ s.stream.left := by
  obtain ⟨-, hless, hnil⟩ := h.next_ok hnext
  by_cases h₀ : s.stream.left = 0
  · exact (hnil h₀).2.1 ▸ Nat.zero_le _
  · exact Nat.le_of_lt (hless h₀)

theorem take_leaves (h : s.stream.Steady) : Leaves s (take.run s) := by
  rw [run_take]
  cases hnext : TokenStream.next.run s.stream with
  | ok t stream => exact .ok (h.next_ok hnext).1 rfl (left_advance h hnext)
  | error f stream =>
      obtain ⟨hsteady, hless⟩ := h.next_error hnext
      exact .error hsteady rfl (Nat.le_of_lt hless)

/-- A semicolon that ends a statement is at hand, or it is inserted and taken at once. -/
theorem atSemicolon_leaves (h : Held s) : Leaves s (take.run (atSemicolon s)) := by
  unfold atSemicolon
  split
  · have htake : Leaves _ (take.run
        { s with stream.journal := .ended s.current :: s.stream.journal }) :=
      take_leaves ⟨h.steady.tracks, h.steady.requeued⟩
    exact htake.trans rfl (Nat.le_refl _)
  · split
    · exact take_leaves h.steady
    · next hk =>
        obtain ⟨hq, hread⟩ | ⟨u, hu, -⟩ := h
        · rw [run_take, TokenStream.run_next_requeued rfl]
          refine .ok (.inl ⟨rfl, hread⟩) rfl ?_
          simp [advance, TokenStream.left, hq]
        · rw [hu] at hk
          exact absurd rfl hk

theorem endStatement_leaves (h : Held s) : Leaves s (endStatement.run s) := by
  rw [run_endStatement]
  split
  · have htake := atSemicolon_leaves h
    generalize take.run (atSemicolon s) = result at htake
    cases htake with
    | ok hs hd hle => exact .ok hs hd hle
    | error hs hd hle => exact .error hs hd hle
  · exact .error h.steady rfl (Nat.le_refl _)

/-- A slash at hand was just read. -/
theorem Held.justRead (h : Held s) (hk : s.current.kind ≠ .insertedSemicolon) :
    s.stream.requeued = none ∧ s.stream.scanner.JustRead s.current := by
  obtain h | ⟨u, hu, -⟩ := h
  · exact h
  · rw [hu] at hk
    exact absurd rfl hk

theorem leaf_leaves {e : Expression} (h : s.stream.Steady) : Leaves s ((leaf e).run s) :=
  (take_leaves h).bind fun _ _ hs' => .ok hs' rfl (Nat.le_refl _)

/-- A state with a literal in the place of the slash at hand. -/
def atLiteral (s : ParserState) (literal : Token) (sc : Scanner) : ParserState :=
  { s with
    stream.scanner := sc
    stream.previous := some literal.kind
    stream.journal := .rescanned s.current literal :: s.stream.journal
    current := literal }

theorem run_regex (s : ParserState) : (regex s.current).run s =
    match (Scanner.rescan s.current).run s.stream.scanner with
    | .ok literal sc =>
        (leaf (Expression.regex (regexParts literal.text).1 (regexParts literal.text).2)).run
          (atLiteral s literal sc)
    | .error f sc => .error f { s with stream.scanner := sc } := by
  unfold regex
  rw [EStateM.run_bind, run_step, TokenStream.run_rescan_scan]
  cases (Scanner.rescan s.current).run s.stream.scanner <;> rfl

/-- A literal is at hand in the place of a slash, and there is no more left behind it. -/
theorem Held.atLiteral {literal : Token} {sc : Scanner} (h : Held s)
    (hk : opensRegex s.current.kind)
    (hscan : (Scanner.rescan s.current).run s.stream.scanner = .ok literal sc) :
    Held (atLiteral s literal sc) ∧ s.stream.requeued = none ∧
      sc.rest.length ≤ s.stream.scanner.rest.length := by
  have hreal : s.current.kind ≠ .insertedSemicolon := by
    rintro hs
    rw [hs] at hk
    cases hk
  obtain ⟨hq, hread⟩ := h.justRead hreal
  obtain ⟨hread', hle⟩ := hread.rescan_ok hk hscan
  exact ⟨.inl ⟨hq, hread'⟩, hq, hle⟩

theorem regex_leaves (h : Held s) (hk : opensRegex s.current.kind) :
    Leaves s ((regex s.current).run s) := by
  rw [run_regex]
  cases hscan : (Scanner.rescan s.current).run s.stream.scanner with
  | error f sc =>
      rw [Scanner.rescan_error hscan]
      exact .error h.steady rfl (Nat.le_refl _)
  | ok literal sc =>
      obtain ⟨hliteral, hq, hle⟩ := h.atLiteral hk hscan
      have hleft : (Parser.atLiteral s literal sc).stream.left ≤ s.stream.left := by
        simp only [Parser.atLiteral, TokenStream.left, hq]
        omega
      exact (leaf_leaves hliteral.steady).trans rfl hleft

theorem pendingComments_leaves (h : Held s) : Leaves s (pendingComments.run s) := by
  rw [run_pendingComments]
  refine .ok ?_ rfl (Nat.le_refl _)
  obtain ⟨hq, ht⟩ | ⟨u, hu, hq, ht⟩ := h
  · exact .inl ⟨hq, ht.claimed⟩
  · exact .inr ⟨u, hu, hq, ht.claimed⟩

/-- Parsers leave a state in this way if the rules inside them do. -/
theorem Lockstep.leaves {inner inner' : Inner} {credit : Nat} {known : Option Token}
    {p p' : Parser α} (h : Lockstep inner inner' credit known p p')
    (hinner : ∀ (r : Rule) (s : ParserState), Held s → Leaves s ((inner r).run s))
    (hs : Held s) (hknown : ∀ t ∈ known, s.current = t) : Leaves s (p.run s) := by
  induction h generalizing s with
  | pure a => exact .ok hs rfl (Nat.le_refl _)
  | bind _ _ ihp ihf => exact (ihp hs hknown).bind fun a s' hs' => ihf a hs' (fun _ => nofun)
  | unexpected => exact .error hs.steady rfl (Nat.le_refl _)
  | look _ ih => exact ih s.current s.lastEnd hs fun t ht => Option.some.inj ht
  | take _ _ ih =>
      obtain rfl := hknown _ rfl
      rw [EStateM.run_bind]
      have htake := take_leaves hs.steady
      cases hrun : Parser.take.run s with
      | ok t s' =>
          obtain rfl := (run_take_ok.mp hrun).1
          rw [hrun] at htake
          cases htake with
          | ok hs' hd hle => exact (ih hs' (fun _ => nofun)).trans hd hle
      | error f s' =>
          rw [hrun] at htake
          cases htake with
          | error hs' hd hle => exact .error hs' hd hle
  | regex hk =>
      obtain rfl := hknown _ rfl
      exact regex_leaves hs hk
  | badNumber => exact .error hs.steady rfl (Nat.le_refl _)
  | endStatement => exact endStatement_leaves hs
  | pendingComments => exact pendingComments_leaves hs
  | inner r => exact hinner r s hs

/-- The rules of the grammar leave a state in this way. -/
theorem rule_leaves (turns room : Nat) (r : Rule) (h : Held s) :
    Leaves s ((rule turns room r).run s) := by
  induction room generalizing r s with
  | zero => exact .error h.steady rfl (Nat.le_refl _)
  | succ room ih =>
      have hlockstep : Lockstep (rule turns room) (rule turns room) (r.weight - 1) none
          (ruleBody (rule turns room) turns r) (ruleBody (rule turns room) turns r) :=
        lockstep_ruleBody r
      have hdeep : Held (atDepth s (s.depth + 1)) := h
      have hbody := hlockstep.leaves (fun r s hs => ih r hs) hdeep (fun _ => nofun)
      show Leaves s ((deepen (ruleBody (rule turns room) turns r)).run s)
      rw [run_deepen]
      generalize (ruleBody (rule turns room) turns r).run (atDepth s (s.depth + 1)) = result at hbody
      cases hbody with
      | ok hs hd hle => exact .ok hs (by rw [hd]; rfl) hle
      | error hs hd hle => exact .error hs (by rw [hd]; rfl) hle

theorem elements_leaves (turns room : Nat) (stops : List TokenKind) (fuel : Nat) (h : Held s) :
    Leaves s ((elements (rule turns room) stops fuel).run s) := by
  have hlockstep : Lockstep (rule turns room) (rule turns room) fullCredit none
      (elements (rule turns room) stops fuel) (elements (rule turns room) stops fuel) :=
    lockstep_elements (Nat.le_refl _) stops fuel
  exact hlockstep.leaves (fun r s hs => rule_leaves turns room r hs) h (fun _ => nofun)

end Parser

end EcmaSyntax
