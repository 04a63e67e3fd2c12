import EcmaSyntax.Proofs.Standing

/-!
# The token that a scanner returned last

**Calls.**  `Scanner.Reached source last s` says that some calls on a scanner of a source have left
the scanner `s`, and that the last token asked for was `last`, if there was one.  The calls come in
any order; a token is read again only if it is a slash and was returned just before.

**Tokens.**  `ReadAs t rest` says that a token was read in front of a text, either as the scanner
finds it behind a gap or as a regular expression.

**Results.**
* `Scanner.rescan_returned`: what comes of a slash that is read again, in front of what is left.
* `Scanner.Reached.returned`: by induction on the calls, the token that was returned last stands in
  the source in front of what is left, and it was read there.  This is true behind failures too.
-/

namespace EcmaSyntax

/-- A token was read in front of a text. -/
inductive ReadAs : Token → Text → Prop
  | lexeme {p : Site} {place : Place} : p.Valid → ReadAs (p.toToken place) p.rest
  | literal {t : Token} {body r : Text} : t.kind = .regex → t.text = '/' :: body →
      regexLiteral? (body ++ r) = some ('/' :: body) → ReadAs t r

namespace ReadAs

variable {t : Token} {r : Text}

/-- A slash is one for the scanner, and it stands on one line. -/
theorem slash (h : ReadAs t r) (hk : Parser.opensRegex t.kind) :
    t.text.head? = some '/' ∧ OneLine t.text := by
  cases h with
  | lexeme hp => exact hp.slash hk
  | literal hregex =>
      rw [hregex] at hk
      cases hk

end ReadAs

namespace Scanner

/-! ## Calls -/

/-- The token that a turn of iteration returns, if it returns one. -/
def tokenOf : Option (Except Failure Token) → Option Token
  | some (.ok t) => some t
  | _ => none

/-- A call that returns something leaves a scanner. -/
theorem exists_run {α : Type} {call : Scan α} {s : Scanner} {a : α} (h : call.run' s = some a) :
    ∃ s', call.run s = .ok a s' := by
  unfold EStateM.run' at h
  cases hrun : call.run s with
  | ok b s' =>
      rw [hrun] at h
      exact ⟨s', congrArg (EStateM.Result.ok · s') (Option.some.inj h)⟩
  | error f s' =>
      rw [hrun] at h
      cases h

/-- Some calls have left a scanner of a source, and this is the token that the last one returned. -/
inductive Reached (source : Text) : Option Token → Scanner → Prop
  | start : Reached source none (ofText source)
  | next {last : Option Token} {s s' : Scanner} {t : Token} : Reached source last s →
      next.run s = .ok t s' → Reached source (some t) s'
  | nextFails {last : Option Token} {s s' : Scanner} {f : Failure} : Reached source last s →
      next.run s = .error f s' → Reached source none s'
  | rescan {s s' : Scanner} {slash t : Token} : Reached source (some slash) s →
      Parser.opensRegex slash.kind → (rescan slash).run s = .ok t s' → Reached source (some t) s'
  | rescanFails {s s' : Scanner} {slash : Token} {f : Failure} : Reached source (some slash) s →
      Parser.opensRegex slash.kind → (rescan slash).run s = .error f s' →
      Reached source (some slash) s'
  | iterate {last : Option Token} {s : Scanner} : Reached source last s →
      Reached source (tokenOf s.iterate.1) s.iterate.2
  | takeComments {last : Option Token} {s s' : Scanner} {cs : List PlacedComment} :
      Reached source last s → takeComments.run s = .ok cs s' → Reached source last s'

/-! ## What was returned -/

/-- A token stands in the source in front of what is left, and it was read there. -/
structure Returned (s : Scanner) (t : Token) : Prop extends JustRead s t where
  readAs : ReadAs t s.rest
  line : Parser.opensRegex t.kind → s.place.line = t.place.line

variable {s : Scanner}

/-- The next token is read in front of what is left then. -/
theorem next_returned {before : Text} (h : s.Tracks before) : match next.run s with
    | .ok t s' => s'.source = s.source ∧ s'.Returned t
    | .error _ s' => s'.source = s.source ∧ ∃ before, s'.Tracks before := by
  obtain ⟨p, hp, hs⟩ | ⟨p, hp, hs⟩ := s.next_cases
  · rw [next_of_valid hp hs]
    refine ⟨rfl, h.justRead hp hs, .lexeme hp, fun hk => ?_⟩
    show ((s.place.past p.gap.text).past p.text).line = _
    rw [← Place.along_eq_past _ (hp.slash hk).2]
    rfl
  · rw [next_of_fault hp hs]
    exact ⟨rfl, _, h.behindFault hs⟩

namespace Returned

variable {t : Token}

theorem behind (h : s.Returned t) : ∃ before, s.Tracks before := by
  obtain ⟨before, htracks, -⟩ := h.tracks
  exact ⟨_, htracks⟩

/-- The source from the token on. -/
theorem source_eq (h : s.Returned t) :
    s.source.dropBytes t.place.offset = t.text ++ s.rest := by
  obtain ⟨before, htracks, hoffset⟩ := h.tracks
  rw [htracks.source, hoffset, List.append_assoc, Text.dropBytes_size]

/-- The source behind the token. -/
theorem rest_eq (h : s.Returned t) :
    s.source.dropBytes (t.place.offset + t.text.size) = s.rest := by
  obtain ⟨before, htracks, hoffset⟩ := h.tracks
  rw [htracks.source, hoffset, ← Text.size_append, Text.dropBytes_size]

end Returned

/-- A slash is read again from the text that it stands in front of. -/
theorem rescan_returned {slash : Token} (h : s.Returned slash) (hk : Parser.opensRegex slash.kind) :
    ∃ after, slash.text ++ s.rest = '/' :: after ∧ (rescan slash).run s =
      match regexLiteral? after with
      | some text => .ok { slash with kind := .regex, text }
          { s with rest := after.drop (text.length - 1), place := slash.place.along text }
      | none => .error ⟨.lexical .unterminatedRegex
          (('/' :: after).takeWhile (!isLineTerminator ·)), slash.place⟩ s := by
  obtain ⟨before, htracks, hoffset⟩ := h.tracks
  obtain ⟨more, hmore⟩ := List.head?_eq_some_iff.mp (h.readAs.slash hk).1
  have hsource : s.source = before ++ '/' :: (more ++ s.rest) := by
    rw [htracks.source, hmore]
    simp
  refine ⟨more ++ s.rest, by rw [hmore]; rfl, ?_⟩
  rw [run_rescan hsource hoffset, h.line hk]
  rfl

/-- A regular expression is read in front of what is left behind it. -/
theorem returned_rescan {slash t : Token} {s' : Scanner} (h : s.Returned slash)
    (hk : Parser.opensRegex slash.kind) (hrun : (rescan slash).run s = .ok t s') :
    s'.source = s.source ∧ s'.Returned t := by
  have hread := (h.toJustRead.rescan_ok hk hrun).1
  obtain ⟨after, -, hrescan⟩ := rescan_returned h hk
  rw [hrun] at hrescan
  cases hregex : regexLiteral? after with
  | none =>
      rw [hregex] at hrescan
      cases hrescan
  | some w =>
      obtain ⟨body, r, rfl, rfl⟩ := regexLiteral?_split hregex
      have hrest : (body ++ r).drop (('/' :: body).length - 1) = r := List.drop_left
      rw [hregex] at hrescan
      obtain ⟨rfl, rfl⟩ := EStateM.Result.ok.inj hrescan
      refine ⟨rfl, hread, ?_, fun _ => rfl⟩
      show ReadAs _ ((body ++ r).drop (('/' :: body).length - 1))
      rw [hrest]
      exact .literal rfl rfl hregex

/-- The token that was returned last was read in front of what is left. -/
theorem Reached.returned {source : Text} {last : Option Token} (h : Reached source last s) :
    s.source = source ∧ (∃ before, s.Tracks before) ∧ ∀ t ∈ last, s.Returned t := by
  induction h with
  | start => exact ⟨rfl, ⟨[], tracks_ofText source⟩, fun _ => nofun⟩
  | next _ hrun ih =>
      obtain ⟨rfl, ⟨before, htracks⟩, -⟩ := ih
      have := next_returned htracks
      rw [hrun] at this
      exact ⟨this.1, this.2.behind, fun _ ht => Option.mem_some.mp ht ▸ this.2⟩
  | nextFails _ hrun ih =>
      obtain ⟨rfl, ⟨before, htracks⟩, -⟩ := ih
      have := next_returned htracks
      rw [hrun] at this
      exact ⟨this.1, this.2, fun _ => nofun⟩
  | rescan _ hk hrun ih =>
      obtain ⟨rfl, -, hslash⟩ := ih
      obtain ⟨hsource, hreturned⟩ := returned_rescan (hslash _ rfl) hk hrun
      exact ⟨hsource, hreturned.behind, fun _ ht => Option.mem_some.mp ht ▸ hreturned⟩
  | rescanFails _ _ hrun ih =>
      obtain rfl := rescan_error hrun
      exact ih
  | @iterate _ s _ ih =>
      obtain ⟨rfl, ⟨before, htracks⟩, -⟩ := ih
      have := next_returned htracks
      unfold Scanner.iterate
      split
      · exact ⟨rfl, ⟨before, htracks⟩, fun _ => nofun⟩
      · split
        · next t s' hrun =>
            have hrun : Scanner.next.run s = .ok t s' := hrun
            rw [hrun] at this
            split
            · exact ⟨this.1, this.2.behind.imp fun _ h => ⟨h.source, h.offset⟩, fun _ => nofun⟩
            · exact ⟨this.1, this.2.behind, fun _ ht => Option.mem_some.mp ht ▸ this.2⟩
        · next f s' hrun =>
            have hrun : Scanner.next.run s = .error f s' := hrun
            rw [hrun] at this
            exact ⟨this.1, this.2.imp fun _ h => ⟨h.source, h.offset⟩, fun _ => nofun⟩
  | takeComments _ hrun ih =>
      obtain ⟨rfl, rfl⟩ := EStateM.Result.ok.inj hrun
      obtain ⟨rfl, ⟨before, htracks⟩, hlast⟩ := ih
      refine ⟨rfl, ⟨before, htracks.source, htracks.offset⟩, fun t ht => ?_⟩
      have ht := hlast t ht
      exact ⟨ht.toJustRead.claimed, ht.readAs, ht.line⟩

end Scanner

end EcmaSyntax
