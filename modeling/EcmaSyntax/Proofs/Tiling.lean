import EcmaSyntax.Proofs.Positions

/-!
# The scanner tiles its input

**Runs.**  `Scanner.readAll` reads tokens up to the end of the input or up to the first failure.
For each token there is a choice whether it is read once more as a regular expression, if it is a
slash.

**Tilings.**  `Tiled offset input tokens failure comments` says that a text is made up of gaps and
tokens in turn, and how a run leaves what is not made up of them.

**Results.**
* `Scanner.Tracks.readAll_tiled`: by induction on the choices, what a run reads tiles what there was
  to read.
* `source_tiled`: the same of a run on a whole text.  It comes to an end if there are choices
  enough.
-/

namespace EcmaSyntax

/-! ## Runs -/

namespace Scanner

/-- A token and what is read after it. -/
def prepend (t : Token) : List Token × Option Failure × Scanner →
    List Token × Option Failure × Scanner
  | (tokens, rest) => (t :: tokens, rest)

/-- The tokens up to the end of the input or up to the first failure, the failure, and the scanner
after them.  There is a choice for each token. -/
def readAll : List Bool → Scanner → List Token × Option Failure × Scanner
  | [], s => ([], none, s)
  | again :: choices, s =>
      match next.run s with
      | .error f s => ([], some f, s)
      | .ok t s =>
          if again && Parser.opensRegex t.kind then
            match (rescan t).run s with
            | .error f s => ([], some f, s)
            | .ok literal s => prepend literal (readAll choices s)
          else if t.kind = .endOfInput then ([t], none, s)
          else prepend t (readAll choices s)

end Scanner

/-! ## Tilings -/

/-- A text from an offset on is made up of gaps and tokens in turn.  Each gap is a sequence of
blanks, line terminators and whole comments, each token says whether a line ends in the gap before
it, and the comments are those of the gaps. -/
inductive Tiled : Nat → Text → List Token → Option Failure → List PlacedComment → Prop
  /-- Nothing more was asked for. -/
  | stopped {offset : Nat} {input : Text} : Tiled offset input [] none []
  /-- The input ends behind a last gap. -/
  | ended {offset : Nat} {gap : Gap} {t : Token} : gap.Fits [] → t.kind = .endOfInput →
      t.text = [] → t.place.offset = offset + gap.text.size →
      t.newlineBefore = gap.text.any isLineTerminator →
      Tiled offset gap.text [t] none (gap.placed offset)
  /-- The offending text stands behind a last gap, and something is left unread behind it. -/
  | failed {offset : Nat} {gap : Gap} {f : Failure} {input unread : Text} :
      input = gap.text ++ (f.text ++ unread) → gap.Fits (f.text ++ unread) → f.text ≠ [] →
      f.place.offset = offset + gap.text.size →
      Tiled offset input [] (some f) (gap.placed offset)
  /-- A token stands behind a gap. -/
  | token {offset : Nat} {gap : Gap} {t : Token} {input rest : Text} {tokens : List Token}
      {failure : Option Failure} {comments : List PlacedComment} :
      input = gap.text ++ (t.text ++ rest) → gap.Fits (t.text ++ rest) →
      t.kind ≠ .endOfInput → t.text ≠ [] → t.place.offset = offset + gap.text.size →
      t.newlineBefore = gap.text.any isLineTerminator →
      Tiled t.stop rest tokens failure comments →
      Tiled offset input (t :: tokens) failure (gap.placed offset ++ comments)

/-- Each token but the last takes a character. -/
theorem Tiled.length_le {offset : Nat} {input : Text} {tokens : List Token}
    {failure : Option Failure} {comments : List PlacedComment}
    (h : Tiled offset input tokens failure comments) :
    tokens.length ≤ input.length ∨ ∃ t ∈ tokens, t.kind = .endOfInput := by
  induction h with
  | stopped => exact .inl (Nat.zero_le _)
  | ended _ hend => exact .inr ⟨_, List.mem_singleton.mpr rfl, hend⟩
  | failed => exact .inl (Nat.zero_le _)
  | token hinput _ _ hne _ _ _ ih =>
      obtain hle | ⟨t, ht, hend⟩ := ih
      · have hpos := List.length_pos_iff.mpr hne
        refine .inl ?_
        rw [hinput, List.length_cons, List.length_append, List.length_append]
        omega
      · exact .inr ⟨t, List.mem_cons_of_mem _ ht, hend⟩

namespace Scanner

variable {s : Scanner} {before : Text}

/-- A run that does not come to an end reads a token for each choice. -/
theorem length_readAll (choices : List Bool) (s : Scanner) :
    (s.readAll choices).2.1.isSome ∨ (∃ t ∈ (s.readAll choices).1, t.kind = .endOfInput) ∨
      (s.readAll choices).1.length = choices.length := by
  induction choices generalizing s with
  | nil => exact .inr (.inr rfl)
  | cons again choices ih =>
      have hprepend : ∀ (t : Token) (s : Scanner),
          (prepend t (s.readAll choices)).2.1.isSome ∨
            (∃ u ∈ (prepend t (s.readAll choices)).1, u.kind = .endOfInput) ∨
            (prepend t (s.readAll choices)).1.length = choices.length + 1 := by
        intro t s
        obtain h | ⟨u, hu, hend⟩ | h := ih s
        · exact .inl h
        · exact .inr (.inl ⟨u, List.mem_cons_of_mem _ hu, hend⟩)
        · exact .inr (.inr (congrArg (· + 1) h))
      rw [readAll]
      split
      · exact .inl rfl
      · split
        · split
          · exact .inl rfl
          · exact hprepend _ _
        · split
          · next hend => exact .inr (.inl ⟨_, List.mem_singleton.mpr rfl, hend⟩)
          · exact hprepend _ _

namespace Tracks

theorem offset_past (h : s.Tracks before) (g : Gap) :
    (s.place.past g.text).offset = before.size + g.text.size := by
  rw [Place.offset_past, h.offset]

/-- The comments of a gap come after those read before. -/
theorem comments_behind (h : s.Tracks before) (g : Gap) (t : Text) :
    (s.behind g t).comments.reverse = s.comments.reverse ++ g.placed before.size := by
  show ((g.placed s.place.offset).reverse ++ s.comments).reverse = _
  rw [h.offset, List.reverse_append, List.reverse_reverse]

/-- What a run reads tiles what there was to read. -/
theorem readAll_tiled (choices : List Bool) (h : s.Tracks before) :
    ∃ comments, (s.readAll choices).2.2.comments.reverse = s.comments.reverse ++ comments ∧
      Tiled before.size s.rest (s.readAll choices).1 (s.readAll choices).2.1 comments := by
  induction choices generalizing s before with
  | nil => exact ⟨[], (List.append_nil _).symm, .stopped⟩
  | cons again choices ih =>
      rw [readAll]
      obtain ⟨p, hp, hs⟩ | ⟨p, hp, hs⟩ := s.next_cases
      · have hp' := h.behindSite hs
        have hplace := h.offset_past p.gap
        have hcomments := h.comments_behind p.gap p.rest
        have hnewline : p.newline = p.gap.text.any isLineTerminator := hp.fits.endsLine_eq
        rw [next_of_valid hp hs, hs]
        dsimp only
        split
        · next hagain =>
            -- the token is a slash, and it is read again where the gap ends
            obtain ⟨hslash, -⟩ := hp.slash (Bool.and_eq_true_iff.mp hagain).2
            rw [← List.append_assoc] at hp'
            have hoffset : (s.place.past p.gap.text).offset = (before ++ p.gap.text).size := by
              rw [hplace, Text.size_append]
            obtain ⟨body, r, s', htext, -, hrun, hs', rfl, hold⟩ | ⟨text, unread, htext, hne, hrun⟩ :=
              rescan_cases (p.toToken _) hp' hslash hoffset
            · obtain ⟨cs, hcs, htiled⟩ := ih hs'
              rw [hrun]
              refine ⟨p.gap.placed before.size ++ cs, ?_,
                .token (congrArg (p.gap.text ++ ·) htext) (htext ▸ hp.fits) nofun
                  (List.cons_ne_nil _ _) hplace hnewline ?_⟩
              · rw [← List.append_assoc, ← hcomments]
                exact hcs.trans (by rw [hold]; rfl)
              · rwa [Text.size_append, ← hoffset] at htiled
            · rw [hrun]
              exact ⟨_, hcomments, .failed (congrArg (p.gap.text ++ ·) htext) (htext ▸ hp.fits) hne
                hplace⟩
        · split
          · next hend =>
              obtain ⟨htext, hrest⟩ := hp.rest_nil hend
              have hfits := hp.fits
              rw [htext, hrest] at hfits
              rw [Site.all, htext, hrest, List.append_nil, List.append_nil]
              exact ⟨_, hcomments, .ended hfits hend htext hplace hnewline⟩
          · next hend =>
              obtain ⟨cs, hcs, htiled⟩ := ih hp'
              refine ⟨p.gap.placed before.size ++ cs, ?_,
                .token rfl hp.fits hend (hp.text_ne_nil hend) hplace hnewline ?_⟩
              · rw [← List.append_assoc, ← hcomments]
                exact hcs
              · rwa [← List.append_assoc, Text.size_append, Text.size_append, ← hplace] at htiled
      · have hoffending : p.read ++ (p.ahead ++ p.rest) = p.read ++ p.ahead ++ p.rest :=
          (List.append_assoc ..).symm
        rw [next_of_fault hp hs, hs]
        exact ⟨_, h.comments_behind p.gap (p.ahead ++ p.rest),
          .failed (congrArg (p.gap.text ++ ·) hoffending) (hoffending ▸ hp.fits)
            (List.append_ne_nil_of_left_ne_nil hp.fault.read_ne_nil _) (h.offset_past p.gap)⟩

end Tracks

end Scanner

/-- A source is made up of gaps and tokens in turn, and of what is left where the scanner fails.
The tokens, the failure and the comments are those of a run on the source, whatever slashes are
read again in it.  A run comes to an end if there are more choices than characters. -/
theorem source_tiled (source : Source) (choices : List Bool) :
    Tiled 0 source.content ((Scanner.ofText source.content).readAll choices).1
        ((Scanner.ofText source.content).readAll choices).2.1
        ((Scanner.ofText source.content).readAll choices).2.2.comments.reverse ∧
      (choices.length ≤ source.content.length ∨
        ((Scanner.ofText source.content).readAll choices).2.1.isSome ∨
        ∃ t ∈ ((Scanner.ofText source.content).readAll choices).1, t.kind = .endOfInput) := by
  obtain ⟨comments, hcomments, htiled⟩ :=
    (Scanner.tracks_ofText source.content).readAll_tiled choices
  refine ⟨?_, ?_⟩
  · rw [hcomments]
    exact htiled
  · obtain h | h | h := Scanner.length_readAll choices (Scanner.ofText source.content)
    · exact .inr (.inl h)
    · exact .inr (.inr h)
    · obtain hle | hend := htiled.length_le
      · exact .inl (h ▸ hle)
      · exact .inr (.inr hend)

end EcmaSyntax
