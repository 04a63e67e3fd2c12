import EcmaSyntax.Proofs.Steps
import EcmaSyntax.Source

/-!
# Positions of a scanner

**Two counts.**  A scanner moves its place along the text and counts lines as it goes; the position
of an offset is found by cutting the text before it into lines.  They agree as long as the scanner
never stops between a carriage return and the line feed after it.

**Coherence.**  `Coherent source before s` says that a scanner has read the text `before` of its
source, that its place is where this text ends, and that no line end is cut in two there.

**Results.**
* `Place.start_past`: the place after a text has the position that the text before it gives.
* `next_coherent`, `rescan_coherent`: whatever the scanner reads, it stays coherent; a failure is
  found where the offending text starts.
-/

namespace EcmaSyntax

/-! ## Places along a text -/

namespace Place

/-- The position after a text, from the lines of the text. -/
theorem toPosition_past (p : Place) (t : Text) :
    (p.past t).toPosition =
      ⟨p.line + .ofNat ((Text.linesBy isLineTerminator t).length - 1),
        if (Text.linesBy isLineTerminator t).length = 1 then
          p.column + .ofNat ((Text.linesBy isLineTerminator t).getLastD []).length
        else .ofNat ((Text.linesBy isLineTerminator t).getLastD []).length + 1⟩ := by
  induction t generalizing p with
  | nil => simp [past, Text.linesBy]
  | cons c t ih =>
      obtain ⟨line, lines, hlines⟩ :=
        List.exists_cons_of_ne_nil (Text.linesBy_ne_nil isLineTerminator t)
      rw [past, ih, step, Text.linesBy, hlines]
      by_cases hc : isLineTerminator c && !(c = '\r' && t.head? = some '\n')
      · rw [if_pos hc, if_pos hc]
        cases lines with
        | nil => simp; ac_rfl
        | cons l lines => simp; ac_rfl
      · rw [if_neg hc, if_neg hc]
        cases lines with
        | nil => simp; ac_rfl
        | cons l lines => simp

/-- The place after a text has the position of its offset. -/
theorem start_past (s t : Text) :
    (start.past s).offset = s.size ∧
      (start.past s).toPosition = (s ++ t).positionAt (start.past s).offset := by
  have hoffset : (start.past s).offset = s.size := by
    rw [offset_past]
    exact Nat.zero_add _
  refine ⟨hoffset, ?_⟩
  rw [hoffset, Text.positionAt, Text.takeBytes_size, toPosition_past]
  obtain ⟨line, lines, hlines⟩ :=
    List.exists_cons_of_ne_nil (Text.linesBy_ne_nil isLineTerminator s)
  rw [hlines]
  cases lines with
  | nil => simp [start]; ac_rfl
  | cons l lines => simp [start]; ac_rfl

end Place

/-! ## What stands where -/

/-- The part of a source that takes up some bytes after an offset. -/
def Source.slice (source : Source) (offset n : Nat) : Text :=
  (source.content.dropBytes offset).takeBytes n

/-- A text stands in a source at a place that has the position of its offset. -/
def Source.Holds (source : Source) (place : Place) (text : Text) : Prop :=
  place.toPosition = source.position place.offset ∧ source.slice place.offset text.size = text

/-- No line ends within a text. -/
def OneLine (t : Text) : Prop := ∀ c ∈ t, isLineTerminator c = false

theorem OneLine.getLast? {t : Text} (h : OneLine t) : t.getLast? ≠ some '\r' := by
  intro hlast
  have := h '\r' (List.mem_of_getLast? hlast)
  exact absurd this (by decide)

theorem Source.holds_of_append {source : Source} {before text rest : Text}
    (h : source.content = before ++ (text ++ rest)) :
    source.Holds (Place.start.past before) text := by
  obtain ⟨hoffset, hposition⟩ := Place.start_past before (text ++ rest)
  refine ⟨?_, ?_⟩
  · rw [hposition, Source.position, h]
  · rw [Source.slice, hoffset, h, Text.dropBytes_size, Text.takeBytes_size]

/-- A failure to read a piece of a source, found where its text stands. -/
def Source.Refuses (source : Source) (f : Failure) : Prop :=
  source.Holds f.place f.text ∧ ∀ limit, f.cause ≠ .tooDeep limit

namespace Scanner

/-- A scanner has read a text of its source, and its place is where this text ends. -/
structure Coherent (source : Source) (before : Text) (s : Scanner) : Prop where
  source_eq : s.source = source.content
  split : source.content = before ++ s.rest
  place : s.place = Place.start.past before
  whole : ¬Place.CutsLineEnd before s.rest

theorem coherent_ofText (source : Source) : (ofText source.content).Coherent source [] :=
  ⟨rfl, rfl, rfl, by rintro ⟨h, -⟩; cases h⟩

namespace Coherent

variable {source : Source} {before t r : Text} {s : Scanner}

/-- What comes next stands where the scanner is. -/
theorem holds (h : s.Coherent source before) (hr : s.rest = t ++ r) : source.Holds s.place t := by
  rw [h.place]
  exact Source.holds_of_append (h.split.trans (by rw [hr]))

theorem skipPast (h : s.Coherent source before) (hr : s.rest = t ++ r)
    (hw : ¬Place.CutsLineEnd (before ++ t) r) : (s.skipPast t).Coherent source (before ++ t) := by
  have hrest : (s.skipPast t).rest = r := by rw [rest_skipPast, hr, List.drop_left]
  refine ⟨h.source_eq, ?_, ?_, ?_⟩
  · rw [hrest, h.split, hr, List.append_assoc]
  · have hwhole := h.whole
    rw [hr] at hwhole
    rw [Place.past_append _ (Place.not_cutsLineEnd_of_append hwhole), ← h.place]
    rfl
  · rw [hrest]
    exact hw

theorem behind {g : Gap} (h : s.Coherent source before) (hr : s.rest = g.text ++ t)
    (hg : g.Fits t) :
    (s.behind g t).Coherent source (before ++ g.text) := by
  have hwhole := h.whole
  rw [hr] at hwhole
  refine ⟨h.source_eq, ?_, ?_, Place.not_cutsLineEnd_append hwhole hg.not_cutsLineEnd⟩
  · rw [h.split, hr, List.append_assoc]
    rfl
  · rw [Place.past_append _ (Place.not_cutsLineEnd_of_append hwhole), ← h.place]
    rfl

end Coherent

end Scanner

/-! ## Tokens -/

theorem OneLine.append {s t : Text} (hs : OneLine s) (ht : OneLine t) : OneLine (s ++ t) := by
  intro c hc
  obtain hc | hc := List.mem_append.mp hc
  · exact hs c hc
  · exact ht c hc

theorem OneLine.cons {c : Char} {t : Text} (hc : isLineTerminator c = false) (ht : OneLine t) :
    OneLine (c :: t) := by
  intro d hd
  obtain rfl | hd := List.mem_cons.mp hd
  · exact hc
  · exact ht d hd

theorem oneLine_nil : OneLine [] := by
  intro c hc
  cases hc

theorem isLineTerminator_of_isIdentifierPart {c : Char} (hc : isIdentifierPart c) :
    isLineTerminator c = false := by
  rw [Bool.eq_false_iff]
  intro h
  have hspacing : isSpacing c := by
    rw [isSpacing, h, Bool.or_true]
  rw [isIdentifierPart_of_isSpacing hspacing] at hc
  cases hc

theorem oneLine_of_isIdentifierPart {t : Text} (ht : ∀ c ∈ t, isIdentifierPart c) : OneLine t :=
  fun c hc => isLineTerminator_of_isIdentifierPart (ht c hc)

theorem oneLine_of_isDigitOf {base : Nat} {t : Text} (ht : ∀ c ∈ t, isDigitOf base c) :
    OneLine t :=
  oneLine_of_isIdentifierPart fun c hc => isIdentifierPart_of_isDigitOf (ht c hc)

theorem IsExponent.oneLine {t : Text} (h : IsExponent t) : OneLine t := by
  obtain ⟨mark, sign, digits, hmark, hsign, -, hdigits, rfl⟩ := h
  refine .cons (by obtain rfl | rfl := hmark <;> decide) (.append ?_ (oneLine_of_isDigitOf hdigits))
  obtain rfl | rfl | rfl := hsign
  · exact oneLine_nil
  · exact .cons (by decide) oneLine_nil
  · exact .cons (by decide) oneLine_nil

theorem IsFraction.oneLine {t : Text} (h : IsFraction t) : OneLine t := by
  obtain ⟨digits, hdigits, rfl⟩ := h
  exact .cons (by decide) (oneLine_of_isDigitOf hdigits)

theorem numeral_oneLine (t : Text) : OneLine (numeral t) := by
  unfold numeral
  by_cases hhex : hexNumeral t = []
  · rw [if_pos hhex]
    by_cases hdec : decimalNumeral t = []
    · rw [hdec]
      exact oneLine_nil
    · obtain ⟨whole, fraction, exponent, r, -, ht, hparts⟩ := decimalNumeral_split hdec
      rw [ht]
      refine .append (.append (oneLine_of_isDigitOf hparts.digits) ?_) ?_
      · obtain rfl | hf := hparts.isFraction
        · exact oneLine_nil
        · exact hf.oneLine
      · obtain rfl | he := hparts.isExponent
        · exact oneLine_nil
        · exact he.oneLine
  · rw [if_neg hhex]
    obtain ⟨mark, digits, r, hmark, -, hdigits, -, ht⟩ := hexNumeral_split hhex
    rw [ht]
    refine .cons (by decide) (.cons ?_ (oneLine_of_isDigitOf hdigits))
    obtain rfl | rfl := hmark <;> decide

theorem punctuators_oneLine : ∀ p ∈ TokenKind.punctuators, p.display.all (!isLineTerminator ·) := by
  decide +kernel

theorem getLast?_append_of_eq_some {s t : Text} {c : Char} (h : t.getLast? = some c) :
    (s ++ t).getLast? = some c := by
  rw [List.getLast?_append, h]
  rfl

/-- A closed string ends with its quote. -/
theorem stringRest_getLast? {quote : Char} {t taken : Text}
    (h : stringRest quote t = (taken, true)) : taken.getLast? = some quote := by
  fun_induction stringRest quote t generalizing taken with
  | case1 => cases h
  | case2 t taken' closed heq ih =>
      obtain ⟨rfl, rfl⟩ := Prod.mk.inj h
      exact getLast?_append_of_eq_some (s := ['\\', '\r', '\n']) (ih heq)
  | case3 c t hne taken' closed heq ih =>
      obtain ⟨rfl, rfl⟩ := Prod.mk.inj h
      exact getLast?_append_of_eq_some (s := ['\\', c]) (ih heq)
  | case4 t h₁ h₂ =>
      obtain ⟨rfl, -⟩ := Prod.mk.inj h
      rfl
  | case5 => cases h
  | case6 c t h₁ h₂ hc hl taken' closed heq ih =>
      obtain ⟨rfl, rfl⟩ := Prod.mk.inj h
      exact getLast?_append_of_eq_some (s := [c]) (ih heq)

/-- Of all tokens only strings go on in another line, and they end with a quote. -/
theorem TokenAt.getLast? {k : TokenKind} {w r : Text} (h : TokenAt k w r) :
    w.getLast? ≠ some '\r' := by
  cases h with
  | word _ hw => exact (oneLine_of_isIdentifierPart hw).getLast?
  | number _ hn =>
      rw [← hn]
      exact (numeral_oneLine _).getLast?
  | @string quote w r hq hclosed =>
      have hlast : (quote :: w).getLast? = some quote :=
        getLast?_append_of_eq_some (s := [quote]) (stringRest_getLast? (hclosed []  |>.trans rfl))
      rw [hlast]
      obtain rfl | rfl := hq <;> decide
  | punctuator hp =>
      have hk := punctuators_oneLine _ (punctuator?_eq_some_iff.mp hp).1
      exact OneLine.getLast? fun c hc => by simpa using List.all_eq_true.mp hk c hc

/-- A slash is written with a slash. -/
theorem TokenAt.slash {k : TokenKind} {w r : Text} {newline : Bool} (h : TokenAt k w r)
    (hk : Parser.opensRegex (Scanner.kindAfterGap newline k)) :
    w.head? = some '/' ∧ OneLine w := by
  have hkind : k = .slash ∨ k = .slashEquals := by
    cases newline <;> cases k <;> first | exact .inl rfl | exact .inr rfl | cases hk
  obtain rfl | rfl := hkind
  · rw [h.text_eq rfl]
    exact ⟨rfl, .cons (by decide) oneLine_nil⟩
  · rw [h.text_eq rfl]
    exact ⟨rfl, .cons (by decide) (.cons (by decide) oneLine_nil)⟩

theorem Site.Valid.slash {p : Site} (hp : p.Valid) (hk : Parser.opensRegex p.kindHere) :
    p.text.head? = some '/' ∧ OneLine p.text := by
  obtain ⟨h, -⟩ | ht := hp.token
  · rw [kindHere, h] at hk
    cases hk
  · exact ht.slash hk

/-- Nothing is cut after a text whose last character is no carriage return. -/
theorem not_cutsLineEnd_of_getLast? {t r : Text} (ht : t.getLast? ≠ some '\r') :
    ¬Place.CutsLineEnd t r :=
  fun h => ht h.1

theorem Site.Valid.not_cutsLineEnd {p : Site} (hp : p.Valid) :
    ¬Place.CutsLineEnd p.text p.rest := by
  obtain ⟨-, ht, -⟩ | ht := hp.token
  · rw [ht]
    exact not_cutsLineEnd_of_getLast? nofun
  · exact not_cutsLineEnd_of_getLast? ht.getLast?

namespace Scanner

variable {source : Source} {before : Text} {s : Scanner}

/-- A scanner has read a token of its source, with some text before the token. -/
structure HasRead (source : Source) (before : Text) (t : Token) (s : Scanner) : Prop where
  coherent : s.Coherent source (before ++ t.text)
  place : t.place = Place.start.past before
  marked : t.kind ≠ .insertedSemicolon
  text_ne_nil : t.kind ≠ .endOfInput → t.text ≠ []
  slash : Parser.opensRegex t.kind → t.text.head? = some '/' ∧ OneLine t.text

/-- What a scanner that has read a text leaves when it reads a token. -/
def ReadsFrom (source : Source) (before : Text) : EStateM.Result Failure Scanner Token → Prop
  | .ok t s => ∃ gap, s.HasRead source (before ++ gap) t
  | .error f _ => source.Refuses f

/-- The token that was read stands in the source. -/
theorem HasRead.holds {t : Token} (h : s.HasRead source before t) :
    source.Holds t.place t.text := by
  rw [h.place]
  exact Source.holds_of_append (by rw [h.coherent.split, List.append_assoc])

theorem Coherent.behindSite {p : Site} (h : s.Coherent source before) (hp : p.Valid)
    (hs : s.rest = p.all) :
    (s.behindSite p).Coherent source (before ++ p.gap.text ++ p.text) := by
  have hskip : s.behindSite p = (s.behind p.gap (p.text ++ p.rest)).skipPast p.text := by
    simp [Scanner.behindSite, Scanner.behind, Scanner.skipPast]
  have hgap := h.behind hs hp.fits
  have hwhole := hgap.whole
  rw [hskip]
  exact hgap.skipPast rfl (Place.not_cutsLineEnd_append hwhole hp.not_cutsLineEnd)

/-- Whatever the scanner reads next stands behind what it has read. -/
theorem next_coherent (h : s.Coherent source before) : ReadsFrom source before (next.run s) := by
  obtain ⟨p, hp, hs⟩ | ⟨p, hp, hs⟩ := s.next_cases
  · rw [next_of_valid hp hs]
    exact ⟨p.gap.text, h.behindSite hp hs, (h.behind hs hp.fits).place, hp.kindHere_ne,
      hp.text_ne_nil, hp.slash⟩
  · rw [next_of_fault hp hs]
    have hgap := h.behind hs hp.fits
    exact ⟨hgap.holds (r := p.rest) (List.append_assoc ..).symm, fun _ => nofun⟩

theorem regexRest?_oneLine {inClass : Bool} {t body : Text} (h : regexRest? inClass t = some body) :
    OneLine body := by
  fun_induction regexRest? inClass t generalizing body with
  | case1 => cases h
  | case2 => cases h
  | case3 => cases h
  | case4 inClass c t hc ih =>
      obtain ⟨body, hbody, rfl⟩ := Option.map_eq_some_iff.mp h
      exact .cons (by decide) (.cons (Bool.eq_false_iff.mpr hc) (ih hbody))
  | case5 => cases h
  | case6 =>
      cases h
      exact oneLine_nil
  | case7 inClass c t h₁ h₂ hl hc ih =>
      obtain ⟨body, hbody, rfl⟩ := Option.map_eq_some_iff.mp h
      exact .cons (Bool.eq_false_iff.mpr hl) (ih hbody)

/-- A regular expression stands on one line. -/
theorem regexLiteral?_oneLine {t w : Text} (h : regexLiteral? t = some w) : OneLine w := by
  obtain ⟨c, pattern, flags, r, rfl, rfl, hu, hflags, -⟩ := regexLiteral?_eq_some_iff.mp h
  refine .append (.cons (by decide) (regexRest?_oneLine (hu []))) (.cons (by decide) ?_)
  exact oneLine_of_isIdentifierPart hflags

/-- A slash that is read again leaves the scanner behind the regular expression. -/
theorem rescan_coherent {slash : Token} (h : s.HasRead source before slash)
    (hk : Parser.opensRegex slash.kind) : match (rescan slash).run s with
      | .ok t s' => s'.HasRead source before t ∧ t.kind = .regex
      | .error f _ => source.Refuses f := by
  obtain ⟨hslash, hline⟩ := h.slash hk
  obtain ⟨more, hmore⟩ := List.head?_eq_some_iff.mp hslash
  have hsplit : s.source = before ++ '/' :: (more ++ s.rest) := by
    rw [h.coherent.source_eq, h.coherent.split, hmore]
    simp
  have hoffset : slash.place.offset = before.size := by
    rw [h.place, Place.offset_past]
    exact Nat.zero_add _
  rw [run_rescan hsplit hoffset]
  cases hregex : regexLiteral? (more ++ s.rest) with
  | none =>
      have hprefix : source.content = before ++ ((('/' :: (more ++ s.rest)).takeWhile
          (!isLineTerminator ·)) ++ ('/' :: (more ++ s.rest)).dropWhile (!isLineTerminator ·)) := by
        rw [List.takeWhile_append_dropWhile, ← hsplit, h.coherent.source_eq]
      refine ⟨?_, fun _ => nofun⟩
      show source.Holds slash.place _
      rw [h.place]
      exact Source.holds_of_append hprefix
  | some w =>
      have hw : OneLine w := regexLiteral?_oneLine hregex
      obtain ⟨body, r, rfl, hr⟩ := regexLiteral?_split hregex
      have hcut : ∀ {t : Text}, t.head? = some '/' → ¬Place.CutsLineEnd before t := by
        rintro t ht ⟨-, hfeed⟩
        rw [ht] at hfeed
        cases hfeed
      -- the scanner stands on the line of the slash
      have hplace : s.place.line = slash.place.line := by
        rw [h.coherent.place, Place.past_append _ (hcut hslash), ← h.place,
          ← Place.along_eq_past _ hline]
        rfl
      have hrest : (more ++ s.rest).drop (('/' :: body).length - 1) = r := by
        rw [hr]
        exact List.drop_left
      refine ⟨⟨⟨h.coherent.source_eq, ?_, ?_, ?_⟩, h.place, nofun, fun _ => List.cons_ne_nil _ _,
        nofun⟩, rfl⟩
      · show source.content = before ++ '/' :: body ++ (more ++ s.rest).drop _
        rw [hrest, ← h.coherent.source_eq, hsplit, hr]
        simp
      · show ({ slash.place.along ('/' :: body) with line := s.place.line } : Place) = _
        rw [hplace, Place.past_append _ (hcut rfl), ← h.place, ← Place.along_eq_past _ hw]
        rfl
      · exact Place.not_cutsLineEnd_append (hcut rfl) (not_cutsLineEnd_of_getLast? hw.getLast?)

/-! ## Runs of a scanner -/

/-- What a scanner answers: the next token for each choice, and the same once more as a regular
expression if the choice asks for it and the token is a slash.  Nothing comes after a failure. -/
def answers : List Bool → Scanner → List (Except Failure Token)
  | [], _ => []
  | again :: choices, s =>
      match next.run s with
      | .error f _ => [.error f]
      | .ok t s =>
          .ok t ::
            if again && Parser.opensRegex t.kind then
              match (rescan t).run s with
              | .error f _ => [.error f]
              | .ok t s => .ok t :: answers choices s
            else answers choices s

/-- The text of an answer stands in the source where the answer says. -/
def IsPlaced (source : Source) : Except Failure Token → Prop
  | .ok t => source.Holds t.place t.text
  | .error f => source.Holds f.place f.text

theorem answers_placed (choices : List Bool) (h : s.Coherent source before) :
    ∀ a ∈ s.answers choices, IsPlaced source a := by
  induction choices generalizing before s with
  | nil => exact fun _ => nofun
  | cons again choices ih =>
      have hread := next_coherent h
      rw [answers]
      cases hnext : next.run s with
      | error f s₁ =>
          rw [hnext] at hread
          intro a ha
          rw [List.mem_singleton.mp ha]
          exact hread.1
      | ok t s₁ =>
          rw [hnext] at hread
          obtain ⟨gap, ht⟩ := hread
          intro a ha
          obtain rfl | ha := List.mem_cons.mp ha
          · exact ht.holds
          · split at ha
            · next hagain =>
                have hk := (Bool.and_eq_true_iff.mp hagain).2
                have hliteral := rescan_coherent ht hk
                cases hrescan : (rescan t).run s₁ with
                | error f s₂ =>
                    rw [hrescan] at hliteral ha
                    rw [List.mem_singleton.mp ha]
                    exact hliteral.1
                | ok t' s₂ =>
                    rw [hrescan] at hliteral ha
                    obtain rfl | ha := List.mem_cons.mp ha
                    · exact hliteral.1.holds
                    · exact ih hliteral.1.coherent a ha
            · exact ih ht.coherent a ha

end Scanner

end EcmaSyntax
