import EcmaSyntax.Proofs.Positions

/-!
# A scanner after a failure

**Line ends.**  `Text.lineEnds` counts the line ends of a text.  A scanner counts those of the gaps
and the tokens, and not those of the texts where it fails.

**Trails.**  `Trails source before lost s` says that a scanner has read the text `before` of its
source, with `lost` line ends in the texts where it has failed.  Its line falls short by as many,
and its place is right if there are none.

**Results.**
* `Scanner.Trails.answered`: by induction on the calls, a scanner goes on behind each offending
  text.  Only the word that a numeral runs into is left, and read again.
* `failures_resumed`: the same of any number of calls on a source.
* `resumption_fails_for_numerals`, `resumption_fails_for_lines`: no more than this can be said.
-/

namespace EcmaSyntax

/-! ## Line ends -/

/-- The number of line ends in a text. -/
def Text.lineEnds (t : Text) : Nat := (linesBy isLineTerminator t).length - 1

namespace Place

theorem line_past (p : Place) (t : Text) : (p.past t).line = p.line + .ofNat t.lineEnds :=
  congrArg Position.line (p.toPosition_past t)

end Place

theorem OneLine.lineEnds {t : Text} (h : OneLine t) : t.lineEnds = 0 := by
  induction t with
  | nil => rfl
  | cons c t ih =>
      have hc : isLineTerminator c = false := h c List.mem_cons_self
      have ht := ih fun d hd => h d (List.mem_cons_of_mem c hd)
      unfold Text.lineEnds at ht ⊢
      rw [Text.linesBy, hc, Bool.false_and, if_neg Bool.false_ne_true]
      cases hlines : Text.linesBy isLineTerminator t with
      | nil => rfl
      | cons line lines =>
          rw [hlines] at ht
          exact ht

theorem oneLine_of_lineEnds {t : Text} (h : t.lineEnds = 0) : OneLine t := by
  induction t with
  | nil => exact oneLine_nil
  | cons c t ih =>
      have hpos := List.length_pos_iff.mpr (Text.linesBy_ne_nil isLineTerminator t)
      unfold Text.lineEnds at h ih
      rw [Text.linesBy] at h
      by_cases hc : isLineTerminator c && !(c = '\r' && t.head? = some '\n')
      · rw [if_pos hc, List.length_cons] at h
        omega
      · rw [if_neg hc] at h
        have ht : OneLine t := by
          refine ih ?_
          cases hlines : Text.linesBy isLineTerminator t with
          | nil => rfl
          | cons line lines =>
              rw [hlines] at h
              exact h
        refine ht.cons (Bool.eq_false_iff.mpr fun hcline => ?_)
        -- a carriage return is left out only in front of a line feed
        rw [hcline, Bool.true_and, Bool.not_eq_true', Bool.not_eq_false, Bool.and_eq_true] at hc
        obtain ⟨u, rfl⟩ := List.head?_eq_some_iff.mp (of_decide_eq_true hc.2)
        exact absurd (ht '\n' List.mem_cons_self) (by decide)

/-! ## Faults -/

/-- A string that is not closed ends in front of a line terminator or with the input. -/
theorem stringRest_not_cutsLineEnd {quote : Char} {t taken r : Text}
    (h : stringRest quote t = (taken, false)) (ht : t = taken ++ r) :
    ¬Place.CutsLineEnd taken r := by
  fun_induction stringRest quote t generalizing taken with
  | case1 =>
      obtain ⟨rfl, -⟩ := Prod.mk.inj h
      exact not_cutsLineEnd_of_getLast? (by simp)
  | case2 t taken' closed heq ih =>
      obtain ⟨rfl, rfl⟩ := Prod.mk.inj h
      have hcut : ¬Place.CutsLineEnd ['\\', '\r', '\n'] (taken' ++ r) :=
        not_cutsLineEnd_of_getLast? (by decide)
      exact Place.not_cutsLineEnd_append hcut (ih heq (by simpa using ht))
  | case3 c t hne taken' closed heq ih =>
      obtain ⟨rfl, rfl⟩ := Prod.mk.inj h
      obtain rfl : t = taken' ++ r := by simpa using ht
      have hcut : ¬Place.CutsLineEnd ['\\', c] (taken' ++ r) := by
        rintro ⟨hc, hfeed⟩
        obtain ⟨u, hu⟩ := List.head?_eq_some_iff.mp hfeed
        exact hne u (by simpa using hc) hu
      exact Place.not_cutsLineEnd_append hcut (ih heq rfl)
  | case4 t h₁ h₂ => cases h
  | case5 =>
      obtain ⟨rfl, -⟩ := Prod.mk.inj h
      exact not_cutsLineEnd_of_getLast? (by simp)
  | case6 c t h₁ h₂ hc hl taken' closed heq ih =>
      obtain ⟨rfl, rfl⟩ := Prod.mk.inj h
      have hcut : ¬Place.CutsLineEnd [c] (taken' ++ r) := by
        refine not_cutsLineEnd_of_getLast? fun hlast => hl ?_
        obtain rfl : c = '\r' := by simpa using hlast
        decide
      exact Place.not_cutsLineEnd_append hcut (ih heq (by simpa using ht))

/-- No line end is cut in two where the scanner goes on after a failure. -/
theorem FaultSite.Valid.not_cutsLineEnd {p : FaultSite} (hp : p.Valid) :
    ¬Place.CutsLineEnd p.read (p.ahead ++ p.rest) := by
  obtain ⟨gap, fault, read, ahead, rest⟩ := p
  have hsettled := hp.settled
  cases hp.fault with
  | invalidNumber _ hn =>
      have hline := numeral_oneLine (read ++ (ahead ++ rest))
      rw [hn] at hline
      exact not_cutsLineEnd_of_getLast? hline.getLast?
  | @unterminatedString quote w r hq hopen =>
      have hquote : ¬Place.CutsLineEnd [quote] (w ++ rest) := by
        refine not_cutsLineEnd_of_getLast? ?_
        obtain rfl | rfl := hq <;> decide
      exact Place.not_cutsLineEnd_append hquote (stringRest_not_cutsLineEnd hopen rfl)
  | @invalidEscape quote w r hq hclosed =>
      refine not_cutsLineEnd_of_getLast? fun hlast => ?_
      have hquote := getLast?_append_of_eq_some (s := [quote]) (stringRest_getLast? (hclosed []))
      rw [List.singleton_append, hlast] at hquote
      obtain rfl | rfl := hq <;> exact absurd hquote (by decide)
  | @unexpectedCharacter c r =>
      refine not_cutsLineEnd_of_getLast? fun hlast => ?_
      obtain rfl : c = '\r' := by simpa using hlast
      obtain ⟨h, -⟩ | h := hsettled
      · simp [isSettled, isLineTerminator] at h
      · cases h
  | unterminatedComment =>
      rintro ⟨-, h⟩
      cases h

/-- The word that is only looked at stands on one line. -/
theorem FaultAt.lineEnds {fault : LexicalFault} {read ahead r : Text}
    (h : FaultAt fault read ahead r) : (read ++ ahead).lineEnds = read.lineEnds := by
  obtain rfl | ⟨-, hparts⟩ := h.ahead_cases
  · rw [List.append_nil]
  · have hline := oneLine_of_isIdentifierPart hparts
    cases h with
    | invalidNumber _ hn =>
        have hread := numeral_oneLine (read ++ (ahead ++ r))
        rw [hn] at hread
        rw [(hread.append hline).lineEnds, hread.lineEnds]
    | _ => rw [List.append_nil]

/-! ## Trails -/

/-- A place behind a text of a source.  Its line falls short by the line ends that were not
counted, and there is nothing wrong with it if there are none. -/
structure Source.Lags (source : Source) (lost : Nat) (before : Text) (place : Place) : Prop where
  offset : place.offset = before.size
  line : place.line + UInt32.ofNat lost = (source.position before.size).line
  position : lost = 0 → place.toPosition = source.position before.size

namespace Scanner

/-- A scanner has read a text of its source, and has not counted some of the line ends in it. -/
structure Trails (source : Source) (before : Text) (lost : Nat) (s : Scanner) : Prop where
  split : source.content = before ++ s.rest
  offset : s.place.offset = before.size
  line : s.place.line + UInt32.ofNat lost = (Place.start.past before).line
  place : lost = 0 → s.place = Place.start.past before
  whole : ¬Place.CutsLineEnd before s.rest

theorem trails_ofText (source : Source) : (ofText source.content).Trails source [] 0 :=
  ⟨rfl, rfl, rfl, fun _ => rfl, by rintro ⟨h, -⟩; cases h⟩

namespace Trails

variable {source : Source} {before t r : Text} {lost : Nat} {s : Scanner}

/-- The place of the scanner lags behind by what was lost. -/
theorem lags (h : s.Trails source before lost) : source.Lags lost before s.place := by
  obtain ⟨hoffset, hposition⟩ := Place.start_past before s.rest
  rw [← h.split, hoffset] at hposition
  refine ⟨h.offset, ?_, fun h₀ => ?_⟩
  · rw [h.line]
    exact congrArg (·.line) hposition
  · rw [h.place h₀]
    exact hposition

/-- Line ends are counted in a text that is read. -/
theorem past (h : s.Trails source before lost) (hs : s.rest = t ++ r)
    (hcut : ¬Place.CutsLineEnd t r) {u : Scanner} (hrest : u.rest = r)
    (hplace : u.place = s.place.past t) : u.Trails source (before ++ t) lost := by
  have hwhole := h.whole
  rw [hs] at hwhole
  have hpast := Place.past_append Place.start (Place.not_cutsLineEnd_of_append hwhole)
  refine ⟨?_, ?_, ?_, fun h₀ => ?_, ?_⟩
  · rw [h.split, hs, hrest, List.append_assoc]
  · rw [hplace, Place.offset_past, h.offset, Text.size_append]
  · rw [hplace, hpast, Place.line_past, Place.line_past (Place.start.past before), ← h.line]
    ac_rfl
  · rw [hplace, hpast, h.place h₀]
  · rw [hrest]
    exact Place.not_cutsLineEnd_append hwhole hcut

/-- The line ends are lost in a text where the scanner fails. -/
theorem along (h : s.Trails source before lost) (hs : s.rest = t ++ r)
    (hcut : ¬Place.CutsLineEnd t r) {u : Scanner} (hrest : u.rest = r)
    (hplace : u.place = s.place.along t) :
    u.Trails source (before ++ t) (lost + t.lineEnds) := by
  have hwhole := h.whole
  rw [hs] at hwhole
  have hpast := Place.past_append Place.start (Place.not_cutsLineEnd_of_append hwhole)
  refine ⟨?_, ?_, ?_, fun h₀ => ?_, ?_⟩
  · rw [h.split, hs, hrest, List.append_assoc]
  · rw [hplace, Text.size_append, ← h.offset]
    rfl
  · rw [hplace, hpast, Place.line_past (Place.start.past before), ← h.line, UInt32.ofNat_add]
    show s.place.line + _ = _
    ac_rfl
  · obtain ⟨h₁, h₂⟩ := Nat.add_eq_zero_iff.mp h₀
    rw [hplace, hpast, ← h.place h₁, Place.along_eq_past _ (oneLine_of_lineEnds h₂)]
  · rw [hrest]
    exact Place.not_cutsLineEnd_append hwhole hcut

end Trails

/-! ## Calls -/

/-- The answers to some calls, whether there are failures among them or not. -/
def calls : Nat → Scanner → List (Except Failure Token)
  | 0, _ => []
  | n + 1, s =>
      match next.run s with
      | .ok t s => .ok t :: calls n s
      | .error f s => .error f :: calls n s

deriving instance DecidableEq for Except

/-- What a scanner answers behind a text of its source.  Each answer stands behind a gap, and the
next one comes behind its text.  A numeral that runs into a word is the exception, behind which the
word comes once more. -/
inductive Answered (source : Source) : Text → Nat → List (Except Failure Token) → Prop
  | stopped {before : Text} {lost : Nat} : Answered source before lost []
  | token {before rest : Text} {lost : Nat} {gap : Gap} {t : Token}
      {answers : List (Except Failure Token)} :
      source.content = before ++ gap.text ++ t.text ++ rest → gap.Fits (t.text ++ rest) →
      source.Lags lost (before ++ gap.text) t.place →
      Answered source (before ++ gap.text ++ t.text) lost answers →
      Answered source before lost (.ok t :: answers)
  | failed {before read ahead rest : Text} {lost : Nat} {gap : Gap} {fault : LexicalFault}
      {f : Failure} {answers : List (Except Failure Token)} :
      f.cause = .lexical fault (read ++ ahead) → read ≠ [] →
      (ahead = [] ∨ fault = .invalidNumber ∧ ∀ c ∈ ahead, isIdentifierPart c) →
      source.content = before ++ gap.text ++ f.text ++ rest → gap.Fits (f.text ++ rest) →
      source.Lags lost (before ++ gap.text) f.place →
      Answered source (before ++ gap.text ++ read) (lost + f.text.lineEnds) answers →
      Answered source before lost (.error f :: answers)

/-- A scanner goes on behind each token and behind each offending text. -/
theorem Trails.answered {source : Source} {before : Text} {lost : Nat} {s : Scanner} (n : Nat)
    (h : s.Trails source before lost) : Answered source before lost (s.calls n) := by
  induction n generalizing s before lost with
  | zero => exact .stopped
  | succ n ih =>
      rw [calls]
      obtain ⟨p, hp, hs⟩ | ⟨p, hp, hs⟩ := s.next_cases
      · have hgap := h.past (u := s.behind p.gap (p.text ++ p.rest)) hs hp.fits.not_cutsLineEnd
          rfl rfl
        have htoken := hgap.past (u := s.behindSite p) rfl hp.not_cutsLineEnd rfl rfl
        have hsplit := htoken.split
        rw [next_of_valid hp hs]
        exact .token hsplit hp.fits hgap.lags (ih htoken)
      · have hgap := h.past (u := s.behind p.gap (p.read ++ (p.ahead ++ p.rest))) hs
          hp.fits.not_cutsLineEnd rfl rfl
        have hfault := hgap.along (u := s.behindFault p) rfl hp.not_cutsLineEnd rfl rfl
        rw [← hp.fault.lineEnds] at hfault
        have htext : (p.read ++ p.ahead) ++ p.rest = p.read ++ (p.ahead ++ p.rest) :=
          List.append_assoc ..
        rw [next_of_fault hp hs]
        refine .failed rfl hp.fault.read_ne_nil hp.fault.ahead_cases ?_ (htext ▸ hp.fits) hgap.lags
          (ih hfault)
        show source.content = before ++ p.gap.text ++ (p.read ++ p.ahead) ++ p.rest
        rw [List.append_assoc _ (p.read ++ p.ahead), htext]
        exact hgap.split

end Scanner

/-- Whatever is asked of a scanner and however often it fails, each answer stands where it says.
The scanner goes on behind the offending text of a failure, but in front of the word that a numeral
has run into, and later lines fall short by the line ends in the offending texts. -/
theorem failures_resumed (source : Source) (n : Nat) :
    Scanner.Answered source [] 0 ((Scanner.ofText source.content).calls n) :=
  (Scanner.trails_ofText source).answered n

/-- The word that a numeral runs into is a part of the offending text, and it is read again. -/
theorem resumption_fails_for_numerals :
    (Scanner.ofText "3in".toList).calls 2 =
      [.error ⟨.lexical .invalidNumber "3in".toList, ⟨⟨1, 1⟩, 0⟩⟩,
        .ok ⟨.kwIn, "in".toList, ⟨⟨1, 2⟩, 1⟩, false⟩] := by
  decide +kernel

/-- A line ends in the offending text, and the name behind it is said to stand on the first line. -/
theorem resumption_fails_for_lines :
    (Scanner.ofText "\"\\x\\\n\"a".toList).calls 2 =
        [.error ⟨.lexical .invalidEscape "\"\\x\\\n\"".toList, ⟨⟨1, 1⟩, 0⟩⟩,
          .ok ⟨.identifier, "a".toList, ⟨⟨1, 7⟩, 6⟩, false⟩] ∧
      (Source.anonymous "\"\\x\\\n\"a".toList).position 6 = ⟨2, 2⟩ := by
  decide +kernel

end EcmaSyntax
