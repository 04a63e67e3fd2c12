import EcmaSyntax.Proofs.Site

/-!
# Steps of a scanner

**Faults.**  Where no token can be read there is a fault: the gap before it, the text that was
read, the text ahead that was only looked at, and the text after it.  The offending text is what
was read with what was looked at.

**Tracks.**  A scanner tracks its source if what it has read and what is left of it make up the
source.  Lines and columns play no part in this, so it is true after a failure too.

**Results.**
* `exists_faultAt`: the faults by their classes.  Something was read, and only a numeral that runs
  into a word looks ahead.
* `Scanner.next_cases`: each step of a scanner finds a token or a fault.
* `Scanner.next_of_fault`: a step that finds a fault leaves the scanner behind what was read.
* `Scanner.rescan_cases`: a slash is read again as a literal, or the rest of its line is at fault.
-/

namespace EcmaSyntax

/-! ## Faults by their classes -/

theorem stringRest_prefix (quote : Char) (t : Text) : (stringRest quote t).1 <+: t := by
  fun_induction stringRest quote t with
  | case1 => exact List.nil_prefix
  | case2 t taken closed heq ih =>
      rw [heq] at ih
      exact (List.prefix_append_right_inj ['\\', '\r', '\n']).mpr ih
  | case3 c t hne taken closed heq ih =>
      rw [heq] at ih
      exact (List.prefix_append_right_inj ['\\', c]).mpr ih
  | case4 t h₁ h₂ => exact ⟨t, rfl⟩
  | case5 => exact List.nil_prefix
  | case6 c t h₁ h₂ hc hl taken closed heq ih =>
      rw [heq] at ih
      exact (List.prefix_append_right_inj [c]).mpr ih

/-- A fault in front of a text: what was read, and what was looked at ahead of it. -/
inductive FaultAt : LexicalFault → Text → Text → Text → Prop
  | invalidNumber {w v r : Text} : w ≠ [] → numeral (w ++ (v ++ r)) = w → v ≠ [] →
      (∀ c ∈ v, isIdentifierPart c) → EndsWord r → FaultAt .invalidNumber w v r
  | unterminatedString {quote : Char} {w r : Text} : quote = '"' ∨ quote = '\'' →
      stringRest quote (w ++ r) = (w, false) → FaultAt .unterminatedString (quote :: w) [] r
  | invalidEscape {quote : Char} {w r : Text} : quote = '"' ∨ quote = '\'' →
      (∀ u, stringRest quote (w ++ u) = (w, true)) → wellEscaped w = false →
      FaultAt .invalidEscape (quote :: w) [] r
  | unexpectedCharacter {c : Char} {r : Text} : isIdentifierStart c = false →
      numeral (c :: r) = [] → punctuator? (c :: r) = none →
      FaultAt .unexpectedCharacter [c] [] r
  | unterminatedComment {w : Text} : IsUnclosed w → FaultAt .unterminatedComment w [] []

/-- The word at the head of a text and what follows it. -/
theorem word_split (t : Text) : ∃ r, t = word t ++ r ∧ (∀ c ∈ word t, isIdentifierPart c) ∧
    EndsWord r := by
  refine ⟨t.dropWhile isIdentifierPart, List.takeWhile_append_dropWhile.symm,
    fun c hc => of_mem_takeWhile hc, fun c hc => ?_⟩
  have := List.head?_dropWhile_not isIdentifierPart t
  rw [hc] at this
  simpa using this

theorem exists_faultAt_of_string {quote : Char} {t read ahead : Text} {fault : LexicalFault}
    (hq : quote = '"' ∨ quote = '\'') (h : stringLexeme quote t = .faulty fault read ahead) :
    ∃ r, quote :: t = read ++ (ahead ++ r) ∧ FaultAt fault read ahead r := by
  unfold stringLexeme at h
  obtain ⟨r, hr⟩ := stringRest_prefix quote t
  generalize hrest : stringRest quote t = rest at h hr
  obtain ⟨taken, closed⟩ := rest
  rw [← hr] at hrest ⊢
  cases closed with
  | false =>
      injection h with hfault hread hahead
      subst hfault hread hahead
      exact ⟨r, rfl, .unterminatedString hq hrest⟩
  | true =>
      simp only [Bool.not_true, Bool.false_eq_true, if_false] at h
      split at h
      · cases h
      · next hescaped =>
          injection h with hfault hread hahead
          subst hfault hread hahead
          have hslash : quote ≠ '\\' := by
            rintro rfl
            exact absurd hq (by decide)
          obtain ⟨-, -, hclosed⟩ := stringRest_split hslash hrest
          exact ⟨r, rfl, .invalidEscape hq hclosed (Bool.eq_false_iff.mpr hescaped)⟩

/-- Whatever fault the scanner finds stands at the head of the text. -/
theorem exists_faultAt {t read ahead : Text} {fault : LexicalFault}
    (h : lexeme? t = some (.faulty fault read ahead)) :
    ∃ r, t = read ++ (ahead ++ r) ∧ FaultAt fault read ahead r := by
  cases t with
  | nil => cases h
  | cons c t =>
      have h := Option.some.inj h
      split at h
      · cases h
      · next hstart =>
          split at h
          · next hne =>
              unfold numeralLexeme at h
              obtain ⟨r, hr⟩ := numeral_split (c :: t)
              generalize hw : numeral (c :: t) = digits at h hr hne
              rw [hr] at hw h ⊢
              simp only [List.drop_left] at h
              split at h
              · cases h
              · next hahead =>
                  injection h with hfault hread hword
                  obtain ⟨u, hu, hparts, hend⟩ := word_split r
                  subst hfault hread hword
                  refine ⟨u, congrArg (digits ++ ·) hu, .invalidNumber hne ?_ hahead hparts hend⟩
                  rwa [← hu]
          · next hnil =>
              split at h
              · next hquote => exact exists_faultAt_of_string (by simpa using hquote) h
              · split at h
                · cases h
                · next hnone =>
                    injection h with hfault hread hahead
                    subst hfault hread hahead
                    exact ⟨t, rfl, .unexpectedCharacter (Bool.eq_false_iff.mpr hstart)
                      (Classical.not_not.mp hnil) hnone⟩

namespace FaultAt

variable {fault : LexicalFault} {read ahead r : Text}

theorem read_ne_nil (h : FaultAt fault read ahead r) : read ≠ [] := by
  cases h with
  | invalidNumber hw => exact hw
  | unterminatedComment hw =>
      obtain ⟨u, rfl, -⟩ := hw
      exact List.cons_ne_nil _ _
  | _ => exact List.cons_ne_nil _ _

/-- Only a numeral looks ahead, and what it looks at is the word that it runs into. -/
theorem ahead_cases (h : FaultAt fault read ahead r) : ahead = [] ∨
    fault = .invalidNumber ∧ (∀ c ∈ ahead, isIdentifierPart c) := by
  cases h with
  | invalidNumber _ _ _ hv => exact .inr ⟨rfl, hv⟩
  | _ => exact .inl rfl

end FaultAt

/-! ## The scanner -/

/-- A fault with the gap before it and the text after it. -/
structure FaultSite where
  gap : Gap
  fault : LexicalFault
  /-- The part of the offending text that is taken off the input. -/
  read : Text
  /-- The part of the offending text that is left. -/
  ahead : Text
  rest : Text

namespace FaultSite

/-- The text from the gap on. -/
def all (p : FaultSite) : Text := p.gap.text ++ (p.read ++ (p.ahead ++ p.rest))

/-- The failure at a place. -/
def toFailure (p : FaultSite) (place : Place) : Failure :=
  ⟨.lexical p.fault (p.read ++ p.ahead), place⟩

/-- The scanner finds the gap and the fault. -/
structure Valid (p : FaultSite) : Prop where
  fits : p.gap.Fits (p.read ++ (p.ahead ++ p.rest))
  settled : isSettled (p.read ++ (p.ahead ++ p.rest)) ∧
      lexeme? (p.read ++ (p.ahead ++ p.rest)) = some (.faulty p.fault p.read p.ahead) ∨
    p.fault = .unterminatedComment
  fault : FaultAt p.fault p.read p.ahead p.rest

end FaultSite

namespace Scanner

variable {s : Scanner}

/-- The scanner behind what was read of an offending text. -/
def behindFault (s : Scanner) (p : FaultSite) : Scanner :=
  { s.behind p.gap (p.ahead ++ p.rest) with
    place := (s.place.past p.gap.text).along p.read }

@[simp] theorem rest_behindFault (s : Scanner) (p : FaultSite) :
    (s.behindFault p).rest = p.ahead ++ p.rest := rfl

/-- A step that finds a fault fails there. -/
theorem next_of_fault {p : FaultSite} (hp : p.Valid) (hs : s.rest = p.all) :
    next.run s = .error (p.toFailure (s.place.past p.gap.text)) (s.behindFault p) := by
  obtain ⟨gap, fault, read, ahead, rest⟩ := p
  have hskip := skipGap_append false hs hp.fits
  rw [run_next, hskip]
  obtain ⟨hsettled, hlex⟩ | hfault := hp.settled
  · rw [skipGap_settled _ hsettled]
    simp only [readToken, rest_behind, hlex]
    simp [skipAlong, behind, behindFault, FaultSite.toFailure]
  · obtain rfl : fault = .unterminatedComment := hfault
    cases hp.fault with
    | unterminatedComment hw =>
        obtain ⟨u, rfl, hu⟩ := hw
        rw [skipGap_unclosed (t := u) _ (by simp) hu]
        simp [skipAlong, behind, behindFault, FaultSite.toFailure]

/-- A step of a scanner finds a token or a fault. -/
theorem next_cases (s : Scanner) : (∃ p : Site, p.Valid ∧ s.rest = p.all) ∨
    ∃ p : FaultSite, p.Valid ∧ s.rest = p.all := by
  obtain ⟨g, t, hr, hg, ht⟩ := exists_cut false s
  by_cases hunclosed : IsUnclosed t
  · rw [← List.append_nil t] at hr hg
    exact .inr ⟨⟨g, .unterminatedComment, t, [], []⟩,
      ⟨hg, .inr rfl, .unterminatedComment hunclosed⟩, hr⟩
  · have hsettled : isSettled t := ht.resolve_right hunclosed
    cases hlex : lexeme? t with
    | none =>
        cases t with
        | nil => exact .inl ⟨⟨g, .endOfInput, [], []⟩, ⟨hg, hsettled, .inl ⟨rfl, rfl, rfl⟩⟩, hr⟩
        | cons => cases hlex
    | some lex =>
        cases lex with
        | token k w =>
            obtain ⟨r, rfl, hw⟩ := exists_tokenAt hlex
            exact .inl ⟨⟨g, k, w, r⟩, ⟨hg, hsettled, .inr hw⟩, hr⟩
        | faulty fault read ahead =>
            obtain ⟨r, rfl, hfault⟩ := exists_faultAt hlex
            exact .inr ⟨⟨g, fault, read, ahead, r⟩, ⟨hg, .inl ⟨hsettled, hlex⟩, hfault⟩, hr⟩

/-! ## Tracks -/

/-- A scanner has read a text, and what is left follows it in the source. -/
structure Tracks (s : Scanner) (before : Text) : Prop where
  source : s.source = before ++ s.rest
  offset : s.place.offset = before.size

theorem tracks_ofText (source : Text) : (ofText source).Tracks [] := ⟨rfl, rfl⟩

namespace Tracks

variable {before : Text}

theorem behindSite {p : Site} (h : s.Tracks before) (hs : s.rest = p.all) :
    (s.behindSite p).Tracks (before ++ (p.gap.text ++ p.text)) := by
  refine ⟨?_, ?_⟩
  · rw [source_behindSite, rest_behindSite, h.source, hs, Site.all]
    simp
  · rw [offset_behindSite, h.offset, Site.stop, Site.start]
    simp [Nat.add_assoc]

theorem behindFault {p : FaultSite} (h : s.Tracks before) (hs : s.rest = p.all) :
    (s.behindFault p).Tracks (before ++ (p.gap.text ++ p.read)) := by
  refine ⟨?_, ?_⟩
  · show s.source = before ++ (p.gap.text ++ p.read) ++ (p.ahead ++ p.rest)
    rw [h.source, hs, FaultSite.all]
    simp
  · show (s.place.past p.gap.text).offset + p.read.size = _
    rw [Place.offset_past, h.offset]
    simp [Nat.add_assoc]

end Tracks

/-! ## Slashes -/

/-- A slash is read again in the source, from behind it. -/
theorem run_rescan {slash : Token} {before after : Text} (hs : s.source = before ++ '/' :: after)
    (hoffset : slash.place.offset = before.size) : (rescan slash).run s =
      match regexLiteral? after with
      | some text => .ok { slash with kind := .regex, text }
          { s with
            rest := after.drop (text.length - 1)
            place := { slash.place.along text with line := s.place.line } }
      | none => .error ⟨.lexical .unterminatedRegex
          (('/' :: after).takeWhile (!isLineTerminator ·)), slash.place⟩ s := by
  have hdrop : s.source.dropBytes slash.place.offset = '/' :: after := by
    rw [hs, hoffset, Text.dropBytes_size]
  have hafter : s.source.dropBytes (slash.place.offset + 1) = after := by
    have hdrop' := Text.dropBytes_size (before ++ ['/']) after
    rwa [List.append_assoc, List.singleton_append, ← hs, Text.size_append, ← hoffset] at hdrop'
  unfold EStateM.run rescan
  cases hregex : regexLiteral? after with
  | some text => simp only [hafter, hregex]
  | none => simp only [hafter, hdrop, hregex]

/-- A slash that the scanner stands behind is read again as a literal, which is longer than the
slash was, or the rest of its line is at fault. -/
theorem rescan_cases (slash : Token) {before : Text} (h : s.Tracks (before ++ slash.text))
    (hslash : slash.text.head? = some '/') (hoffset : slash.place.offset = before.size) :
    (∃ body r s', slash.text ++ s.rest = '/' :: body ++ r ∧ 2 ≤ body.length ∧
      (rescan slash).run s = .ok { slash with kind := .regex, text := '/' :: body } s' ∧
      s'.Tracks (before ++ '/' :: body) ∧ s'.rest = r ∧ s'.comments = s.comments) ∨
    ∃ text unread, slash.text ++ s.rest = text ++ unread ∧ text ≠ [] ∧
      (rescan slash).run s = .error ⟨.lexical .unterminatedRegex text, slash.place⟩ s := by
  obtain ⟨more, hmore⟩ := List.head?_eq_some_iff.mp hslash
  have hsource : s.source = before ++ '/' :: (more ++ s.rest) := by
    rw [h.source, hmore]
    simp
  rw [run_rescan hsource hoffset, hmore, List.cons_append]
  cases hregex : regexLiteral? (more ++ s.rest) with
  | none =>
      refine .inr ⟨_, _, List.takeWhile_append_dropWhile.symm, ?_, rfl⟩
      rw [List.takeWhile_cons, if_pos (by decide)]
      exact List.cons_ne_nil _ _
  | some w =>
      obtain ⟨c, pattern, flags, r, rfl, hr, -⟩ := regexLiteral?_eq_some_iff.mp hregex
      have hbody : more ++ s.rest = (c :: pattern ++ '/' :: flags) ++ r := by
        rw [hr]
        simp
      have hrest : (more ++ s.rest).drop
          (('/' :: c :: pattern ++ '/' :: flags).length - 1) = r := by
        rw [hbody]
        exact List.drop_left
      refine .inl ⟨c :: pattern ++ '/' :: flags, r, _, congrArg ('/' :: ·) hbody, ?_, rfl,
        ⟨?_, ?_⟩, hrest, rfl⟩
      · simp only [List.length_append, List.length_cons]
        omega
      · show s.source = before ++ '/' :: (c :: pattern ++ '/' :: flags) ++
          (more ++ s.rest).drop (('/' :: c :: pattern ++ '/' :: flags).length - 1)
        rw [hrest, hsource, hbody]
        simp
      · show slash.place.offset + _ = _
        rw [hoffset, List.cons_append, Text.size_append]

end Scanner

end EcmaSyntax
