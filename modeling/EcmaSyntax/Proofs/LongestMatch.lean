import EcmaSyntax.Proofs.Steps
import EcmaSyntax.Proofs.TokenLanguages
import Mathlib.Tactic.SplitIfs

/-!
# The longest match

**Input.**  A text, and the languages that the kinds of tokens declare.

**Matches.**  `IsLongest w t` says that `w` is a token that `t` begins with, and that no token that
`t` begins with is longer, of whatever language.  `Classifies` says which kind such a text is given:
keywords come before identifiers, and increments are marked behind a line terminator.  `Blames`
describes the faults of a text at which no token is found.

**Results.**
* `Trivia.Fits.isLongest`: comments and line terminators are longest matches.
* `TokenAt.isLongest`: so are the tokens that the scanner finds.
* `longest_match`: each step of a scanner skips what stands between tokens, and then it finds the
  longest match and its kind, or says what is wrong with the text.
-/

namespace EcmaSyntax

/-! ## Matches -/

/-- A token that a text begins with, and no longer token begins the text. -/
structure IsLongest (w t : Text) : Prop where
  initial : w <+: t
  declared : ∃ k, Lexical k w
  longest : ∀ k v, Lexical k v → v <+: t → v.length ≤ w.length

/-- A match is the longest one if it is among those of the family of the text. -/
theorem IsLongest.intro {k : TokenKind} {w r : Text} (h : Lexical k w)
    (hlongest : ∀ k' v, Lexical k' v → v <+: w ++ r →
      Family.ofKind k' = Family.ofText (w ++ r) → v.length ≤ w.length) : IsLongest w (w ++ r) := by
  refine ⟨List.prefix_append _ _, ⟨k, h⟩, fun k' v hv hvt => ?_⟩
  obtain ⟨u, hu⟩ := hvt
  obtain hfamily | hone := hv.family_append u
  · exact hlongest k' v hv ⟨u, hu⟩ (hu ▸ hfamily.symm)
  · rw [hone]
    exact List.length_pos_iff.mpr h.ne_nil

/-- Characters of a class that a text begins with are no more than the longest run of them. -/
theorem length_le_of_run {p : Char → Bool} {v w r : Text} (hv : ∀ c ∈ v, p c) (hvt : v <+: w ++ r)
    (hw : ∀ c ∈ w, p c) (hr : ∀ c ∈ r.head?, p c = false) : v.length ≤ w.length := by
  obtain ⟨u, hu⟩ := hvt
  have := length_le_takeWhile (u := u) hv
  rwa [hu, takeWhile_append_eq hw hr] at this

theorem isLongest_numeral {w r : Text} (hw : w ≠ []) (h : numeral (w ++ r) = w) :
    IsLongest w (w ++ r) := by
  have hne : numeral (w ++ r) ≠ [] := by rwa [h]
  refine .intro (.number (h ▸ isNumeral_numeral hne)) fun k' v hv hvt hfamily => ?_
  have hv := hv.of_family
  rw [hfamily, Family.ofText_numeral hne] at hv
  obtain ⟨u, hu⟩ := hvt
  have := hv.2.length_le u
  rwa [hu, h] at this

theorem isLongest_literal {quote : Char} {w r : Text} (hquote : quote = '"' ∨ quote = '\'')
    (h : ∀ u, stringRest quote (w ++ u) = (w, true)) :
    IsLongest (quote :: w) (quote :: w ++ r) := by
  refine .intro (.string ((isClosedLiteral_iff hquote).mpr h)) fun k' v hv hvt hfamily => ?_
  have hne := hv.ne_nil
  have hv := hv.of_family
  rw [hfamily, List.cons_append, Family.ofText_quote hquote] at hv
  obtain ⟨c, v, rfl⟩ := List.exists_cons_of_ne_nil hne
  obtain ⟨rfl, u, hu⟩ := List.cons_prefix_cons.mp hvt
  -- both literals are what is taken behind the same quote
  have hclosed := (isClosedLiteral_iff hquote).mp hv.2 u
  have hw : (w, true) = (v, true) :=
    (h r).symm.trans ((congrArg (stringRest c) hu).symm.trans hclosed)
  exact Nat.le_of_eq (congrArg (fun x => (c :: x).length) (Prod.mk.inj hw).1.symm)

/-- Where no other family begins, the tokens are punctuators. -/
theorem Family.ofText_of_settled {c : Char} {t : Text} (hstart : isIdentifierStart c = false)
    (hnumeral : numeral (c :: t) = []) (hquote : c ≠ '"' ∧ c ≠ '\'')
    (hsettled : isSettled (c :: t)) : ofText (c :: t) = .punctuator := by
  have hdigit : isDecimalDigit c = false := Bool.eq_false_iff.mpr fun h =>
    numeral_ne_nil_iff.mpr (.inl h) hnumeral
  have hpoint : ¬(c = '.' ∧ t.head?.any isDecimalDigit = true) := by
    rintro ⟨rfl, h⟩
    cases t with
    | nil => cases h
    | cons d t => exact numeral_ne_nil_iff.mpr (.inr ⟨rfl, d, rfl, h⟩) hnumeral
  simp only [isSettled, Bool.and_eq_true, Bool.not_eq_true', Bool.and_eq_false_iff,
    Bool.or_eq_false_iff, decide_eq_false_iff_not] at hsettled
  obtain ⟨⟨hcomment, -⟩, hline⟩ := hsettled
  have hslashes : ¬(c = '/' ∧ t.head? = some '/') := fun h =>
    hcomment.elim (· h.1) fun hno => hno.1 h.2
  have hstar : ¬(c = '/' ∧ t.head? = some '*') := fun h =>
    hcomment.elim (· h.1) fun hno => hno.2 h.2
  simp [ofText, hstart, hdigit, hpoint, hquote.1, hquote.2, hline, hslashes, hstar]

namespace TokenAt

variable {k : TokenKind} {w r : Text}

theorem lexical (h : TokenAt k w r) : Lexical k w := by
  cases h with
  | @word c w _ hstart hw =>
      obtain hk | ⟨hk, hdisplay⟩ := wordKind_cases (c :: w)
      · rw [hk]
        exact .identifier hstart (List.forall_mem_cons.mp hw).2
      · have := Lexical.keyword hk
        rwa [hdisplay] at this
  | number hne hw =>
      have := isNumeral_numeral (by rwa [hw])
      rw [hw] at this
      exact .number this
  | string hquote hw => exact .string ((isClosedLiteral_iff hquote).mpr hw)
  | punctuator hp => exact .punctuator (punctuator?_eq_some_iff.mp hp).1

/-- The token that the scanner finds is the longest match. -/
theorem isLongest (h : TokenAt k w r) (hsettled : isSettled (w ++ r)) : IsLongest w (w ++ r) := by
  have hlexical := h.lexical
  cases h with
  | @word c w _ hstart hw hr =>
      refine .intro hlexical fun k' v hv hvt hfamily => ?_
      have hv := hv.of_family
      rw [hfamily, List.cons_append, Family.ofText, if_pos hstart] at hv
      exact length_le_of_run hv.1 hvt hw hr
  | number hne hw => exact isLongest_numeral hne hw
  | string hquote hw => exact isLongest_literal hquote hw
  | punctuator hp hnumeral =>
      obtain ⟨hk, -, hlongest⟩ := punctuator?_eq_some_iff.mp hp
      have hfamily : Family.ofText (k.display ++ r) = .punctuator := by
        obtain ⟨c, w, hw⟩ := List.exists_cons_of_ne_nil (punctuators_tail k hk).1
        obtain ⟨hstart, hquote⟩ := punctuators_start k hk c (by rw [hw]; rfl)
        rw [hw, List.cons_append] at hnumeral hsettled ⊢
        exact Family.ofText_of_settled hstart hnumeral hquote hsettled
      refine .intro hlexical fun k' v hv hvt hfamily' => ?_
      have hv := hv.of_family
      rw [hfamily', hfamily] at hv
      obtain ⟨hk', rfl⟩ := hv
      exact hlongest k' hk' hvt

/-- No word runs into a numeral. -/
theorem endsWord (h : TokenAt k w r) (hk : k = .number) : EndsWord r := by
  have hkinds : ∀ q ∈ TokenKind.keywords ++ TokenKind.punctuators, q ≠ .number := by decide +kernel
  cases h with
  | @word c w =>
      obtain hword | ⟨hword, -⟩ := wordKind_cases (c :: w)
      · rw [hword] at hk
        cases hk
      · exact absurd hk (hkinds _ (List.mem_append_left _ hword))
  | number _ _ hr => exact hr
  | string => cases hk
  | punctuator hp =>
      exact absurd hk (hkinds k (List.mem_append_right _ (punctuator?_eq_some_iff.mp hp).1))

/-- Keywords come before identifiers. -/
theorem not_keyword (h : TokenAt k w r) (hk : k = .identifier) :
    ∀ q ∈ TokenKind.keywords, w ≠ q.display := by
  have hkeywords : ∀ q ∈ TokenKind.keywords, wordKind q.display = q ∧ q ≠ .identifier := by
    decide +kernel
  cases h with
  | word =>
      intro q hq hw
      rw [hw, (hkeywords q hq).1] at hk
      exact (hkeywords q hq).2 hk
  | number => cases hk
  | string => cases hk
  | punctuator hp =>
      have hpunctuators : ∀ p ∈ TokenKind.punctuators, p ≠ .identifier := by decide +kernel
      exact absurd hk (hpunctuators k (punctuator?_eq_some_iff.mp hp).1)

end TokenAt

/-- Comments and line terminators between tokens are longest matches. -/
theorem Trivia.Fits.isLongest {piece : Trivia} {r : Text} (h : piece.Fits r)
    (hblank : ∀ c, piece ≠ .blank c) : IsLongest piece.text (piece.text ++ r) := by
  cases piece with
  | blank c => exact absurd rfl (hblank c)
  | newlines c more =>
      obtain ⟨hc, hmore, hr⟩ := h
      have hall : ∀ d ∈ c :: more, isLineTerminator d := List.forall_mem_cons.mpr ⟨hc, hmore⟩
      refine .intro (.lineBreak (List.cons_ne_nil _ _) hall) fun k' v hv hvt hfamily => ?_
      have hv := hv.of_family
      rw [hfamily, Trivia.text, List.cons_append, Family.ofText_lineTerminator hc] at hv
      exact length_le_of_run hv.2 hvt hall hr
  | line body =>
      obtain ⟨hbody, hr⟩ := h
      refine .intro (.lineComment hbody) fun k' v hv hvt hfamily => ?_
      have hv := hv.of_family
      have hfamily' : Family.ofText (Trivia.text (.line body) ++ r) = .lineComment := rfl
      rw [hfamily, hfamily'] at hv
      obtain ⟨-, body', rfl, hbody'⟩ := hv
      have hvt := (List.cons_prefix_cons.mp (List.cons_prefix_cons.mp hvt).2).2
      have hlength : body'.length ≤ body.length :=
        length_le_of_run (p := (!isLineTerminator ·)) (by simpa using hbody') hvt
          (by simpa using hbody) (by simpa using hr)
      simp only [Trivia.text, List.length_cons]
      omega
  | block body =>
      have hbody := (blockCommentRest?_iff.mp h).2
      refine .intro (.blockComment hbody) fun k' v hv hvt hfamily => ?_
      have hv := hv.of_family
      have hfamily' : Family.ofText (Trivia.text (.block body) ++ r) = .blockComment := rfl
      rw [hfamily, hfamily'] at hv
      obtain ⟨-, body', rfl, hbody'⟩ := hv
      have hvt := (List.cons_prefix_cons.mp (List.cons_prefix_cons.mp hvt).2).2
      have hread := (blockCommentRest?_append h r).symm.trans
        (blockCommentRest?_iff.mpr ⟨hvt, hbody'⟩)
      rw [Trivia.text, Option.some.inj hread]
      exact Nat.le_refl _

/-! ## Kinds -/

/-- The kind of a text that is a token, behind a gap in which a line ends or not. -/
structure Classifies (newline : Bool) (kind : TokenKind) (w : Text) : Prop where
  keyword : ∀ k ∈ TokenKind.keywords, kind = k ↔ w = k.display
  identifier : kind = .identifier ↔ Lexical .identifier w ∧
    ∀ k ∈ TokenKind.keywords, w ≠ k.display
  reserved : w ∈ futureReservedWords → kind = .identifier
  number : kind = .number ↔ IsNumeral w
  string : kind = .string ↔ IsClosedLiteral w
  punctuator : ∀ k ∈ TokenKind.punctuators,
    kind = Scanner.kindAfterGap newline k ↔ w = k.display
  restricted : kind = .restrictedIncrement ∨ kind = .restrictedDecrement ↔
    (w = ['+', '+'] ∨ w = ['-', '-']) ∧ newline = true

/-- A text that is a token has one kind, for keywords come before identifiers. -/
theorem Lexical.kind_eq {k k' : TokenKind} {w : Text} (h : Lexical k w) (h' : Lexical k' w)
    (hk : k = .identifier → ∀ q ∈ TokenKind.keywords, w ≠ q.display)
    (hk' : k' = .identifier → ∀ q ∈ TokenKind.keywords, w ≠ q.display) : k = k' := by
  have hkeywords : ∀ p ∈ TokenKind.keywords, ∀ q ∈ TokenKind.keywords,
      p.display = q.display → p = q := by decide +kernel
  have hfamily : Family.ofKind k' = Family.ofKind k := h'.family.symm.trans h.family
  have h := h.of_family
  have h' := h'.of_family
  rw [hfamily] at h'
  generalize Family.ofKind k = family at h h'
  cases family with
  | word =>
      obtain ⟨-, rfl | ⟨hmem, rfl⟩⟩ := h
      · obtain ⟨-, rfl | ⟨hmem', rfl⟩⟩ := h'
        · rfl
        · exact absurd rfl (hk rfl k' hmem')
      · obtain ⟨-, rfl | ⟨hmem', hw⟩⟩ := h'
        · exact absurd rfl (hk' rfl k hmem)
        · exact hkeywords k hmem k' hmem' hw
  | punctuator =>
      obtain ⟨hmem, rfl⟩ := h
      exact punctuators_injective k hmem k' h'.1 h'.2
  | _ => exact h.1.trans h'.1.symm

/-- The mark of an increment changes no other kind. -/
theorem kindAfterGap_eq_iff {newline : Bool} {k k' : TokenKind}
    (hk' : k' ≠ .increment ∧ k' ≠ .decrement ∧ k' ≠ .restrictedIncrement ∧
      k' ≠ .restrictedDecrement) : Scanner.kindAfterGap newline k = k' ↔ k = k' := by
  unfold Scanner.kindAfterGap
  split
  · cases newline <;> simp [hk'.1.symm, hk'.2.2.1.symm]
  · cases newline <;> simp [hk'.2.1.symm, hk'.2.2.2.symm]
  · rfl

/-- Kinds that carry no mark are told apart after a gap. -/
theorem kindAfterGap_inj {newline : Bool} {k k' : TokenKind}
    (hk : k ≠ .restrictedIncrement ∧ k ≠ .restrictedDecrement)
    (hk' : k' ≠ .restrictedIncrement ∧ k' ≠ .restrictedDecrement)
    (h : Scanner.kindAfterGap newline k = Scanner.kindAfterGap newline k') : k = k' := by
  have hunmark : ∀ q : TokenKind, q ≠ .restrictedIncrement ∧ q ≠ .restrictedDecrement →
      q = match Scanner.kindAfterGap newline q with
        | .restrictedIncrement => .increment
        | .restrictedDecrement => .decrement
        | kind => kind := by
    intro q hq
    unfold Scanner.kindAfterGap
    cases newline <;> cases q <;> simp_all
  rw [hunmark k hk, h, ← hunmark k' hk']

/-- Which increments are marked after a gap. -/
theorem kindAfterGap_restricted {newline : Bool} {k : TokenKind}
    (hk : k ≠ .restrictedIncrement ∧ k ≠ .restrictedDecrement) :
    Scanner.kindAfterGap newline k = .restrictedIncrement ∨
      Scanner.kindAfterGap newline k = .restrictedDecrement ↔
        (k = .increment ∨ k = .decrement) ∧ newline = true := by
  unfold Scanner.kindAfterGap
  split <;> cases newline <;> simp_all

theorem keywords_plain : ∀ k ∈ TokenKind.keywords, k ≠ .identifier ∧ k ≠ .increment ∧
    k ≠ .decrement ∧ k ≠ .restrictedIncrement ∧ k ≠ .restrictedDecrement := by decide +kernel

theorem punctuators_plain : ∀ k ∈ TokenKind.punctuators, k ≠ .identifier ∧
    k ≠ .restrictedIncrement ∧ k ≠ .restrictedDecrement := by decide +kernel

/-- A word that a later edition may reserve is an identifier. -/
theorem lexical_of_reserved {w : Text} (h : w ∈ futureReservedWords) :
    Lexical .identifier w ∧ ∀ q ∈ TokenKind.keywords, w ≠ q.display := by
  have hwords : ∀ w ∈ futureReservedWords, w.head?.any isIdentifierStart ∧
      w.tail.all isIdentifierPart ∧ ∀ q ∈ TokenKind.keywords, w ≠ q.display := by
    decide +kernel
  obtain ⟨hhead, hparts, hkeyword⟩ := hwords w h
  obtain ⟨c, hc, hstart⟩ := (Option.any_eq_true _ _).mp hhead
  obtain ⟨t, rfl⟩ := List.head?_eq_some_iff.mp hc
  exact ⟨.identifier hstart (List.all_eq_true.mp hparts), hkeyword⟩

namespace Lexical

variable {k : TokenKind} {w : Text}

theorem eq_display (h : Lexical k w) (hk : k ∈ TokenKind.keywords ∨ k ∈ TokenKind.punctuators) :
    w = k.display := by
  have h := h.of_family
  obtain hk | hk := hk
  · rw [Family.ofKind_keyword k hk] at h
    exact (h.2.resolve_left (keywords_plain k hk).1).2
  · rw [Family.ofKind_punctuator k hk] at h
    exact h.2

/-- The scanner gives a token the kind that its text has. -/
theorem classifies (h : Lexical k w)
    (hk : k = .identifier → ∀ q ∈ TokenKind.keywords, w ≠ q.display) (newline : Bool) :
    Classifies newline (Scanner.kindAfterGap newline k) w := by
  have hunmarked : k ≠ .restrictedIncrement ∧ k ≠ .restrictedDecrement := by
    cases h with
    | keyword hmem => exact (keywords_plain k hmem).2.2.2
    | punctuator hmem => exact (punctuators_plain k hmem).2
    | _ => simp
  refine ⟨fun q hq => ?_, ?_, fun hw => ?_, ?_, ?_, fun q hq => ?_, ?_⟩
  · rw [kindAfterGap_eq_iff (keywords_plain q hq).2]
    constructor
    · rintro rfl
      exact h.eq_display (.inl hq)
    · rintro rfl
      exact h.kind_eq (.keyword hq) hk fun hi => absurd hi (keywords_plain q hq).1
  · rw [kindAfterGap_eq_iff (by decide)]
    constructor
    · rintro rfl
      exact ⟨h, hk rfl⟩
    · rintro ⟨h', hne⟩
      exact h.kind_eq h' hk fun _ => hne
  · obtain ⟨h', hne⟩ := lexical_of_reserved hw
    rw [kindAfterGap_eq_iff (by decide)]
    exact h.kind_eq h' hk fun _ => hne
  · rw [kindAfterGap_eq_iff (by decide)]
    constructor
    · rintro rfl
      exact h.of_family.2
    · exact fun hw => h.kind_eq (.number hw) hk nofun
  · rw [kindAfterGap_eq_iff (by decide)]
    constructor
    · rintro rfl
      exact h.of_family.2
    · exact fun hw => h.kind_eq (.string hw) hk nofun
  · have hq' := punctuators_plain q hq
    constructor
    · intro heq
      obtain rfl := kindAfterGap_inj hunmarked hq'.2 heq
      exact h.eq_display (.inr hq)
    · rintro rfl
      rw [h.kind_eq (.punctuator hq) hk fun hi => absurd hi hq'.1]
  · rw [kindAfterGap_restricted hunmarked]
    refine and_congr_left fun _ => or_congr ⟨?_, fun hw => ?_⟩ ⟨?_, fun hw => ?_⟩
    · rintro rfl
      exact h.eq_display (.inr (by decide))
    · have hincrement : Lexical .increment w := hw ▸ .punctuator (by decide)
      exact h.kind_eq hincrement hk nofun
    · rintro rfl
      exact h.eq_display (.inr (by decide))
    · have hdecrement : Lexical .decrement w := hw ▸ .punctuator (by decide)
      exact h.kind_eq hdecrement hk nofun

end Lexical

/-! ## Faults -/

/-- Something that a text must begin with for a token to be found: a token of some language, or
what opens a string or a block comment. -/
def Opens (w : Text) : Prop :=
  (∃ k, Lexical k w) ∨ w = ['"'] ∨ w = ['\''] ∨ w = ['/', '*']

/-- A fault, the offending text, and the text that it was found in. -/
inductive Blames : LexicalFault → Text → Text → Prop
  /-- The longest match is a numeral, and identifier characters follow. -/
  | invalidNumber {w v r : Text} : IsNumeral w → IsLongest w (w ++ (v ++ r)) → v ≠ [] →
      (∀ c ∈ v, isIdentifierPart c) → EndsWord r → Blames .invalidNumber (w ++ v) (w ++ (v ++ r))
  /-- The longest match is a string, and one of its escapes is incomplete. -/
  | invalidEscape {quote : Char} {w r : Text} : IsClosedLiteral (quote :: w) →
      IsLongest (quote :: w) (quote :: (w ++ r)) → wellEscaped w = false →
      Blames .invalidEscape (quote :: w) (quote :: (w ++ r))
  /-- A string is opened and not closed. -/
  | unterminatedString {quote : Char} {w r : Text} : quote = '"' ∨ quote = '\'' →
      (∀ v, IsClosedLiteral v → ¬v <+: quote :: (w ++ r)) →
      Blames .unterminatedString (quote :: w) (quote :: (w ++ r))
  /-- A block comment is opened and not closed. -/
  | unterminatedComment {u : Text} :
      (∀ v, Lexical .blockComment v → ¬v <+: '/' :: '*' :: u) →
      Blames .unterminatedComment ('/' :: '*' :: u) ('/' :: '*' :: u)
  /-- Nothing that opens a token stands here. -/
  | unexpectedCharacter {c : Char} {t : Text} : (∀ w, Opens w → ¬w <+: c :: t) →
      Blames .unexpectedCharacter [c] (c :: t)

/-- A character is unexpected exactly where nothing opens a token. -/
theorem Blames.unexpectedCharacter_iff {fault : LexicalFault} {w t : Text}
    (h : Blames fault w t) : fault = .unexpectedCharacter ↔ ∀ v, Opens v → ¬v <+: t := by
  cases h with
  | invalidNumber hw hlongest =>
      exact ⟨nofun, fun h => absurd hlongest.initial (h _ (.inl hlongest.declared))⟩
  | invalidEscape hw hlongest =>
      exact ⟨nofun, fun h => absurd hlongest.initial (h _ (.inl hlongest.declared))⟩
  | @unterminatedString quote w r hquote =>
      refine ⟨nofun, fun h => absurd ⟨w ++ r, rfl⟩ (h [quote] (.inr ?_))⟩
      obtain rfl | rfl := hquote
      · exact .inl rfl
      · exact .inr (.inl rfl)
  | @unterminatedComment u =>
      exact ⟨nofun, fun h => absurd ⟨u, rfl⟩ (h ['/', '*'] (.inr (.inr (.inr rfl))))⟩
  | unexpectedCharacter h => exact ⟨fun _ => h, fun _ => rfl⟩

/-- Where no token can start, nothing that opens one stands. -/
theorem not_opens {c : Char} {t w : Text} (hstart : isIdentifierStart c = false)
    (hnumeral : numeral (c :: t) = []) (hquote : c ≠ '"' ∧ c ≠ '\'')
    (hpunctuator : punctuator? (c :: t) = none) (hsettled : isSettled (c :: t)) (h : Opens w) :
    ¬w <+: c :: t := by
  rintro ⟨u, hu⟩
  obtain ⟨k, h⟩ | rfl | rfl | rfl := h
  · obtain ⟨d, v, rfl⟩ := List.exists_cons_of_ne_nil h.ne_nil
    obtain ⟨rfl, rfl⟩ := List.cons.inj hu
    -- a token of one character is of the family of that character alone
    have hfamily : Family.ofText (d :: v) ≠ .word := by
      rw [Family.ofText, if_neg (by simp [hstart])]
      split_ifs <;> exact Family.noConfusion
    rw [h.family] at hfamily
    have h := h.of_family
    generalize Family.ofKind k = family at h hfamily
    simp only [isSettled, Bool.and_eq_true, Bool.not_eq_true', Bool.and_eq_false_iff,
      Bool.or_eq_false_iff, decide_eq_false_iff_not] at hsettled
    cases family with
    | word => exact absurd rfl hfamily
    | number =>
        have hlength := h.2.length_le u
        rw [hu, hnumeral] at hlength
        exact absurd hlength (by simp)
    | string =>
        obtain ⟨-, quote, parts, hq, -, heq⟩ := h
        obtain ⟨rfl, -⟩ := List.cons.inj heq
        exact hq.elim hquote.1 hquote.2
    | punctuator =>
        rw [punctuator?, List.find?_eq_none] at hpunctuator
        exact hpunctuator k h.1 (List.isPrefixOf_iff_prefix.mpr ⟨u, h.2 ▸ hu⟩)
    | lineBreak =>
        have := h.2 d (by simp)
        rw [hsettled.2] at this
        cases this
    | lineComment =>
        obtain ⟨-, body, heq, -⟩ := h
        obtain ⟨rfl, rfl⟩ := List.cons.inj heq
        exact hsettled.1.1.elim (· rfl) fun hno => hno.1 rfl
    | blockComment =>
        obtain ⟨-, body, heq, -⟩ := h
        obtain ⟨rfl, rfl⟩ := List.cons.inj heq
        exact hsettled.1.1.elim (· rfl) fun hno => hno.2 rfl
  · exact hquote.1 (List.cons.inj hu).1.symm
  · exact hquote.2 (List.cons.inj hu).1.symm
  · obtain ⟨rfl, rfl⟩ := List.cons.inj hu
    simp [isSettled] at hsettled

/-- The faults that the scanner finds. -/
theorem FaultSite.Valid.blames {p : FaultSite} (hp : p.Valid) :
    Blames p.fault (p.read ++ p.ahead) (p.read ++ (p.ahead ++ p.rest)) := by
  obtain ⟨gap, fault, read, ahead, rest⟩ := p
  cases hp.fault with
  | invalidNumber hw hnumeral hv hparts hend =>
      have hne : numeral (read ++ (ahead ++ rest)) ≠ [] := by rwa [hnumeral]
      exact .invalidNumber (hnumeral ▸ isNumeral_numeral hne) (isLongest_numeral hw hnumeral) hv
        hparts hend
  | @unterminatedString quote w _ hquote hclosed =>
      simp only [List.append_nil, List.nil_append]
      refine .unterminatedString hquote fun v hv hvt => ?_
      -- what is taken behind the quote would be closed
      obtain ⟨c, v, rfl⟩ := List.exists_cons_of_ne_nil (Lexical.string hv).ne_nil
      obtain ⟨rfl, u, hu⟩ := List.cons_prefix_cons.mp hvt
      have hread := (isClosedLiteral_iff hquote).mp hv u
      rw [hu, hclosed] at hread
      cases hread
  | @invalidEscape quote w _ hquote hclosed hescaped =>
      simp only [List.append_nil, List.nil_append]
      exact .invalidEscape ((isClosedLiteral_iff hquote).mpr hclosed)
        (isLongest_literal hquote hclosed) hescaped
  | @unexpectedCharacter c _ hstart hnumeral hpunctuator =>
      obtain ⟨hsettled, hlex⟩ := hp.settled.resolve_right (by simp)
      have hquote : ¬(c = '"' ∨ c = '\'') := by
        intro hquote
        have hstring : some (stringLexeme c rest) = some (.faulty .unexpectedCharacter [c] []) :=
          (lexeme?_of_quote hquote rest).symm.trans hlex
        unfold stringLexeme at hstring
        split at hstring
        split_ifs at hstring <;> cases hstring
      rw [not_or] at hquote
      exact .unexpectedCharacter fun w => not_opens hstart hnumeral hquote hpunctuator hsettled
  | unterminatedComment hw =>
      obtain ⟨u, rfl, hu⟩ := hw
      simp only [List.append_nil]
      refine .unterminatedComment fun v hv hvt => ?_
      obtain ⟨-, body, rfl, hbody⟩ := hv.of_family
      have hvt := (List.cons_prefix_cons.mp (List.cons_prefix_cons.mp hvt).2).2
      rw [blockCommentRest?_iff.mpr ⟨hvt, hbody⟩] at hu
      cases hu

/-! ## Steps of a scanner -/

/-- What a scanner finds behind a gap, in front of a text: at the end of the input the token for it,
and otherwise the longest match with its kind, into which no word runs if it is a numeral; or what
is wrong with the text. -/
def Finds (s : Scanner) (g : Gap) (t : Text) : EStateM.Result Failure Scanner Token → Prop
  | .ok token s' =>
      token.place.offset = s.place.offset + g.text.size ∧
      token.newlineBefore = g.text.any isLineTerminator ∧ t = token.text ++ s'.rest ∧
      (t = [] ∧ token.kind = .endOfInput ∨
        IsLongest token.text t ∧ Classifies token.newlineBefore token.kind token.text ∧
          (token.kind = .number → EndsWord s'.rest))
  | .error f _ =>
      f.place.offset = s.place.offset + g.text.size ∧
      ∃ fault w, f.cause = .lexical fault w ∧ Blames fault w t ∧
        (fault = .unexpectedCharacter ↔ ∀ v, Opens v → ¬v <+: t)

/-- The pieces of a gap between tokens, but for blanks, are longest matches too. -/
theorem Gap.Fits.isLongest {g : Gap} {t : Text} (h : g.Fits t) {front back : Gap} {piece : Trivia}
    (hg : g = front ++ piece :: back) :
    (∃ c, piece = .blank c ∧ isBlank c) ∨
      IsLongest piece.text (piece.text ++ (Gap.text back ++ t)) := by
  induction front generalizing g with
  | nil =>
      subst hg
      cases piece with
      | blank c => exact .inl ⟨c, rfl, h.1⟩
      | _ => exact .inr (h.1.isLongest (fun _ => nofun))
  | cons first front ih =>
      subst hg
      exact ih h.2 rfl

theorem finds_site {s : Scanner} {p : Site} (hp : p.Valid) (hs : s.rest = p.all) :
    Finds s p.gap (p.text ++ p.rest) (Scanner.next.run s) := by
  rw [Scanner.next_of_valid hp hs]
  have hnewline : p.newline = p.gap.text.any isLineTerminator := hp.fits.endsLine_eq
  refine ⟨Place.offset_past _ _, hnewline, rfl, ?_⟩
  obtain ⟨hk, ht, hr⟩ | htoken := hp.token
  · refine .inl ⟨by rw [ht, hr]; rfl, ?_⟩
    show Scanner.kindAfterGap p.newline p.kind = _
    rw [hk]
    rfl
  · have hclassifies := htoken.lexical.classifies htoken.not_keyword p.newline
    refine .inr ⟨htoken.isLongest hp.settled, hclassifies, fun hnumber => ?_⟩
    have hk : p.kind = .number := (kindAfterGap_eq_iff (by decide)).mp hnumber
    exact htoken.endsWord hk

theorem finds_fault {s : Scanner} {p : FaultSite} (hp : p.Valid) (hs : s.rest = p.all) :
    Finds s p.gap (p.read ++ (p.ahead ++ p.rest)) (Scanner.next.run s) := by
  rw [Scanner.next_of_fault hp hs]
  exact ⟨Place.offset_past _ _, p.fault, p.read ++ p.ahead, rfl, hp.blames,
    hp.blames.unexpectedCharacter_iff⟩

/-- A step of a scanner skips the blanks, line terminators and comments that come next, each of the
latter as the longest match there, and reads the longest match behind them.  The kind of that match
is settled by its text, for the increments together with the line terminators that were skipped.  A
numeral into which a word runs is at fault with that word, and a character is unexpected exactly
where no token of any language starts. -/
theorem longest_match (s : Scanner) : ∃ (g : Gap) (t : Text), s.rest = g.text ++ t ∧
    (isSettled t ∨ IsUnclosed t) ∧
    (∀ front piece back, g = front ++ piece :: back →
      (∃ c, piece = .blank c ∧ isBlank c) ∨
        IsLongest piece.text (piece.text ++ (Gap.text back ++ t))) ∧
    Finds s g t (Scanner.next.run s) := by
  obtain ⟨p, hp, hs⟩ | ⟨p, hp, hs⟩ := s.next_cases
  · exact ⟨p.gap, p.text ++ p.rest, hs, .inl hp.settled, fun _ _ _ => hp.fits.isLongest,
      finds_site hp hs⟩
  · refine ⟨p.gap, p.read ++ (p.ahead ++ p.rest), hs, ?_, fun _ _ _ => hp.fits.isLongest,
      finds_fault hp hs⟩
    obtain ⟨hsettled, -⟩ | hunterminated := hp.settled
    · exact .inl hsettled
    · have hfault := hp.fault
      rw [hunterminated] at hfault
      generalize p.rest = r, p.ahead = v, p.read = w at hfault ⊢
      cases hfault with
      | unterminatedComment hw =>
          rw [List.nil_append, List.append_nil]
          exact .inr hw

end EcmaSyntax
