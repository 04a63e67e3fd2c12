import EcmaSyntax.Proofs.Trivia

/-!
# Where a token ends

**Input.**  A text `w ++ r` at whose head the scanner finds the token `w`.

**Results.**
* `lexeme?_token`: a token is a part of the text that it is found in, and it is not empty.
* `TokenAt.congr`: the same token is found in `w ++ r'`, if `r'` starts like `r`, or with a
  semicolon, or with white space, or is empty.
* `regexLiteral?_congr`: the same holds of regular expressions.

No look ahead of more than one character is needed, because each class of tokens ends where
the next character does not belong to it.
-/

namespace EcmaSyntax

/-- White space, line terminators among it. -/
def isSpacing (c : Char) : Bool := isBlank c || isLineTerminator c

/-- White space is a control character, a space or no ASCII character. -/
theorem isSpacing_bounds {c : Char} (h : isSpacing c) : c.toNat ≤ 32 ∨ 160 ≤ c.toNat := by
  simp only [isSpacing, isBlank, isLineTerminator, Bool.or_eq_true, Bool.and_eq_true,
    decide_eq_true_eq, Char.le_def, UInt32.le_iff_toNat_le] at h
  have hlow : '\u2000'.val.toNat = 0x2000 := rfl
  rw [hlow, ← Char.toNat] at h
  rcases h with (((((((((((rfl | rfl) | rfl) | rfl) | rfl) | rfl) | rfl) | h) | rfl) | rfl) | rfl) |
    (((rfl | rfl) | rfl) | rfl))
  all_goals first | decide | omega

/-- The characters that an identifier may start with, by their code points. -/
theorem isIdentifierStart_iff {c : Char} : isIdentifierStart c ↔
    (65 ≤ c.toNat ∧ c.toNat ≤ 90 ∨ 97 ≤ c.toNat ∧ c.toNat ≤ 122) ∨ c = '_' ∨ c = '$' := by
  have h : isIdentifierStart c = (decide ('A'.val ≤ c.val ∧ c.val ≤ 'Z'.val) ||
      (decide ('a'.val ≤ c.val) && decide (c.val ≤ 'z'.val)) || decide (c = '_') ||
      decide (c = '$')) := rfl
  simp only [h, Bool.or_eq_true, Bool.and_eq_true, decide_eq_true_eq, UInt32.le_iff_toNat_le,
    or_assoc]
  exact Iff.rfl

/-- The characters that an identifier may go on with, by their code points. -/
theorem isIdentifierPart_iff {c : Char} : isIdentifierPart c ↔
    isIdentifierStart c ∨ 48 ≤ c.toNat ∧ c.toNat ≤ 57 := by
  have h : isIdentifierPart c = (c.isAlpha || (decide ('0'.val ≤ c.val) &&
      decide (c.val ≤ '9'.val)) || decide (c = '_') || decide (c = '$')) := rfl
  have h' : isIdentifierStart c = (c.isAlpha || decide (c = '_') || decide (c = '$')) := rfl
  have hbounds : ('0'.val ≤ c.val ∧ c.val ≤ '9'.val) ↔ 48 ≤ c.toNat ∧ c.toNat ≤ 57 := by
    simp only [UInt32.le_iff_toNat_le]
    exact Iff.rfl
  simp only [h, h', Bool.or_eq_true, Bool.and_eq_true, decide_eq_true_eq, hbounds]
  grind

/-- White space is no part of an identifier. -/
theorem isIdentifierPart_of_isSpacing {c : Char} (h : isSpacing c) :
    isIdentifierPart c = false := by
  have hc := isSpacing_bounds h
  refine Bool.eq_false_iff.mpr fun hp => ?_
  rw [isIdentifierPart_iff, isIdentifierStart_iff] at hp
  obtain (hp | rfl | rfl) | hp := hp
  · omega
  · exact absurd hc (by decide)
  · exact absurd hc (by decide)
  · omega

/-- A text that starts as another one does, or in a way that ends every token. -/
def StartsLike (r r' : Text) : Prop :=
  r'.head? = r.head? ∨ r'.head? = none ∨ r'.head? = some ';' ∨ r'.head?.any isSpacing = true

theorem StartsLike.refl (r : Text) : StartsLike r r := .inl rfl

/-- What holds of the first character of one text holds of that of the other. -/
theorem StartsLike.head {r r' : Text} (h : StartsLike r r') {p : Char → Bool}
    (hr : ∀ c ∈ r.head?, p c = false) (hsemicolon : p ';' = false)
    (hspacing : ∀ c, isSpacing c → p c = false) : ∀ c ∈ r'.head?, p c = false := by
  intro c hc
  obtain h | h | h | h := h
  · exact hr c (h ▸ hc)
  · rw [h] at hc
    cases hc
  · rw [h] at hc
    cases hc
    exact hsemicolon
  · rw [Option.mem_def.mp hc] at h
    exact hspacing c h

/-- A text whose head does not go on with an identifier. -/
def EndsWord (r : Text) : Prop := ∀ c ∈ r.head?, isIdentifierPart c = false

theorem EndsWord.startsLike {r r' : Text} (hr : EndsWord r) (h : StartsLike r r') : EndsWord r' :=
  h.head hr (by decide) fun _ => isIdentifierPart_of_isSpacing

/-! ## Digits -/

theorem digit_bounds {base : Nat} {c : Char} (h : isDigitOf base c) :
    '0' ≤ c ∧ c ≤ '9' ∨ 'a' ≤ c ∧ c ≤ 'f' ∨ 'A' ≤ c ∧ c ≤ 'F' := by
  unfold isDigitOf digitValue? at h
  split at h
  · exact .inl ‹_›
  · split at h
    · exact .inr (.inl ‹_›)
    · split at h
      · exact .inr (.inr ‹_›)
      · cases h

theorem isIdentifierPart_of_isDigitOf {base : Nat} {c : Char} (h : isDigitOf base c) :
    isIdentifierPart c := by
  have hc := digit_bounds h
  simp only [Char.le_def, UInt32.le_iff_toNat_le] at hc
  rw [isIdentifierPart_iff, isIdentifierStart_iff]
  obtain hc | hc | hc := hc
  · exact .inr hc
  · exact .inl (.inl (.inr ⟨hc.1, Nat.le_trans hc.2 (by decide)⟩))
  · exact .inl (.inl (.inl ⟨hc.1, Nat.le_trans hc.2 (by decide)⟩))

/-- White space is no digit. -/
theorem isDigitOf_of_isSpacing {base : Nat} {c : Char} (h : isSpacing c) :
    isDigitOf base c = false := by
  rw [Bool.eq_false_iff]
  intro hd
  have := isIdentifierPart_of_isSpacing h
  rw [isIdentifierPart_of_isDigitOf hd] at this
  cases this

/-- No digit goes on after the end of a word. -/
theorem EndsWord.no_digit {r : Text} (h : EndsWord r) {base : Nat} :
    ∀ c ∈ r.head?, isDigitOf base c = false := by
  intro c hc
  rw [Bool.eq_false_iff]
  intro hd
  have := h c hc
  rw [isIdentifierPart_of_isDigitOf hd] at this
  cases this

/-! ## Numerals -/

/-- An exponent with all its parts. -/
def IsExponent (t : Text) : Prop :=
  ∃ mark sign digits, (mark = 'e' ∨ mark = 'E') ∧ (sign = [] ∨ sign = ['+'] ∨ sign = ['-']) ∧
    digits ≠ [] ∧ (∀ c ∈ digits, isDecimalDigit c) ∧ t = mark :: (sign ++ digits)

theorem exponentPart_nil {r : Text} (h : EndsWord r) : exponentPart r = [] := by
  cases r with
  | nil => rfl
  | cons c r =>
      have hc : ¬(c = 'e' ∨ c = 'E') := by
        rintro (rfl | rfl)
        · exact absurd (h 'e' rfl) (by decide)
        · exact absurd (h 'E' rfl) (by decide)
      rw [exponentPart, if_neg hc]

theorem exponentPart_append {t r : Text} (ht : IsExponent t) (hr : EndsWord r) :
    exponentPart (t ++ r) = t := by
  obtain ⟨mark, sign, digits, hmark, hsign, hne, hdigits, rfl⟩ := ht
  have hrun : (digits ++ r).takeWhile isDecimalDigit = digits :=
    takeWhile_append_eq hdigits hr.no_digit
  have htake : (sign ++ (digits ++ r)).take (if (sign ++ (digits ++ r)).head? = some '+' ∨
      (sign ++ (digits ++ r)).head? = some '-' then 1 else 0) = sign := by
    obtain rfl | rfl | rfl := hsign
    · obtain ⟨d, ds, rfl⟩ := List.exists_cons_of_ne_nil hne
      have hd := hdigits d (by simp)
      have h₁ : d ≠ '+' := by rintro rfl; exact absurd hd (by decide)
      have h₂ : d ≠ '-' := by rintro rfl; exact absurd hd (by decide)
      simp [h₁, h₂]
    · rfl
    · rfl
  rw [List.cons_append, List.append_assoc, exponentPart, if_pos hmark]
  simp only [htake, List.drop_left, hrun, hne, if_false]
  rfl

theorem signPart (t : Text) :
    let sign := t.take (if t.head? = some '+' ∨ t.head? = some '-' then 1 else 0)
    (sign = [] ∨ sign = ['+'] ∨ sign = ['-']) ∧ t = sign ++ t.drop sign.length := by
  cases t with
  | nil => simp
  | cons c t =>
      by_cases h₁ : c = '+'
      · simp [h₁]
      · by_cases h₂ : c = '-'
        · simp [h₂]
        · simp [h₁, h₂]

theorem exponentPart_split (t : Text) :
    exponentPart t = [] ∨ IsExponent (exponentPart t) ∧ ∃ r, t = exponentPart t ++ r := by
  cases t with
  | nil => exact .inl rfl
  | cons mark t =>
      by_cases hmark : mark = 'e' ∨ mark = 'E'
      · obtain ⟨hsign, ht⟩ := signPart t
        rw [exponentPart, if_pos hmark]
        generalize t.take (if t.head? = some '+' ∨ t.head? = some '-' then 1 else 0) = sign at *
        by_cases hd : (t.drop sign.length).takeWhile isDecimalDigit = []
        · exact .inl (if_pos hd)
        · rw [if_neg hd]
          refine .inr ⟨⟨mark, sign, _, hmark, hsign, hd, fun c hc => of_mem_takeWhile hc, rfl⟩,
            (t.drop sign.length).dropWhile isDecimalDigit, ?_⟩
          rw [List.append_assoc, List.takeWhile_append_dropWhile, List.cons_append, ← ht]
      · exact .inl (if_neg hmark)

/-- A point with the digits after it. -/
def IsFraction (t : Text) : Prop :=
  ∃ digits, (∀ c ∈ digits, isDecimalDigit c) ∧ t = '.' :: digits

theorem fractionPart_nil {r : Text} (h : r.head? ≠ some '.') : fractionPart r = [] := by
  unfold fractionPart
  split
  · exact absurd rfl h
  · rfl

theorem fractionPart_append {t r : Text} (ht : IsFraction t)
    (hr : ∀ c ∈ r.head?, isDecimalDigit c = false) : fractionPart (t ++ r) = t := by
  obtain ⟨digits, hdigits, rfl⟩ := ht
  rw [List.cons_append, fractionPart, takeWhile_append_eq hdigits hr]

theorem fractionPart_split (t : Text) :
    fractionPart t = [] ∧ t.head? ≠ some '.' ∨
      IsFraction (fractionPart t) ∧ ∃ r, t = fractionPart t ++ r := by
  by_cases h : t.head? = some '.'
  · obtain ⟨u, rfl⟩ := List.head?_eq_some_iff.mp h
    refine .inr ⟨⟨_, fun c hc => of_mem_takeWhile hc, rfl⟩, u.dropWhile isDecimalDigit, ?_⟩
    rw [fractionPart, List.cons_append, List.takeWhile_append_dropWhile]
  · exact .inl ⟨fractionPart_nil h, h⟩

/-- The parts of a decimal numeral that goes up to a text. -/
structure IsDecimal (whole fraction exponent r : Text) : Prop where
  digits : ∀ c ∈ whole, isDecimalDigit c
  isFraction : fraction = [] ∨ IsFraction fraction
  isExponent : exponent = [] ∨ IsExponent exponent
  some_digit : ¬(whole = [] ∧ fraction.length < 2)
  no_point : fraction = [] → exponent = [] → r.head? ≠ some '.'

theorem head_exponent {exponent r : Text} (h : exponent = [] ∨ IsExponent exponent)
    (hr : EndsWord r) : ∀ c ∈ (exponent ++ r).head?, isDecimalDigit c = false := by
  obtain rfl | ⟨mark, sign, digits, hmark, -, -, -, rfl⟩ := h
  · exact hr.no_digit
  · rintro c ⟨⟩
    obtain rfl | rfl := hmark <;> decide

theorem decimalNumeral_append {whole fraction exponent r : Text}
    (h : IsDecimal whole fraction exponent r) (hr : EndsWord r) :
    decimalNumeral (whole ++ (fraction ++ (exponent ++ r))) = whole ++ fraction ++ exponent := by
  have hexponent : exponentPart (exponent ++ r) = exponent := by
    obtain rfl | he := h.isExponent
    · exact exponentPart_nil hr
    · exact exponentPart_append he hr
  have hhead := head_exponent h.isExponent hr
  have hfraction : fractionPart (fraction ++ (exponent ++ r)) = fraction := by
    obtain rfl | hf := h.isFraction
    · refine fractionPart_nil ?_
      obtain rfl | ⟨mark, sign, digits, hmark, -, -, -, rfl⟩ := h.isExponent
      · exact h.no_point rfl rfl
      · obtain rfl | rfl := hmark <;> simp
    · exact fractionPart_append hf hhead
  have hwhole : (whole ++ (fraction ++ (exponent ++ r))).takeWhile isDecimalDigit = whole := by
    refine takeWhile_append_eq h.digits ?_
    obtain rfl | ⟨digits, -, rfl⟩ := h.isFraction
    · exact hhead
    · rintro c ⟨⟩
      decide
  have hdrop : (whole ++ (fraction ++ (exponent ++ r))).drop (whole ++ fraction).length =
      exponent ++ r := by
    rw [← List.append_assoc, List.drop_left]
  unfold decimalNumeral
  simp only [hwhole, List.drop_left, hfraction, if_neg h.some_digit, hdrop, hexponent]

theorem decimalNumeral_split {t : Text} (h : decimalNumeral t ≠ []) :
    ∃ whole fraction exponent r, t = whole ++ (fraction ++ (exponent ++ r)) ∧
      decimalNumeral t = whole ++ fraction ++ exponent ∧
        IsDecimal whole fraction exponent r := by
  generalize hwhole : t.takeWhile isDecimalDigit = whole
  generalize hu : t.dropWhile isDecimalDigit = u
  have ht : t = whole ++ u := by
    rw [← hwhole, ← hu, List.takeWhile_append_dropWhile]
  obtain ⟨v, hv⟩ : ∃ v, u = fractionPart u ++ v := by
    obtain ⟨hnil, -⟩ | ⟨-, v, hv⟩ := fractionPart_split u
    · exact ⟨u, by rw [hnil]; rfl⟩
    · exact ⟨v, hv⟩
  obtain ⟨r, hr⟩ : ∃ r, v = exponentPart v ++ r := by
    obtain hnil | ⟨-, r, hr⟩ := exponentPart_split v
    · exact ⟨v, by rw [hnil]; rfl⟩
    · exact ⟨r, hr⟩
  have hdrop : t.drop whole.length = u := by rw [ht, List.drop_left]
  have hdrop' : t.drop (whole ++ fractionPart u).length = v := by
    have : t = (whole ++ fractionPart u) ++ v := by rw [List.append_assoc, ← hv, ht]
    rw [this, List.drop_left]
  unfold decimalNumeral at h ⊢
  simp only [hwhole, hdrop, hdrop'] at h ⊢
  by_cases hdigit : whole = [] ∧ (fractionPart u).length < 2
  · rw [if_pos hdigit] at h
    exact absurd rfl h
  · rw [if_neg hdigit]
    refine ⟨whole, fractionPart u, exponentPart v, r, ?_, rfl, ⟨?_, ?_, ?_, hdigit, ?_⟩⟩
    · rw [← hr, ← hv, ht]
    · rw [← hwhole]
      exact fun c hc => of_mem_takeWhile hc
    · obtain ⟨hnil, -⟩ | ⟨hf, -⟩ := fractionPart_split u
      · exact .inl hnil
      · exact .inr hf
    · obtain hnil | ⟨he, -⟩ := exponentPart_split v
      · exact .inl hnil
      · exact .inr he
    · intro hf he
      rw [he] at hr
      rw [hf] at hv
      obtain ⟨-, hp⟩ | ⟨⟨digits, -, hp⟩, -⟩ := fractionPart_split u
      · rw [hv, hr] at hp
        exact hp
      · rw [hf] at hp
        cases hp

/-! ## Numerals of either form -/

theorem hexNumeral_split {t : Text} (h : hexNumeral t ≠ []) : ∃ mark digits r,
    (mark = 'x' ∨ mark = 'X') ∧ digits ≠ [] ∧ (∀ c ∈ digits, isHexDigit c) ∧
      t = '0' :: mark :: (digits ++ r) ∧ hexNumeral t = '0' :: mark :: digits := by
  unfold hexNumeral at h ⊢
  split at h
  · next mark t =>
      by_cases hm : (mark = 'x' ∨ mark = 'X') ∧ t.takeWhile isHexDigit ≠ []
      · rw [if_pos hm]
        refine ⟨mark, _, t.dropWhile isHexDigit, hm.1, hm.2, fun c hc => of_mem_takeWhile hc, ?_,
          rfl⟩
        rw [List.takeWhile_append_dropWhile]
      · exact absurd (if_neg hm) h
  · exact absurd rfl h

theorem hexNumeral_append {mark : Char} {digits r : Text} (hm : mark = 'x' ∨ mark = 'X')
    (hne : digits ≠ []) (hdigits : ∀ c ∈ digits, isHexDigit c) (hr : EndsWord r) :
    hexNumeral ('0' :: mark :: (digits ++ r)) = '0' :: mark :: digits := by
  unfold hexNumeral
  simp only [takeWhile_append_eq hdigits hr.no_digit]
  rw [if_pos ⟨hm, hne⟩]

/-- A decimal numeral has no mark of a hexadecimal one. -/
theorem hexNumeral_nil {whole fraction exponent r : Text}
    (h : IsDecimal whole fraction exponent r) (hr : EndsWord r) :
    hexNumeral (whole ++ (fraction ++ (exponent ++ r))) = [] := by
  refine Classical.byContradiction fun hne => ?_
  obtain ⟨mark, digits, u, hmark, -, -, ht, -⟩ := hexNumeral_split hne
  have hmark' : isDecimalDigit mark = false ∧ isIdentifierPart mark ∧ mark ≠ '.' ∧ mark ≠ 'e' ∧
      mark ≠ 'E' := by
    obtain rfl | rfl := hmark <;> decide
  have hafter : (fraction ++ (exponent ++ r)).head? ≠ some mark := by
    intro hhead
    obtain rfl | ⟨_, -, rfl⟩ := h.isFraction
    · obtain rfl | ⟨e, _, _, he, -, -, -, rfl⟩ := h.isExponent
      · have := hr mark hhead
        rw [hmark'.2.1] at this
        cases this
      · cases hhead
        obtain rfl | rfl := he
        · exact hmark'.2.2.2.1 rfl
        · exact hmark'.2.2.2.2 rfl
    · cases hhead
      exact hmark'.2.2.1 rfl
  match whole, h, ht with
  | [], h, ht =>
      obtain rfl | ⟨_, -, rfl⟩ := h.isFraction
      · exact h.some_digit ⟨rfl, by simp⟩
      · exact absurd (List.cons.inj ht).1 (by decide)
  | [c], _, ht =>
      rw [List.cons_append, List.nil_append] at ht
      rw [(List.cons.inj ht).2] at hafter
      exact hafter rfl
  | c :: d :: whole, h, ht =>
      have hd := h.digits d (by simp)
      simp only [List.cons_append, List.cons.injEq] at ht
      rw [ht.2.1, hmark'.1] at hd
      cases hd

/-- A numeral is a part of the text. -/
theorem numeral_split (t : Text) : ∃ r, t = numeral t ++ r := by
  unfold numeral
  by_cases hhex : hexNumeral t = []
  · rw [if_pos hhex]
    by_cases hdec : decimalNumeral t = []
    · exact ⟨t, by rw [hdec]; rfl⟩
    · obtain ⟨whole, fraction, exponent, r, ht, hd, -⟩ := decimalNumeral_split hdec
      refine ⟨r, ?_⟩
      rw [hd, List.append_assoc, List.append_assoc]
      exact ht
  · rw [if_neg hhex]
    obtain ⟨mark, digits, r, -, -, -, ht, hh⟩ := hexNumeral_split hhex
    refine ⟨r, ?_⟩
    rw [hh]
    exact ht

/-- A numeral ends in front of any text that starts alike. -/
theorem numeral_congr {w r r' : Text} (hw : w ≠ []) (h : numeral (w ++ r) = w) (hr : EndsWord r)
    (hs : StartsLike r r') : numeral (w ++ r') = w := by
  have hr' := hr.startsLike hs
  unfold numeral at h ⊢
  by_cases hhex : hexNumeral (w ++ r) = []
  · rw [if_pos hhex] at h
    obtain ⟨whole, fraction, exponent, u, ht, hd, hparts⟩ :=
      decimalNumeral_split (t := w ++ r) (by rw [h]; exact hw)
    rw [h] at hd
    subst hd
    simp only [List.append_assoc, List.append_cancel_left_eq] at ht
    subst ht
    have hparts' : IsDecimal whole fraction exponent r' := by
      refine ⟨hparts.1, hparts.2, hparts.3, hparts.4, fun hf he => ?_⟩
      have := hs.head (p := (· = '.')) (fun c hc => ?_) (by decide) fun c hc => ?_
      · intro hp
        simpa using this _ hp
      · refine decide_eq_false fun hp => hparts.no_point hf he ?_
        rw [← hp]
        exact hc
      · refine decide_eq_false ?_
        rintro rfl
        cases hc
    have htext : whole ++ fraction ++ exponent ++ r' =
        whole ++ (fraction ++ (exponent ++ r')) := by simp
    rw [htext, hexNumeral_nil hparts' hr', if_pos rfl]
    exact decimalNumeral_append hparts' hr'
  · rw [if_neg hhex] at h
    obtain ⟨mark, digits, u, hm, hne, hdigits, ht, hh⟩ := hexNumeral_split hhex
    rw [h] at hh
    subst hh
    have : hexNumeral ('0' :: mark :: digits ++ r') = '0' :: mark :: digits :=
      hexNumeral_append hm hne hdigits hr'
    rw [this, if_neg (List.cons_ne_nil _ _)]

/-- What a numeral starts with. -/
theorem numeral_ne_nil_iff {c : Char} {t : Text} :
    numeral (c :: t) ≠ [] ↔
      isDecimalDigit c ∨ c = '.' ∧ ∃ d ∈ t.head?, isDecimalDigit d := by
  constructor
  · intro h
    by_cases hhex : hexNumeral (c :: t) = []
    · rw [numeral, if_pos hhex] at h
      obtain ⟨whole, fraction, exponent, r, ht, -, hparts⟩ := decimalNumeral_split h
      cases whole with
      | cons d whole =>
          obtain rfl := (List.cons.inj ht).1
          exact .inl (hparts.digits c (by simp))
      | nil =>
          obtain rfl | ⟨digits, hdigits, rfl⟩ := hparts.isFraction
          · exact absurd ⟨rfl, by simp⟩ hparts.some_digit
          · obtain ⟨rfl, rfl⟩ := List.cons.inj ht
            cases digits with
            | nil => exact absurd ⟨rfl, by simp⟩ hparts.some_digit
            | cons d digits => exact .inr ⟨rfl, d, rfl, hdigits d (by simp)⟩
    · obtain ⟨_, _, _, -, -, -, ht, -⟩ := hexNumeral_split hhex
      obtain rfl := (List.cons.inj ht).1
      exact .inl (by decide)
  · intro h hnil
    unfold numeral at hnil
    split at hnil
    · unfold decimalNumeral at hnil
      obtain hc | ⟨rfl, d, hd, hdigit⟩ := h
      · simp [hc] at hnil
      · obtain ⟨u, rfl⟩ := List.head?_eq_some_iff.mp hd
        have hpoint : isDecimalDigit '.' = false := by decide
        simp [hpoint, fractionPart, hdigit] at hnil
    · exact absurd hnil ‹_›

/-! ## Strings -/

/-- A closed string is a part of the text, and it ends at its quote whatever follows. -/
theorem stringRest_split {quote : Char} {t taken : Text} (hq : quote ≠ '\\')
    (h : stringRest quote t = (taken, true)) :
    taken ≠ [] ∧ (∃ r, t = taken ++ r) ∧ ∀ r, stringRest quote (taken ++ r) = (taken, true) := by
  fun_induction stringRest quote t generalizing taken with
  | case1 => cases h
  | case2 t taken' closed heq ih =>
      obtain ⟨rfl, rfl⟩ := Prod.mk.inj h
      obtain ⟨-, ⟨u, rfl⟩, hr⟩ := ih heq
      refine ⟨List.cons_ne_nil _ _, ⟨u, rfl⟩, fun r => ?_⟩
      simp only [List.cons_append, stringRest, hr r]
  | case3 c t hne taken' closed heq ih =>
      obtain ⟨rfl, rfl⟩ := Prod.mk.inj h
      obtain ⟨hnil, ⟨u, rfl⟩, hr⟩ := ih heq
      refine ⟨List.cons_ne_nil _ _, ⟨u, rfl⟩, fun r => ?_⟩
      obtain ⟨d, taken', rfl⟩ := List.exists_cons_of_ne_nil hnil
      have hside : ∀ v, c = '\r' → d :: taken' ++ r = '\n' :: v → False := by
        intro v hc hv
        rw [List.cons_append, List.cons.injEq] at hv
        exact hne (taken' ++ u) hc (by rw [← hv.1]; rfl)
      rw [List.cons_append, List.cons_append, stringRest.eq_3 _ _ _ hside, hr r]
  | case4 t h₁ h₂ =>
      obtain ⟨rfl, -⟩ := Prod.mk.inj h
      refine ⟨List.cons_ne_nil _ _, ⟨t, rfl⟩, fun r => ?_⟩
      rw [List.cons_append, stringRest.eq_4 _ _ _ (fun _ hc => absurd hc hq)
        (fun _ _ hc => absurd hc hq), if_pos rfl]
  | case5 => cases h
  | case6 c t h₁ h₂ hc hl taken' closed heq ih =>
      obtain ⟨rfl, rfl⟩ := Prod.mk.inj h
      obtain ⟨hnil, ⟨u, rfl⟩, hr⟩ := ih heq
      refine ⟨List.cons_ne_nil _ _, ⟨u, rfl⟩, fun r => ?_⟩
      obtain ⟨d, taken', rfl⟩ := List.exists_cons_of_ne_nil hnil
      have hslash : c ≠ '\\' := fun hc => h₂ d (taken' ++ u) hc rfl
      rw [List.cons_append, stringRest.eq_4 _ _ _ (fun _ hc => absurd hc hslash)
        (fun _ _ hc => absurd hc hslash), if_neg hc, if_neg hl, hr r]

/-! ## Punctuators -/

theorem punctuators_sorted : TokenKind.punctuators.Pairwise fun p q =>
    q.display.length ≤ p.display.length := by decide +kernel

theorem punctuators_injective : ∀ p ∈ TokenKind.punctuators, ∀ q ∈ TokenKind.punctuators,
    p.display = q.display → p = q := by decide +kernel

/-- Each way to begin a punctuator is a punctuator. -/
theorem punctuators_closed : ∀ p ∈ TokenKind.punctuators, ∀ k ∈ TokenKind.punctuators,
    k.display <+: p.display → k.display.length < p.display.length →
      ∃ q ∈ TokenKind.punctuators, q.display = p.display.take (k.display.length + 1) := by
  decide +kernel

/-- A semicolon and white space do not go on with a punctuator. -/
theorem punctuators_tail : ∀ p ∈ TokenKind.punctuators, p.display ≠ [] ∧
    ∀ c ∈ p.display.tail, c ≠ ';' ∧ isSpacing c = false := by
  have h : TokenKind.punctuators.all fun p => p.display ≠ [] &&
      p.display.tail.all fun c => c ≠ ';' && !isSpacing c := by decide +kernel
  simpa using h

/-- The punctuator of a text is the longest one that the text begins with. -/
theorem punctuator?_eq_some_iff {t : Text} {k : TokenKind} :
    punctuator? t = some k ↔ k ∈ TokenKind.punctuators ∧ k.display <+: t ∧
      ∀ p ∈ TokenKind.punctuators, p.display <+: t → p.display.length ≤ k.display.length := by
  have longest : ∀ {k}, punctuator? t = some k → k ∈ TokenKind.punctuators ∧ k.display <+: t ∧
      ∀ p ∈ TokenKind.punctuators, p.display <+: t → p.display.length ≤ k.display.length := by
    intro k h
    refine ⟨List.mem_of_find?_eq_some h, by simpa using List.find?_some h, fun p hp hpt => ?_⟩
    obtain ⟨-, as, bs, hsplit, hfirst⟩ := List.find?_eq_some_iff_append.mp h
    have hsorted := punctuators_sorted
    rw [hsplit, List.pairwise_append, List.pairwise_cons] at hsorted
    rw [hsplit, List.mem_append, List.mem_cons] at hp
    obtain hp | rfl | hp := hp
    · have := hfirst p hp
      simp only [List.isPrefixOf_iff_prefix.mpr hpt, Bool.not_true, Bool.false_eq_true] at this
    · exact Nat.le_refl _
    · exact hsorted.2.1.1 p hp
  constructor
  · exact longest
  · rintro ⟨hk, hkt, hmax⟩
    obtain ⟨q, hq⟩ : ∃ q, punctuator? t = some q := by
      refine Option.isSome_iff_exists.mp ?_
      rw [punctuator?, List.find?_isSome]
      exact ⟨k, hk, List.isPrefixOf_iff_prefix.mpr hkt⟩
    obtain ⟨hqm, hqt, hqmax⟩ := longest hq
    have hlength : q.display.length = k.display.length :=
      Nat.le_antisymm (hmax q hqm hqt) (hqmax k hk hkt)
    have hdisplay : q.display = k.display := by
      rw [List.prefix_iff_eq_take.mp hqt, List.prefix_iff_eq_take.mp hkt, hlength]
    rw [hq, punctuators_injective q hqm k hk hdisplay]

/-- A punctuator ends in front of any text that starts alike. -/
theorem punctuator?_congr {k : TokenKind} {r r' : Text}
    (h : punctuator? (k.display ++ r) = some k) (hs : StartsLike r r') :
    punctuator? (k.display ++ r') = some k := by
  obtain ⟨hk, -, hmax⟩ := punctuator?_eq_some_iff.mp h
  refine punctuator?_eq_some_iff.mpr ⟨hk, List.prefix_append _ _, fun p hp hpt => ?_⟩
  refine Nat.le_of_not_lt fun hlt => ?_
  have hkp : k.display <+: p.display :=
    List.prefix_of_prefix_length_le (List.prefix_append _ _) hpt (Nat.le_of_lt hlt)
  obtain ⟨q, hq, hqd⟩ := punctuators_closed p hp k hk hkp hlt
  -- the longer punctuator goes on with the first character of the other text
  obtain ⟨u, hu⟩ := hkp
  cases u with
  | nil =>
      rw [← hu, List.append_nil] at hlt
      exact Nat.lt_irrefl _ hlt
  | cons d u =>
      have hd : r'.head? = some d := by
        rw [← hu, List.prefix_append_right_inj] at hpt
        obtain ⟨v, rfl⟩ := hpt
        rfl
      have htail : d ∈ p.display.tail := by
        obtain ⟨c, cs, hc⟩ := List.exists_cons_of_ne_nil (punctuators_tail k hk).1
        rw [← hu, hc]
        simp
      have hd' := (punctuators_tail p hp).2 d htail
      have hqk : q.display = k.display ++ [d] := by
        rw [hqd, ← hu, List.take_length_add_append]
        rfl
      obtain h | h | h | h := hs
      · obtain ⟨v, rfl⟩ := List.head?_eq_some_iff.mp (h.symm.trans hd)
        have := hmax q hq ⟨v, by rw [hqk]; simp⟩
        rw [hqk, List.length_append, List.length_singleton] at this
        omega
      · rw [hd] at h
        cases h
      · rw [hd] at h
        exact hd'.1 (Option.some.inj h)
      · rw [hd, Option.any_some, hd'.2] at h
        cases h

/-! ## Tokens -/

/-- Kinds of the tokens that a source consists of, before the slashes that open regular
expressions and the increments that open a line are told apart from the others. -/
def isLexical (k : TokenKind) : Bool :=
  k = .number || k = .string || k = .identifier || TokenKind.keywords.contains k ||
    TokenKind.punctuators.contains k

/-- Kinds that do not settle the text of a token. -/
def hasManyTexts (k : TokenKind) : Bool :=
  k = .number || k = .string || k = .identifier || k = .regex

theorem wordKind_cases (w : Text) : wordKind w = .identifier ∨
    wordKind w ∈ TokenKind.keywords ∧ (wordKind w).display = w := by
  unfold wordKind
  cases h : TokenKind.keywords.find? (·.display = w) with
  | none => exact .inl rfl
  | some k => exact .inr ⟨List.mem_of_find?_eq_some h, by simpa using List.find?_some h⟩

/-- A token that ends in front of a text, by its class. -/
inductive TokenAt : TokenKind → Text → Text → Prop
  | word {c : Char} {w r : Text} : isIdentifierStart c → (∀ d ∈ c :: w, isIdentifierPart d) →
      EndsWord r → TokenAt (wordKind (c :: w)) (c :: w) r
  | number {w r : Text} : w ≠ [] → numeral (w ++ r) = w → EndsWord r → TokenAt .number w r
  | string {quote : Char} {w r : Text} : quote = '"' ∨ quote = '\'' →
      (∀ u, stringRest quote (w ++ u) = (w, true)) → wellEscaped w →
      TokenAt .string (quote :: w) r
  | punctuator {k : TokenKind} {r : Text} : punctuator? (k.display ++ r) = some k →
      numeral (k.display ++ r) = [] → TokenAt k k.display r

theorem isIdentifierPart_of_isIdentifierStart {c : Char} (h : isIdentifierStart c) :
    isIdentifierPart c :=
  isIdentifierPart_iff.mpr (.inl h)

theorem endsWord_of_word_nil {r : Text} (h : word r = []) : EndsWord r := by
  intro c hc
  obtain ⟨u, rfl⟩ := List.head?_eq_some_iff.mp hc
  rw [word, List.takeWhile_cons] at h
  split at h
  · cases h
  · exact Bool.eq_false_iff.mpr ‹_›

theorem word_nil {r : Text} (h : EndsWord r) : word r = [] :=
  takeWhile_append_eq (s := []) (by simp) h

/-- Whatever token the scanner finds ends in front of the rest of the text. -/
theorem exists_tokenAt {t w : Text} {k : TokenKind} (h : lexeme? t = some (.token k w)) :
    ∃ r, t = w ++ r ∧ TokenAt k w r := by
  cases t with
  | nil => cases h
  | cons c t =>
      have h := Option.some.inj h
      by_cases hstart : isIdentifierStart c
      · rw [if_pos hstart] at h
        injection h with hk hw
        subst hk
        have hword : word (c :: t) = c :: word t := by
          rw [word, List.takeWhile_cons, if_pos (isIdentifierPart_of_isIdentifierStart hstart)]
          rfl
        refine ⟨t.dropWhile isIdentifierPart, ?_, ?_⟩
        · rw [← hw, hword, List.cons_append, word, List.takeWhile_append_dropWhile]
        · rw [← hw, hword]
          refine .word hstart (fun d hd => ?_) fun d hd => ?_
          · rw [← hword] at hd
            exact of_mem_takeWhile hd
          · have := List.head?_dropWhile_not isIdentifierPart t
            rw [hd] at this
            simpa using this
      · rw [if_neg hstart] at h
        by_cases hnum : numeral (c :: t) = []
        · rw [if_neg (by simpa using hnum)] at h
          by_cases hquote : c = '"' ∨ c = '\''
          · have hc : (decide (c = '"') || decide (c = '\'')) = true := by simpa using hquote
            rw [if_pos hc] at h
            unfold stringLexeme at h
            generalize hrest : stringRest c t = rest at h
            obtain ⟨taken, closed⟩ := rest
            cases closed with
            | false => cases h
            | true =>
                simp only [Bool.not_true, Bool.false_eq_true, if_false] at h
                split at h
                · injection h with hk hw
                  subst hk hw
                  have hslash : c ≠ '\\' := by
                    rintro rfl
                    exact absurd hquote (by decide)
                  obtain ⟨-, ⟨r, rfl⟩, hr⟩ := stringRest_split hslash hrest
                  exact ⟨r, rfl, .string hquote hr ‹_›⟩
                · cases h
          · rw [if_neg (by simpa using hquote)] at h
            cases hp : punctuator? (c :: t) with
            | none =>
                rw [hp] at h
                cases h
            | some p =>
                rw [hp] at h
                injection h with hk hw
                subst hk hw
                obtain ⟨-, ⟨r, hr⟩, -⟩ := punctuator?_eq_some_iff.mp hp
                rw [← hr] at hp hnum ⊢
                exact ⟨r, rfl, .punctuator hp hnum⟩
        · rw [if_pos hnum] at h
          obtain ⟨r, hr⟩ := numeral_split (c :: t)
          unfold numeralLexeme at h
          generalize hw : numeral (c :: t) = digits at h hr hnum
          rw [hr] at hw h ⊢
          simp only [List.drop_left] at h
          split at h
          · next hword =>
              injection h with hk hd
              subst hk hd
              exact ⟨r, rfl, .number hnum hw (endsWord_of_word_nil hword)⟩
          · cases h

theorem punctuators_start : ∀ p ∈ TokenKind.punctuators, ∀ c ∈ p.display.head?,
    isIdentifierStart c = false ∧ c ≠ '"' ∧ c ≠ '\'' := by
  have h : TokenKind.punctuators.all fun p => p.display.head?.toList.all fun c =>
      !isIdentifierStart c && (c ≠ '"' && c ≠ '\'') := by decide +kernel
  simpa using h

theorem numeral_of_start {c : Char} {t : Text} (h : isDecimalDigit c = false) (hc : c ≠ '.') :
    numeral (c :: t) = [] := by
  refine Classical.byContradiction fun hne => ?_
  obtain hd | ⟨rfl, -⟩ := numeral_ne_nil_iff.mp hne
  · rw [h] at hd
    cases hd
  · exact hc rfl

/-- A quote opens a string. -/
theorem lexeme?_of_quote {quote : Char} (hquote : quote = '"' ∨ quote = '\'') (t : Text) :
    lexeme? (quote :: t) = some (stringLexeme quote t) := by
  have hd : (decide (quote = '"') || decide (quote = '\'')) = true := by simpa using hquote
  have hstart : isIdentifierStart quote = false := by obtain rfl | rfl := hquote <;> decide
  have hnumeral : numeral (quote :: t) = [] :=
    numeral_of_start (by obtain rfl | rfl := hquote <;> decide) (by rintro rfl; simp at hquote)
  simp only [lexeme?, hstart, Bool.false_eq_true, if_false, hnumeral, ne_eq, not_true_eq_false, hd,
    if_true]

theorem not_isIdentifierStart_of_isDecimalDigit {c : Char} (h : isDecimalDigit c) :
    isIdentifierStart c = false := by
  have hc : '0' ≤ c ∧ c ≤ '9' := by
    unfold isDecimalDigit isDigitOf digitValue? at h
    split at h
    · assumption
    · split at h
      · simp only [Option.filter] at h
        split at h
        · simp only [decide_eq_true_eq] at *
          omega
        · cases h
      · split at h
        · simp only [Option.filter] at h
          split at h
          · simp only [decide_eq_true_eq] at *
            omega
          · cases h
        · cases h
  simp only [Char.le_def, UInt32.le_iff_toNat_le] at hc
  have hbounds : 48 ≤ c.toNat ∧ c.toNat ≤ 57 := hc
  refine Bool.eq_false_iff.mpr fun hstart => ?_
  obtain hstart | rfl | rfl := isIdentifierStart_iff.mp hstart
  · omega
  · exact absurd hc (by decide)
  · exact absurd hc (by decide)

namespace TokenAt

variable {k : TokenKind} {w r r' : Text}

theorem ne_nil (h : TokenAt k w r) : w ≠ [] := by
  cases h with
  | word => exact List.cons_ne_nil _ _
  | number hw => exact hw
  | string => exact List.cons_ne_nil _ _
  | punctuator hp => exact (punctuators_tail k (punctuator?_eq_some_iff.mp hp).1).1

/-- The scanner finds a token that ends where it does. -/
theorem lexeme? (h : TokenAt k w r) : lexeme? (w ++ r) = some (.token k w) := by
  cases h with
  | @word c w _ hstart hw hr =>
      have hword : EcmaSyntax.word (c :: w ++ r) = c :: w := takeWhile_append_eq hw hr
      rw [List.cons_append] at hword ⊢
      simp only [EcmaSyntax.lexeme?, hstart, if_true, hword]
  | number hw hn hr =>
      obtain ⟨c, w, rfl⟩ := List.exists_cons_of_ne_nil hw
      rw [List.cons_append] at hn ⊢
      have hstart : isIdentifierStart c = false := by
        obtain hc | ⟨rfl, -⟩ := numeral_ne_nil_iff.mp (by rw [hn]; exact hw)
        · exact not_isIdentifierStart_of_isDecimalDigit hc
        · decide
      have hdrop : (c :: w ++ r).drop (c :: w).length = r := List.drop_left
      rw [List.cons_append] at hdrop
      simp only [EcmaSyntax.lexeme?, hstart, Bool.false_eq_true, if_false, hn, numeralLexeme, hdrop,
        word_nil hr, ne_eq, List.cons_ne_nil, not_false_eq_true, if_true]
  | string hq hclosed hescaped =>
      rw [List.cons_append, lexeme?_of_quote hq]
      simp only [stringLexeme, hclosed r, hescaped, Bool.not_true, Bool.false_eq_true, if_false,
        if_true]
  | punctuator hp hnum =>
      have hk := (punctuator?_eq_some_iff.mp hp).1
      obtain ⟨c, w, hw⟩ := List.exists_cons_of_ne_nil (punctuators_tail k hk).1
      obtain ⟨hstart, hq, hq'⟩ := punctuators_start k hk c (by rw [hw]; rfl)
      rw [hw, List.cons_append] at hp hnum ⊢
      simp only [EcmaSyntax.lexeme?, hstart, Bool.false_eq_true, if_false, hnum, ne_eq,
        not_true_eq_false, hq, hq', decide_false, Bool.or_self, hp, hw]

/-- A token ends in front of any text that starts alike. -/
theorem congr (h : TokenAt k w r) (hs : StartsLike r r') : TokenAt k w r' := by
  cases h with
  | word hstart hw hr => exact .word hstart hw (hr.startsLike hs)
  | number hw hn hr => exact .number hw (numeral_congr hw hn hr hs) (hr.startsLike hs)
  | string hq hclosed hescaped => exact .string hq hclosed hescaped
  | punctuator hp hnum =>
      have hk := (punctuator?_eq_some_iff.mp hp).1
      refine .punctuator (punctuator?_congr hp hs) ?_
      obtain ⟨c, w, hw⟩ := List.exists_cons_of_ne_nil (punctuators_tail k hk).1
      rw [hw, List.cons_append] at hnum ⊢
      refine Classical.byContradiction fun hne => ?_
      obtain hc | ⟨rfl, d, hd, hdigit⟩ := numeral_ne_nil_iff.mp hne
      · exact numeral_ne_nil_iff.mpr (.inl hc) hnum
      · have hno : ∀ d ∈ (w ++ r).head?, isDecimalDigit d = false := by
          intro d hd
          refine Bool.eq_false_iff.mpr fun hdigit => ?_
          exact numeral_ne_nil_iff.mpr (.inr ⟨rfl, d, hd, hdigit⟩) hnum
        cases w with
        | nil =>
            have := hs.head hno (by decide) (fun _ => isDigitOf_of_isSpacing) d hd
            rw [hdigit] at this
            cases this
        | cons e w =>
            have := hno d hd
            rw [hdigit] at this
            cases this

/-- A token is no mark that the scanner or the stream sets. -/
theorem isLexical (h : TokenAt k w r) : isLexical k := by
  cases h with
  | @word c w =>
      obtain hk | ⟨hk, -⟩ := wordKind_cases (c :: w)
      · rw [hk]
        rfl
      · simp [EcmaSyntax.isLexical, hk]
  | number => rfl
  | string => rfl
  | punctuator hp => simp [EcmaSyntax.isLexical, (punctuator?_eq_some_iff.mp hp).1]

/-- The kind of a token tells its text unless it is a name or a literal. -/
theorem text_eq (h : TokenAt k w r) (hk : hasManyTexts k = false) : w = k.display := by
  cases h with
  | @word c w =>
      obtain hw | ⟨-, hw⟩ := wordKind_cases (c :: w)
      · rw [hw] at hk
        cases hk
      · exact hw.symm
  | number => cases hk
  | string => cases hk
  | punctuator => rfl

end TokenAt

/-! ## Settled texts -/

theorem isSettled_congr {w r r' : Text} (hw : w ≠ []) (h : isSettled (w ++ r))
    (hs : StartsLike r r') : isSettled (w ++ r') := by
  obtain ⟨c, w, rfl⟩ := List.exists_cons_of_ne_nil hw
  cases w with
  | cons d w => exact h
  | nil =>
      simp only [List.cons_append, List.nil_append, isSettled, Bool.and_eq_true, Bool.not_eq_true',
        Bool.and_eq_false_iff, Bool.or_eq_false_iff, decide_eq_false_iff_not] at h ⊢
      refine ⟨⟨h.1.1.imp_right fun hr => ?_, h.1.2⟩, h.2⟩
      obtain hs | hs | hs | hs := hs
      · rw [hs]
        exact hr
      · rw [hs]
        simp
      · rw [hs]
        simp
      · constructor
        all_goals intro hr'; rw [hr'] at hs; cases hs

/-! ## Regular expressions -/

theorem regexRest?_split {t body : Text} {inClass : Bool} (h : regexRest? inClass t = some body) :
    (∃ r, t = body ++ '/' :: r) ∧ ∀ r, regexRest? inClass (body ++ '/' :: r) = some body := by
  fun_induction regexRest? inClass t generalizing body with
  | case1 => cases h
  | case2 => cases h
  | case3 => cases h
  | case4 inClass c t hc ih =>
      obtain ⟨body, hbody, rfl⟩ := Option.map_eq_some_iff.mp h
      obtain ⟨⟨r, rfl⟩, hr⟩ := ih hbody
      refine ⟨⟨r, rfl⟩, fun r => ?_⟩
      rw [List.cons_append, List.cons_append, regexRest?, if_neg hc, hr]
      rfl
  | case5 => cases h
  | case6 inClass c t h₁ h₂ hl hc =>
      cases h
      have hslash : c = '/' := by simpa using (Bool.and_eq_true_iff.mp hc).1
      subst hslash
      refine ⟨⟨t, rfl⟩, fun r => ?_⟩
      rw [List.nil_append, regexRest?.eq_4 _ _ _ (fun hc _ => absurd hc (by decide))
        (fun _ _ hc _ => absurd hc (by decide)), if_neg hl, if_pos hc]
  | case7 inClass c t h₁ h₂ hl hc ih =>
      obtain ⟨body, hbody, rfl⟩ := Option.map_eq_some_iff.mp h
      obtain ⟨⟨r, rfl⟩, hr⟩ := ih hbody
      refine ⟨⟨r, rfl⟩, fun r => ?_⟩
      have hslash : c ≠ '\\' := by
        rintro rfl
        cases body with
        | nil => exact h₂ '/' _ rfl rfl
        | cons d body => exact h₂ d _ rfl rfl
      rw [List.cons_append, regexRest?.eq_4 _ _ _ (fun hc _ => absurd hc hslash)
        (fun _ _ hc _ => absurd hc hslash), if_neg hl, if_neg hc, hr]
      rfl

/-- A literal is its pattern between slashes with identifier characters after it. -/
theorem regexLiteral?_eq_some_iff {t w : Text} :
    regexLiteral? t = some w ↔ ∃ c pattern flags r, w = '/' :: c :: pattern ++ '/' :: flags ∧
      t = c :: pattern ++ '/' :: (flags ++ r) ∧
      (∀ u, regexRest? false (c :: pattern ++ '/' :: u) = some (c :: pattern)) ∧
      (∀ d ∈ flags, isIdentifierPart d) ∧ EndsWord r := by
  have hdrop : ∀ (c : Char) (pattern u : Text),
      (c :: pattern ++ '/' :: u).drop (pattern.length + 2) = u := by
    intro c pattern u
    have : c :: pattern ++ '/' :: u = (c :: pattern ++ ['/']) ++ u := by simp
    rw [this]
    exact List.drop_left' (by simp)
  constructor
  · intro h
    unfold regexLiteral? at h
    split at h
    · next c pattern hrest =>
        obtain ⟨⟨u, rfl⟩, hu⟩ := regexRest?_split hrest
        simp only [hdrop, Option.some.injEq] at h
        refine ⟨c, pattern, u.takeWhile isIdentifierPart, u.dropWhile isIdentifierPart, h.symm, ?_,
          hu, fun d hd => of_mem_takeWhile hd, fun d hd => ?_⟩
        · rw [List.takeWhile_append_dropWhile]
        · have := List.head?_dropWhile_not isIdentifierPart u
          rw [hd] at this
          simpa using this
    · cases h
  · rintro ⟨c, pattern, flags, r, rfl, rfl, hu, hflags, hr⟩
    unfold regexLiteral?
    simp only [hu, hdrop, takeWhile_append_eq hflags hr]

theorem regexLiteral?_split {t w : Text} (h : regexLiteral? t = some w) :
    ∃ body r, w = '/' :: body ∧ t = body ++ r := by
  obtain ⟨c, pattern, flags, r, rfl, rfl, -⟩ := regexLiteral?_eq_some_iff.mp h
  exact ⟨c :: pattern ++ '/' :: flags, r, by simp, by simp⟩

/-- The same literal is found in front of any text that starts alike. -/
theorem regexLiteral?_congr {body r r' : Text}
    (h : regexLiteral? (body ++ r) = some ('/' :: body)) (hs : StartsLike r r') :
    regexLiteral? (body ++ r') = some ('/' :: body) := by
  obtain ⟨c, pattern, flags, u, hw, ht, hu, hflags, hend⟩ := regexLiteral?_eq_some_iff.mp h
  obtain rfl : body = c :: pattern ++ '/' :: flags := (List.cons.inj hw).2
  simp only [List.append_assoc, List.cons_append, List.cons.injEq, true_and,
    List.append_cancel_left_eq] at ht
  subst ht
  exact regexLiteral?_eq_some_iff.mpr
    ⟨c, pattern, flags, r', rfl, by simp, hu, hflags, hend.startsLike hs⟩

end EcmaSyntax
