import EcmaSyntax.Literal
import EcmaSyntax.Proofs.Lexeme

/-!
# Values of numerals

**Forms.**  What the scanner takes for a number is a hexadecimal numeral or a decimal one.  A
decimal numeral of octal digits behind a zero is read as an octal one.

**Decimals.**  A decimal numeral is digits, a fraction and an exponent.  There may be no digits on
one side of the point.

**Results.**
* `ofDigits_isSome`: digits of a base have a value in that base.
* `IsDecimal.numberValue?_isSome`: a decimal numeral has a value.
* `TokenAt.numberValue?_isSome`: so has each number that the scanner finds.
-/

namespace EcmaSyntax

theorem dropWhile_append_eq {p : Char → Bool} {s t : Text} (hs : ∀ c ∈ s, p c)
    (ht : ∀ c ∈ t.head?, p c = false) : (s ++ t).dropWhile p = t := by
  have hsplit := List.takeWhile_append_dropWhile (p := p) (l := s ++ t)
  rw [takeWhile_append_eq hs ht] at hsplit
  exact List.append_cancel_left hsplit

/-! ## Digits of a base -/

/-- Digits of a base have a value in that base. -/
theorem ofDigits_isSome {base : Nat} {digits : Text} (h : ∀ c ∈ digits, isDigitOf base c) :
    (Binary64.ofDigits base digits).isSome := by
  unfold Binary64.ofDigits
  generalize Binary64.zero = value
  induction digits generalizing value with
  | nil => rfl
  | cons c digits ih =>
      obtain ⟨hc, hdigits⟩ := List.forall_mem_cons.mp h
      obtain ⟨d, hd⟩ := Option.isSome_iff_exists.mp hc
      rw [Binary64.ofDigits.go, hd]
      exact ih hdigits _

theorem numberValue?_hex {mark : Char} {digits : Text} (hmark : mark = 'x' ∨ mark = 'X')
    (hne : digits ≠ []) :
    numberValue? ('0' :: mark :: digits) = Binary64.ofDigits 16 digits := by
  have hstart : ("0x".toList.isPrefixOf ('0' :: mark :: digits) ||
      "0X".toList.isPrefixOf ('0' :: mark :: digits)) = true := by
    obtain rfl | rfl := hmark <;> rfl
  rw [numberValue?, if_pos hstart]
  exact if_neg hne

/-- A text whose second character is no mark is not hexadecimal. -/
theorem numberValue?_of_unmarked {t : Text} (h : ∀ c ∈ (t.drop 1).head?, c ≠ 'x' ∧ c ≠ 'X') :
    numberValue? t = if isOctalNumeral t then Binary64.ofDigits 8 (t.drop 1)
      else Binary64.ofDecimalText t := by
  have hstart : ("0x".toList.isPrefixOf t || "0X".toList.isPrefixOf t) = false := by
    obtain _ | ⟨c, _ | ⟨d, t⟩⟩ := t
    · rfl
    · simp [List.isPrefixOf]
    · obtain ⟨hx, hX⟩ := h d rfl
      simp [List.isPrefixOf, Ne.symm hx, Ne.symm hX]
  rw [numberValue?, hstart, if_neg Bool.false_ne_true]

/-! ## Decimals -/

variable {whole fraction exponent r : Text}

/-- An exponent has a value. -/
theorem decimalExponent?_isSome (h : exponent = [] ∨ IsExponent exponent) :
    (decimalExponent? exponent).isSome := by
  obtain rfl | ⟨mark, sign, digits, hmark, hsign, hne, hdigits, rfl⟩ := h
  · rfl
  · have hall : digits ≠ [] ∧ digits.all isDecimalDigit := ⟨hne, List.all_eq_true.mpr hdigits⟩
    unfold decimalExponent?
    simp only [if_pos hmark]
    obtain rfl | rfl | rfl := hsign
    · obtain ⟨d, ds, rfl⟩ := List.exists_cons_of_ne_nil hne
      have hd := hdigits d List.mem_cons_self
      have hplus : d ≠ '+' := by rintro rfl; exact absurd hd (by decide)
      have hminus : d ≠ '-' := by rintro rfl; exact absurd hd (by decide)
      simp [hplus, hminus, hall.2]
    · simp [hall]
    · simp [hall]

theorem head_exponent? (h : exponent = [] ∨ IsExponent exponent) :
    ∀ c ∈ exponent.head?, isDecimalDigit c = false ∧ c ≠ '.' ∧ c ≠ 'x' ∧ c ≠ 'X' := by
  obtain rfl | ⟨mark, sign, digits, hmark, -, -, -, rfl⟩ := h
  · exact nofun
  · rintro c ⟨⟩
    obtain rfl | rfl := hmark <;> decide

theorem IsDecimal.head_fraction (h : IsDecimal whole fraction exponent r) :
    ∀ c ∈ (fraction ++ exponent).head?, isDecimalDigit c = false ∧ c ≠ 'x' ∧ c ≠ 'X' := by
  obtain rfl | ⟨digits, -, rfl⟩ := h.isFraction
  · exact fun c hc => ⟨(head_exponent? h.isExponent c hc).1, (head_exponent? h.isExponent c hc).2.2⟩
  · rintro c ⟨⟩
    decide

/-- A decimal numeral is a decimal. -/
theorem IsDecimal.decimal?_isSome (h : IsDecimal whole fraction exponent r) :
    (decimal? (whole ++ (fraction ++ exponent))).isSome := by
  have hexponent := decimalExponent?_isSome h.isExponent
  have hhead := head_exponent? h.isExponent
  have hsome := h.some_digit
  have hwhole := fun c hc => (h.head_fraction c hc).1
  unfold decimal?
  simp only [takeWhile_append_eq h.digits hwhole, dropWhile_append_eq h.digits hwhole]
  obtain rfl | ⟨digits, hdigits, rfl⟩ := h.isFraction
  · have hpoint : ∀ u, exponent ≠ '.' :: u := by
      rintro u rfl
      exact (hhead '.' rfl).2.1 rfl
    have hne : whole ≠ [] := fun hnil => hsome ⟨hnil, Nat.zero_lt_two⟩
    rw [List.nil_append]
    split
    · next u => exact absurd rfl (hpoint u)
    · simp [hne, hexponent]
  · have hdigits' := fun c hc => (hhead c hc).1
    have hne : ¬(whole = [] ∧ digits = []) := by
      rintro ⟨rfl, rfl⟩
      exact hsome ⟨rfl, Nat.one_lt_two⟩
    simp only [List.cons_append, takeWhile_append_eq hdigits hdigits',
      dropWhile_append_eq hdigits hdigits', if_neg hne, Option.isSome_map, hexponent]

/-- Decimals without a sign have values. -/
theorem ofDecimalText_isSome {t : Text} (hminus : t.head? ≠ some '-') (hplus : t.head? ≠ some '+')
    (h : (decimal? t).isSome) : (Binary64.ofDecimalText t).isSome := by
  have hunsigned : Binary64.ofDecimalText t =
      if t.map Char.toLower = "inf".toList ∨ t.map Char.toLower = "infinity".toList then
        some (.infinite false)
      else if t.map Char.toLower = "nan".toList then some .nan
      else (decimal? t).map (Decimal.toBinary64 false) := by
    obtain _ | ⟨c, t⟩ := t
    · rfl
    · have hminus : c ≠ '-' := by simpa using hminus
      have hplus : c ≠ '+' := by simpa using hplus
      unfold Binary64.ofDecimalText
      simp [hminus, hplus]
  rw [hunsigned]
  split
  · rfl
  · split
    · rfl
    · rwa [Option.isSome_map]

theorem isDecimalDigit_ne {c : Char} (h : isDecimalDigit c) :
    c ≠ '-' ∧ c ≠ '+' ∧ c ≠ 'x' ∧ c ≠ 'X' := by
  refine ⟨?_, ?_, ?_, ?_⟩ <;> (rintro rfl; exact absurd h (by decide))

namespace IsDecimal

/-- A decimal numeral starts with a digit or with a point in front of one. -/
theorem start (h : IsDecimal whole fraction exponent r) :
    (∃ c t, isDecimalDigit c ∧ (∀ d ∈ t, isDecimalDigit d) ∧
      whole ++ (fraction ++ exponent) = c :: (t ++ (fraction ++ exponent))) ∨
    ∃ c t, isDecimalDigit c ∧ whole ++ (fraction ++ exponent) = '.' :: c :: t := by
  obtain _ | ⟨c, t⟩ := whole
  · obtain rfl | ⟨digits, hdigits, rfl⟩ := h.isFraction
    · exact absurd ⟨rfl, Nat.zero_lt_two⟩ h.some_digit
    · obtain _ | ⟨c, t⟩ := digits
      · exact absurd ⟨rfl, Nat.one_lt_two⟩ h.some_digit
      · exact .inr ⟨c, t ++ exponent, hdigits c List.mem_cons_self, rfl⟩
  · obtain ⟨hc, ht⟩ := List.forall_mem_cons.mp h.digits
    exact .inl ⟨c, t, hc, ht, rfl⟩

/-- A decimal numeral has a value. -/
theorem numberValue?_isSome (h : IsDecimal whole fraction exponent r) :
    (numberValue? (whole ++ (fraction ++ exponent))).isSome := by
  have hdecimal := h.decimal?_isSome
  have hfraction := h.head_fraction
  have hstart := h.start
  generalize whole ++ (fraction ++ exponent) = w at hdecimal hstart ⊢
  have hunmarked : ∀ c ∈ (w.drop 1).head?, c ≠ 'x' ∧ c ≠ 'X' := by
    obtain ⟨c, t, -, ht, rfl⟩ | ⟨c, t, hc, rfl⟩ := hstart
    · obtain _ | ⟨d, t⟩ := t
      · exact fun e he => (hfraction e he).2
      · rintro e ⟨⟩
        exact (isDecimalDigit_ne (ht d List.mem_cons_self)).2.2
    · rintro e ⟨⟩
      exact (isDecimalDigit_ne hc).2.2
  have hsign : w.head? ≠ some '-' ∧ w.head? ≠ some '+' := by
    obtain ⟨c, t, hc, -, rfl⟩ | ⟨c, t, -, rfl⟩ := hstart
    · obtain ⟨hminus, hplus, -⟩ := isDecimalDigit_ne hc
      exact ⟨by simpa using hminus, by simpa using hplus⟩
    · exact ⟨by simp, by simp⟩
  rw [numberValue?_of_unmarked hunmarked]
  split
  · next hoctal =>
      simp only [isOctalNumeral, Bool.and_eq_true, List.all_eq_true] at hoctal
      exact ofDigits_isSome fun c hc => hoctal.2 c (List.mem_of_mem_drop hc)
  · exact ofDecimalText_isSome hsign.1 hsign.2 hdecimal

end IsDecimal

/-! ## Tokens -/

theorem TokenAt.of_number {w : Text} (h : TokenAt .number w r) : w ≠ [] ∧ numeral (w ++ r) = w := by
  generalize hk : TokenKind.number = k at h
  cases h with
  | @word c w =>
      obtain hw | ⟨hw, -⟩ := wordKind_cases (c :: w)
      · rw [hw] at hk
        cases hk
      · rw [← hk] at hw
        exact absurd hw (by decide)
  | number hne hw => exact ⟨hne, hw⟩
  | string => cases hk
  | punctuator hp =>
      subst hk
      exact absurd (punctuator?_eq_some_iff.mp hp).1 (by decide)

/-- Each number that the scanner finds has a value. -/
theorem TokenAt.numberValue?_isSome {w : Text} (h : TokenAt .number w r) :
    (numberValue? w).isSome := by
  obtain ⟨hne, hw⟩ := h.of_number
  unfold numeral at hw
  by_cases hhex : hexNumeral (w ++ r) = []
  · rw [if_pos hhex] at hw
    obtain ⟨whole, fraction, exponent, u, -, hd, hparts⟩ :=
      decimalNumeral_split (t := w ++ r) (by rw [hw]; exact hne)
    rw [← hw, hd, List.append_assoc]
    exact hparts.numberValue?_isSome
  · rw [if_neg hhex] at hw
    obtain ⟨mark, digits, u, hmark, hdigits, hall, -, hh⟩ := hexNumeral_split hhex
    rw [← hw, hh, numberValue?_hex hmark hdigits]
    exact ofDigits_isSome hall

end EcmaSyntax
