import EcmaSyntax.Proofs.Printing.Printable
import EcmaSyntax.Proofs.Printing.Printer

/-!
# Words of printed programs

**Input.**  A name, a number, a string, a regular expression or a kind with one spelling.

**Results.**
* `tokenAt_sign`, `tokenAt_name`, `tokenAt_numeral`, `tokenAt_stringLiteral`: the scanner takes
  each printed word for one token, of the kind that it was printed as.
* `regexLiteral?_printed`: it takes the text behind a slash for the rest of the regular expression.
* `stringValue_stringLiteral`: the literal of a string has the value that it was printed for.
-/

namespace EcmaSyntax

/-! ## Settled words -/

theorem punctuators_settled : ∀ k ∈ TokenKind.punctuators, isSettled k.display := by
  have h : TokenKind.punctuators.all fun k => isSettled k.display := by decide +kernel
  simpa using h

theorem isSettled_of_head {c : Char} {t : Text} (hspacing : isSpacing c = false) (hc : c ≠ '/') :
    isSettled (c :: t) := by
  obtain ⟨hblank, hline⟩ := Bool.or_eq_false_iff.mp hspacing
  simp [isSettled, hc, hblank, hline]

theorem isSpacing_of_isIdentifierPart {c : Char} (h : isIdentifierPart c) : isSpacing c = false :=
    by
  refine Bool.eq_false_iff.mpr fun hc => ?_
  rw [isIdentifierPart_of_isSpacing hc] at h
  cases h

/-- No gap starts at the head of a token. -/
theorem TokenAt.settled {k : TokenKind} {w r : Text} (h : TokenAt k w r) : isSettled w := by
  cases h with
  | word hstart =>
      refine isSettled_of_head
        (isSpacing_of_isIdentifierPart (isIdentifierPart_of_isIdentifierStart hstart)) ?_
      rintro rfl
      exact absurd hstart (by decide)
  | number hw hn =>
      obtain ⟨c, w, rfl⟩ := List.exists_cons_of_ne_nil hw
      rw [List.cons_append] at hn
      obtain hc | ⟨rfl, -⟩ := numeral_ne_nil_iff.mp (by rw [hn]; exact hw)
      · refine isSettled_of_head
          (isSpacing_of_isIdentifierPart (isIdentifierPart_of_isDigitOf hc)) ?_
        rintro rfl
        exact absurd hc (by decide)
      · exact isSettled_of_head (by decide) (by decide)
  | string hq =>
      obtain rfl | rfl := hq <;> exact isSettled_of_head (by decide) (by decide)
  | punctuator hp => exact punctuators_settled k (punctuator?_eq_some_iff.mp hp).1

/-! ## Signs and names -/

theorem punctuators_tokenAt : ∀ k ∈ TokenKind.punctuators,
    punctuator? k.display = some k ∧ numeral k.display = [] := by
  have h : TokenKind.punctuators.all fun k =>
      punctuator? k.display = some k && numeral k.display = [] := by decide +kernel
  simpa using h

theorem keywords_tokenAt : ∀ k ∈ TokenKind.keywords,
    isIdentifierName k.display ∧ wordKind k.display = k := by
  have h : TokenKind.keywords.all fun k =>
      isIdentifierName k.display && wordKind k.display = k := by decide +kernel
  simpa using h

/-- A word is a token in front of any text that does not go on with it. -/
theorem tokenAt_word_before {t r : Text} (h : isIdentifierName t) (hr : EndsWord r) :
    TokenAt (wordKind t) t r := by
  obtain ⟨hstart, hparts⟩ := Bool.and_eq_true_iff.mp h
  cases t with
  | nil => cases hstart
  | cons c t => exact .word hstart (by simpa using hparts) hr

theorem tokenAt_word {t : Text} (h : isIdentifierName t) : TokenAt (wordKind t) t [] :=
  tokenAt_word_before h (fun _ => nofun)

/-- A kind with one spelling is written by it. -/
theorem tokenAt_sign {k : TokenKind} (hk : k ∈ TokenKind.keywords ∨ k ∈ TokenKind.punctuators) :
    TokenAt k k.display [] := by
  obtain hk | hk := hk
  · obtain ⟨hname, hkind⟩ := keywords_tokenAt k hk
    have := tokenAt_word hname
    rwa [hkind] at this
  · obtain ⟨hp, hn⟩ := punctuators_tokenAt k hk
    exact .punctuator (by rwa [List.append_nil]) (by rwa [List.append_nil])

theorem tokenAt_name {t : Text} (h : isBindingName t) : TokenAt .identifier t [] := by
  obtain ⟨hname, hkind⟩ := isBindingName_iff.mp h
  have := tokenAt_word hname
  rwa [hkind] at this

/-- The kind of a word is a keyword or an identifier. -/
theorem isIdentifierName_wordKind (t : Text) : (wordKind t).isIdentifierName := by
  obtain h | ⟨h, -⟩ := wordKind_cases t
  · rw [h]
    rfl
  · simp [TokenKind.isIdentifierName, TokenKind.isKeyword, h]

/-! ## Numbers -/

theorem tokenAt_numeral {value : Binary64} {t : Text} (h : IsNumeralOf value t) :
    TokenAt .number t [] := by
  obtain ⟨r, hr, ht⟩ := exists_tokenAt h.lexeme
  obtain rfl : r = [] := by simpa using hr.symm
  exact ht

/-! ## Strings -/

/-- A character stands for itself, is named by a letter, or is a line separator named by its
digits. -/
theorem escapeCharacter_cases (c : Char) :
    escapeCharacter c = [c] ∧ c ≠ '"' ∧ c ≠ '\\' ∧ isLineTerminator c = false ∨
    c = '"' ∧ escapeCharacter c = ['\\', '"'] ∨ c = '\\' ∧ escapeCharacter c = ['\\', '\\'] ∨
    c = '\n' ∧ escapeCharacter c = ['\\', 'n'] ∨ c = '\r' ∧ escapeCharacter c = ['\\', 'r'] ∨
    c = '\u2028' ∧ escapeCharacter c = ['\\', 'u', '2', '0', '2', '8'] ∨
    c = '\u2029' ∧ escapeCharacter c = ['\\', 'u', '2', '0', '2', '9'] := by
  by_cases h₁ : c = '"'
  · exact .inr (.inl ⟨h₁, by rw [h₁]; rfl⟩)
  by_cases h₂ : c = '\\'
  · exact .inr (.inr (.inl ⟨h₂, by rw [h₂]; rfl⟩))
  by_cases h₃ : c = '\n'
  · exact .inr (.inr (.inr (.inl ⟨h₃, by rw [h₃]; rfl⟩)))
  by_cases h₄ : c = '\r'
  · exact .inr (.inr (.inr (.inr (.inl ⟨h₄, by rw [h₄]; rfl⟩))))
  by_cases h₅ : c = '\u2028'
  · exact .inr (.inr (.inr (.inr (.inr (.inl ⟨h₅, by rw [h₅]; rfl⟩)))))
  by_cases h₆ : c = '\u2029'
  · exact .inr (.inr (.inr (.inr (.inr (.inr ⟨h₆, by rw [h₆]; rfl⟩)))))
  · refine .inl ⟨?_, h₁, h₂, ?_⟩
    · simp [escapeCharacter, h₁, h₂, h₃, h₄, h₅, h₆]
    · simp [isLineTerminator, h₃, h₄, h₅, h₆]

/-- A scanner that looks for the closing quote passes over an escaped character. -/
theorem stringRest_escapeCharacter (c : Char) (t : Text) : stringRest '"' (escapeCharacter c ++ t) =
    (escapeCharacter c ++ (stringRest '"' t).1, (stringRest '"' t).2) := by
  obtain ⟨h, hquote, hslash, hline⟩ | ⟨-, h⟩ | ⟨-, h⟩ | ⟨-, h⟩ | ⟨-, h⟩ | ⟨-, h⟩ | ⟨-, h⟩ :=
    escapeCharacter_cases c
  · rw [h, List.singleton_append, List.singleton_append,
      stringRest.eq_4 _ _ _ (fun _ hc => absurd hc hslash) (fun _ _ hc => absurd hc hslash),
      if_neg hquote, hline, if_neg Bool.false_ne_true]
  all_goals
    rw [h]
    simp [stringRest, isLineTerminator]

/-- A scanner that looks for bad escapes passes over an escaped character. -/
theorem wellEscaped_escapeCharacter (c : Char) (t : Text) :
    wellEscaped (escapeCharacter c ++ t) = wellEscaped t := by
  obtain ⟨h, -, hslash, -⟩ | ⟨-, h⟩ | ⟨-, h⟩ | ⟨-, h⟩ | ⟨-, h⟩ | ⟨-, h⟩ | ⟨-, h⟩ :=
    escapeCharacter_cases c
  · rw [h, List.singleton_append, wellEscaped.eq_5 _ _ (fun _ hc => absurd hc hslash)
      (fun _ hc => absurd hc hslash) (fun _ _ hc => absurd hc hslash)]
  all_goals
    rw [h]
    rfl

/-- The piece that an escaped character is read as. -/
def pieceOf (c : Char) : StringPiece :=
  if c = '\u2028' ∨ c = '\u2029' then .unit c.toNat else .char c

theorem pieces_escapeCharacter (c : Char) (t : Text) :
    pieces (escapeCharacter c ++ t) = pieceOf c :: pieces t := by
  obtain ⟨h, -, hslash, hline⟩ | ⟨rfl, h⟩ | ⟨rfl, h⟩ | ⟨rfl, h⟩ | ⟨rfl, h⟩ | ⟨rfl, h⟩ | ⟨rfl, h⟩ :=
    escapeCharacter_cases c
  · have hpiece : pieceOf c = .char c := by
      refine if_neg ?_
      rintro (rfl | rfl) <;> cases hline
    rw [h, hpiece, List.singleton_append, pieces.eq_4 _ _ (fun hc => absurd hc hslash)
      (fun _ _ hc => absurd hc hslash)]
  all_goals
    rw [h]
    rw [List.cons_append, List.cons_append, pieces]
    rfl

/-- A piece of a printed string stands for its character, whatever comes after it. -/
theorem assemble_pieceOf (c : Char) (ps : List StringPiece) :
    assemble (pieceOf c :: ps) = c :: assemble ps := by
  by_cases hc : c = '\u2028' ∨ c = '\u2029'
  · have hlow : isHighSurrogate c.toNat = false ∧ charOfUnit c.toNat = c := by
      obtain rfl | rfl := hc <;> exact ⟨rfl, rfl⟩
    rw [pieceOf, if_pos hc]
    cases ps with
    | nil => simp [assemble, hlow.2]
    | cons p ps => cases p <;> simp [assemble, hlow.1, hlow.2]
  · rw [pieceOf, if_neg hc, assemble]

/-- The literal of a string is closed. -/
theorem stringRest_flatMap (value u : Text) :
    stringRest '"' (value.flatMap escapeCharacter ++ ['"'] ++ u) =
      (value.flatMap escapeCharacter ++ ['"'], true) := by
  induction value with
  | nil => rfl
  | cons c value ih =>
      rw [List.flatMap_cons, List.append_assoc, List.append_assoc, stringRest_escapeCharacter,
        ← List.append_assoc, ih, List.append_assoc]

theorem wellEscaped_flatMap (value : Text) :
    wellEscaped (value.flatMap escapeCharacter ++ ['"']) := by
  induction value with
  | nil => rfl
  | cons c value ih => rwa [List.flatMap_cons, List.append_assoc, wellEscaped_escapeCharacter]

theorem tokenAt_stringLiteral (value : Text) : TokenAt .string (stringLiteral value) [] :=
  .string (.inl rfl) (stringRest_flatMap value) (wellEscaped_flatMap value)

/-- The value of a printed string is the string. -/
theorem stringValue_stringLiteral (value : Text) : stringValue (stringLiteral value) = value := by
  unfold stringValue stringLiteral
  rw [List.cons_append, List.drop_one, List.tail_cons, List.dropLast_concat]
  induction value with
  | nil => rw [List.flatMap_nil, pieces, assemble]
  | cons c value ih =>
      rw [List.flatMap_cons, pieces_escapeCharacter, assemble_pieceOf, ih]

/-! ## Regular expressions -/

/-- The scanner finds the end of a pattern. -/
theorem PatternRest.regexRest? {inClass : Bool} {t : Text} (h : PatternRest inClass t) (u : Text) :
    regexRest? inClass (t ++ '/' :: u) = some t := by
  induction h with
  | stop => rfl
  | escape hc _ ih => simp [EcmaSyntax.regexRest?, hc, ih]
  | openClass _ ih => simp [EcmaSyntax.regexRest?, isLineTerminator, ih]
  | closeClass _ ih => simp [EcmaSyntax.regexRest?, isLineTerminator, ih]
  | outside hc hslash hopen hclose _ ih =>
      rw [List.cons_append, regexRest?.eq_4 _ _ _ (fun hc _ => absurd hc hslash)
        (fun _ _ hc _ => absurd hc hslash), hc]
      simp [hopen, hclose, ih]
  | @inside c t hc hslash hclose _ ih =>
      rw [List.cons_append, regexRest?.eq_4 _ _ _ (fun hc _ => absurd hc hslash)
        (fun _ _ hc _ => absurd hc hslash), hc]
      have hin : (decide (c = '[') || c != ']') = true := by simp [hclose]
      simp [hin, ih]

/-- The scanner takes a printed regular expression for one literal. -/
theorem regexLiteral?_printed {pattern flags : Text} (hp : IsPattern pattern) (hne : pattern ≠ [])
    (hflags : ∀ c ∈ flags, isIdentifierPart c) {r : Text} (hr : EndsWord r) :
    regexLiteral? (pattern ++ '/' :: (flags ++ r)) = some ('/' :: pattern ++ '/' :: flags) := by
  obtain ⟨c, pattern, rfl⟩ := List.exists_cons_of_ne_nil hne
  exact regexLiteral?_eq_some_iff.mpr
    ⟨c, pattern, flags, r, rfl, rfl, hp.rest.regexRest?, hflags, hr⟩

/-- A pattern does not start like a comment. -/
theorem IsPattern.head {pattern : Text} (hp : IsPattern pattern) :
    pattern.head? ≠ some '/' ∧ pattern.head? ≠ some '*' := by
  refine ⟨?_, hp.no_star⟩
  cases hp.rest with
  | stop => simp
  | escape => simp
  | openClass => simp
  | outside _ _ _ hc => simpa using hc

theorem Printer.regexOpener_cases (pattern : Text) :
    regexOpener pattern = .slash ∧ pattern.head? ≠ some '=' ∨
      regexOpener pattern = .slashEquals ∧ pattern.head? = some '=' := by
  by_cases h : pattern.head? = some '='
  · exact .inr ⟨if_pos h, h⟩
  · exact .inl ⟨if_neg h, h⟩

theorem punctuators_slash : ∀ k ∈ TokenKind.punctuators, k.display.head? = some '/' →
    k = .slash ∨ k = .slashEquals := by decide +kernel

/-- The head of a printed regular expression is an operator for the scanner. -/
theorem tokenAt_regexOpener {pattern : Text} (hne : pattern ≠ []) (r : Text) : ∃ w r',
    '/' :: (pattern ++ r) = w ++ r' ∧ TokenAt (Printer.regexOpener pattern) w r' := by
  obtain ⟨c, pattern, rfl⟩ := List.exists_cons_of_ne_nil hne
  have hcases : ∀ k ∈ TokenKind.punctuators, k.display <+: '/' :: (c :: pattern ++ r) →
      k = .slash ∨ k = .slashEquals ∧ c = '=' := by
    intro k hk hpre
    obtain ⟨d, w, hw⟩ := List.exists_cons_of_ne_nil (punctuators_tail k hk).1
    have hhead : k.display.head? = some '/' := by
      rw [hw, List.cons_append] at hpre
      rw [hw, (List.cons_prefix_cons.mp hpre).1]
      rfl
    obtain rfl | rfl := punctuators_slash k hk hhead
    · exact .inl rfl
    · have hpre : ['/', '='] <+: '/' :: c :: (pattern ++ r) := hpre
      simp only [List.cons_prefix_cons] at hpre
      exact .inr ⟨rfl, hpre.2.1.symm⟩
  have hnumeral (t : Text) : numeral ('/' :: t) = [] := numeral_of_start (by decide) (by decide)
  obtain ⟨hk, hc⟩ | ⟨hk, hc⟩ := Printer.regexOpener_cases (c :: pattern)
  · rw [hk]
    refine ⟨['/'], c :: pattern ++ r, rfl, .punctuator (k := .slash) ?_ (hnumeral _)⟩
    refine punctuator?_eq_some_iff.mpr ⟨by decide, ⟨_, rfl⟩, fun k hmem hpre => ?_⟩
    obtain rfl | ⟨-, rfl⟩ := hcases k hmem hpre
    · exact Nat.le_refl _
    · exact absurd rfl hc
  · obtain rfl := Option.some.inj hc
    rw [hk]
    refine ⟨['/', '='], pattern ++ r, rfl, .punctuator (k := .slashEquals) ?_ (hnumeral _)⟩
    refine punctuator?_eq_some_iff.mpr ⟨by decide, ⟨_, rfl⟩, fun k hmem hpre => ?_⟩
    obtain rfl | ⟨rfl, -⟩ := hcases k hmem hpre
    · decide
    · exact Nat.le_refl _

end EcmaSyntax
