import EcmaSyntax.Proofs.Lexeme

/-!
# The languages of the tokens

**Languages.**  `Lexical k w` says that a text belongs to the language of a kind: the numerals,
the closed string literals, the words, each keyword and each punctuator by its spelling, the runs of
line terminators and the comments.  The languages overlap: a keyword is a word, and most punctuators
begin others.

**Families.**  The first two characters of a text settle which languages the longer ones of its
beginnings can belong to.

**Results.**
* `IsNumeral.length_le`: no numeral that a text begins with is longer than the one that is read.
* `isClosedLiteral_iff`: the closed literals are those that the string reader takes.
* `Lexical.family_append`: what a text begins with is of the family of the text, or it is one
  character long.
* `Lexical.of_family`: what a family says of its tokens.
-/

namespace EcmaSyntax

/-! ## Declarations -/

/-- Decimal digits, at least one. -/
def IsDigits (t : Text) : Prop := t ≠ [] ∧ ∀ c ∈ t, isDecimalDigit c

/-- Numerals: digits with or without a fraction and an exponent, a fraction that has digits, and
hexadecimal digits after their mark. -/
inductive IsNumeral : Text → Prop
  | decimal {whole fraction exponent : Text} : IsDigits whole →
      fraction = [] ∨ IsFraction fraction → exponent = [] ∨ IsExponent exponent →
      IsNumeral (whole ++ (fraction ++ exponent))
  | fraction {digits exponent : Text} : IsDigits digits → exponent = [] ∨ IsExponent exponent →
      IsNumeral ('.' :: digits ++ exponent)
  | hexadecimal {mark : Char} {digits : Text} : mark = 'x' ∨ mark = 'X' → digits ≠ [] →
      (∀ c ∈ digits, isHexDigit c) → IsNumeral ('0' :: mark :: digits)

/-- The parts of a string: a character that stands for itself, or a backslash with the character
after it, a line feed after a carriage return too. -/
inductive IsStringPart (quote : Char) : Text → Prop
  | plain {c : Char} : c ≠ quote → c ≠ '\\' → isLineTerminator c = false → IsStringPart quote [c]
  | escape {c : Char} : IsStringPart quote ['\\', c]
  | continuation : IsStringPart quote ['\\', '\r', '\n']

/-- Parts of a string between two quotes. -/
def IsClosedLiteral (w : Text) : Prop :=
  ∃ (quote : Char) (parts : List Text), (quote = '"' ∨ quote = '\'') ∧
    (∀ part ∈ parts, IsStringPart quote part) ∧ w = quote :: (parts.flatten ++ [quote])

/-- A text belongs to the language of a kind. -/
inductive Lexical : TokenKind → Text → Prop
  | number {w : Text} : IsNumeral w → Lexical .number w
  | string {w : Text} : IsClosedLiteral w → Lexical .string w
  | identifier {c : Char} {w : Text} : isIdentifierStart c → (∀ d ∈ w, isIdentifierPart d) →
      Lexical .identifier (c :: w)
  | keyword {k : TokenKind} : k ∈ TokenKind.keywords → Lexical k k.display
  | punctuator {k : TokenKind} : k ∈ TokenKind.punctuators → Lexical k k.display
  | lineBreak {w : Text} : w ≠ [] → (∀ c ∈ w, isLineTerminator c) → Lexical .lineBreak w
  | lineComment {body : Text} : (∀ c ∈ body, isLineTerminator c = false) →
      Lexical .lineComment ('/' :: '/' :: body)
  | blockComment {body : Text} : ¬['*', '/'] <:+: body ++ ['*'] →
      Lexical .blockComment ('/' :: '*' :: (body ++ ['*', '/']))

/-! ## Numerals -/

theorem length_le_takeWhile {p : Char → Bool} {s u : Text} (h : ∀ c ∈ s, p c) :
    s.length ≤ ((s ++ u).takeWhile p).length := by
  rw [List.takeWhile_append_of_pos h, List.length_append]
  exact Nat.le_add_right _ _

theorem IsExponent.head? {exponent : Text} (h : IsExponent exponent) (u : Text) :
    (exponent ++ u).head? = some 'e' ∨ (exponent ++ u).head? = some 'E' := by
  obtain ⟨mark, sign, digits, rfl | rfl, -, -, -, rfl⟩ := h
  · exact .inl rfl
  · exact .inr rfl

theorem IsExponent.no_digit {exponent : Text} (h : IsExponent exponent) (u : Text) :
    ∀ c ∈ (exponent ++ u).head?, isDecimalDigit c = false := by
  intro c hc
  obtain he | he := h.head? u
  all_goals
    rw [he] at hc
    cases hc
    decide

theorem exponentPart_length_le {exponent : Text} (h : IsExponent exponent) (u : Text) :
    exponent.length ≤ (exponentPart (exponent ++ u)).length := by
  obtain ⟨mark, sign, digits, hmark, hsign, hne, hdigits, rfl⟩ := h
  obtain ⟨d, ds, rfl⟩ := List.exists_cons_of_ne_nil hne
  have hd := hdigits d (by simp)
  have hplus : d ≠ '+' := by rintro rfl; exact absurd hd (by decide)
  have hminus : d ≠ '-' := by rintro rfl; exact absurd hd (by decide)
  have hrun : (d :: ds).length ≤ ((d :: (ds ++ u)).takeWhile isDecimalDigit).length :=
    length_le_takeWhile hdigits
  have hrunNe : (d :: (ds ++ u)).takeWhile isDecimalDigit ≠ [] := by simp [hd]
  obtain rfl | rfl | rfl := hsign <;>
    simpa [exponentPart, hmark, hplus, hminus, hrunNe] using hrun

/-- The parts that a decimal numeral is read as. -/
theorem decimalNumeral_eq {whole fraction r : Text}
    (hwhole : (whole ++ (fraction ++ r)).takeWhile isDecimalDigit = whole)
    (hfraction : fractionPart (fraction ++ r) = fraction)
    (hdigit : ¬(whole = [] ∧ fraction.length < 2)) :
    decimalNumeral (whole ++ (fraction ++ r)) = whole ++ fraction ++ exponentPart r := by
  have hdrop : (whole ++ (fraction ++ r)).drop (whole ++ fraction).length = r := by
    rw [← List.append_assoc, List.drop_left]
  unfold decimalNumeral
  simp only [hwhole, List.drop_left, hfraction, if_neg hdigit, hdrop]

/-- What is read of a text that goes on after digits with a point or not. -/
theorem length_le_decimalNumeral {whole r : Text}
    (hwhole : (whole ++ r).takeWhile isDecimalDigit = whole)
    (hdigit : ¬(whole = [] ∧ (fractionPart r).length < 2)) :
    whole.length + (fractionPart r).length ≤ (decimalNumeral (whole ++ r)).length := by
  obtain ⟨v, hv⟩ : ∃ v, r = fractionPart r ++ v := by
    obtain ⟨hnil, -⟩ | ⟨-, v, hv⟩ := fractionPart_split r
    · exact ⟨r, by rw [hnil]; rfl⟩
    · exact ⟨v, hv⟩
  generalize hf : fractionPart r = fraction at hv hdigit
  subst hv
  rw [decimalNumeral_eq hwhole hf hdigit]
  simp only [List.length_append]
  omega

/-- No decimal numeral that a text begins with is longer than the one that is read. -/
theorem decimalNumeral_length_le {whole fraction exponent : Text}
    (hwhole : ∀ c ∈ whole, isDecimalDigit c) (hfraction : fraction = [] ∨ IsFraction fraction)
    (hexponent : exponent = [] ∨ IsExponent exponent)
    (hdigit : ¬(whole = [] ∧ fraction.length < 2)) (u : Text) :
    (whole ++ (fraction ++ exponent)).length ≤
      (decimalNumeral (whole ++ (fraction ++ (exponent ++ u)))).length := by
  simp only [List.length_append]
  obtain rfl | ⟨digits, hdigits, rfl⟩ := hfraction
  · obtain rfl | hexponent := hexponent
    · -- the digits may go on, and a point may follow
      have hne : whole ≠ [] := fun h => hdigit ⟨h, by simp⟩
      have hrun := length_le_takeWhile (u := u) hwhole
      have hread := @length_le_decimalNumeral ((whole ++ u).takeWhile isDecimalDigit)
        ((whole ++ u).dropWhile isDecimalDigit)
      rw [List.takeWhile_append_dropWhile] at hread
      have hread := hread rfl fun h => by
        have := List.length_pos_iff.mpr hne
        rw [h.1] at hrun
        exact absurd hrun (by simp; omega)
      simp only [List.nil_append, List.length_nil]
      omega
    · have hhead : (exponent ++ u).head? ≠ some '.' := by
        obtain h | h := hexponent.head? u <;> simp [h]
      have hread : decimalNumeral (whole ++ ([] ++ (exponent ++ u))) =
          whole ++ [] ++ exponentPart (exponent ++ u) :=
        decimalNumeral_eq (takeWhile_append_eq hwhole (hexponent.no_digit u))
          (fractionPart_nil hhead) hdigit
      rw [hread]
      have := exponentPart_length_le hexponent u
      simp only [List.length_append]
      omega
  · have hpoint : ∀ v : Text, (whole ++ '.' :: v).takeWhile isDecimalDigit = whole := fun v =>
      takeWhile_append_eq hwhole (by rintro c ⟨⟩; decide)
    obtain rfl | hexponent := hexponent
    · -- the digits of the fraction may go on
      have hrun := length_le_takeWhile (u := u) hdigits
      have hf : fractionPart ('.' :: digits ++ ([] ++ u)) =
        '.' :: (digits ++ u).takeWhile isDecimalDigit := rfl
      have hread := length_le_decimalNumeral (r := '.' :: digits ++ ([] ++ u)) (hpoint _) fun h => by
        refine hdigit ⟨h.1, ?_⟩
        rw [hf, List.length_cons] at h
        rw [List.length_cons]
        omega
      rw [hf, List.length_cons] at hread
      simp only [List.length_cons, List.length_nil]
      omega
    · rw [decimalNumeral_eq (hpoint _)
        (fractionPart_append ⟨digits, hdigits, rfl⟩ (hexponent.no_digit u)) hdigit]
      have := exponentPart_length_le hexponent u
      simp only [List.length_append]
      omega

/-- Of a text that begins with a hexadecimal numeral a decimal one takes the zero at most. -/
theorem length_le_one_of_hexNumeral {whole fraction exponent u : Text}
    (hwhole : ∀ c ∈ whole, isDecimalDigit c) (hfraction : fraction = [] ∨ IsFraction fraction)
    (hexponent : exponent = [] ∨ IsExponent exponent)
    (hhex : hexNumeral (whole ++ (fraction ++ (exponent ++ u))) ≠ []) :
    (whole ++ (fraction ++ exponent)).length ≤ 1 := by
  obtain ⟨mark, digits, r, hmark, -, -, ht, -⟩ := hexNumeral_split hhex
  have hafter : ∀ v : Text, fraction ++ (exponent ++ u) = v →
      v.head? = some '0' ∨ v.head? = some mark → fraction = [] ∧ exponent = [] := by
    rintro v rfl hhead
    obtain rfl | ⟨_, -, rfl⟩ := hfraction
    · obtain rfl | hexponent := hexponent
      · exact ⟨rfl, rfl⟩
      · obtain he | he := hexponent.head? u <;> rw [List.nil_append, he] at hhead <;>
          obtain rfl | rfl := hmark <;> simp at hhead
    · obtain rfl | rfl := hmark <;> simp at hhead
  match whole, hwhole, ht with
  | [], _, ht =>
      obtain ⟨rfl, rfl⟩ := hafter _ ht (.inl rfl)
      exact Nat.zero_le _
  | [c], _, ht =>
      obtain ⟨rfl, rfl⟩ := hafter _ (List.cons.inj ht).2 (.inr rfl)
      exact Nat.le_refl _
  | c :: d :: whole, hwhole, ht =>
      have hd := hwhole d (by simp)
      rw [(List.cons.inj (List.cons.inj ht).2).1] at hd
      obtain rfl | rfl := hmark <;> exact absurd hd (by decide)

/-- No numeral that a text begins with is longer than the one that is read. -/
theorem IsNumeral.length_le {w : Text} (h : IsNumeral w) (u : Text) :
    w.length ≤ (numeral (w ++ u)).length := by
  have hdecimal : ∀ {whole fraction exponent : Text}, (∀ c ∈ whole, isDecimalDigit c) →
      fraction = [] ∨ IsFraction fraction → exponent = [] ∨ IsExponent exponent →
      ¬(whole = [] ∧ fraction.length < 2) → (whole ++ (fraction ++ exponent)).length ≤
        (numeral (whole ++ (fraction ++ exponent) ++ u)).length := by
    intro whole fraction exponent hwhole hfraction hexponent hdigit
    simp only [List.append_assoc, numeral]
    by_cases hhex : hexNumeral (whole ++ (fraction ++ (exponent ++ u))) = []
    · rw [if_pos hhex]
      exact decimalNumeral_length_le hwhole hfraction hexponent hdigit u
    · rw [if_neg hhex]
      exact Nat.le_trans (length_le_one_of_hexNumeral hwhole hfraction hexponent hhex)
        (List.length_pos_iff.mpr hhex)
  cases h with
  | decimal hwhole hfraction hexponent =>
      exact hdecimal hwhole.2 hfraction hexponent fun h => hwhole.1 h.1
  | @fraction digits exponent hdigits hexponent =>
      have hlength := List.length_pos_iff.mpr hdigits.1
      have hwhole : ∀ c ∈ ([] : Text), isDecimalDigit c := List.forall_mem_nil _
      refine hdecimal hwhole (.inr ⟨digits, hdigits.2, rfl⟩) hexponent fun h => ?_
      rw [List.length_cons] at h
      omega
  | @hexadecimal mark digits hmark hne hdigits =>
      have hread : hexNumeral ('0' :: mark :: digits ++ u) =
          '0' :: mark :: (digits ++ u).takeWhile isHexDigit := by
        obtain ⟨d, ds, rfl⟩ := List.exists_cons_of_ne_nil hne
        have hrun : (d :: ds ++ u).takeWhile isHexDigit ≠ [] := by simp [hdigits d (by simp)]
        rw [List.cons_append, List.cons_append, hexNumeral, if_pos ⟨hmark, hrun⟩]
      rw [numeral, hread, if_neg (List.cons_ne_nil _ _)]
      have := length_le_takeWhile (u := u) hdigits
      simp only [List.length_cons]
      omega

theorem isNumeral_numeral {t : Text} (h : numeral t ≠ []) : IsNumeral (numeral t) := by
  unfold numeral at h ⊢
  by_cases hhex : hexNumeral t = []
  · rw [if_pos hhex] at h ⊢
    obtain ⟨whole, fraction, exponent, r, -, hd, hparts⟩ := decimalNumeral_split h
    rw [hd, List.append_assoc]
    cases whole with
    | cons d whole =>
        exact .decimal ⟨List.cons_ne_nil _ _, hparts.digits⟩ hparts.isFraction hparts.isExponent
    | nil =>
        obtain rfl | ⟨digits, hdigits, rfl⟩ := hparts.isFraction
        · exact absurd ⟨rfl, by simp⟩ hparts.some_digit
        · refine .fraction ⟨?_, hdigits⟩ hparts.isExponent
          rintro rfl
          exact hparts.some_digit ⟨rfl, by simp⟩
  · rw [if_neg hhex]
    obtain ⟨mark, digits, r, hmark, hne, hdigits, -, hh⟩ := hexNumeral_split hhex
    rw [hh]
    exact .hexadecimal hmark hne hdigits

/-! ## Strings -/

/-- Parts of a string in front of its quote are taken with the quote. -/
theorem stringRest_of_isStringPart {quote : Char} {parts : List Text} (hquote : quote ≠ '\\')
    (hline : isLineTerminator quote = false) (h : ∀ part ∈ parts, IsStringPart quote part)
    (u : Text) :
    stringRest quote (parts.flatten ++ quote :: u) = (parts.flatten ++ [quote], true) := by
  induction parts with
  | nil =>
      rw [List.flatten_nil, List.nil_append, stringRest.eq_4 _ _ _ (fun _ hc => absurd hc hquote)
        (fun _ _ hc => absurd hc hquote), if_pos rfl]
      rfl
  | cons part parts ih =>
      obtain ⟨hpart, hparts⟩ := List.forall_mem_cons.mp h
      have ih := ih hparts
      rw [List.flatten_cons, List.append_assoc]
      cases hpart with
      | plain hne hslash hc =>
          rw [List.singleton_append, stringRest.eq_4 _ _ _ (fun _ hc => absurd hc hslash)
            (fun _ _ hc => absurd hc hslash), if_neg hne, if_neg (by simp [hc]), ih]
          rfl
      | escape =>
          -- no part of a string starts with a line feed
          have hhead : (parts.flatten ++ quote :: u).head? ≠ some '\n' := by
            cases parts with
            | nil =>
                rintro ⟨⟩
                exact absurd hline (by decide)
            | cons part parts =>
                cases hparts part (by simp) with
                | plain _ _ hc =>
                    rintro ⟨⟩
                    exact absurd hc (by decide)
                | escape => simp
                | continuation => simp
          rw [List.cons_append, List.singleton_append, stringRest.eq_3 _ _ _ (fun t _ ht =>
            hhead (by rw [ht]; rfl)), ih]
          rfl
      | continuation =>
          rw [List.cons_append, List.cons_append, List.singleton_append, stringRest, ih]
          rfl

/-- A string that is closed is made of parts. -/
theorem exists_isStringPart {quote : Char} {t taken : Text}
    (h : stringRest quote t = (taken, true)) :
    ∃ parts : List Text, (∀ part ∈ parts, IsStringPart quote part) ∧
      taken = parts.flatten ++ [quote] := by
  fun_induction stringRest quote t generalizing taken with
  | case1 => cases h
  | case2 t taken' closed heq ih =>
      obtain ⟨rfl, rfl⟩ := Prod.mk.inj h
      obtain ⟨parts, hparts, rfl⟩ := ih heq
      exact ⟨_ :: parts, List.forall_mem_cons.mpr ⟨.continuation, hparts⟩, rfl⟩
  | case3 c t hne taken' closed heq ih =>
      obtain ⟨rfl, rfl⟩ := Prod.mk.inj h
      obtain ⟨parts, hparts, rfl⟩ := ih heq
      exact ⟨_ :: parts, List.forall_mem_cons.mpr ⟨.escape, hparts⟩, rfl⟩
  | case4 t h₁ h₂ =>
      obtain ⟨rfl, -⟩ := Prod.mk.inj h
      exact ⟨[], by simp, rfl⟩
  | case5 => cases h
  | case6 c t h₁ h₂ hc hl taken' closed heq ih =>
      obtain ⟨rfl, rfl⟩ := Prod.mk.inj h
      obtain ⟨parts, hparts, rfl⟩ := ih heq
      have hslash : c ≠ '\\' := by
        rintro rfl
        cases t with
        | nil => simp [stringRest] at heq
        | cons d t => exact h₂ d t rfl rfl
      exact ⟨_ :: parts, List.forall_mem_cons.mpr ⟨.plain hc hslash (by simpa using hl), hparts⟩, rfl⟩

theorem quote_plain {quote : Char} (hquote : quote = '"' ∨ quote = '\'') :
    quote ≠ '\\' ∧ isLineTerminator quote = false := by
  obtain rfl | rfl := hquote <;> decide

/-- A closed literal is what the string reader takes behind a quote, whatever follows it. -/
theorem isClosedLiteral_iff {quote : Char} {taken : Text} (hquote : quote = '"' ∨ quote = '\'') :
    IsClosedLiteral (quote :: taken) ↔ ∀ u, stringRest quote (taken ++ u) = (taken, true) := by
  obtain ⟨hslash, hline⟩ := quote_plain hquote
  constructor
  · rintro ⟨quote', parts, -, hparts, heq⟩ u
    obtain ⟨rfl, rfl⟩ := List.cons.inj heq
    rw [List.append_assoc, List.singleton_append]
    exact stringRest_of_isStringPart hslash hline hparts u
  · intro h
    have hnil := h []
    obtain ⟨parts, hparts, rfl⟩ := exists_isStringPart hnil
    exact ⟨quote, parts, hquote, hparts, rfl⟩

/-! ## Comments -/

/-- A block comment goes up to the first place where it can be closed. -/
theorem blockCommentRest?_iff {t body : Text} : blockCommentRest? t = some body ↔
    body ++ ['*', '/'] <+: t ∧ ¬['*', '/'] <:+: body ++ ['*'] := by
  fun_induction blockCommentRest? t generalizing body with
  | case1 => simp
  | case2 t =>
      rw [Option.some.injEq]
      constructor
      · rintro rfl
        exact ⟨⟨t, rfl⟩, by decide⟩
      · rintro ⟨hbody, hnot⟩
        cases body with
        | nil => rfl
        | cons c body =>
            obtain ⟨rfl, htail⟩ := List.cons_prefix_cons.mp hbody
            cases body with
            | nil =>
                have hc := (List.cons_prefix_cons.mp htail).1
                exact absurd hc (by decide)
            | cons d body =>
                obtain ⟨rfl, -⟩ := List.cons_prefix_cons.mp htail
                exact absurd ⟨[], body ++ ['*'], rfl⟩ hnot
  | case3 c t hne ih =>
      rw [Option.map_eq_some_iff]
      constructor
      · rintro ⟨body, hbody, rfl⟩
        obtain ⟨hstart, hnot⟩ := ih.mp hbody
        refine ⟨List.cons_prefix_cons.mpr ⟨rfl, hstart⟩, fun hinfix => ?_⟩
        rcases List.infix_cons_iff.mp hinfix with hhead | htail
        · obtain ⟨rfl, hslash⟩ := List.cons_prefix_cons.mp hhead
          -- the comment would have been closed here
          cases body with
          | nil => exact absurd (List.cons_prefix_cons.mp hslash).1 (by decide)
          | cons d body =>
              obtain ⟨rfl, -⟩ := List.cons_prefix_cons.mp hslash
              obtain ⟨u, hu⟩ := hstart
              exact hne _ rfl hu.symm
        · exact hnot htail
      · rintro ⟨hstart, hnot⟩
        cases body with
        | nil =>
            obtain ⟨rfl, u, hu⟩ := List.cons_prefix_cons.mp hstart
            exact absurd hu.symm (hne u rfl)
        | cons d body =>
            obtain ⟨rfl, hrest⟩ := List.cons_prefix_cons.mp hstart
            exact ⟨body, ih.mpr ⟨hrest, fun h => hnot (List.infix_cons h)⟩, rfl⟩

/-! ## Families -/

/-- The families of the tokens. -/
inductive Family where
  | word | number | string | punctuator | lineBreak | lineComment | blockComment
deriving DecidableEq

namespace Family

/-- The family of the longest tokens that a text begins with. -/
def ofText : Text → Family
  | [] => .punctuator
  | c :: t =>
      if isIdentifierStart c then .word
      else if isDecimalDigit c || (c = '.' && t.head?.any isDecimalDigit) then .number
      else if c = '"' || c = '\'' then .string
      else if isLineTerminator c then .lineBreak
      else if c = '/' && t.head? = some '/' then .lineComment
      else if c = '/' && t.head? = some '*' then .blockComment
      else .punctuator

/-- The family of the tokens of a kind. -/
def ofKind : TokenKind → Family
  | .number => .number
  | .string => .string
  | .lineBreak => .lineBreak
  | .lineComment => .lineComment
  | .blockComment => .blockComment
  | kind => if kind.isIdentifierName then .word else .punctuator

theorem ofKind_keyword : ∀ k ∈ TokenKind.keywords, ofKind k = .word := by decide +kernel

theorem ofKind_punctuator : ∀ k ∈ TokenKind.punctuators, ofKind k = .punctuator := by
  decide +kernel

theorem ofText_keyword : ∀ k ∈ TokenKind.keywords, ofText k.display = .word := by decide +kernel

theorem ofText_punctuator : ∀ k ∈ TokenKind.punctuators, ofText k.display = .punctuator := by
  decide +kernel

/-- Two characters settle a family. -/
theorem ofText_append {t : Text} (h : 2 ≤ t.length) (u : Text) : ofText (t ++ u) = ofText t := by
  match t, h with
  | c :: d :: t, _ => rfl

theorem ofText_digit {c : Char} (h : isDecimalDigit c) (t : Text) : ofText (c :: t) = .number := by
  simp [ofText, not_isIdentifierStart_of_isDecimalDigit h, h]

theorem ofText_quote {c : Char} (h : c = '"' ∨ c = '\'') (t : Text) :
    ofText (c :: t) = .string := by
  obtain rfl | rfl := h <;> rfl

theorem ofText_lineTerminator {c : Char} (h : isLineTerminator c) (t : Text) :
    ofText (c :: t) = .lineBreak := by
  simp only [isLineTerminator, Bool.or_eq_true, decide_eq_true_eq] at h
  obtain ((rfl | rfl) | rfl) | rfl := h <;> rfl

theorem ofText_numeral {t : Text} (h : numeral t ≠ []) : ofText t = .number := by
  cases t with
  | nil => exact absurd rfl h
  | cons c t =>
      obtain hc | ⟨rfl, d, hd, hdigit⟩ := numeral_ne_nil_iff.mp h
      · exact ofText_digit hc t
      · obtain ⟨u, rfl⟩ := List.head?_eq_some_iff.mp hd
        simp [ofText, hdigit]
        decide

end Family

theorem keywords_parts : ∀ k ∈ TokenKind.keywords, ∀ c ∈ k.display, isIdentifierPart c := by
  have hall : ∀ k ∈ TokenKind.keywords, k.display.all isIdentifierPart := by decide +kernel
  exact fun k hk => List.all_eq_true.mp (hall k hk)

namespace Lexical

variable {k : TokenKind} {w : Text}

theorem ne_nil (h : Lexical k w) : w ≠ [] := by
  cases h with
  | number hw =>
      cases hw with
      | decimal hwhole => exact fun h => hwhole.1 (List.append_eq_nil_iff.mp h).1
      | fraction => exact List.cons_ne_nil _ _
      | hexadecimal => exact List.cons_ne_nil _ _
  | string hw =>
      obtain ⟨quote, parts, -, -, rfl⟩ := hw
      exact List.cons_ne_nil _ _
  | keyword hk =>
      rintro hnil
      have := Family.ofText_keyword _ hk
      rw [hnil] at this
      cases this
  | punctuator hk => exact (punctuators_tail _ hk).1
  | lineBreak hw => exact hw
  | identifier => exact List.cons_ne_nil _ _
  | lineComment => exact List.cons_ne_nil _ _
  | blockComment => exact List.cons_ne_nil _ _

/-- The family of a token is that of its kind. -/
theorem family (h : Lexical k w) : Family.ofText w = Family.ofKind k := by
  cases h with
  | number hw =>
      refine Family.ofText_numeral fun hnil => ?_
      have hlength := hw.length_le []
      rw [List.append_nil, hnil] at hlength
      exact ne_nil (.number hw) (List.length_eq_zero_iff.mp (Nat.le_zero.mp hlength))
  | string hw =>
      obtain ⟨quote, parts, hquote, -, rfl⟩ := hw
      exact Family.ofText_quote hquote _
  | identifier hstart => exact if_pos hstart
  | keyword hk => rw [Family.ofText_keyword _ hk, Family.ofKind_keyword _ hk]
  | punctuator hk => rw [Family.ofText_punctuator _ hk, Family.ofKind_punctuator _ hk]
  | lineBreak hne hw =>
      obtain ⟨c, w, rfl⟩ := List.exists_cons_of_ne_nil hne
      exact Family.ofText_lineTerminator (hw c (by simp)) _
  | lineComment => rfl
  | blockComment => rfl

/-- What a text begins with is of the family of the text, or it is one character long. -/
theorem family_append (h : Lexical k w) (u : Text) :
    Family.ofText (w ++ u) = Family.ofKind k ∨ w.length = 1 := by
  have hpos := List.length_pos_iff.mpr h.ne_nil
  obtain hlength | hlength : 2 ≤ w.length ∨ w.length = 1 := by omega
  · exact .inl ((Family.ofText_append hlength u).trans h.family)
  · exact .inr hlength

/-- What the family of a token tells of it. -/
theorem of_family (h : Lexical k w) : match Family.ofKind k with
    | .word => (∀ c ∈ w, isIdentifierPart c) ∧
        (k = .identifier ∨ k ∈ TokenKind.keywords ∧ w = k.display)
    | .number => k = .number ∧ IsNumeral w
    | .string => k = .string ∧ IsClosedLiteral w
    | .punctuator => k ∈ TokenKind.punctuators ∧ w = k.display
    | .lineBreak => k = .lineBreak ∧ ∀ c ∈ w, isLineTerminator c
    | .lineComment => k = .lineComment ∧
        ∃ body, w = '/' :: '/' :: body ∧ ∀ c ∈ body, isLineTerminator c = false
    | .blockComment => k = .blockComment ∧
        ∃ body, w = '/' :: '*' :: (body ++ ['*', '/']) ∧ ¬['*', '/'] <:+: body ++ ['*'] := by
  cases h with
  | number hw => exact ⟨rfl, hw⟩
  | string hw => exact ⟨rfl, hw⟩
  | identifier hstart hw =>
      exact ⟨List.forall_mem_cons.mpr ⟨isIdentifierPart_of_isIdentifierStart hstart, hw⟩, .inl rfl⟩
  | keyword hk =>
      rw [Family.ofKind_keyword _ hk]
      exact ⟨keywords_parts _ hk, .inr ⟨hk, rfl⟩⟩
  | punctuator hk =>
      rw [Family.ofKind_punctuator _ hk]
      exact ⟨hk, rfl⟩
  | lineBreak _ hw => exact ⟨rfl, hw⟩
  | lineComment hbody => exact ⟨rfl, _, rfl, hbody⟩
  | blockComment hbody => exact ⟨rfl, _, rfl, hbody⟩

end Lexical

end EcmaSyntax
