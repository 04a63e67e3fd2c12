import EcmaSyntax.Proofs.Steps

/-!
# Lexemes in front of a line feed

**Input.**  A text with a line feed behind it, and whatever comes after that.

**Method.**  No number, word or punctuator goes past the end of a line, so none of them depends on
what comes after it.  Only a string does, if its last character in the line is a backslash, and then
it reaches over the line feed.

**Results.**
* `lexeme?_lineFeed`: the lexeme at the head of the text ends in it and stays the same whatever
  comes after the line feed, or it reaches over the line feed.
* `regexLiteral?_lineFeed`: a regular expression never does.
-/

namespace EcmaSyntax

variable (t u : Text)

theorem takeWhile_lineFeed {p : Char → Bool} (hp : p '\n' = false) :
    (t ++ '\n' :: u).takeWhile p = t.takeWhile p := by
  rw [List.takeWhile_append]
  split
  · next h =>
      rw [List.takeWhile_cons, hp, if_neg Bool.false_ne_true, List.append_nil]
      exact ((List.takeWhile_prefix p).eq_of_length h).symm
  · rfl

/-! ## Numerals -/

theorem exponentPart_lineFeed : exponentPart (t ++ '\n' :: u) = exponentPart t := by
  cases t with
  | nil => rfl
  | cons mark t =>
      have hhead : ∀ c, c ≠ '\n' → ((t ++ '\n' :: u).head? = some c ↔ t.head? = some c) := by
        intro c hc
        cases t <;> simp [Ne.symm hc]
      have htake : (t ++ '\n' :: u).take
          (if t.head? = some '+' ∨ t.head? = some '-' then 1 else 0) =
            t.take (if t.head? = some '+' ∨ t.head? = some '-' then 1 else 0) := by
        cases t <;> split <;> simp_all
      have hle : (t.take (if t.head? = some '+' ∨ t.head? = some '-' then 1 else 0)).length ≤
          t.length := List.length_take_le' _ _
      simp only [List.cons_append, exponentPart, hhead '+' (by decide), hhead '-' (by decide),
        htake, List.drop_append_of_le_length hle]
      rw [takeWhile_lineFeed _ _ (by decide)]

theorem fractionPart_lineFeed : fractionPart (t ++ '\n' :: u) = fractionPart t := by
  cases t with
  | nil => rfl
  | cons c t =>
      by_cases hc : c = '.'
      · subst hc
        simp only [List.cons_append, fractionPart, takeWhile_lineFeed t u (p := isDecimalDigit)
          (by decide)]
      · rw [fractionPart_nil (by simpa using hc), fractionPart_nil (by simpa using hc)]

theorem fractionPart_length_le : (fractionPart t).length ≤ t.length := by
  unfold fractionPart
  split
  · next t => exact Nat.succ_le_succ (List.takeWhile_prefix _).length_le
  · exact Nat.zero_le _

theorem decimalNumeral_lineFeed : decimalNumeral (t ++ '\n' :: u) = decimalNumeral t := by
  have hwhole : (t.takeWhile isDecimalDigit).length ≤ t.length :=
    (List.takeWhile_prefix _).length_le
  have hmantissa : (t.takeWhile isDecimalDigit ++
      fractionPart (t.drop (t.takeWhile isDecimalDigit).length)).length ≤ t.length := by
    have := fractionPart_length_le (t.drop (t.takeWhile isDecimalDigit).length)
    rw [List.length_drop] at this
    rw [List.length_append]
    omega
  unfold decimalNumeral
  simp only [takeWhile_lineFeed t u (p := isDecimalDigit) (by decide),
    List.drop_append_of_le_length hwhole, fractionPart_lineFeed,
    List.drop_append_of_le_length hmantissa, exponentPart_lineFeed]

theorem hexNumeral_lineFeed : hexNumeral (t ++ '\n' :: u) = hexNumeral t := by
  match t with
  | [] => rfl
  | [c] =>
      by_cases hc : c = '0'
      · subst hc
        simp [hexNumeral]
      · simp [hexNumeral, hc]
  | c :: mark :: t =>
      by_cases hc : c = '0'
      · subst hc
        simp only [List.cons_append, hexNumeral, takeWhile_lineFeed t u (p := isHexDigit)
          (by decide)]
      · simp [hexNumeral, hc]

theorem numeral_lineFeed : numeral (t ++ '\n' :: u) = numeral t := by
  rw [numeral, numeral, hexNumeral_lineFeed, decimalNumeral_lineFeed]

/-! ## Words and punctuators -/

theorem word_lineFeed : word (t ++ '\n' :: u) = word t := takeWhile_lineFeed t u (by decide)

/-- A text without a line feed is at the head of a line, or nowhere. -/
theorem isPrefixOf_lineFeed {w : Text} (hw : '\n' ∉ w) :
    w.isPrefixOf (t ++ '\n' :: u) = w.isPrefixOf t := by
  induction w generalizing t with
  | nil => simp
  | cons c w ih =>
      have hc : c ≠ '\n' := fun hc => hw (hc ▸ List.mem_cons_self)
      cases t with
      | nil => simp [List.isPrefixOf, hc]
      | cons d t => simp [List.isPrefixOf, ih t fun h => hw (List.mem_cons_of_mem c h)]

theorem punctuators_no_lineFeed : ∀ k ∈ TokenKind.punctuators, '\n' ∉ k.display := by decide

theorem punctuator?_lineFeed : punctuator? (t ++ '\n' :: u) = punctuator? t := by
  have hfind : ∀ ks : List TokenKind, (∀ k ∈ ks, '\n' ∉ k.display) →
      ks.find? (·.display.isPrefixOf (t ++ '\n' :: u)) = ks.find? (·.display.isPrefixOf t) := by
    intro ks hks
    induction ks with
    | nil => rfl
    | cons k ks ih =>
        obtain ⟨hk, hks⟩ := List.forall_mem_cons.mp hks
        rw [List.find?_cons, List.find?_cons, isPrefixOf_lineFeed t u hk, ih hks]
  exact hfind _ punctuators_no_lineFeed

/-! ## Strings -/

/-- What follows an opening quote ends in a text, whatever comes after a line feed behind it, or it
reaches over the line feed. -/
def StringEnds (quote : Char) (t u : Text) : Prop :=
  (∃ taken closed, taken.length ≤ t.length ∧
      ∀ u, stringRest quote (t ++ '\n' :: u) = (taken, closed)) ∨
    ∃ more closed, stringRest quote (t ++ '\n' :: u) = (t ++ '\n' :: more, closed)

variable {t u}

theorem StringEnds.append {quote : Char} {w : Text} (h : StringEnds quote t u)
    (hw : ∀ u, stringRest quote (w ++ (t ++ '\n' :: u)) =
      (w ++ (stringRest quote (t ++ '\n' :: u)).1, (stringRest quote (t ++ '\n' :: u)).2)) :
    StringEnds quote (w ++ t) u := by
  obtain ⟨taken, closed, hle, h⟩ | ⟨more, closed, h⟩ := h
  · refine .inl ⟨w ++ taken, closed, by simpa using hle, fun u => ?_⟩
    rw [List.append_assoc, hw, h]
  · refine .inr ⟨more, closed, ?_⟩
    rw [List.append_assoc, hw, h]
    simp

theorem stringEnds {quote : Char} (hquote : quote = '"' ∨ quote = '\'') (t u : Text) :
    StringEnds quote t u := by
  have hslash : quote ≠ '\\' := by
    rintro rfl
    exact absurd hquote (by decide)
  fun_induction stringRest quote t with
  | case1 =>
      refine .inl ⟨[], false, Nat.le_refl _, fun u => ?_⟩
      have hne : '\n' ≠ quote := by
        rintro rfl
        exact absurd hquote (by decide)
      rw [List.nil_append, stringRest.eq_4 _ _ _ (fun _ hc => absurd hc (by decide))
        (fun _ _ hc => absurd hc (by decide)), if_neg hne, if_pos (by decide)]
  | case2 t taken closed heq ih => exact ih.append (w := ['\\', '\r', '\n']) fun _ => rfl
  | case3 c t hne taken closed heq ih =>
      by_cases hcr : c = '\r' ∧ t = []
      · -- the line feed ends the escape that the backslash begins
        obtain ⟨rfl, rfl⟩ := hcr
        exact .inr ⟨(stringRest quote u).1, (stringRest quote u).2, rfl⟩
      · refine ih.append (w := ['\\', c]) fun u => ?_
        refine stringRest.eq_3 _ _ _ fun v hc hv => ?_
        cases t with
        | nil => exact hcr ⟨hc, rfl⟩
        | cons d t => exact hne t hc (by rw [(List.cons.inj hv).1])
  | case4 t h₁ h₂ =>
      refine .inl ⟨[quote], true, Nat.succ_le_succ (Nat.zero_le _), fun u => ?_⟩
      rw [List.cons_append, stringRest.eq_4 _ _ _ (fun _ hc => absurd hc hslash)
        (fun _ _ hc => absurd hc hslash), if_pos rfl]
  | case5 c t h₁ h₂ hc hl =>
      have hne : c ≠ '\\' := by
        rintro rfl
        exact absurd hl (by decide)
      refine .inl ⟨[], false, Nat.zero_le _, fun u => ?_⟩
      rw [List.cons_append, stringRest.eq_4 _ _ _ (fun _ hc => absurd hc hne)
        (fun _ _ hc => absurd hc hne), if_neg hc, if_pos hl]
  | case6 c t h₁ h₂ hc hl taken closed heq ih =>
      by_cases hbackslash : c = '\\'
      · -- the backslash stands at the end of the text and escapes the line feed
        subst hbackslash
        cases t with
        | nil => exact .inr ⟨(stringRest quote u).1, (stringRest quote u).2, rfl⟩
        | cons d t => exact absurd rfl (h₂ d t rfl)
      · refine ih.append (w := [c]) fun u => ?_
        exact (stringRest.eq_4 _ _ _ (fun _ hc => absurd hc hbackslash)
          (fun _ _ hc => absurd hc hbackslash)).trans ((if_neg hc).trans (if_neg hl))

/-! ## The lexeme at the head of a text -/

/-- The text of a token, or the offending text of a fault. -/
def Lexeme.text : Lexeme → Text
  | .token _ text => text
  | .faulty _ read ahead => read ++ ahead

/-- A lexeme is a string, or a fault in one, that reaches over the line feed behind a text. -/
inductive Lexeme.Crosses (t : Text) : Lexeme → Prop
  | token (more : Text) : Crosses t (.token .string (t ++ '\n' :: more))
  | faulty (fault : LexicalFault) (more : Text) : Crosses t (.faulty fault (t ++ '\n' :: more) [])

theorem stringLexeme_lineFeed {quote : Char} (hquote : quote = '"' ∨ quote = '\'') (t u : Text) :
    (∃ lexeme : Lexeme, lexeme.text.length ≤ (quote :: t).length ∧
      ∀ u, stringLexeme quote (t ++ '\n' :: u) = lexeme) ∨
    (stringLexeme quote (t ++ '\n' :: u)).Crosses (quote :: t) := by
  unfold stringLexeme
  obtain ⟨taken, closed, hle, h⟩ | ⟨more, closed, h⟩ := stringEnds hquote t u
  · refine .inl ?_
    simp only [h]
    refine ⟨_, ?_, fun _ => rfl⟩
    split
    · simpa [Lexeme.text] using hle
    · split <;> simpa [Lexeme.text] using hle
  · refine .inr ?_
    rw [h]
    dsimp only
    split
    · exact .faulty _ more
    · split
      · exact .token more
      · exact .faulty _ more

theorem numeralLexeme_lineFeed (t u : Text) :
    numeralLexeme (t ++ '\n' :: u) = numeralLexeme t ∧
      (numeralLexeme t).text.length ≤ t.length := by
  obtain ⟨r, hr⟩ := numeral_split t
  have hle : (numeral t).length ≤ t.length := by
    have := congrArg List.length hr
    rw [List.length_append] at this
    omega
  refine ⟨by simp only [numeralLexeme, numeral_lineFeed, List.drop_append_of_le_length hle,
    word_lineFeed], ?_⟩
  have hword : (word (t.drop (numeral t).length)).length ≤ (t.drop (numeral t).length).length :=
    (List.takeWhile_prefix _).length_le
  rw [List.length_drop] at hword
  unfold numeralLexeme
  dsimp only
  split
  · exact hle
  · rw [Lexeme.text, List.length_append]
    omega

/-- A lexeme ends in a text, whatever comes after a line feed behind it, or it reaches over the line
feed. -/
theorem lexeme?_lineFeed {t : Text} (ht : t ≠ []) (u : Text) :
    (∃ lexeme : Lexeme, lexeme.text.length ≤ t.length ∧
      ∀ u, lexeme? (t ++ '\n' :: u) = some lexeme) ∨
    ∃ lexeme : Lexeme, lexeme? (t ++ '\n' :: u) = some lexeme ∧ lexeme.Crosses t := by
  obtain ⟨c, t, rfl⟩ := List.exists_cons_of_ne_nil ht
  have hword := word_lineFeed (c :: t)
  have hnumeral := numeral_lineFeed (c :: t)
  have hpunctuator := punctuator?_lineFeed (c :: t)
  have hlexeme := numeralLexeme_lineFeed (c :: t)
  simp only [List.cons_append] at hword hnumeral hpunctuator hlexeme
  simp only [List.cons_append, lexeme?, hword, hnumeral, hpunctuator, hlexeme]
  split
  · exact .inl ⟨.token _ _, (List.takeWhile_prefix _).length_le, fun _ => rfl⟩
  · split
    · exact .inl ⟨_, (hlexeme []).2, fun _ => rfl⟩
    · split
      · next hquote =>
          obtain ⟨lexeme, hle, h⟩ | hcrosses :=
            stringLexeme_lineFeed (by simpa using hquote) t u
          · exact .inl ⟨lexeme, hle, fun u => congrArg some (h u)⟩
          · exact .inr ⟨_, rfl, hcrosses⟩
      · refine .inl ⟨_, ?_, fun _ => rfl⟩
        split
        · next k hk =>
            exact (punctuator?_eq_some_iff.mp hk).2.1.length_le
        · exact Nat.succ_le_succ (Nat.zero_le _)

/-! ## Regular expressions -/

theorem regexRest?_lineFeed (inClass : Bool) (t u : Text) :
    regexRest? inClass (t ++ '\n' :: u) = regexRest? inClass t := by
  have hcons : ∀ {inClass : Bool} {c : Char} {t : Text}, (c = '\\' → t = [] → False) →
      (∀ d v, c = '\\' → t = d :: v → False) → regexRest? inClass (c :: (t ++ '\n' :: u)) =
        if isLineTerminator c then none
        else if c = '/' && !inClass then some []
        else (regexRest? (c = '[' || (inClass && c != ']')) (t ++ '\n' :: u)).map (c :: ·) := by
    intro inClass c t h₁ h₂
    have hne : c ≠ '\\' := by
      rintro rfl
      cases t with
      | nil => exact h₁ rfl rfl
      | cons d v => exact h₂ d v rfl rfl
    exact regexRest?.eq_4 _ _ _ (fun hc => absurd hc hne) (fun _ _ hc => absurd hc hne)
  fun_induction regexRest? inClass t with
  | case1 => rfl
  | case2 => rfl
  | case3 inClass c t hl => rw [List.cons_append, List.cons_append, regexRest?, if_pos hl]
  | case4 inClass c t hl ih => rw [List.cons_append, List.cons_append, regexRest?, if_neg hl, ih]
  | case5 inClass c t h₁ h₂ hl => rw [List.cons_append, hcons h₁ h₂, if_pos hl]
  | case6 inClass c t h₁ h₂ hl hc => rw [List.cons_append, hcons h₁ h₂, if_neg hl, if_pos hc]
  | case7 inClass c t h₁ h₂ hl hc ih =>
      rw [List.cons_append, hcons h₁ h₂, if_neg hl, if_neg hc, ih]

theorem regexLiteral?_lineFeed (t u : Text) :
    regexLiteral? (t ++ '\n' :: u) = regexLiteral? t := by
  unfold regexLiteral?
  rw [regexRest?_lineFeed]
  split
  · next c body hrest =>
      obtain ⟨⟨r, hr⟩, -⟩ := regexRest?_split hrest
      have hle : body.length + 2 ≤ t.length := by simp [hr]
      rw [List.drop_append_of_le_length hle, takeWhile_lineFeed _ _ (by decide)]
  · rfl

end EcmaSyntax
