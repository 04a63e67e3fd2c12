import EcmaSyntax.Proofs.StringValues

/-!
# Strings in one pass

**Parts.**  A single pass behind an opening quote takes a part in each turn.  A backslash makes a
part with the character after it, with both characters of an escaped carriage return and line feed,
and with the digits of a numeric escape, as far as there are any.  Every other character is a part
by itself.  A numeric escape is complete if it has as many digits as it asks for.

**Cooking.**  `nextPiece?` is one turn of cooking.  `Cooked part behind piece` says that a turn
takes a whole part and leaves what is behind it.

**Results.**
* `stringLexeme_eq`: a single pass finds the token or the fault that the scanner finds, for every
  text.
* `TokenAt.exists_parts`: the parts of a string token are complete, and behind them comes its quote.
* `takeParts_cooked`: cooking takes each complete part in one turn, whatever the parts around it.
-/

namespace EcmaSyntax

variable {quote c : Char} {part t u v w : Text} {parts : List Text}

/-! ## Parts -/

/-- What one turn takes off the head of a text. -/
def nextPart : Text → Text
  | '\\' :: letter :: t =>
      match escapeDigits? letter with
      | some count => '\\' :: letter :: (t.take count).takeWhile isHexDigit
      | none => if letter = '\r' ∧ t.head? = some '\n' then ['\\', '\r', '\n'] else ['\\', letter]
  | t => t.take 1

/-- A part, and the text behind it. -/
inductive PartAt : Text → Text → Prop
  | character {c : Char} {v : Text} : c ≠ '\\' → PartAt [c] v
  /-- A backslash at the end of the input. -/
  | dangling : PartAt ['\\'] []
  | numeric {letter : Char} {count : Nat} {digits v : Text} : escapeDigits? letter = some count →
      digits.length ≤ count → (∀ d ∈ digits, isHexDigit d) →
      (digits.length < count → ∀ d ∈ v.head?, isHexDigit d = false) →
      PartAt ('\\' :: letter :: digits) v
  | carriageReturn {v : Text} : PartAt ['\\', '\r', '\n'] v
  | escape {letter : Char} {v : Text} : escapeDigits? letter = none →
      ¬(letter = '\r' ∧ v.head? = some '\n') → PartAt ['\\', letter] v

/-- The digits that an escape takes off a text. -/
theorem hexDigits_split (count : Nat) (t : Text) :
    ∃ v, t = (t.take count).takeWhile isHexDigit ++ v ∧
      ((t.take count).takeWhile isHexDigit).length ≤ count ∧
      (((t.take count).takeWhile isHexDigit).length < count →
        ∀ d ∈ v.head?, isHexDigit d = false) := by
  have htake := List.takeWhile_append_dropWhile (p := isHexDigit) (l := t.take count)
  have hhead := List.head?_dropWhile_not isHexDigit (t.take count)
  generalize (t.take count).takeWhile isHexDigit = digits at htake ⊢
  generalize (t.take count).dropWhile isHexDigit = others at htake hhead
  have hlength := congrArg List.length htake
  rw [List.length_append, List.length_take] at hlength
  refine ⟨others ++ t.drop count, ?_, by omega, fun hlt d hd => ?_⟩
  · rw [← List.append_assoc, htake, List.take_append_drop]
  · cases others with
    | nil =>
        -- all that there is to take was taken
        rw [List.nil_append, List.drop_eq_nil_of_le (by simp at hlength; omega)] at hd
        cases hd
    | cons e others =>
        cases hd
        simpa using hhead

/-- Each turn takes a part. -/
theorem partAt_cons (c : Char) (t : Text) :
    ∃ v, c :: t = nextPart (c :: t) ++ v ∧ PartAt (nextPart (c :: t)) v := by
  by_cases hc : c = '\\'
  · subst hc
    obtain _ | ⟨letter, t⟩ := t
    · exact ⟨[], rfl, .dangling⟩
    · cases hcount : escapeDigits? letter with
      | some count =>
          obtain ⟨v, hv, hle, hnext⟩ := hexDigits_split count t
          have hpart : nextPart ('\\' :: letter :: t) =
              '\\' :: letter :: (t.take count).takeWhile isHexDigit := by
            rw [nextPart, hcount]
          rw [hpart]
          exact ⟨v, congrArg ('\\' :: letter :: ·) hv,
            .numeric hcount hle (fun d hd => of_mem_takeWhile hd) hnext⟩
      | none =>
          rw [nextPart, hcount]
          by_cases hpair : letter = '\r' ∧ t.head? = some '\n'
          · obtain ⟨rfl, hhead⟩ := hpair
            obtain ⟨u, rfl⟩ := List.head?_eq_some_iff.mp hhead
            exact ⟨u, rfl, .carriageReturn⟩
          · simp only [if_neg hpair]
            exact ⟨t, rfl, .escape hcount hpair⟩
  · have hpart : nextPart (c :: t) = [c] := nextPart.eq_2 _ fun _ _ h => hc (List.cons.inj h).1
    rw [hpart]
    exact ⟨t, rfl, .character hc⟩

namespace PartAt

theorem ne_nil (h : PartAt part v) : part ≠ [] := by
  cases h <;> exact List.cons_ne_nil _ _

/-- A part depends on the next character behind it only. -/
theorem congr (h : PartAt part v) (hw : ∀ c ∈ w.head?, c ∈ v.head?) : PartAt part w := by
  cases h with
  | character hc => exact .character hc
  | dangling =>
      cases w with
      | nil => exact .dangling
      | cons c w => cases hw c rfl
  | numeric hcount hle hhex hnext =>
      exact .numeric hcount hle hhex fun hlt d hd => hnext hlt d (hw d hd)
  | carriageReturn => exact .carriageReturn
  | escape hnone hpair => exact .escape hnone fun ⟨hreturn, hhead⟩ => hpair ⟨hreturn, hw _ hhead⟩

end PartAt

theorem nextPart_ne_nil (c : Char) (t : Text) : nextPart (c :: t) ≠ [] := by
  obtain ⟨v, -, h⟩ := partAt_cons c t
  exact h.ne_nil

/-- The parts in front of the closing quote, or else in front of a line terminator or of the end of
the input. -/
def takeParts (quote : Char) (t : Text) : List Text × Bool :=
  match t with
  | [] => ([], false)
  | c :: t =>
      if c = quote then ([], true)
      else if isLineTerminator c then ([], false)
      else
        let part := nextPart (c :: t)
        let (parts, closed) := takeParts quote ((c :: t).drop part.length)
        (part :: parts, closed)
termination_by t.length
decreasing_by
  have := List.length_pos_iff.mpr (nextPart_ne_nil c t)
  simp only [List.length_drop, List.length_cons]
  omega

/-- A pass takes nothing in front of the quote, of a line terminator and of the end. -/
theorem takeParts_nil {closed : Bool} (h : takeParts quote t = ([], closed)) :
    (closed = true ∧ ∃ r, t = quote :: r) ∨
      (closed = false ∧ ∀ c ∈ t.head?, c ≠ quote ∧ isLineTerminator c) := by
  fun_cases takeParts quote t with
  | case1 =>
      rw [takeParts] at h
      exact .inr ⟨(Prod.mk.inj h).2.symm, nofun⟩
  | case2 t =>
      rw [takeParts, if_pos rfl] at h
      exact .inl ⟨(Prod.mk.inj h).2.symm, t, rfl⟩
  | case3 c t hc hline =>
      rw [takeParts, if_neg hc, if_pos hline] at h
      refine .inr ⟨(Prod.mk.inj h).2.symm, fun d hd => ?_⟩
      obtain rfl := Option.some.inj hd
      exact ⟨hc, hline⟩
  | case4 c t hc hline =>
      rw [takeParts, if_neg hc, if_neg hline] at h
      cases h

/-- A pass goes on behind the first part. -/
theorem takeParts_cons {closed : Bool} (h : takeParts quote t = (part :: parts, closed)) :
    ∃ v, t = part ++ v ∧ PartAt part v ∧ takeParts quote v = (parts, closed) ∧
      ∀ c ∈ part.head?, c ≠ quote ∧ isLineTerminator c = false := by
  cases t with
  | nil =>
      rw [takeParts] at h
      cases h
  | cons c t =>
      rw [takeParts] at h
      by_cases hc : c = quote
      · rw [if_pos hc] at h
        cases h
      by_cases hline : isLineTerminator c
      · rw [if_neg hc, if_pos hline] at h
        cases h
      rw [if_neg hc, if_neg hline] at h
      obtain ⟨v, hv, hpart⟩ := partAt_cons c t
      have hdrop : (c :: t).drop (nextPart (c :: t)).length = v :=
        (congrArg (List.drop _) hv).trans List.drop_left
      dsimp only at h
      rw [hdrop] at h
      obtain ⟨hfirst, rfl⟩ := Prod.mk.inj h
      obtain ⟨rfl, rfl⟩ := List.cons.inj hfirst
      refine ⟨v, hv, hpart, rfl, fun d hd => ?_⟩
      obtain ⟨u, hu⟩ := List.head?_eq_some_iff.mp hd
      rw [hu] at hv
      obtain ⟨rfl, -⟩ := List.cons.inj hv
      exact ⟨hc, Bool.eq_false_iff.mpr hline⟩

/-- Whether a part has as many digits as it asks for. -/
def isComplete : Text → Bool
  | '\\' :: letter :: digits => (escapeDigits? letter).all (digits.length = ·)
  | _ => true

/-! ## The scanner -/

/-- Characters that neither end a string nor escape anything are passed over. -/
theorem stringRest_append (hu : ∀ c ∈ u, c ≠ quote ∧ c ≠ '\\' ∧ isLineTerminator c = false) :
    stringRest quote (u ++ v) = (u ++ (stringRest quote v).1, (stringRest quote v).2) := by
  induction u with
  | nil => rfl
  | cons c u ih =>
      obtain ⟨⟨hc, hslash, hline⟩, hu⟩ := List.forall_mem_cons.mp hu
      rw [List.cons_append, stringRest.eq_4 _ _ _ (fun _ h => absurd h hslash)
        (fun _ _ h => absurd h hslash), if_neg hc, hline, if_neg Bool.false_ne_true, ih hu]
      rfl

/-- Neither are they looked at for escapes. -/
theorem wellEscaped_append (hu : ∀ c ∈ u, c ≠ '\\') : wellEscaped (u ++ v) = wellEscaped v := by
  induction u with
  | nil => rfl
  | cons c u ih =>
      obtain ⟨hc, hu⟩ := List.forall_mem_cons.mp hu
      rw [List.cons_append, wellEscaped_cons hc, ih hu]

theorem isHexDigit_plain (hquote : quote = '"' ∨ quote = '\'') (hc : isHexDigit c) :
    c ≠ quote ∧ c ≠ '\\' ∧ isLineTerminator c = false := by
  have hquote' : isHexDigit quote = false := by obtain rfl | rfl := hquote <;> decide
  refine ⟨?_, ne_backslash_of_isHexDigit hc,
    isLineTerminator_of_isIdentifierPart (isIdentifierPart_of_isDigitOf hc)⟩
  rintro rfl
  rw [hc] at hquote'
  cases hquote'

/-- A text goes on with as many digits as it asks for if those that it takes are enough. -/
theorem startsWithHex_append {count : Nat} {digits : Text} (hle : digits.length ≤ count)
    (hhex : ∀ d ∈ digits, isHexDigit d) (hne : v ≠ [])
    (hnext : digits.length < count → ∀ d ∈ v.head?, isHexDigit d = false) :
    startsWithHex count (digits ++ v) = decide (digits.length = count) := by
  by_cases hcount : digits.length = count
  · rw [decide_eq_true hcount]
    exact startsWithHex_iff.mpr ⟨digits, hcount, hhex, List.prefix_append _ _⟩
  · rw [decide_eq_false hcount, Bool.eq_false_iff, ne_eq, startsWithHex_iff]
    rintro ⟨more, hlength, hmore, hstart⟩
    obtain ⟨d, v, rfl⟩ := List.exists_cons_of_ne_nil hne
    have hd := hnext (by omega) d rfl
    obtain ⟨u, rfl⟩ : digits <+: more :=
      List.prefix_of_prefix_length_le (List.prefix_append _ _) hstart (by omega)
    obtain _ | ⟨e, u⟩ := u
    · simp at hlength
      omega
    · rw [List.prefix_append_right_inj, List.cons_prefix_cons] at hstart
      obtain ⟨rfl, -⟩ := hstart
      rw [hmore e (by simp)] at hd
      cases hd

namespace PartAt

/-- The scanner takes a part that does not end the string, and goes on behind it. -/
theorem stringRest_eq (h : PartAt part v) (hquote : quote = '"' ∨ quote = '\'')
    (hends : ∀ c ∈ part.head?, c ≠ quote ∧ isLineTerminator c = false) :
    stringRest quote (part ++ v) = (part ++ (stringRest quote v).1, (stringRest quote v).2) := by
  cases h with
  | @character c _ hc =>
      obtain ⟨hne, hline⟩ := hends c rfl
      exact stringRest_append (List.forall_mem_singleton.mpr ⟨hne, hc, hline⟩)
  | dangling =>
      obtain rfl | rfl := hquote <;> rfl
  | @numeric letter count digits v hcount _ hhex =>
      have hreturn : letter ≠ '\r' := by
        rintro rfl
        cases hcount
      have hdigits : stringRest quote (digits ++ v) =
          (digits ++ (stringRest quote v).1, (stringRest quote v).2) :=
        stringRest_append fun d hd => isHexDigit_plain hquote (hhex d hd)
      rw [List.cons_append, List.cons_append, stringRest.eq_3 _ _ _ fun _ h => absurd h hreturn, hdigits]
      rfl
  | carriageReturn => rfl
  | @escape letter v _ hpair =>
      have hside : ∀ t, letter = '\r' → v = '\n' :: t → False :=
        fun t hreturn hv => hpair ⟨hreturn, by rw [hv]; rfl⟩
      rw [List.cons_append, List.cons_append, List.nil_append, stringRest.eq_3 _ _ _ hside]
      rfl

/-- The scanner looks for the digits of a part, and goes on behind it. -/
theorem wellEscaped_eq (h : PartAt part v) (hne : v ≠ []) :
    wellEscaped (part ++ v) = (isComplete part && wellEscaped v) := by
  cases h with
  | character hc =>
      rw [List.singleton_append, wellEscaped_cons hc]
      simp [isComplete]
  | dangling => exact absurd rfl hne
  | @numeric letter count digits v hcount hle hhex hnext =>
      have hdigits : wellEscaped (digits ++ v) = wellEscaped v :=
        wellEscaped_append fun d hd => ne_backslash_of_isHexDigit (hhex d hd)
      rw [List.cons_append, List.cons_append, wellEscaped_backslash, hcount, Option.all_some,
        startsWithHex_append hle hhex hne hnext, hdigits, isComplete, hcount, Option.all_some]
  | carriageReturn => rfl
  | escape hnone =>
      rw [List.cons_append, List.singleton_append, wellEscaped_backslash, isComplete, hnone]
      rfl

end PartAt

/-- The scanner takes the same parts. -/
theorem stringRest_eq_takeParts {closed : Bool} (hquote : quote = '"' ∨ quote = '\'')
    (h : takeParts quote t = (parts, closed)) :
    stringRest quote t = (parts.flatten ++ if closed then [quote] else [], closed) := by
  induction parts generalizing t with
  | nil =>
      have hslash := ne_backslash_of_quote hquote
      obtain ⟨rfl, r, rfl⟩ | ⟨rfl, hends⟩ := takeParts_nil h
      · rw [stringRest.eq_4 _ _ _ (fun _ h => absurd h hslash) (fun _ _ h => absurd h hslash),
          if_pos rfl]
        rfl
      · cases t with
        | nil => rfl
        | cons c t =>
            obtain ⟨hc, hline⟩ := hends c rfl
            have hc' : c ≠ '\\' := by
              rintro rfl
              cases hline
            rw [stringRest.eq_4 _ _ _ (fun _ h => absurd h hc') (fun _ _ h => absurd h hc'),
              if_neg hc, if_pos hline]
            rfl
  | cons part parts ih =>
      obtain ⟨v, rfl, hpart, hv, hends⟩ := takeParts_cons h
      rw [hpart.stringRest_eq hquote hends, ih hv, List.flatten_cons, List.append_assoc]

/-- What comes behind a closing quote. -/
theorem takeParts_split (hquote : quote = '"' ∨ quote = '\'')
    (h : takeParts quote t = (parts, true)) : ∃ r, t = parts.flatten ++ quote :: r := by
  obtain ⟨-, ⟨r, hr⟩, -⟩ :=
    stringRest_split (ne_backslash_of_quote hquote) (stringRest_eq_takeParts hquote h)
  refine ⟨r, ?_⟩
  rw [hr, if_pos rfl, List.append_assoc, List.singleton_append]

/-- The scanner looks for the digits of each part. -/
theorem wellEscaped_eq_takeParts (hquote : quote = '"' ∨ quote = '\'')
    (h : takeParts quote t = (parts, true)) :
    wellEscaped (parts.flatten ++ [quote]) = parts.all isComplete := by
  induction parts generalizing t with
  | nil => obtain rfl | rfl := hquote <;> rfl
  | cons part parts ih =>
      obtain ⟨v, -, hpart, hv, -⟩ := takeParts_cons h
      obtain ⟨r, rfl⟩ := takeParts_split hquote hv
      have hnext : PartAt part (parts.flatten ++ [quote]) := hpart.congr fun c hc => by
        cases hparts : parts.flatten <;> simpa [hparts] using hc
      rw [List.flatten_cons, List.append_assoc, hnext.wellEscaped_eq (by simp), ih hv, List.all_cons]

/-- A single pass finds what the scanner finds behind an opening quote. -/
theorem stringLexeme_eq (hquote : quote = '"' ∨ quote = '\'') (t : Text) :
    stringLexeme quote t = match takeParts quote t with
      | (parts, true) =>
          if parts.all isComplete then .token .string (quote :: (parts.flatten ++ [quote]))
          else .faulty .invalidEscape (quote :: (parts.flatten ++ [quote])) []
      | (parts, false) => .faulty .unterminatedString (quote :: parts.flatten) [] := by
  unfold stringLexeme
  cases htake : takeParts quote t with
  | mk parts closed =>
      rw [stringRest_eq_takeParts hquote htake]
      cases closed with
      | false => simp
      | true => simp [wellEscaped_eq_takeParts hquote htake]

/-! ## The value -/

/-- What one turn of cooking makes of the head of a text, and the text that it leaves for the next
turn.  There is none at the end and at a backslash in front of it. -/
def nextPiece? : Text → Option (StringPiece × Text)
  | [] => none
  | '\\' :: [] => none
  | '\\' :: letter :: t =>
      match escapeDigits? letter with
      | some count =>
          let digits := (t.take count).takeWhile isHexDigit
          if digits.length = count then some (.unit (digitsValue 16 digits), t.drop count)
          else some (.char letter, t.drop (digits.length + 1))
      | none =>
          if letter = '\r' then some (.nothing, t.drop (if t.head? = some '\n' then 1 else 0))
          else if isLineTerminator letter then some (.nothing, t)
          else some (.char (simpleEscape letter t.head?), t)
  | c :: t => some (.char c, t)

/-- Cooking goes from turn to turn. -/
theorem pieces_eq_nextPiece? (t : Text) : pieces t = match nextPiece? t with
    | some (piece, t) => piece :: pieces t
    | none => [] := by
  fun_cases nextPiece? t with
  | case1 => rw [pieces]
  | case2 => rw [pieces]
  | case3 letter t count hcount digits hlength =>
      rw [pieces, hcount]
      exact if_pos hlength
  | case4 letter t count hcount digits hlength =>
      rw [pieces, hcount]
      exact if_neg hlength
  | case5 t hcount =>
      rw [pieces, hcount]
      exact if_pos rfl
  | case6 letter t hcount hreturn hline =>
      rw [pieces, hcount]
      simp only [if_neg hreturn, if_pos hline]
  | case7 letter t hcount hreturn hline =>
      rw [pieces, hcount]
      simp only [if_neg hreturn, if_neg hline]
  | case8 c t hdangling hslash => rw [pieces] <;> assumption

/-- A turn of cooking takes a whole part.  A numeric escape becomes the code unit of its digits. -/
structure Cooked (part behind : Text) (piece : StringPiece) : Prop where
  turn : nextPiece? (part ++ behind) = some (piece, behind)
  unit : ∀ {letter : Char} {count : Nat} {digits : Text}, part = '\\' :: letter :: digits →
    escapeDigits? letter = some count →
    digits.length = count ∧ (∀ d ∈ digits, isHexDigit d) ∧ piece = .unit (digitsValue 16 digits)

namespace Cooked

variable {piece : StringPiece}

theorem pieces_eq (h : Cooked part v piece) : pieces (part ++ v) = piece :: pieces v := by
  rw [pieces_eq_nextPiece?, h.turn]

/-- Cooking does not stop at a backslash in front of the end. -/
theorem ne_backslash (h : Cooked part v piece) : part ++ v ≠ ['\\'] := by
  intro hend
  have hturn := h.turn
  rw [hend] at hturn
  cases hturn

end Cooked

/-- Each complete part in front of other text is cooked, also with the text cut off. -/
theorem PartAt.exists_cooked (h : PartAt part v) (hne : v ≠ []) (hcomplete : isComplete part)
    (hw : ∀ c ∈ w.head?, c ∈ v.head?) : ∃ piece, Cooked part w piece := by
  cases h with
  | character hc =>
      refine ⟨_, nextPiece?.eq_4 _ _ (fun h _ => hc h) (fun _ _ h _ => hc h), ?_⟩
      rintro letter count digits ⟨⟩
  | dangling => exact absurd rfl hne
  | @numeric letter count digits _ hcount hle hhex hnext =>
      rw [isComplete, hcount, Option.all_some, decide_eq_true_eq] at hcomplete
      have htake : ((digits ++ w).take count).takeWhile isHexDigit = digits := by
        rw [← hcomplete, List.take_left, List.takeWhile_eq_self_iff]
        exact hhex
      refine ⟨.unit (digitsValue 16 digits), ?_, ?_⟩
      · rw [List.cons_append, List.cons_append, nextPiece?, hcount]
        simp only [htake, if_pos hcomplete]
        rw [← hcomplete, List.drop_left]
      · rintro letter' count' digits' ⟨⟩ hcount'
        obtain rfl := Option.some.inj (hcount.symm.trans hcount')
        exact ⟨hcomplete, hhex, rfl⟩
  | carriageReturn =>
      refine ⟨.nothing, rfl, ?_⟩
      rintro letter count digits ⟨⟩ hcount
      cases hcount
  | @escape letter v hnone hpair =>
      have hcooked : ∃ piece, nextPiece? (['\\', letter] ++ w) = some (piece, w) := by
        rw [List.cons_append, List.singleton_append, nextPiece?, hnone]
        by_cases hreturn : letter = '\r'
        · have hnext : w.head? ≠ some '\n' := fun h => hpair ⟨hreturn, hw _ h⟩
          simp [hreturn, hnext]
        · by_cases hline : isLineTerminator letter <;> simp [hreturn, hline]
      obtain ⟨piece, hturn⟩ := hcooked
      refine ⟨piece, hturn, ?_⟩
      rintro letter' count digits ⟨⟩ hcount
      rw [hnone] at hcount
      cases hcount

/-- The parts that a pass takes in front of a quote are cooked one by one. -/
theorem takeParts_cooked {before after : List Text} (hquote : quote = '"' ∨ quote = '\'')
    (h : takeParts quote t = (before ++ part :: after, true)) (hcomplete : isComplete part) :
    ∃ piece, Cooked part after.flatten piece := by
  induction before generalizing t with
  | nil =>
      obtain ⟨v, -, hpart, hv, -⟩ := takeParts_cons h
      obtain ⟨r, rfl⟩ := takeParts_split hquote hv
      refine hpart.exists_cooked (by simp) hcomplete fun c hc => ?_
      cases hafter : after.flatten with
      | nil =>
          rw [hafter] at hc
          cases hc
      | cons d after => rwa [hafter] at hc
  | cons _ before ih =>
      obtain ⟨v, -, -, hv, -⟩ := takeParts_cons h
      exact ih hv

/-! ## Tokens -/

/-- What the scanner finds to be a string has complete parts only. -/
theorem TokenAt.exists_parts {r : Text} (h : TokenAt .string w r) :
    ∃ quote parts, (quote = '"' ∨ quote = '\'') ∧ w = quote :: (parts.flatten ++ [quote]) ∧
      takeParts quote (parts.flatten ++ quote :: r) = (parts, true) ∧
        ∀ part ∈ parts, isComplete part := by
  obtain ⟨quote, body, rfl, hquote, hclosed, hescaped⟩ := h.of_string
  have hrest := hclosed r
  cases htake : takeParts quote (body ++ r) with
  | mk parts closed =>
      rw [stringRest_eq_takeParts hquote htake] at hrest
      obtain ⟨hbody, rfl⟩ := Prod.mk.inj hrest
      rw [if_pos rfl] at hbody
      subst hbody
      rw [wellEscaped_eq_takeParts hquote htake, List.all_eq_true] at hescaped
      refine ⟨quote, parts, hquote, rfl, ?_, hescaped⟩
      rwa [List.append_assoc, List.singleton_append] at htake

end EcmaSyntax
