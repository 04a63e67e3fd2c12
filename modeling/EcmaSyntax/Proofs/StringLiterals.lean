import EcmaSyntax.Literal
import EcmaSyntax.Proofs.Positions

/-!
# String literals

**Parts.**  What follows an opening quote is cut into parts.  A backslash makes a part with the
character after it, and with both characters of an escaped carriage return and line feed.  Every
other character is a part by itself.

**Ends.**  A string ends at the first part that is its quote or a line terminator.

**Escapes.**  A numeric escape is complete if its part has all its digits directly behind it.

**Results.**
* `stringRest_of_parts`: what the scanner takes behind an opening quote, in terms of the parts.
* `wellEscaped_of_parts`: which escapes it accepts.
* `string_literal_scanned`: which quotes open a token, which faults there are, and how far the
  scanner reads.
-/

namespace EcmaSyntax

/-- The parts of a text behind an opening quote. -/
def stringParts : Text → List Text
  | [] => []
  | '\\' :: '\r' :: '\n' :: t => ['\\', '\r', '\n'] :: stringParts t
  | '\\' :: c :: t => ['\\', c] :: stringParts t
  | c :: t => [c] :: stringParts t

/-- Parts at which a string ends: its quote, and line terminators. -/
def endsString (quote : Char) : Text → Bool
  | [c] => c = quote || isLineTerminator c
  | _ => false

/-- Each numeric escape among some parts has all its digits directly behind it. -/
def EscapesComplete (parts : List Text) : Prop :=
  ∀ before letter after count, parts = before ++ ['\\', letter] :: after →
    escapeDigits? letter = some count →
      ∃ digits : Text, digits.length = count ∧ (∀ d ∈ digits, isHexDigit d) ∧
        digits <+: after.flatten

/-! ## Parts -/

variable {quote : Char} {t : Text} {p : Text} {parts inside outside after : List Text}

/-- The parts make up the text. -/
theorem flatten_stringParts (t : Text) : (stringParts t).flatten = t := by
  fun_induction stringParts t with
  | case1 => rfl
  | case2 t ih => rw [List.flatten_cons, ih]; rfl
  | case3 c t _ ih => rw [List.flatten_cons, ih]; rfl
  | case4 c t _ _ ih => rw [List.flatten_cons, ih]; rfl

theorem ne_backslash_of_quote (hquote : quote = '"' ∨ quote = '\'') : quote ≠ '\\' := by
  rintro rfl
  exact absurd hquote (by decide)

/-- The first part that ends a string settles what is taken behind the opening quote. -/
theorem stringRest_of_parts (ht : stringParts t = inside ++ outside)
    (hinside : ∀ p ∈ inside, endsString quote p = false)
    (houtside : ∀ p ∈ outside.head?, endsString quote p) :
    stringRest quote t =
      (inside.flatten ++ if outside.head? = some [quote] then [quote] else [],
        decide (outside.head? = some [quote])) := by
  fun_induction stringParts t generalizing inside with
  | case1 =>
      obtain ⟨rfl, rfl⟩ := List.append_eq_nil_iff.mp ht.symm
      rfl
  | case2 t ih =>
      cases inside with
      | nil =>
          subst ht
          cases houtside _ rfl
      | cons p inside =>
          obtain ⟨hp, hrest⟩ := List.cons.inj ht
          subst hp
          rw [stringRest, ih hrest (List.forall_mem_cons.mp hinside).2]
          rfl
  | case3 c t hne ih =>
      cases inside with
      | nil =>
          subst ht
          cases houtside _ rfl
      | cons p inside =>
          obtain ⟨hp, hrest⟩ := List.cons.inj ht
          subst hp
          rw [stringRest.eq_3 _ _ _ hne, ih hrest (List.forall_mem_cons.mp hinside).2]
          rfl
  | case4 c t h₁ h₂ ih =>
      rw [stringRest.eq_4 _ _ _ h₁ h₂]
      cases inside with
      | nil =>
          subst ht
          have hends : endsString quote [c] := houtside _ rfl
          by_cases hc : c = quote
          · simp [hc]
          · have hline : isLineTerminator c := by simpa [endsString, hc] using hends
            simp [hc, hline]
      | cons p inside =>
          obtain ⟨hp, hrest⟩ := List.cons.inj ht
          subst hp
          obtain ⟨hpart, hinside⟩ := List.forall_mem_cons.mp hinside
          have hc : c ≠ quote ∧ isLineTerminator c = false := by simpa [endsString] using hpart
          rw [if_neg hc.1, if_neg (by simp [hc.2]), ih hrest hinside]
          rfl

/-! ## Escapes -/

/-- A text goes on with some hexadecimal digits. -/
theorem startsWithHex_iff {count : Nat} :
    startsWithHex count t ↔ ∃ digits : Text, digits.length = count ∧ (∀ d ∈ digits, isHexDigit d) ∧
      digits <+: t := by
  rw [startsWithHex, Bool.and_eq_true, decide_eq_true_iff, List.all_eq_true]
  constructor
  · rintro ⟨hlength, hhex⟩
    exact ⟨t.take count, hlength, hhex, List.take_prefix count t⟩
  · rintro ⟨digits, rfl, hhex, u, rfl⟩
    rw [List.take_left]
    exact ⟨rfl, hhex⟩

/-- The digits of an escape stand in front of the closing quote. -/
theorem startsWithHex_before_quote (hquote : quote = '"' ∨ quote = '\'') {count : Nat} :
    startsWithHex count (t ++ [quote]) = startsWithHex count t := by
  rw [Bool.eq_iff_iff, startsWithHex_iff, startsWithHex_iff]
  have hnot : isHexDigit quote = false := by obtain rfl | rfl := hquote <;> decide
  refine exists_congr fun digits => and_congr_right fun _ => and_congr_right fun hhex => ?_
  refine ⟨fun h => ?_, fun h => h.trans (List.prefix_append t [quote])⟩
  obtain h | rfl := List.prefix_concat_iff.mp h |>.symm
  · exact h
  · rw [hhex quote (by simp)] at hnot
    cases hnot

theorem escapesComplete_nil : EscapesComplete [] := by
  intro before letter after count h
  simp at h

theorem escapesComplete_cons : EscapesComplete (p :: parts) ↔
    (∀ letter count, p = ['\\', letter] → escapeDigits? letter = some count →
      startsWithHex count parts.flatten) ∧ EscapesComplete parts := by
  constructor
  · refine fun h => ⟨fun letter count hp hcount => ?_, fun before letter after count hparts => ?_⟩
    · exact startsWithHex_iff.mpr (h [] letter parts count (by rw [hp]; rfl) hcount)
    · exact h (p :: before) letter after count (by rw [hparts]; rfl)
  · rintro ⟨hp, hparts⟩ before letter after count h hcount
    cases before with
    | nil =>
        obtain ⟨hp', rfl⟩ := List.cons.inj h
        exact startsWithHex_iff.mp (hp letter count hp' hcount)
    | cons q before => exact hparts before letter after count (List.cons.inj h).2 hcount

/-- What stands behind a backslash is an escape of some digits, or it is passed over. -/
theorem wellEscaped_backslash (letter : Char) (t : Text) : wellEscaped ('\\' :: letter :: t) =
    ((escapeDigits? letter).all (startsWithHex · t) && wellEscaped t) := by
  by_cases hx : letter = 'x'
  · subst hx
    rfl
  · by_cases hu : letter = 'u'
    · subst hu
      rfl
    · have hnone : escapeDigits? letter = none := escapeDigits?.eq_3 letter hx hu
      rw [wellEscaped.eq_4 _ _ hx hu, hnone]
      rfl

theorem wellEscaped_cons {c : Char} (hc : c ≠ '\\') (t : Text) :
    wellEscaped (c :: t) = wellEscaped t :=
  wellEscaped.eq_5 _ _ (fun _ h => absurd h hc) (fun _ h => absurd h hc) (fun _ _ h => absurd h hc)

/-- The scanner accepts the parts in front of the closing quote if their escapes are complete. -/
theorem wellEscaped_of_parts (hquote : quote = '"' ∨ quote = '\'')
    (ht : stringParts t = inside ++ [quote] :: after) :
    wellEscaped (inside.flatten ++ [quote]) ↔ EscapesComplete inside := by
  have hslash := ne_backslash_of_quote hquote
  fun_induction stringParts t generalizing inside with
  | case1 => simp at ht
  | case2 t ih =>
      cases inside with
      | nil => cases ht
      | cons p inside =>
          obtain ⟨hp, hrest⟩ := List.cons.inj ht
          subst hp
          have hih : wellEscaped (inside.flatten ++ [quote]) ↔ EscapesComplete inside := ih hrest
          rw [escapesComplete_cons, ← hih]
          exact ⟨fun h => ⟨nofun, h⟩, And.right⟩
  | case3 c t _ ih =>
      cases inside with
      | nil => cases ht
      | cons p inside =>
          obtain ⟨hp, hrest⟩ := List.cons.inj ht
          subst hp
          have hih : wellEscaped (inside.flatten ++ [quote]) ↔ EscapesComplete inside := ih hrest
          rw [escapesComplete_cons, ← hih, List.flatten_cons]
          show wellEscaped ('\\' :: c :: (inside.flatten ++ [quote])) = true ↔ _
          rw [wellEscaped_backslash, Bool.and_eq_true, Option.all_eq_true]
          refine and_congr_left fun _ =>
            ⟨fun h letter count hp hcount => ?_, fun h count hcount => ?_⟩
          · rw [← startsWithHex_before_quote hquote]
            simp only [List.cons.injEq, and_true, true_and] at hp
            exact h count (hp ▸ hcount)
          · rw [startsWithHex_before_quote hquote]
            exact h c count rfl hcount
  | case4 c t h₁ h₂ ih =>
      cases inside with
      | nil =>
          obtain ⟨hp, -⟩ := List.cons.inj ht
          refine iff_of_true ?_ escapesComplete_nil
          rw [List.flatten_nil, List.nil_append, wellEscaped_cons hslash]
          rfl
      | cons p inside =>
          obtain ⟨hp, hrest⟩ := List.cons.inj ht
          subst hp
          have hc : c ≠ '\\' := by
            rintro rfl
            cases t with
            | nil => simp [stringParts] at hrest
            | cons d t => exact h₂ d t rfl rfl
          have hih : wellEscaped (inside.flatten ++ [quote]) ↔ EscapesComplete inside := ih hrest
          rw [escapesComplete_cons, ← hih]
          show wellEscaped (c :: (inside.flatten ++ [quote])) = true ↔ _
          rw [wellEscaped_cons hc]
          exact ⟨fun h => ⟨nofun, h⟩, And.right⟩

/-! ## Tokens and faults -/

variable {s s₁ : Scanner} {newline : Bool}

/-- A quote opens what the parts behind it say. -/
theorem Scanner.next_of_quote (hgap : Scanner.skipGap false s = .ok newline s₁)
    (hquote : quote = '"' ∨ quote = '\'') (hrest : s₁.rest = quote :: t) :
    Scanner.next.run s = match stringRest quote t with
      | (taken, true) =>
          if wellEscaped taken then
            .ok ⟨.string, quote :: taken, s₁.place, newline⟩ (s₁.skipPast (quote :: taken))
          else
            .error ⟨.lexical .invalidEscape (quote :: taken), s₁.place⟩
              (s₁.skipAlong (quote :: taken))
      | (taken, false) =>
          .error ⟨.lexical .unterminatedString (quote :: taken), s₁.place⟩
            (s₁.skipAlong (quote :: taken)) := by
  rw [Scanner.run_next, hgap]
  show s₁.readToken newline = _
  unfold Scanner.readToken
  rw [hrest, lexeme?_of_quote hquote, stringLexeme]
  obtain ⟨taken, _ | _⟩ := stringRest quote t
  · simp
  · by_cases h : wellEscaped taken
    · simp [h, Scanner.kindAfterGap]
    · simp [h]

/-- Wherever the scanner finds a quote behind a gap, the parts behind it say what it answers and how
far it reads.  The closing quote ends a string whose escapes are complete, or else the fault of an
escape; where a line or the input ends first, the string is not terminated. -/
theorem string_literal_scanned (hgap : Scanner.skipGap false s = .ok newline s₁)
    (hquote : quote = '"' ∨ quote = '\'') (hrest : s₁.rest = quote :: t) :
    (∀ inside after, stringParts t = inside ++ [quote] :: after →
      (∀ p ∈ inside, endsString quote p = false) →
        (EscapesComplete inside → ∃ s', s'.rest = after.flatten ∧ Scanner.next.run s =
          .ok ⟨.string, quote :: (inside.flatten ++ [quote]), s₁.place, newline⟩ s') ∧
        (¬EscapesComplete inside → ∃ s', s'.rest = after.flatten ∧ Scanner.next.run s =
          .error ⟨.lexical .invalidEscape (quote :: (inside.flatten ++ [quote])), s₁.place⟩ s')) ∧
    (∀ inside c after, stringParts t = inside ++ [c] :: after →
      (∀ p ∈ inside, endsString quote p = false) → isLineTerminator c →
        ∃ s', s'.rest = c :: after.flatten ∧ Scanner.next.run s =
          .error ⟨.lexical .unterminatedString (quote :: inside.flatten), s₁.place⟩ s') ∧
    ((∀ p ∈ stringParts t, endsString quote p = false) →
      ∃ s', s'.rest = [] ∧ Scanner.next.run s =
        .error ⟨.lexical .unterminatedString (quote :: t), s₁.place⟩ s') := by
  have hnext := Scanner.next_of_quote hgap hquote hrest
  refine ⟨fun inside after ht hinside => ?_, fun inside c after ht hinside hc => ?_,
    fun hinside => ?_⟩
  · have htext : t = (inside.flatten ++ [quote]) ++ after.flatten := by
      rw [← flatten_stringParts t, ht]
      simp
    have hleft : (quote :: t).drop (quote :: (inside.flatten ++ [quote])).length =
        after.flatten := by
      rw [htext, List.length_cons, List.drop_succ_cons, List.drop_left]
    have hclosed : stringRest quote t = (inside.flatten ++ [quote], true) := by
      rw [stringRest_of_parts ht hinside (by simp [endsString])]
      simp
    rw [hclosed] at hnext
    rw [← wellEscaped_of_parts hquote ht]
    refine ⟨fun h => ⟨_, ?_, hnext.trans (if_pos h)⟩, fun h => ⟨_, ?_, hnext.trans (if_neg h)⟩⟩
    · rw [Scanner.rest_skipPast, hrest, hleft]
    · rw [Scanner.rest_skipAlong, hrest, hleft]
  · have htext : t = inside.flatten ++ c :: after.flatten := by
      rw [← flatten_stringParts t, ht]
      simp
    have hne : c ≠ quote := by
      rintro rfl
      obtain rfl | rfl := hquote <;> cases hc
    have hopen : stringRest quote t = (inside.flatten, false) := by
      rw [stringRest_of_parts ht hinside (by simp [endsString, hc])]
      simp [hne]
    rw [hopen] at hnext
    refine ⟨_, ?_, hnext⟩
    rw [Scanner.rest_skipAlong, hrest, htext, List.length_cons, List.drop_succ_cons, List.drop_left]
  · have hopen : stringRest quote t = (t, false) := by
      rw [stringRest_of_parts (List.append_nil _).symm hinside nofun, flatten_stringParts]
      simp
    rw [hopen] at hnext
    refine ⟨_, ?_, hnext⟩
    rw [Scanner.rest_skipAlong, hrest, List.drop_length]

/-- Behind a comment, a string with an escaped line end, an escaped quote and an escape that runs
out of digits: the fault has the whole literal, and the scanner goes on behind it. -/
theorem string_literal_scanned_bad_escape : ∃ s', s'.rest = " + b".toList ∧
    Scanner.next.run (Scanner.ofText "/* \n */'a\\\r\n\\'\\x4\"' + b".toList) =
      .error ⟨.lexical .invalidEscape "'a\\\r\n\\'\\x4\"'".toList, ⟨⟨2, 4⟩, 7⟩⟩ s' := by
  have hgap := Scanner.skipGap_of_fits (s := Scanner.ofText
      "/* \n */'a\\\r\n\\'\\x4\"' + b".toList) (g := [.block " \n ".toList])
    (t := "'a\\\r\n\\'\\x4\"' + b".toList) false rfl ⟨rfl, trivial⟩ (by decide)
  have hinside : ¬EscapesComplete [['a'], ['\\', '\r', '\n'], ['\\', '\''], ['\\', 'x'], ['4'],
      ['"']] := by
    intro h
    obtain ⟨digits, hlength, hhex, hprefix⟩ :=
      h [['a'], ['\\', '\r', '\n'], ['\\', '\'']] 'x' [['4'], ['"']] 2 rfl rfl
    have := startsWithHex_iff.mpr ⟨digits, hlength, hhex, hprefix⟩
    revert this
    decide
  exact ((string_literal_scanned hgap (.inr rfl) rfl).1 _ [[' '], ['+'], [' '], ['b']] rfl
    (by decide)).2 hinside

end EcmaSyntax
