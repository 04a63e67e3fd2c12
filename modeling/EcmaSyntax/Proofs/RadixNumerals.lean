import EcmaSyntax.Proofs.Numerals
import EcmaSyntax.Proofs.Rounding
import EcmaSyntax.Proofs.StringValues

/-!
# Hexadecimal and octal numerals

**Reading.**  A numeral of a base that is a power of two is read digit by digit, and rounded at each
digit.  Its head ends where its value has more than 53 bits; its tail is what comes behind that.

**Rounding.**  Up to the end of the head nothing is lost, and the head is rounded as it should be.
No digit of the tail changes the significand.  So a numeral is rounded like its head.

**Results.**
* `go_head`, `go_tail`: what is read of the head and of the tail.
* `roundDiv_append`: when a number is rounded like a number with more digits.
* `radix_numeral_rounded`: which number a numeral is read as, and when this is the nearest one.
* `radix_numeral_rounded_fails`: a numeral that is not read as the nearest number.
-/

namespace EcmaSyntax

/-- A hexadecimal or octal numeral, with its base and its digits. -/
inductive IsRadixNumeral : Nat → Text → Text → Prop
  | hexadecimal {mark : Char} {digits : Text} : mark = 'x' ∨ mark = 'X' → digits ≠ [] →
      (∀ c ∈ digits, isDigitOf 16 c) → IsRadixNumeral 16 digits ('0' :: mark :: digits)
  | octal {digits : Text} : digits ≠ [] → (∀ c ∈ digits, isDigitOf 8 c) →
      IsRadixNumeral 8 digits ('0' :: digits)

namespace IsRadixNumeral

variable {base : Nat} {digits text : Text}

theorem forall_isDigitOf (h : IsRadixNumeral base digits text) :
    ∀ c ∈ digits, isDigitOf base c := by
  cases h <;> assumption

/-- The base has three bits or four. -/
theorem base_eq (h : IsRadixNumeral base digits text) : ∃ j ≤ 4, base = twoPow j := by
  cases h with
  | hexadecimal => exact ⟨4, by decide, rfl⟩
  | octal => exact ⟨3, by decide, rfl⟩

theorem numberValue?_eq (h : IsRadixNumeral base digits text) :
    numberValue? text = Binary64.ofDigits base digits := by
  cases h with
  | hexadecimal hmark hne => exact numberValue?_hex hmark hne
  | octal hne hdigits =>
      obtain ⟨c, digits, rfl⟩ := List.exists_cons_of_ne_nil hne
      have hunmarked : ∀ d ∈ (('0' :: c :: digits).drop 1).head?, d ≠ 'x' ∧ d ≠ 'X' := by
        rintro d ⟨⟩
        have hc := hdigits c List.mem_cons_self
        constructor <;> (rintro rfl; exact absurd hc (by decide))
      have hoctal : isOctalNumeral ('0' :: c :: digits) := by
        have hall : ('0' :: c :: digits).all (isDigitOf 8) :=
          List.all_eq_true.mpr (List.forall_mem_cons.mpr ⟨by decide, hdigits⟩)
        simp [isOctalNumeral, hall]
      rw [numberValue?_of_unmarked hunmarked, if_pos hoctal]
      rfl

end IsRadixNumeral

/-! ## Values of digits -/

theorem foldl_digits (base n : Nat) (t : Text) :
    t.foldl (fun value c => value * base + (digitValue? base c).getD 0) n =
      n * base ^ t.length + digitsValue base t := by
  induction t generalizing n with
  | nil => simp [digitsValue]
  | cons c t ih =>
      rw [digitsValue, List.foldl_cons, List.foldl_cons, ih, ih, Nat.zero_mul, Nat.zero_add,
        List.length_cons, Nat.pow_succ', Nat.add_mul, Nat.mul_assoc, Nat.add_assoc]

theorem digitsValue_append (base : Nat) (s t : Text) :
    digitsValue base (s ++ t) = digitsValue base s * base ^ t.length + digitsValue base t := by
  rw [digitsValue, List.foldl_append, foldl_digits]
  rfl

/-- The head of a numeral is the shortest beginning with more than 53 bits, or all of it if there is
none.  Its tail is what comes behind the head. -/
structure IsHeadOf (base : Nat) (head tail : Text) : Prop where
  short : ∀ p q, head = p ++ q → q ≠ [] → digitsValue base p < twoPow 53
  long : tail ≠ [] → twoPow 53 ≤ digitsValue base head

/-- A numeral has one head. -/
theorem IsHeadOf.unique {base : Nat} {head tail head' tail' : Text} (h : IsHeadOf base head tail)
    (h' : IsHeadOf base head' tail') (hsplit : head ++ tail = head' ++ tail') :
    head = head' ∧ tail = tail' := by
  obtain ⟨q, rfl, rfl⟩ | ⟨q, rfl, rfl⟩ := List.append_eq_append_iff.mp hsplit
  · by_cases hq : q = []
    · rw [hq, List.append_nil]
      exact ⟨rfl, rfl⟩
    · have hlong := h.long fun hnil => hq (List.append_eq_nil_iff.mp hnil).1
      exact absurd (h'.short head q rfl hq) (Nat.not_lt.mpr hlong)
  · by_cases hq : q = []
    · rw [hq, List.append_nil]
      exact ⟨rfl, rfl⟩
    · have hlong := h'.long fun hnil => hq (List.append_eq_nil_iff.mp hnil).1
      exact absurd (h.short head' q rfl hq) (Nat.not_lt.mpr hlong)

theorem exists_isHeadOf (base : Nat) (digits : Text) :
    ∃ head tail, digits = head ++ tail ∧ IsHeadOf base head tail := by
  suffices h : ∀ before, (∀ p q, before = p ++ q → q ≠ [] → digitsValue base p < twoPow 53) →
      ∃ head tail, before ++ digits = head ++ tail ∧ IsHeadOf base head tail from
    h [] fun p q hnil hq => absurd (List.append_eq_nil_iff.mp hnil.symm).2 hq
  induction digits with
  | nil => exact fun before hbefore => ⟨before, [], rfl, hbefore, fun hne => absurd rfl hne⟩
  | cons c digits ih =>
      intro before hbefore
      obtain hlong | hlong := Nat.lt_or_ge (digitsValue base before) (twoPow 53)
      · rw [List.append_cons]
        refine ih (before ++ [c]) fun p q hsplit hq => ?_
        obtain ⟨q, d, rfl⟩ := List.eq_nil_or_concat q |>.resolve_left hq
        rw [List.concat_eq_append, ← List.append_assoc] at hsplit
        obtain ⟨rfl, -⟩ := List.append_inj' hsplit rfl
        by_cases hnil : q = []
        · rwa [hnil, List.append_nil] at hlong
        · exact hbefore p q rfl hnil
      · exact ⟨before, c :: digits, rfl, hbefore, fun _ => hlong⟩

namespace Binary64

variable {n m e d j p : Nat} {x : Binary64} {head tail : Text}

/-! ## Reading digits -/

theorem mulNat_finite (m e k : Nat) : (finite false m e).mulNat k = nearest (magnitude m e * k) :=
  rfl

theorem addNat_finite (m e k : Nat) :
    (finite false m e).addNat k = nearest (magnitude m e + k * unit) := rfl

/-- Numbers of 53 bits and zeros behind them are exact. -/
theorem nearest_exact {t : Nat} (hp : p < twoPow 53) (ht : t ≤ 2044) :
    ∃ m e, nearest (p * twoPow t) = finite false m e ∧ magnitude m e = p * twoPow t := by
  have hlt : p * twoPow t < twoPow (53 + t) := by
    rw [twoPow_add]
    exact Nat.mul_lt_mul_of_pos_right hp (twoPow_pos t)
  refine nearest_of_dvd (Nat.lt_of_lt_of_le hlt (twoPow_le (by omega))) ?_
  obtain ⟨k, hk⟩ := Nat.exists_eq_add_of_le (scaleOf_le hlt)
  have hdvd : twoPow (scaleOf (p * twoPow t)) ∣ twoPow t := ⟨twoPow k, by rw [← twoPow_add, ← hk]⟩
  exact Nat.dvd_trans hdvd (Nat.dvd_mul_left _ p)

/-- Behind 53 bits or fewer a digit is read as it should be. -/
theorem digit_exact (hp : p < twoPow 53) (hj : j ≤ 4) (d : Nat) :
    ((nearest (p * unit)).mulNat (twoPow j)).addNat d = nearest ((p * twoPow j + d) * unit) := by
  obtain ⟨m, e, heq, hm⟩ := nearest_exact (t := 1074) hp (by decide)
  have hshift : p * twoPow 1074 * twoPow j = p * twoPow (1074 + j) := by
    rw [twoPow_add, Nat.mul_assoc]
  obtain ⟨m', e', heq', hm'⟩ := nearest_exact (t := 1074 + j) hp (by omega)
  rw [← unit_eq] at heq hm hshift
  have hsum : p * unit * twoPow j + d * unit = (p * twoPow j + d) * unit := by
    rw [Nat.add_mul, Nat.mul_right_comm]
  rw [heq, mulNat_finite, hm, hshift, heq', addNat_finite, hm', ← hshift, hsum]

/-- Behind more bits a digit is lost. -/
theorem digit_lost (hm : twoPow 52 ≤ m) (hx : m < twoPow 53)
    (he : 1075 ≤ e) (hmax : e + j ≤ maxScale)
    (hd : d < twoPow j) :
    ((finite false m e).mulNat (twoPow j)).addNat d = finite false m (e + j) := by
  have hy : (finite false m (e + j)).WellFormed := ⟨hx, .inr hm, hmax⟩
  have hmul : magnitude m e * twoPow j = magnitude m (e + j) + 0 := by
    rw [Nat.add_zero, magnitude, magnitude, twoPow_add, Nat.mul_assoc]
  have hsmall : 2 * (d * unit) < twoPow (e + j) := by
    have hlt : d * unit < twoPow j * twoPow 1074 := by
      rw [unit_eq]
      exact Nat.mul_lt_mul_of_pos_right hd (twoPow_pos _)
    have hle : 2 * (twoPow j * twoPow 1074) ≤ twoPow (e + j) := by
      rw [← twoPow_add, ← twoPow_succ]
      exact twoPow_le (by omega)
    omega
  rw [mulNat_finite, hmul, nearest_near hm hy (by rw [Nat.mul_zero]; exact twoPow_pos _),
    addNat_finite, nearest_near hm hy hsmall]

theorem digitValue?_lt {base d : Nat} {c : Char} (h : digitValue? base c = some d) : d < base := by
  rw [digitValue?, Option.filter_eq_some_iff] at h
  exact of_decide_eq_true h.2

/-- The head of a numeral is rounded once. -/
theorem go_head (hj : j ≤ 4)
    (hshort : ∀ p q, head = p ++ q → q ≠ [] → digitsValue (twoPow j) p < twoPow 53)
    (hdigits : ∀ c ∈ head, isDigitOf (twoPow j) c) :
    ofDigits.go (twoPow j) zero (head ++ tail) =
      ofDigits.go (twoPow j) (nearest (digitsValue (twoPow j) head * unit)) tail := by
  -- the digits before are rounded as they should be
  suffices h : ∀ more before, head = before ++ more →
      ofDigits.go (twoPow j) (nearest (digitsValue (twoPow j) before * unit)) (more ++ tail) =
        ofDigits.go (twoPow j) (nearest (digitsValue (twoPow j) head * unit)) tail by
    have hzero : nearest (digitsValue (twoPow j) [] * unit) = zero := by
      rw [show digitsValue (twoPow j) [] = 0 from rfl, Nat.zero_mul, nearest_eq]
      decide
    rw [← hzero]
    exact h head [] rfl
  intro more
  induction more with
  | nil =>
      rintro before rfl
      rw [List.append_nil]
      rfl
  | cons c more ih =>
      intro before hsplit
      obtain ⟨d, hd⟩ := Option.isSome_iff_exists.mp (hdigits c (by simp [hsplit]))
      have hp := hshort before (c :: more) hsplit (List.cons_ne_nil _ _)
      have hvalue : digitsValue (twoPow j) before * twoPow j + d =
          digitsValue (twoPow j) (before ++ [c]) := by
        rw [digitsValue_append]
        simp [digitsValue, hd]
      rw [List.cons_append, ofDigits.go, hd]
      dsimp only
      rw [digit_exact hp hj, hvalue]
      exact ih (before ++ [c]) (by rw [hsplit, List.append_cons])

/-- The tail of a numeral moves the scale only. -/
theorem go_tail (hm : twoPow 52 ≤ m) (hx : m < twoPow 53) (he : 1075 ≤ e)
    (hmax : e + j * tail.length ≤ maxScale) (hdigits : ∀ c ∈ tail, isDigitOf (twoPow j) c) :
    ofDigits.go (twoPow j) (finite false m e) tail =
      some (finite false m (e + j * tail.length)) := by
  induction tail generalizing e with
  | nil => rfl
  | cons c tail ih =>
      obtain ⟨hc, hdigits⟩ := List.forall_mem_cons.mp hdigits
      obtain ⟨d, hd⟩ := Option.isSome_iff_exists.mp hc
      rw [List.length_cons, Nat.mul_succ] at hmax ⊢
      rw [ofDigits.go, hd]
      dsimp only
      rw [digit_lost hm hx he (by omega) (digitValue?_lt hd), ih (by omega) (by omega) hdigits]
      congr 2
      omega

/-! ## Halves -/

/-- A natural number lies half-way between two neighbours, and the lower one has an even
significand. -/
def IsHalfAboveEven (n : Nat) : Prop :=
  ∃ m k, m % 2 = 0 ∧ twoPow 52 ≤ m ∧ m < twoPow 53 ∧ n = (2 * m + 1) * twoPow k

/-- More digits behind a number change how it is rounded only if the number alone is rounded down
from half-way, and one of them is not zero. -/
theorem roundDiv_append {h r k : Nat} (hr : r < k) :
    roundDiv (h * k + r) (2 * d * k) = roundDiv h (2 * d) ↔
      ¬(h % (2 * d) = d ∧ h / (2 * d) % 2 = 0 ∧ r ≠ 0) := by
  have hk : 0 < k := Nat.zero_lt_of_lt hr
  have hquotient : (h * k + r) / (2 * d * k) = h / (2 * d) := by
    rw [Nat.mul_comm (2 * d), ← Nat.div_div_eq_div_mul, Nat.mul_comm h, Nat.mul_add_div hk,
      Nat.div_eq_of_lt hr, Nat.add_zero]
  have hremainder : (h * k + r) % (2 * d * k) = h % (2 * d) * k + r := by
    rw [Nat.mul_comm (2 * d), Nat.mod_mul, Nat.mul_comm h, Nat.mul_add_mod, Nat.mul_add_div hk,
      Nat.mod_eq_of_lt hr, Nat.div_eq_of_lt hr, Nat.add_zero, Nat.mul_comm, Nat.add_comm]
  have hcases := roundDiv_cases (h * k + r) (2 * d * k)
  have hcases' := roundDiv_cases h (2 * d)
  rw [hquotient, hremainder, Nat.mul_assoc 2] at hcases
  obtain hlt | heq | hgt := Nat.lt_trichotomy (h % (2 * d)) d
  · -- below the half, one more would reach it at most
    have hle : (h % (2 * d) + 1) * k ≤ d * k := Nat.mul_le_mul_right k hlt
    rw [Nat.succ_mul] at hle
    rw [Nat.mul_assoc 2]
    omega
  · rw [heq] at hcases
    rw [Nat.mul_assoc 2]
    omega
  · have hle : (d + 1) * k ≤ h % (2 * d) * k := Nat.mul_le_mul_right k hgt
    rw [Nat.succ_mul] at hle
    rw [Nat.mul_assoc 2]
    omega

/-- A half is found by division at the right scale. -/
theorem isHalfAboveEven_iff {h t : Nat} (hlow : twoPow (53 + t) ≤ h) (hhigh : h < twoPow (54 + t)) :
    IsHalfAboveEven h ↔
      h % (2 * twoPow t) = twoPow t ∧ h / (2 * twoPow t) % 2 = 0 := by
  have hpos := twoPow_pos t
  constructor
  · rintro ⟨m, k, heven, hm, hlt, rfl⟩
    have h53 : twoPow 53 = 2 * twoPow 52 := twoPow_succ 52
    have h54 : twoPow 54 = 2 * twoPow 53 := twoPow_succ 53
    obtain rfl : k = t := by
      have hle : twoPow (53 + k) ≤ (2 * m + 1) * twoPow k := by
        rw [twoPow_add]
        exact Nat.mul_le_mul_right _ (by omega)
      have hlt : (2 * m + 1) * twoPow k < twoPow (54 + k) := by
        rw [twoPow_add]
        exact Nat.mul_lt_mul_of_pos_right (by omega) (twoPow_pos k)
      have h₁ := twoPow_lt_iff.mp (Nat.lt_of_le_of_lt hle hhigh)
      have h₂ := twoPow_lt_iff.mp (Nat.lt_of_le_of_lt hlow hlt)
      omega
    have hsplit : (2 * m + 1) * twoPow k = 2 * twoPow k * m + twoPow k := by
      rw [Nat.succ_mul, Nat.mul_right_comm]
    rw [hsplit, Nat.mul_add_mod, Nat.mul_add_div (by omega), Nat.div_eq_of_lt (by omega),
      Nat.mod_eq_of_lt (by omega)]
    exact ⟨rfl, heven⟩
  · rintro ⟨hhalf, heven⟩
    have hsplit := Nat.div_add_mod h (2 * twoPow t)
    have hstep : 2 * twoPow t = twoPow (t + 1) := (twoPow_succ t).symm
    refine ⟨h / (2 * twoPow t), t, heven, ?_, ?_, ?_⟩
    · rw [Nat.le_div_iff_mul_le (by omega), hstep, ← twoPow_add]
      exact Nat.le_trans (twoPow_le (by omega)) hlow
    · rw [Nat.div_lt_iff_lt_mul (by omega), hstep, ← twoPow_add]
      exact Nat.lt_of_lt_of_le hhigh (twoPow_le (by omega))
    · rw [hhalf] at hsplit
      rw [Nat.succ_mul, Nat.mul_right_comm, hsplit]

/-! ## Numerals -/

theorem mul_unit_lt (h : n < twoPow 1023) : n * unit < twoPow 2097 := by
  rw [unit_eq, show (2097 : Nat) = 1023 + 1074 from rfl, twoPow_add]
  exact Nat.mul_lt_mul_of_pos_right h (twoPow_pos _)

/-- A natural number with more than 53 bits is rounded at a scale of its own. -/
theorem scaleOf_mul_unit {h t : Nat} (hlow : twoPow (53 + t) ≤ h) (hhigh : h < twoPow (54 + t)) :
    scaleOf (h * unit) = 1075 + t ∧
      roundDiv (h * unit) (twoPow (1075 + t)) = roundDiv h (2 * twoPow t) := by
  have hpos := twoPow_pos 1074
  refine ⟨Nat.le_antisymm (scaleOf_le ?_) (le_scaleOf ?_), ?_⟩
  · have hscale : twoPow (53 + (1075 + t)) = twoPow (54 + t) * twoPow 1074 := by
      rw [← twoPow_add]
      congr 1
      omega
    rw [hscale, unit_eq]
    exact Nat.mul_lt_mul_of_pos_right hhigh hpos
  · have hscale : twoPow (52 + (1075 + t)) = twoPow (53 + t) * twoPow 1074 := by
      rw [← twoPow_add]
      congr 1
      omega
    rw [hscale, unit_eq]
    exact Nat.mul_le_mul_right _ hlow
  · have hscale : twoPow (1075 + t) = 2 * twoPow t * twoPow 1074 := by
      rw [← twoPow_succ, ← twoPow_add]
      congr 1
      omega
    rw [hscale, unit_eq, roundDiv_mul hpos]

/-- A natural number with more than 53 bits is rounded to a multiple of its last place. -/
theorem nearest_mul_unit {h t : Nat} (hlow : twoPow (53 + t) ≤ h) (hhigh : h < twoPow (54 + t))
    (hlt : h < twoPow 1023) : ∃ m e, nearest (h * unit) = finite false m e ∧
      (finite false m e).WellFormed ∧ 1075 + t ≤ e ∧ e ≤ 1076 + t ∧
      magnitude m e = roundDiv h (2 * twoPow t) * twoPow (1075 + t) := by
  obtain ⟨hscale, hround⟩ := scaleOf_mul_unit hlow hhigh
  obtain ⟨m, e, heq, hx, hse, hes, hmag, -⟩ := nearest_spec (mul_unit_lt hlt)
  rw [hscale] at hse hes hmag
  rw [hround] at hmag
  exact ⟨m, e, heq, hx, hse, by omega, hmag⟩

/-- With more digits behind it a natural number has as many more bits. -/
theorem append_bits {h r k t : Nat} (hr : r < twoPow k) (hlow : twoPow (53 + t) ≤ h)
    (hhigh : h < twoPow (54 + t)) :
    twoPow (53 + (t + k)) ≤ h * twoPow k + r ∧ h * twoPow k + r < twoPow (54 + (t + k)) := by
  rw [← Nat.add_assoc, ← Nat.add_assoc, twoPow_add (53 + t), twoPow_add (54 + t)]
  refine ⟨Nat.le_add_right_of_le (Nat.mul_le_mul_right _ hlow), ?_⟩
  calc h * twoPow k + r < h * twoPow k + twoPow k := Nat.add_lt_add_left hr _
    _ = (h + 1) * twoPow k := (Nat.succ_mul _ _).symm
    _ ≤ twoPow (54 + t) * twoPow k := Nat.mul_le_mul_right _ hhigh

/-- More digits behind a natural number with more than 53 bits move the scale only, unless the
number is half-way above an even significand. -/
theorem nearest_append {h r k : Nat} (hlong : twoPow 53 ≤ h) (hr : r < twoPow k)
    (hlt : h * twoPow k + r < twoPow 1023) : ∃ m e, nearest (h * unit) = finite false m e ∧
      twoPow 52 ≤ m ∧ m < twoPow 53 ∧ 1075 ≤ e ∧ e + k ≤ maxScale ∧
      (finite false m (e + k) = nearest ((h * twoPow k + r) * unit) ↔
        ¬(IsHalfAboveEven h ∧ r ≠ 0)) := by
  have hne : h ≠ 0 := Nat.ne_of_gt (Nat.lt_of_lt_of_le (twoPow_pos 53) hlong)
  obtain ⟨t, ht⟩ : ∃ t, h.log2 = 53 + t := by
    refine Nat.exists_eq_add_of_le (Nat.le_of_not_lt fun hlog => ?_)
    exact Nat.not_lt.mpr hlong ((log2_lt_iff hne).mp hlog)
  have hlow : twoPow (53 + t) ≤ h := ht ▸ Nat.log2_self_le hne
  have hhigh : h < twoPow (54 + t) := (log2_lt_iff hne).mp (by omega)
  obtain ⟨hlow', hhigh'⟩ := append_bits hr hlow hhigh
  have hbits := twoPow_lt_iff.mp (Nat.lt_of_le_of_lt hlow' hlt)
  have hle : h ≤ h * twoPow k + r :=
    Nat.le_add_right_of_le (Nat.le_mul_of_pos_right _ (twoPow_pos k))
  obtain ⟨m, e, heq, hx, hse, hes, hmag⟩ :=
    nearest_mul_unit hlow hhigh (Nat.lt_of_le_of_lt hle hlt)
  obtain ⟨m', e', heq', hx', -, -, hmag'⟩ := nearest_mul_unit hlow' hhigh' hlt
  have hm : twoPow 52 ≤ m := hx.2.1.resolve_left (by omega)
  have hmax : e + k ≤ maxScale := by
    unfold maxScale
    omega
  refine ⟨m, e, heq, hm, hx.1, by omega, hmax, ?_⟩
  have hshift : magnitude m (e + k) = roundDiv h (2 * twoPow t) * twoPow (1075 + (t + k)) := by
    rw [← Nat.add_assoc 1075, twoPow_add, ← Nat.mul_assoc, ← hmag, magnitude, magnitude, twoPow_add,
      Nat.mul_assoc]
  have hy : (finite false m (e + k)).WellFormed := ⟨hx.1, .inr hm, hmax⟩
  have hiff : finite false m (e + k) = nearest ((h * twoPow k + r) * unit) ↔
      roundDiv (h * twoPow k + r) (2 * twoPow t * twoPow k) = roundDiv h (2 * twoPow t) := by
    rw [Nat.mul_assoc, ← twoPow_add]
    constructor
    · intro hxy
      rw [heq'] at hxy
      obtain ⟨-, rfl, rfl⟩ := Binary64.finite.inj hxy
      exact Nat.eq_of_mul_eq_mul_right (twoPow_pos _) (hmag'.symm.trans hshift)
    · intro hround
      obtain ⟨rfl, rfl⟩ := magnitude_injective hy hx' (by rw [hshift, hmag', hround])
      exact heq'.symm
  rw [hiff, roundDiv_append hr, isHalfAboveEven_iff hlow hhigh, and_assoc]

end Binary64

open Binary64

/-- A hexadecimal or octal numeral is rounded like its head, whatever the tail.  It is read as the
number nearest to its value unless the head is rounded down from half-way and the tail has a digit
that is not zero. -/
theorem radix_numeral_rounded {base : Nat} {digits text : Text}
    (h : IsRadixNumeral base digits text)
    (hlt : digitsValue base digits < twoPow 1023) :
    ∃ head tail x y, digits = head ++ tail ∧ IsHeadOf base head tail ∧
      IsNearest (digitsValue base head * unit) y ∧ numberValue? text = some x ∧
      x.units? = y.units?.map (fun r : Int => r * (base ^ tail.length : Nat)) ∧
      (IsNearest (digitsValue base digits * unit) x ↔
        ¬(IsHalfAboveEven (digitsValue base head) ∧ digitsValue base tail ≠ 0)) := by
  obtain ⟨j, hj, rfl⟩ := h.base_eq
  obtain ⟨head, tail, rfl, hhead⟩ := exists_isHeadOf (twoPow j) digits
  have hdigits := h.forall_isDigitOf
  have hpower : twoPow j ^ tail.length = twoPow (j * tail.length) := (Nat.pow_mul 2 j _).symm
  have hsplit := digitsValue_append (twoPow j) head tail
  rw [hpower] at hsplit
  have htail : digitsValue (twoPow j) tail < twoPow (j * tail.length) :=
    hpower ▸ digitsValue_lt tail (twoPow_pos j)
  have hread : numberValue? text =
      ofDigits.go (twoPow j) (nearest (digitsValue (twoPow j) head * unit)) tail := by
    rw [h.numberValue?_eq, ofDigits,
      go_head hj hhead.short fun c hc => hdigits c (List.mem_append_left _ hc)]
  have hpos := twoPow_pos (j * tail.length)
  have hle : digitsValue (twoPow j) head ≤ digitsValue (twoPow j) (head ++ tail) := by
    rw [hsplit]
    exact Nat.le_add_right_of_le (Nat.le_mul_of_pos_right _ hpos)
  have hnearest : ∀ {n : Nat} {x : Binary64}, n < twoPow 1023 →
      (IsNearest (n * unit) x ↔ x = nearest (n * unit)) := fun hn => isNearest_iff (mul_unit_lt hn)
  refine ⟨head, tail, ?_⟩
  cases tail with
  | nil =>
      rw [List.append_nil] at hlt ⊢
      refine ⟨_, _, rfl, hhead, (hnearest hlt).mpr rfl, hread, ?_,
        iff_of_true ((hnearest hlt).mpr rfl) fun hbad => hbad.2 rfl⟩
      cases (nearest (digitsValue (twoPow j) head * unit)).units? <;> simp
  | cons c tail =>
      rw [hsplit] at hlt
      obtain ⟨m, e, heq, hm, hx, he, hmax, hiff⟩ :=
        nearest_append (hhead.long (List.cons_ne_nil _ _)) htail hlt
      rw [heq, go_tail hm hx he hmax fun c hc => hdigits c (List.mem_append_right _ hc)] at hread
      refine ⟨_, _, rfl, hhead, (hnearest (Nat.lt_of_le_of_lt hle (hsplit ▸ hlt))).mpr rfl, hread,
        ?_, ?_⟩
      · rw [heq, hpower]
        show some (magnitude m (e + j * (c :: tail).length) : Int) =
          some ((magnitude m e : Int) * _)
        rw [magnitude, magnitude, twoPow_add, ← Nat.mul_assoc, Int.natCast_mul]
      · rw [hsplit, hnearest hlt, hiff]

/-- The head of this numeral is half-way between two numbers and is rounded up.  The last digit is
lost, and the number that is read is the nearest one. -/
theorem radix_numeral_rounded_tail : ∃ x,
    IsRadixNumeral 16 "200000000000037".toList "0x200000000000037".toList ∧
      digitsValue 16 "200000000000037".toList = twoPow 57 + 55 ∧
      numberValue? "0x200000000000037".toList = some x ∧
      x.units? = some ((twoPow 57 + 64) * unit : Nat) ∧ IsNearest ((twoPow 57 + 55) * unit) x := by
  have h : IsRadixNumeral 16 "200000000000037".toList "0x200000000000037".toList :=
    .hexadecimal (.inl rfl) (by decide) (List.all_eq_true.mp rfl)
  have hvalue : digitsValue 16 "200000000000037".toList = twoPow 57 + 55 := by decide +kernel
  have hhead : IsHeadOf 16 "20000000000003".toList "7".toList := by
    refine ⟨fun p q hsplit hq => ?_, fun _ => by decide +kernel⟩
    have hlength : p.length < 14 := by
      have hsum := congrArg List.length hsplit
      have hpos := List.length_pos_iff.mpr hq
      rw [List.length_append, show "20000000000003".toList.length = 14 from rfl] at hsum
      omega
    have hpower : 16 ^ p.length ≤ 16 ^ 13 := Nat.pow_le_pow_right (by decide) (by omega)
    exact (digitsValue_lt p (by decide)).trans_le (hpower.trans (by decide +kernel))
  obtain ⟨head, tail, x, y, hsplit, hhead', hy, hx, hunits, hiff⟩ :=
    radix_numeral_rounded h (by rw [hvalue]; decide +kernel)
  obtain ⟨rfl, rfl⟩ := hhead'.unique hhead hsplit.symm
  have hheadValue : digitsValue 16 "20000000000003".toList = twoPow 53 + 3 := by decide +kernel
  rw [hheadValue] at hy hiff
  have hrounded : y = nearest ((twoPow 53 + 3) * unit) := (isNearest_iff (by decide +kernel)).mp hy
  refine ⟨x, h, hvalue, hx, ?_, hvalue ▸ hiff.mpr fun hbad => ?_⟩
  · rw [hunits, hrounded]
    decide +kernel
  · -- the number below the head has an odd significand
    have heven := (isHalfAboveEven_iff (t := 0) (by decide +kernel) (by decide +kernel)).mp hbad.1
    exact absurd heven.2 (by decide +kernel)

/-- The head of this numeral is half-way between two numbers and is rounded down.  Its last digit is
lost, and the next greater number is nearer. -/
theorem radix_numeral_rounded_fails :
    IsRadixNumeral 16 "200000000000011".toList "0x200000000000011".toList ∧
      digitsValue 16 "200000000000011".toList = twoPow 57 + 17 ∧
      numberValue? "0x200000000000011".toList = some (.finite false (twoPow 52) 1079) ∧
      IsNearest ((twoPow 57 + 17) * unit) (.finite false (twoPow 52 + 1) 1079) ∧
      ¬IsNearest ((twoPow 57 + 17) * unit) (.finite false (twoPow 52) 1079) := by
  have hiff : ∀ x, IsNearest ((twoPow 57 + 17) * unit) x ↔ x = nearest ((twoPow 57 + 17) * unit) :=
    fun x => isNearest_iff (by decide +kernel)
  have hnearest : nearest ((twoPow 57 + 17) * unit) = .finite false (twoPow 52 + 1) 1079 := by
    decide +kernel
  refine ⟨.hexadecimal (.inl rfl) (by decide) (List.all_eq_true.mp rfl), by decide +kernel,
    by decide +kernel, (hiff _).mpr hnearest.symm, fun h => ?_⟩
  have heq := ((hiff _).mp h).trans hnearest
  exact absurd heq (by decide +kernel)

end EcmaSyntax
