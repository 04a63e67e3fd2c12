import EcmaSyntax.Binary64

/-!
# Rounding to the nearest number

**Distances.**  A finite number is some units away from zero, and so it has a distance from every
number of units.  `IsNearest n x` says of a number that none is nearer to `n` units, and that the
significand is even if another one is as near.

**Grids.**  Next to `n` units the finite numbers are the multiples of a power of two, of which `n`
lies between two neighbours.  Division by that power tells them, and which one is the nearer.

**Results.**
* `units?_outside`: there are no numbers between neighbours of a grid.
* `isNearest_iff`: what a number of units is rounded to is nearest to it, and nothing else is.
* `nearest_near`: less than half of a step from a number, rounding gives this number.
-/

namespace EcmaSyntax

/-! ## Powers of two -/

theorem twoPow_add (a b : Nat) : twoPow (a + b) = twoPow a * twoPow b := Nat.pow_add 2 a b

theorem twoPow_pos (n : Nat) : 0 < twoPow n := Nat.two_pow_pos n

theorem twoPow_lt_iff {a b : Nat} : twoPow a < twoPow b ↔ a < b :=
  Nat.pow_lt_pow_iff_right (by decide)

theorem twoPow_le {a b : Nat} (h : a ≤ b) : twoPow a ≤ twoPow b :=
  Nat.pow_le_pow_right (by decide) h

theorem log2_lt_iff {n k : Nat} (h : n ≠ 0) : n.log2 < k ↔ n < twoPow k := Nat.log2_lt h

theorem twoPow_succ (n : Nat) : twoPow (n + 1) = 2 * twoPow n := Nat.pow_succ'

namespace Binary64

variable {n m e d q s : Nat} {r : Int} {x y : Binary64}

theorem unit_eq : unit = twoPow 1074 := rfl

/-! ## Distances -/

/-- How many units a finite number is. -/
def units? : Binary64 → Option Int
  | finite negative m e => some (if negative then -(magnitude m e : Int) else magnitude m e)
  | infinite _ => none
  | nan => none

/-- How far numbers of units are from each other. -/
def distance (r : Int) (n : Nat) : Nat := (r - n).natAbs

/-- A number that is not negative and is nearest to a number of units, a tie to the even
significand. -/
inductive IsNearest (n : Nat) : Binary64 → Prop
  | finite {m e : Nat} : (finite false m e).WellFormed →
      (∀ (y : Binary64) (r : Int), y.WellFormed → y.units? = some r →
        distance (magnitude m e) n ≤ distance r n ∧
          (distance (magnitude m e) n = distance r n → r = magnitude m e ∨ m % 2 = 0)) →
      IsNearest n (finite false m e)

/-! ## Quotients -/

/-- A quotient is rounded down or up, and to an even one if the remainder is half of the divisor. -/
theorem roundDiv_cases (n d : Nat) :
    roundDiv n d = n / d ∧ (2 * (n % d) < d ∨ 2 * (n % d) = d ∧ n / d % 2 = 0) ∨
      roundDiv n d = n / d + 1 ∧ (d < 2 * (n % d) ∨ 2 * (n % d) = d ∧ n / d % 2 = 1) := by
  unfold roundDiv
  dsimp only
  split
  · omega
  · split <;> omega

theorem roundDiv_mul {k : Nat} (hk : 0 < k) (n d : Nat) :
    roundDiv (n * k) (d * k) = roundDiv n d := by
  have hlt : ∀ a b : Nat, a * k < b * k ↔ a < b := fun a b => Nat.mul_lt_mul_right hk
  unfold roundDiv
  simp only [Nat.mul_div_mul_right _ _ hk, Nat.mul_mod_mul_right, ← Nat.mul_assoc, hlt]

theorem roundDiv_of_dvd (hd : 0 < d) (h : d ∣ n) : roundDiv n d * d = n := by
  have hzero : n % d = 0 := Nat.mod_eq_zero_of_dvd h
  obtain ⟨hdown, -⟩ | ⟨-, hup⟩ := roundDiv_cases n d
  · rw [hdown, Nat.div_mul_cancel h]
  · omega

/-! ## Grids -/

/-- There are no numbers between neighbours of a grid, unless the grid is too fine. -/
theorem units?_outside (hy : y.WellFormed) (hr : y.units? = some r) (hq : s = 0 ∨ twoPow 52 ≤ q) :
    r ≤ (q * twoPow s : Nat) ∨ ((q + 1) * twoPow s : Nat) ≤ r := by
  cases y with
  | infinite => cases hr
  | nan => cases hr
  | finite negative m e =>
      obtain rfl := Option.some.inj hr
      cases negative with
      | true => exact .inl (by simp only [if_true]; omega)
      | false =>
          simp only [Bool.false_eq_true, if_false, Int.ofNat_le]
          obtain ⟨hm, -, -⟩ := hy
          unfold magnitude
          by_cases hse : s ≤ e
          · -- a multiple of the step
            obtain ⟨k, rfl⟩ := Nat.exists_eq_add_of_le' hse
            rw [twoPow_add, ← Nat.mul_assoc]
            obtain hlt | hle := Nat.lt_or_ge q (m * twoPow k)
            · exact .inr (Nat.mul_le_mul_right _ hlt)
            · exact .inl (Nat.mul_le_mul_right _ hle)
          · have hq : twoPow 52 ≤ q := hq.resolve_left (by omega)
            refine .inl ?_
            calc m * twoPow e ≤ twoPow 53 * twoPow e := Nat.mul_le_mul_right _ (Nat.le_of_lt hm)
              _ = twoPow 52 * twoPow (e + 1) := by rw [← twoPow_add, ← twoPow_add]; congr 1; omega
              _ ≤ q * twoPow s := Nat.mul_le_mul hq (twoPow_le (by omega))

/-- A rounded quotient is nearest. -/
theorem isNearest_of_roundDiv (hx : (finite false m e).WellFormed)
    (hs : s = 0 ∨ twoPow 52 ≤ n / twoPow s) (hm : magnitude m e = roundDiv n (twoPow s) * twoPow s)
    (heven : roundDiv n (twoPow s) % 2 = 0 → m % 2 = 0) : IsNearest n (finite false m e) := by
  refine .finite hx fun y r hy hr => ?_
  have houtside := units?_outside hy hr hs
  have hsplit := Nat.div_add_mod' n (twoPow s)
  have hlt := Nat.mod_lt n (twoPow_pos s)
  have hcases := roundDiv_cases n (twoPow s)
  have hstep : (n / twoPow s + 1) * twoPow s = n / twoPow s * twoPow s + twoPow s :=
    Nat.succ_mul _ _
  rw [hstep] at houtside
  unfold distance
  obtain ⟨hc, hdown⟩ | ⟨hc, hup⟩ := hcases
  · rw [hc] at hm heven
    rw [hm]
    generalize n / twoPow s * twoPow s = low at *
    omega
  · rw [hc] at hm heven
    rw [hm, hstep]
    generalize n / twoPow s * twoPow s = low at *
    omega

/-! ## One form for each number -/

theorem magnitude_injective {m' e' : Nat} (hx : (finite false m e).WellFormed)
    (hy : (finite false m' e').WellFormed) (h : magnitude m e = magnitude m' e') :
    m = m' ∧ e = e' := by
  -- the greater scale would make the greater number
  have hlt : ∀ {m e m' e' : Nat}, m < twoPow 53 → (e' = 0 ∨ twoPow 52 ≤ m') → e < e' →
      magnitude m e < magnitude m' e' := by
    intro m e m' e' hm hm' hee
    calc m * twoPow e < twoPow 53 * twoPow e := Nat.mul_lt_mul_of_pos_right hm (twoPow_pos e)
      _ = twoPow 52 * twoPow (e + 1) := by rw [← twoPow_add, ← twoPow_add]; congr 1; omega
      _ ≤ m' * twoPow e' := Nat.mul_le_mul (hm'.resolve_left (by omega)) (twoPow_le hee)
  obtain he | rfl | he := Nat.lt_trichotomy e e'
  · exact absurd h (Nat.ne_of_lt (hlt hx.1 hy.2.1 he))
  · exact ⟨Nat.eq_of_mul_eq_mul_right (twoPow_pos e) h, rfl⟩
  · exact absurd h (Nat.ne_of_gt (hlt hy.1 hx.2.1 he))

/-- The next number above an even one is an odd one. -/
theorem wellFormed_succ (hx : (finite false m e).WellFormed) (heven : m % 2 = 0) :
    (finite false (m + 1) e).WellFormed ∧ magnitude (m + 1) e = magnitude m e + twoPow e := by
  obtain ⟨hm, he, hmax⟩ := hx
  have hodd : twoPow 53 = 2 * twoPow 52 := twoPow_succ 52
  exact ⟨⟨by omega, he.imp id fun h => Nat.le_succ_of_le h, hmax⟩, Nat.succ_mul _ _⟩

/-- Of two numbers equally far on both sides, one significand is odd or a number is nearer. -/
theorem not_lt_of_even {m' e' : Nat} (hx : (finite false m e).WellFormed)
    (hy : (finite false m' e').WellFormed) (heven : m % 2 = 0) (heven' : m' % 2 = 0)
    (hmin : ∀ (y : Binary64) (r : Int), y.WellFormed → y.units? = some r →
      distance (magnitude m e) n ≤ distance r n)
    (hdist : distance (magnitude m e) n = distance (magnitude m' e') n) :
    ¬magnitude m e < magnitude m' e' := by
  intro hlt
  obtain ⟨hsucc, hmag⟩ := wellFormed_succ hx heven
  have hne : magnitude (m + 1) e ≠ magnitude m' e' := fun h => by
    obtain ⟨rfl, -⟩ := magnitude_injective hsucc hy h
    omega
  have hnear := hmin _ _ hsucc rfl
  have houtside := units?_outside hy rfl hx.2.1
  have hpos := twoPow_pos e
  simp only [Bool.false_eq_true, if_false, Int.ofNat_le] at hnear houtside
  change magnitude m' e' ≤ magnitude m e ∨ magnitude (m + 1) e ≤ magnitude m' e' at houtside
  unfold distance at hnear hdist
  omega

/-- There is one nearest number. -/
theorem IsNearest.unique (hx : IsNearest n x) (hy : IsNearest n y) : x = y := by
  cases hx with
  | @finite m e hx hminx =>
      cases hy with
      | @finite m' e' hy hminy =>
          have hle := (hminx _ _ hy rfl).1
          have hge := (hminy _ _ hx rfl).1
          have hdist : distance (magnitude m e) n = distance (magnitude m' e') n :=
            Nat.le_antisymm hle hge
          suffices h : magnitude m e = magnitude m' e' by
            obtain ⟨rfl, rfl⟩ := magnitude_injective hx hy h
            rfl
          obtain heq | heven := (hminx _ _ hy rfl).2 hdist
          · exact (Int.ofNat.inj heq).symm
          obtain heq | heven' := (hminy _ _ hx rfl).2 hdist.symm
          · exact Int.ofNat.inj heq
          refine Nat.le_antisymm (Nat.le_of_not_lt ?_) (Nat.le_of_not_lt ?_)
          · exact not_lt_of_even hy hx heven' heven (fun y r h hr => (hminy y r h hr).1) hdist.symm
          · exact not_lt_of_even hx hy heven heven' (fun y r h hr => (hminx y r h hr).1) hdist

/-! ## Rounding -/

/-- What a number of units is rounded to. -/
def nearest (n : Nat) : Binary64 := ofRatio false n unit

/-- The scale at which a number of units has 53 bits, or the smallest one. -/
def scaleOf (n : Nat) : Nat := n.log2 - 52

theorem nearest_eq (n : Nat) :
    nearest n = ofScaled false (roundDiv n (twoPow (scaleOf n))) (scaleOf n) := by
  have hpos : 0 < unit := unit_eq ▸ twoPow_pos 1074
  rw [nearest, ofRatio]
  simp only [Nat.mul_div_cancel n hpos, Nat.mul_comm unit, roundDiv_mul hpos]
  rfl

/-- A number of units is less than 53 bits at its scale, and it has all of them unless the scale is
the smallest. -/
theorem scaleOf_spec (n : Nat) : n < twoPow 53 * twoPow (scaleOf n) ∧
    (scaleOf n = 0 ∨ twoPow 52 ≤ n / twoPow (scaleOf n)) := by
  unfold scaleOf
  refine ⟨?_, ?_⟩
  · rw [← twoPow_add]
    exact Nat.lt_of_lt_of_le Nat.lt_log2_self (twoPow_le (by omega))
  · by_cases hlog : n.log2 ≤ 52
    · exact .inl (by omega)
    · refine .inr ((Nat.le_div_iff_mul_le (twoPow_pos _)).mpr ?_)
      have hne : n ≠ 0 := by
        rintro rfl
        exact hlog (by decide)
      rw [← twoPow_add, show 52 + (n.log2 - 52) = n.log2 by omega]
      exact Nat.log2_self_le hne

theorem le_scaleOf (h : twoPow (52 + s) ≤ n) : s ≤ scaleOf n := by
  have hne : n ≠ 0 := Nat.ne_of_gt (Nat.lt_of_lt_of_le (twoPow_pos _) h)
  have hlog : ¬n.log2 < 52 + s := by
    rw [log2_lt_iff hne]
    exact Nat.not_lt.mpr h
  unfold scaleOf
  omega

theorem scaleOf_le (h : n < twoPow (53 + s)) : scaleOf n ≤ s := by
  unfold scaleOf
  by_cases hzero : n = 0
  · rw [hzero]
    exact Nat.zero_le s
  · have hlog := (log2_lt_iff hzero).mpr h
    omega

/-- A rounded number of units is finite unless it is too great. -/
theorem nearest_spec (h : n < twoPow 2097) : ∃ m e, nearest n = finite false m e ∧
    (finite false m e).WellFormed ∧ scaleOf n ≤ e ∧ e ≤ scaleOf n + 1 ∧
    magnitude m e = roundDiv n (twoPow (scaleOf n)) * twoPow (scaleOf n) ∧
    (roundDiv n (twoPow (scaleOf n)) % 2 = 0 → m % 2 = 0) := by
  have hmax : scaleOf n + 1 ≤ maxScale := Nat.succ_le_succ (scaleOf_le h)
  obtain ⟨hlt, hfull⟩ := scaleOf_spec n
  have hq : n / twoPow (scaleOf n) < twoPow 53 := Nat.div_lt_of_lt_mul (by rwa [Nat.mul_comm])
  have hcases := roundDiv_cases n (twoPow (scaleOf n))
  rw [nearest_eq, ofScaled]
  by_cases hc : roundDiv n (twoPow (scaleOf n)) = twoPow 53
  · rw [if_pos hc, if_neg (by omega)]
    refine ⟨_, _, rfl, ⟨?_, .inr (Nat.le_refl _), hmax⟩, by omega, by omega, ?_, fun _ => by decide⟩
    · exact Nat.pow_lt_pow_right (by decide) (by decide)
    · rw [hc, magnitude, ← twoPow_add, ← twoPow_add]
      congr 1
      omega
  · rw [if_neg hc, if_neg (by omega)]
    refine ⟨_, _, rfl, ⟨by omega, ?_, by omega⟩, by omega, by omega, rfl, id⟩
    exact hfull.imp id fun h => by omega

/-- A number of units that is a number is not changed by rounding. -/
theorem nearest_of_dvd (h : n < twoPow 2097) (hdvd : twoPow (scaleOf n) ∣ n) :
    ∃ m e, nearest n = finite false m e ∧ magnitude m e = n := by
  obtain ⟨m, e, heq, -, -, -, hm, -⟩ := nearest_spec h
  exact ⟨m, e, heq, hm.trans (roundDiv_of_dvd (twoPow_pos _) hdvd)⟩

/-- What a number of units is rounded to is the number nearest to it. -/
theorem isNearest_iff (h : n < twoPow 2097) : IsNearest n x ↔ x = nearest n := by
  have hnearest : IsNearest n (nearest n) := by
    obtain ⟨m, e, heq, hx, -, -, hm, heven⟩ := nearest_spec h
    rw [heq]
    exact isNearest_of_roundDiv hx (scaleOf_spec n).2 hm heven
  constructor
  · exact fun hx => hx.unique hnearest
  · exact fun hx => hx ▸ hnearest

/-- Less than half of a step from a number, rounding gives this number. -/
theorem nearest_near (hm : twoPow 52 ≤ m) (hx : (finite false m e).WellFormed)
    (h : 2 * d < twoPow e) : nearest (magnitude m e + d) = finite false m e := by
  obtain ⟨hlt, -, hmax⟩ := hx
  have hpos := twoPow_pos e
  have hquotient : (magnitude m e + d) / twoPow e = m := by
    rw [magnitude, Nat.mul_comm, Nat.mul_add_div hpos, Nat.div_eq_of_lt (by omega), Nat.add_zero]
  have hremainder : (magnitude m e + d) % twoPow e = d := by
    rw [magnitude, Nat.mul_comm, Nat.mul_add_mod, Nat.mod_eq_of_lt (by omega)]
  have hscale : scaleOf (magnitude m e + d) = e := by
    refine Nat.le_antisymm (scaleOf_le ?_) (le_scaleOf ?_)
    · calc magnitude m e + d < m * twoPow e + twoPow e := Nat.add_lt_add_left (by omega) _
        _ = (m + 1) * twoPow e := (Nat.succ_mul _ _).symm
        _ ≤ twoPow (53 + e) := by rw [twoPow_add]; exact Nat.mul_le_mul_right _ hlt
    · rw [twoPow_add]
      exact Nat.le_add_right_of_le (Nat.mul_le_mul_right _ hm)
  have hround : roundDiv (magnitude m e + d) (twoPow e) = m := by
    have hcases := roundDiv_cases (magnitude m e + d) (twoPow e)
    rw [hquotient, hremainder] at hcases
    omega
  rw [nearest_eq, hscale, hround, ofScaled, if_neg (Nat.ne_of_lt hlt), if_neg (Nat.not_lt.mpr hmax)]

end Binary64

end EcmaSyntax
