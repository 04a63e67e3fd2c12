import EcmaSyntax.Literal

/-!
# Slices of a text

**Slices.**  A slice is the part of a text between two offsets.  There is none if the offsets stand
out of order or beyond the end, or if one of them cuts a character in two.

**Literals.**  The values of literals once more, computed from slices and with differences that are
there only if they are not negative.

**Results.**
* `Text.slice?_eq_some_iff`: which slices there are.
* `cookedString?_eq`, `splitRegex?_eq`, `slicedNumber?_eq`: the values of literals are found in this
  way, too.
-/

namespace EcmaSyntax

/-- A difference, if it is not negative. -/
def difference? (a b : Nat) : Option Nat := if b ≤ a then some (a - b) else none

theorem difference?_of_le {a b : Nat} (h : b ≤ a) : difference? a b = some (a - b) := if_pos h

namespace Text

variable {t u v w : Text} {n start stop : Nat}

/-- The parts of a text before and behind an offset. -/
def cutAt? : Nat → Text → Option (Text × Text)
  | 0, t => some ([], t)
  | _ + 1, [] => none
  | n + 1, c :: t =>
      if c.utf8Size ≤ n + 1 then (cutAt? (n + 1 - c.utf8Size) t).map fun p => (c :: p.1, p.2)
      else none

/-- The part of a text between two offsets. -/
def slice? (t : Text) (start stop : Nat) : Option Text := do
  let behind ← t.cutAt? start
  let part ← behind.2.cutAt? (← difference? stop start)
  return part.1

theorem cutAt?_size (u v : Text) : cutAt? u.size (u ++ v) = some (u, v) := by
  induction u with
  | nil => exact cutAt?.eq_1 v
  | cons c u ih =>
      obtain ⟨n, hn⟩ := Nat.exists_eq_succ_of_ne_zero (Nat.ne_of_gt c.utf8Size_pos)
      have hsize : size (c :: u) = n + size u + 1 := by
        rw [size_cons, hn]
        omega
      have hle : c.utf8Size ≤ n + size u + 1 := by omega
      have hrest : n + size u + 1 - c.utf8Size = size u := by omega
      rw [hsize, List.cons_append, cutAt?, if_pos hle, hrest, ih]
      rfl

/-- An offset can be cut at if no character is cut in two. -/
theorem cutAt?_eq_some_iff : cutAt? n t = some (u, v) ↔ t = u ++ v ∧ n = u.size := by
  refine ⟨fun h => ?_, ?_⟩
  · fun_induction cutAt? n t generalizing u with
    | case1 t =>
        cases h
        exact ⟨rfl, rfl⟩
    | case2 => cases h
    | case3 n c t hle ih =>
        obtain ⟨⟨u', v'⟩, hcut, heq⟩ := Option.map_eq_some_iff.mp h
        cases heq
        obtain ⟨rfl, hn⟩ := ih hcut
        refine ⟨rfl, ?_⟩
        rw [size_cons, ← hn]
        omega
    | case4 => cases h
  · rintro ⟨rfl, rfl⟩
    exact cutAt?_size u v

/-- A slice is what stands between two other parts of a text. -/
theorem slice?_eq_some_iff : t.slice? start stop = some w ↔
    ∃ u v, t = u ++ (w ++ v) ∧ start = u.size ∧ stop = start + w.size := by
  unfold slice?
  simp only [Option.bind_eq_bind, Option.bind_eq_some_iff, Option.pure_def, Option.some.injEq]
  constructor
  · rintro ⟨⟨u, r⟩, hu, n, hn, ⟨w', v⟩, hw, rfl⟩
    obtain ⟨rfl, rfl⟩ := cutAt?_eq_some_iff.mp hu
    obtain ⟨hr, hsize⟩ := cutAt?_eq_some_iff.mp hw
    unfold difference? at hn
    split at hn
    · cases hn
      exact ⟨u, v, congrArg (u ++ ·) hr, rfl, by dsimp only at hsize ⊢; omega⟩
    · cases hn
  · rintro ⟨u, v, rfl, rfl, rfl⟩
    refine ⟨(u, w ++ v), cutAt?_size u _, w.size, ?_, (w, v), cutAt?_size w v, rfl⟩
    rw [difference?_of_le (Nat.le_add_right _ _), Nat.add_sub_cancel_left]

theorem slice?_append (u w v : Text) (hstart : start = u.size) (hstop : stop = start + w.size) :
    (u ++ (w ++ v)).slice? start stop = some w :=
  slice?_eq_some_iff.mpr ⟨u, v, rfl, hstart, hstop⟩

end Text

/-! ## Strings -/

/-- A text with the mark of a surrogate that stands alone, if one waits. -/
def flushed (value : Text) (high : Option Nat) : Text :=
  value ++ (high.map fun _ => '\ufffd').toList

/-- A code unit is added to a text, in one character with the surrogate that waits if they are a
pair.  The surrogate that waits then comes back with the text. -/
def joinUnit (value : Text) (high : Option Nat) (unit : Nat) : Option (Text × Option Nat) :=
  match high, isLowSurrogate unit with
  | some high, true => do
      let upper ← difference? high 0xd800
      let lower ← difference? unit 0xdc00
      return (value ++ [charOfUnit (0x10000 + upper * 0x400 + lower)], none)
  | high, _ =>
      if isHighSurrogate unit then some (flushed value high, some unit)
      else some (flushed value high ++ [charOfUnit unit], none)

/-- Pieces are added to a text one after the other. -/
def joinPieces : Text → Option Nat → List StringPiece → Option Text
  | value, high, [] => some (flushed value high)
  | value, high, .char c :: ps => joinPieces (flushed value high ++ [c]) none ps
  | value, high, .nothing :: ps => joinPieces (flushed value high) none ps
  | value, high, .unit unit :: ps => do
      let (value, high) ← joinUnit value high unit
      joinPieces value high ps

/-- The value of a string literal, from the slice between its quotes. -/
def cookedString? (literal : Text) : Option Text := do
  let body ← literal.slice? 1 (← difference? literal.size 1)
  joinPieces [] none (pieces body)

theorem charOfUnit_of_isHighSurrogate {unit : Nat} (h : isHighSurrogate unit) :
    charOfUnit unit = '\ufffd' := by
  simp only [isHighSurrogate, Bool.and_eq_true, decide_eq_true_eq] at h
  have hinvalid : ¬unit.isValidChar := by
    unfold Nat.isValidChar
    omega
  exact if_neg hinvalid

theorem isLowSurrogate_of_isHighSurrogate {unit : Nat} (h : isHighSurrogate unit) :
    isLowSurrogate unit = false := by
  simp only [isHighSurrogate, Bool.and_eq_true, decide_eq_true_eq] at h
  have hlow : ¬0xdc00 ≤ unit := by omega
  simp [isLowSurrogate, hlow]

/-- A unit that waits stands alone unless it starts a pair. -/
theorem assemble_unit {unit : Nat} {ps : List StringPiece}
    (h : ∀ low ps', ps = .unit low :: ps' → (isHighSurrogate unit && isLowSurrogate low) = false) :
    assemble (.unit unit :: ps) = charOfUnit unit :: assemble ps := by
  cases ps with
  | nil => rfl
  | cons p ps =>
      cases p with
      | char | nothing => rfl
      | unit low =>
          rw [assemble, h low ps rfl]
          rfl

theorem flushed_assemble (value : Text) {high : Option Nat} {ps : List StringPiece}
    (hhigh : ∀ h ∈ high, isHighSurrogate h) (hps : ∀ low ps', ps = .unit low :: ps' →
      high ≠ none → isLowSurrogate low = false) :
    value ++ assemble ((high.map StringPiece.unit).toList ++ ps) =
      flushed value high ++ assemble ps := by
  cases high with
  | none => simp [flushed]
  | some h =>
      have halone : assemble (.unit h :: ps) = charOfUnit h :: assemble ps :=
        assemble_unit fun low ps' hlow => by
          rw [hps low ps' hlow (Option.some_ne_none h), Bool.and_false]
      rw [charOfUnit_of_isHighSurrogate (hhigh h rfl)] at halone
      simp [flushed, halone]

theorem not_waiting : ∀ h ∈ (none : Option Nat), isHighSurrogate h := fun _ h => by cases h

/-- No difference is negative, and the pieces are joined as they are all at once. -/
theorem joinPieces_eq (value : Text) {high : Option Nat} (ps : List StringPiece)
    (hhigh : ∀ h ∈ high, isHighSurrogate h) :
    joinPieces value high ps =
      some (value ++ assemble ((high.map StringPiece.unit).toList ++ ps)) := by
  induction ps generalizing value high with
  | nil =>
      rw [flushed_assemble value hhigh fun _ _ h => by cases h]
      simp [joinPieces, assemble]
  | cons p ps ih =>
      cases p with
      | char c =>
          rw [flushed_assemble value hhigh fun _ _ h => (by cases h), joinPieces, ih _ not_waiting]
          simp [assemble]
      | nothing =>
          rw [flushed_assemble value hhigh fun _ _ h => (by cases h), joinPieces, ih _ not_waiting]
          simp [assemble]
      | unit unit =>
          rw [joinPieces]
          cases hlow : isLowSurrogate unit with
          | true =>
              have hnot : isHighSurrogate unit = false := by
                rw [Bool.eq_false_iff]
                intro hunit
                rw [isLowSurrogate_of_isHighSurrogate hunit] at hlow
                cases hlow
              cases high with
              | some high =>
                  -- the two units are a pair
                  have hupper : isHighSurrogate high = true := hhigh high rfl
                  have h₁ : 0xd800 ≤ high := by
                    simp only [isHighSurrogate, Bool.and_eq_true, decide_eq_true_eq] at hupper
                    omega
                  have h₂ : 0xdc00 ≤ unit := by
                    simp only [isLowSurrogate, Bool.and_eq_true, decide_eq_true_eq] at hlow
                    omega
                  have hjoin : joinUnit value (some high) unit =
                      some (value ++ [charOfPair high unit], none) := by
                    unfold joinUnit
                    rw [hlow]
                    simp [difference?_of_le h₁, difference?_of_le h₂, charOfPair]
                  rw [hjoin]
                  simp [ih _ not_waiting, assemble, hupper, hlow]
              | none =>
                  have hjoin : joinUnit value none unit =
                      some (value ++ [charOfUnit unit], none) := by
                    simp [joinUnit, hnot, flushed]
                  have hunit : assemble (.unit unit :: ps) = charOfUnit unit :: assemble ps :=
                    assemble_unit fun _ _ _ => by rw [hnot, Bool.false_and]
                  rw [hjoin]
                  simp [ih _ not_waiting, hunit]
          | false =>
              rw [flushed_assemble value hhigh fun low ps' heq _ => by cases heq; exact hlow]
              cases hunit : isHighSurrogate unit with
              | true =>
                  have hjoin : joinUnit value high unit = some (flushed value high, some unit) := by
                    cases high <;> simp [joinUnit, hlow, hunit]
                  rw [hjoin]
                  have hwaits : ∀ h ∈ some unit, isHighSurrogate h := fun h hh => by
                    cases hh
                    exact hunit
                  simpa using ih (flushed value high) hwaits
              | false =>
                  have hjoin : joinUnit value high unit =
                      some (flushed value high ++ [charOfUnit unit], none) := by
                    cases high <;> simp [joinUnit, hlow, hunit]
                  have halone : assemble (.unit unit :: ps) = charOfUnit unit :: assemble ps :=
                    assemble_unit fun _ _ _ => by rw [hunit, Bool.false_and]
                  rw [hjoin, halone]
                  simp [ih _ not_waiting]

/-- A text between two quotes, which are one byte each. -/
def IsQuoted (literal : Text) : Prop := ∃ quote body, literal = quote :: (body ++ [quote]) ∧
  (quote = '"' ∨ quote = '\'')

theorem utf8Size_quote {quote : Char} (h : quote = '"' ∨ quote = '\'') : quote.utf8Size = 1 := by
  obtain rfl | rfl := h <;> rfl

theorem cookedString?_eq {literal : Text} (h : IsQuoted literal) :
    cookedString? literal = some (stringValue literal) := by
  obtain ⟨quote, body, rfl, hquote⟩ := h
  have hsize := utf8Size_quote hquote
  have hstop : difference? (Text.size (quote :: (body ++ [quote]))) 1 =
      some (1 + Text.size body) := by
    rw [difference?_of_le] <;> simp [hsize]
    omega
  have hslice : Text.slice? (quote :: (body ++ [quote])) 1 (1 + Text.size body) = some body :=
    Text.slice?_append [quote] body [quote] (by simp [hsize]) rfl
  have hbody : ((quote :: (body ++ [quote])).drop 1).dropLast = body := by simp
  unfold cookedString? stringValue
  rw [hstop, hbody]
  simp [hslice, joinPieces_eq [] _ not_waiting]

/-! ## Numbers -/

/-- The value of a numeral, if it is one; the digits of an octal one are a slice. -/
def slicedNumber? (t : Text) : Option (Option Binary64) :=
  if !("0x".toList.isPrefixOf t || "0X".toList.isPrefixOf t) && isOctalNumeral t then
    (t.slice? 1 t.size).map (Binary64.ofDigits 8)
  else some (numberValue? t)

theorem slicedNumber?_eq (t : Text) : slicedNumber? t = some (numberValue? t) := by
  unfold slicedNumber?
  split
  · next h =>
      obtain ⟨hhex, hoctal⟩ := Bool.and_eq_true_iff.mp h
      rw [Bool.not_eq_true'] at hhex
      obtain ⟨t, rfl⟩ : ∃ t', t = '0' :: t' := by
        simp only [isOctalNumeral, Bool.and_eq_true, decide_eq_true_eq] at hoctal
        exact List.head?_eq_some_iff.mp hoctal.1.2
      have hslice : Text.slice? ('0' :: t) 1 (Text.size ('0' :: t)) = some t := by
        have : Text.slice? (['0'] ++ (t ++ [])) 1 (Text.size ('0' :: t)) = some t :=
          Text.slice?_append _ _ _ rfl rfl
        rwa [List.append_nil] at this
      rw [hslice, numberValue?, hhex, if_neg Bool.false_ne_true, if_pos hoctal]
      rfl
  · rfl

/-! ## Regular expressions -/

/-- The offset of the last slash of a text that starts at an offset. -/
def lastSlash? : Nat → Text → Option Nat
  | _, [] => none
  | offset, c :: t =>
      (lastSlash? (offset + c.utf8Size) t).or (if c = '/' then some offset else none)

/-- The pattern and the flags of a regular expression literal, as slices. -/
def splitRegex? (literal : Text) : Option (Text × Text) :=
  let close := (lastSlash? 0 literal).getD 0
  if close = 0 then do
    let pattern ← literal.slice? (min 1 literal.size) literal.size
    return (pattern, [])
  else do
    let pattern ← literal.slice? 1 close
    let flags ← literal.slice? (close + 1) literal.size
    return (pattern, flags)

theorem lastSlash?_of_no_slash {flags : Text} (h : '/' ∉ flags) (offset : Nat) :
    lastSlash? offset flags = none := by
  induction flags generalizing offset with
  | nil => rfl
  | cons c flags ih =>
      rw [List.mem_cons, not_or] at h
      rw [lastSlash?, ih h.2, if_neg (Ne.symm h.1)]
      rfl

theorem lastSlash?_append (before : Text) {flags : Text} (h : '/' ∉ flags) (offset : Nat) :
    lastSlash? offset (before ++ '/' :: flags) = some (offset + before.size) := by
  induction before generalizing offset with
  | nil =>
      rw [List.nil_append, lastSlash?, lastSlash?_of_no_slash h]
      rfl
  | cons c before ih =>
      rw [List.cons_append, lastSlash?, ih, Text.size_cons, Nat.add_assoc]
      rfl

/-- A text with a slash has a last one. -/
theorem exists_last_slash {t : Text} (h : '/' ∈ t) : ∃ before flags,
    t = before ++ '/' :: flags ∧ '/' ∉ flags := by
  induction t with
  | nil => cases h
  | cons c t ih =>
      by_cases ht : '/' ∈ t
      · obtain ⟨before, flags, rfl, hflags⟩ := ih ht
        exact ⟨c :: before, flags, rfl, hflags⟩
      · obtain rfl : '/' = c := (List.mem_cons.mp h).resolve_right ht
        exact ⟨[], t, rfl, ht⟩

/-- The flags are what follows the last slash. -/
theorem regexParts_append (before : Text) {flags : Text} (h : '/' ∉ flags) :
    regexParts (before ++ '/' :: flags) =
      if before = [] then (flags, []) else (before.drop 1, flags) := by
  have hflags : ((before ++ '/' :: flags).reverse.takeWhile (· ≠ '/')).reverse = flags := by
    have hall : ∀ c ∈ flags.reverse, decide (c ≠ '/') = true := by
      intro c hc
      simp only [ne_eq, decide_eq_true_eq]
      rintro rfl
      exact h (List.mem_reverse.mp hc)
    rw [List.reverse_append, List.reverse_cons, List.append_assoc,
      List.takeWhile_append_of_pos hall, List.singleton_append, List.takeWhile_cons,
      if_neg (by decide), List.append_nil, List.reverse_reverse]
  have hclose : (before ++ '/' :: flags).length - flags.length - 1 = before.length := by
    simp only [List.length_append, List.length_cons]
    omega
  unfold regexParts
  simp only [hflags, hclose]
  cases before with
  | nil => rfl
  | cons c before =>
      rw [if_neg (by simp), if_neg (by simp), List.take_left]

theorem splitRegex?_eq {literal : Text} (h : literal.head? = some '/') :
    splitRegex? literal = some (regexParts literal) := by
  obtain ⟨t, rfl⟩ := List.head?_eq_some_iff.mp h
  by_cases ht : '/' ∈ t
  · obtain ⟨before, flags, rfl, hflags⟩ := exists_last_slash ht
    have hclose := lastSlash?_append ('/' :: before) hflags 0
    have hpattern : Text.slice? ('/' :: (before ++ '/' :: flags)) 1 (Text.size ('/' :: before)) =
        some before := Text.slice?_append ['/'] before ('/' :: flags) rfl rfl
    have hrest : Text.slice? ('/' :: (before ++ '/' :: flags)) (Text.size ('/' :: before) + 1)
        (Text.size ('/' :: (before ++ '/' :: flags))) = some flags := by
      have : Text.slice? ('/' :: (before ++ ['/']) ++ (flags ++ [])) (Text.size ('/' :: before) + 1)
          (Text.size ('/' :: (before ++ '/' :: flags))) = some flags :=
        Text.slice?_append _ _ _ (by simp [Nat.add_assoc]; rfl) (by simp [Nat.add_assoc]; rfl)
      simpa using this
    have hne : Text.size ('/' :: before) ≠ 0 := by
      have := Char.utf8Size_pos '/'
      rw [Text.size_cons]
      omega
    have hparts := regexParts_append ('/' :: before) hflags
    rw [if_neg (List.cons_ne_nil _ _)] at hparts
    rw [List.cons_append, Nat.zero_add] at hclose
    rw [splitRegex?, hclose, Option.getD_some, if_neg hne, hpattern, hrest]
    exact congrArg some hparts.symm
  · have hclose := lastSlash?_append [] ht 0
    have hslice : Text.slice? ('/' :: t) (min 1 (Text.size ('/' :: t))) (Text.size ('/' :: t)) =
        some t := by
      have hmin : min 1 (Text.size ('/' :: t)) = 1 := by
        have := Char.utf8Size_pos '/'
        rw [Text.size_cons]
        omega
      have : Text.slice? (['/'] ++ (t ++ [])) 1 (Text.size ('/' :: t)) = some t :=
        Text.slice?_append _ _ _ rfl rfl
      rwa [List.append_nil, ← hmin] at this
    have hparts := regexParts_append [] ht
    rw [if_pos rfl] at hparts
    rw [List.nil_append] at hclose
    rw [splitRegex?, hclose, Option.getD_some, Text.size_nil, if_pos rfl, hslice]
    exact congrArg some hparts.symm

end EcmaSyntax
