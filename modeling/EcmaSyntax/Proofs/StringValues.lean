import Mathlib.Algebra.Group.Nat.Defs
import Mathlib.Data.List.TakeWhile
import EcmaSyntax.Proofs.Slices
import EcmaSyntax.Proofs.StringLiterals

/-!
# Values of string literals

**Cuts.**  `CutInto` says what the text between the quotes stands for, escape by escape.

**Code units.**  A character has one or two UTF-16 code units.  Decoding joins a high surrogate with
a low one directly behind it; every other surrogate becomes U+FFFD.

**Line ends.**  An escaped line end stands for nothing, but no pair is joined across it.

**Results.**
* `CutInto.pieces_eq`: a text has one cut, which is the one that is computed.
* `assemble_eq_runs`: the runs between escaped line ends are decoded one by one.
* `string_value`: the value of a string token, and when it is the decoding of all its code units.
-/

namespace EcmaSyntax

/-! ## Cuts -/

/-- Letters that name a control character, with that character. -/
def controlEscapes : List (Char × Char) :=
  [('n', '\n'), ('t', '\t'), ('r', '\r'), ('b', '\x08'), ('f', '\x0c'), ('v', '\x0b')]

/-- What a text between quotes stands for, piece by piece. -/
inductive CutInto : Text → List StringPiece → Prop
  | nil : CutInto [] []
  | character {c : Char} {t : Text} {ps : List StringPiece} : c ≠ '\\' → CutInto t ps →
      CutInto (c :: t) (.char c :: ps)
  | numeric {letter : Char} {count : Nat} {digits t : Text} {ps : List StringPiece} :
      escapeDigits? letter = some count → digits.length = count → (∀ d ∈ digits, isHexDigit d) →
      CutInto t ps →
      CutInto ('\\' :: letter :: (digits ++ t)) (.unit (digitsValue 16 digits) :: ps)
  | control {letter c : Char} {t : Text} {ps : List StringPiece} : (letter, c) ∈ controlEscapes →
      CutInto t ps → CutInto ('\\' :: letter :: t) (.char c :: ps)
  | zero {t : Text} {ps : List StringPiece} : t.head?.any isDecimalDigit = false → CutInto t ps →
      CutInto ('\\' :: '0' :: t) (.char '\x00' :: ps)
  | lineEnd {c : Char} {t : Text} {ps : List StringPiece} : isLineTerminator c →
      ¬(c = '\r' ∧ t.head? = some '\n') → CutInto t ps → CutInto ('\\' :: c :: t) (.nothing :: ps)
  | carriageReturn {t : Text} {ps : List StringPiece} : CutInto t ps →
      CutInto ('\\' :: '\r' :: '\n' :: t) (.nothing :: ps)
  | other {c : Char} {t : Text} {ps : List StringPiece} : escapeDigits? c = none →
      c ∉ controlEscapes.map Prod.fst → (c = '0' → t.head?.any isDecimalDigit) →
      isLineTerminator c = false → CutInto t ps → CutInto ('\\' :: c :: t) (.char c :: ps)

/-! ## Code units -/

/-- The UTF-16 code units of a character. -/
def codeUnits (c : Char) : List Nat :=
  if c.toNat < 0x10000 then [c.toNat]
  else [0xd800 + (c.toNat - 0x10000) / 0x400, 0xdc00 + (c.toNat - 0x10000) % 0x400]

/-- The character of a code unit that belongs to no pair. -/
def loneUnit (unit : Nat) : Char :=
  if isHighSurrogate unit || isLowSurrogate unit then '\ufffd' else Char.ofNat unit

/-- The characters of a list of UTF-16 code units. -/
def decodeUnits : List Nat → Text
  | [] => []
  | [unit] => [loneUnit unit]
  | high :: low :: units =>
      if isHighSurrogate high && isLowSurrogate low then
        Char.ofNat (0x10000 + (high - 0xd800) * 0x400 + (low - 0xdc00)) :: decodeUnits units
      else loneUnit high :: decodeUnits (low :: units)

/-- The code units of a piece. -/
def StringPiece.units : StringPiece → List Nat
  | .char c => codeUnits c
  | .unit value => [value]
  | .nothing => []

/-- The next code unit of some pieces is a low surrogate behind pieces that stand for nothing. -/
def LowAhead (ps : List StringPiece) : Prop :=
  ∃ low after, ps.dropWhile (· = .nothing) = .unit low :: after ∧ isLowSurrogate low

/-- Some pieces have a high and a low surrogate with nothing but escaped line ends in between, and
at least one of them. -/
def SplitsPair (ps : List StringPiece) : Prop :=
  ∃ before high after, ps = before ++ .unit high :: .nothing :: after ∧ isHighSurrogate high ∧
    LowAhead after

/-! ## The cut of a text -/

variable {quote c : Char} {t body w : Text} {p : StringPiece} {ps qs : List StringPiece}

theorem controlEscapes_cases {letter c : Char} (h : (letter, c) ∈ controlEscapes)
    (next : Option Char) :
    escapeDigits? letter = none ∧ isLineTerminator letter = false ∧
      simpleEscape letter next = c := by
  simp only [controlEscapes, List.mem_cons, Prod.mk.injEq, List.not_mem_nil, or_false] at h
  obtain ⟨rfl, rfl⟩ | ⟨rfl, rfl⟩ | ⟨rfl, rfl⟩ | ⟨rfl, rfl⟩ | ⟨rfl, rfl⟩ | ⟨rfl, rfl⟩ := h <;>
    exact ⟨rfl, rfl, rfl⟩

theorem simpleEscape_other {next : Option Char} (hcontrol : c ∉ controlEscapes.map Prod.fst)
    (hzero : c = '0' → next.any isDecimalDigit) : simpleEscape c next = c := by
  unfold simpleEscape
  split
  case h_7 => rw [if_pos (hzero rfl)]
  case h_8 => rfl
  all_goals exact absurd (by decide) hcontrol

/-- A text has one cut. -/
theorem CutInto.pieces_eq (h : CutInto t ps) : pieces t = ps := by
  induction h with
  | nil => rw [pieces]
  | character hc _ ih => rw [pieces, ih] <;> simp [hc]
  | @numeric letter count digits t ps hcount hlength hhex _ ih =>
      have htake : ((digits ++ t).take count).takeWhile isHexDigit = digits := by
        rw [← hlength, List.take_left, List.takeWhile_eq_self_iff]
        exact hhex
      rw [pieces, hcount]
      simp only [htake, hlength, if_true]
      rw [← hlength, List.drop_left, ih]
  | @control letter c t ps h _ ih =>
      obtain ⟨hdigits, hline, hsimple⟩ := controlEscapes_cases h t.head?
      have hreturn : letter ≠ '\r' := by
        rintro rfl
        cases hline
      rw [pieces, hdigits]
      simp only [hreturn, hline, hsimple, Bool.false_eq_true, if_false, ih]
  | zero hnext _ ih =>
      rw [pieces]
      simp [escapeDigits?, isLineTerminator, simpleEscape, hnext, ih]
  | @lineEnd c t ps hc hnot _ ih =>
      have hdigits : escapeDigits? c = none := by
        simp only [isLineTerminator, Bool.or_eq_true, decide_eq_true_eq] at hc
        obtain ((rfl | rfl) | rfl) | rfl := hc <;> rfl
      rw [pieces, hdigits]
      by_cases hreturn : c = '\r'
      · have hnext : t.head? ≠ some '\n' := fun h => hnot ⟨hreturn, h⟩
        simp [hreturn, hnext, ih]
      · simp [hreturn, hc, ih]
  | carriageReturn _ ih =>
      rw [pieces]
      simp [escapeDigits?, ih]
  | @other c t ps hdigits hcontrol hzero hline _ ih =>
      have hreturn : c ≠ '\r' := by
        rintro rfl
        cases hline
      rw [pieces, hdigits]
      simp only [hreturn, hline, simpleEscape_other hcontrol hzero, Bool.false_eq_true, if_false,
        ih]

/-- Plain characters at the head of a text are cut off. -/
theorem CutInto.of_plain {plain : Text} (hplain : ∀ c ∈ plain, c ≠ '\\')
    (h : CutInto (plain ++ t) ps) : ∃ qs, CutInto t qs := by
  induction plain generalizing ps with
  | nil => exact ⟨ps, h⟩
  | cons c plain ih =>
      obtain ⟨hc, hplain⟩ := List.forall_mem_cons.mp hplain
      generalize hu : c :: plain ++ t = u at h
      cases h with
      | nil => cases hu
      | character _ h =>
          obtain ⟨-, rfl⟩ := List.cons.inj hu
          exact ih hplain h
      | _ => exact absurd (List.cons.inj hu).1 hc

theorem ne_backslash_of_isHexDigit (h : isHexDigit c) : c ≠ '\\' := by
  rintro rfl
  exact absurd h (by decide)

/-- A cut goes on behind every escape of one letter. -/
theorem CutInto.escape (letter : Char) (hdigits : escapeDigits? letter = none)
    (hpair : ¬(letter = '\r' ∧ t.head? = some '\n')) (h : CutInto t ps) :
    ∃ p, CutInto ('\\' :: letter :: t) (p :: ps) := by
  by_cases hline : isLineTerminator letter
  · exact ⟨_, .lineEnd hline hpair h⟩
  · by_cases hcontrol : letter ∈ controlEscapes.map Prod.fst
    · obtain ⟨⟨letter, c⟩, hc, rfl⟩ := List.mem_map.mp hcontrol
      exact ⟨_, .control hc h⟩
    · by_cases hzero : letter = '0' ∧ t.head?.any isDecimalDigit = false
      · obtain ⟨rfl, hnext⟩ := hzero
        exact ⟨_, .zero hnext h⟩
      · refine ⟨_, .other hdigits hcontrol (fun hl => ?_)
          (Bool.eq_false_iff.mpr hline) h⟩
        rw [not_and, Bool.not_eq_false] at hzero
        exact hzero hl

/-- A cut goes on behind a numeric escape that has all its digits in front of the closing quote. -/
theorem CutInto.numericEscape {letter : Char} {count : Nat} (hquote : quote = '"' ∨ quote = '\'')
    (hcount : escapeDigits? letter = some count) (hhex : startsWithHex count (t ++ [quote]))
    (h : CutInto t ps) : ∃ p qs, CutInto ('\\' :: letter :: t) (p :: qs) := by
  rw [startsWithHex_before_quote hquote] at hhex
  obtain ⟨digits, hlength, hdigits, t, rfl⟩ := startsWithHex_iff.mp hhex
  obtain ⟨qs, hqs⟩ := h.of_plain fun d hd => ne_backslash_of_isHexDigit (hdigits d hd)
  exact ⟨_, qs, .numeric hcount hlength hdigits hqs⟩

/-- What the scanner takes behind an opening quote has a cut. -/
theorem exists_cutInto (hquote : quote = '"' ∨ quote = '\'')
    (hclosed : stringRest quote w = (w, true)) (hescaped : wellEscaped w) :
    ∃ body ps, w = body ++ [quote] ∧ CutInto body ps := by
  fun_induction stringRest quote w with
  | case1 => simp at hclosed
  | case2 t taken closed htaken ih =>
      obtain ⟨rfl, rfl⟩ : taken = t ∧ closed = true := by simpa using hclosed
      obtain ⟨body, ps, rfl, hps⟩ := ih htaken hescaped
      exact ⟨'\\' :: '\r' :: '\n' :: body, _, rfl, .carriageReturn hps⟩
  | case3 letter t hne taken closed htaken ih =>
      obtain ⟨rfl, rfl⟩ : taken = t ∧ closed = true := by simpa using hclosed
      rw [wellEscaped_backslash, Bool.and_eq_true, Option.all_eq_true] at hescaped
      obtain ⟨hhex, hescaped⟩ := hescaped
      obtain ⟨body, ps, rfl, hps⟩ := ih htaken hescaped
      suffices h : ∃ p qs, CutInto ('\\' :: letter :: body) (p :: qs) by
        obtain ⟨p, qs, h⟩ := h
        exact ⟨'\\' :: letter :: body, _, rfl, h⟩
      cases hcount : escapeDigits? letter with
      | some count => exact hps.numericEscape hquote hcount (hhex count hcount)
      | none =>
          have hpair : ¬(letter = '\r' ∧ body.head? = some '\n') := by
            rintro ⟨hreturn, hnext⟩
            obtain ⟨u, rfl⟩ := List.head?_eq_some_iff.mp hnext
            exact hne _ hreturn rfl
          obtain ⟨p, h⟩ := hps.escape letter hcount hpair
          exact ⟨p, ps, h⟩
  | case4 t _ _ =>
      obtain rfl : t = [] := by simpa using hclosed
      exact ⟨[], [], rfl, .nil⟩
  | case5 => simp at hclosed
  | case6 c t _ hslash _ _ taken closed htaken ih =>
      obtain ⟨rfl, rfl⟩ : taken = t ∧ closed = true := by simpa using hclosed
      have hc : c ≠ '\\' := by
        rintro rfl
        cases taken with
        | nil => simp [stringRest] at htaken
        | cons d t => exact hslash d t rfl rfl
      rw [wellEscaped_cons hc] at hescaped
      obtain ⟨body, ps, rfl, hps⟩ := ih htaken hescaped
      exact ⟨c :: body, _, rfl, .character hc hps⟩

/-! ## Decoding -/

/-- The units of a cut have sixteen bits. -/
def SixteenBits (ps : List StringPiece) : Prop := ∀ value, .unit value ∈ ps → value < 0x10000

theorem digitsValue_lt {base : Nat} (digits : Text) (hbase : 0 < base) :
    digitsValue base digits < base ^ digits.length := by
  have hdigit : ∀ c, (digitValue? base c).getD 0 < base := by
    intro c
    cases h : digitValue? base c with
    | none => exact hbase
    | some value =>
        rw [digitValue?, Option.filter_eq_some_iff] at h
        exact of_decide_eq_true h.2
  suffices h : ∀ value k, value < base ^ k → digits.foldl
      (fun value c => value * base + (digitValue? base c).getD 0) value <
        base ^ (k + digits.length) by
    simpa [digitsValue] using h 0 0 (by simp)
  induction digits with
  | nil => exact fun value k h => h
  | cons c digits ih =>
      intro value k h
      rw [List.foldl_cons, List.length_cons, Nat.add_comm digits.length, ← Nat.add_assoc]
      refine ih _ _ ?_
      calc value * base + (digitValue? base c).getD 0 < value * base + base :=
            Nat.add_lt_add_left (hdigit c) _
        _ = (value + 1) * base := (Nat.succ_mul value base).symm
        _ ≤ base ^ k * base := Nat.mul_le_mul_right base h

theorem CutInto.sixteenBits (h : CutInto t ps) : SixteenBits ps := by
  induction h with
  | nil => exact fun value h => by cases h
  | @numeric letter count digits t ps hcount hlength _ _ ih =>
      intro value hvalue
      obtain heq | hvalue := List.mem_cons.mp hvalue
      · cases heq
        have hle : digits.length ≤ 4 := by
          unfold escapeDigits? at hcount
          split at hcount <;> cases hcount <;> omega
        exact (digitsValue_lt digits (by decide)).trans_le (Nat.pow_le_pow_right (by decide) hle)
      · exact ih value hvalue
  | _ =>
      rename_i ih
      intro value hvalue
      obtain heq | hvalue := List.mem_cons.mp hvalue
      · cases heq
      · exact ih value hvalue

theorem isHighSurrogate_iff {unit : Nat} :
    isHighSurrogate unit ↔ 0xd800 ≤ unit ∧ unit ≤ 0xdbff := by
  simp [isHighSurrogate]

theorem isLowSurrogate_iff {unit : Nat} :
    isLowSurrogate unit ↔ 0xdc00 ≤ unit ∧ unit ≤ 0xdfff := by
  simp [isLowSurrogate]

variable {value high low : Nat} {units : List Nat}

theorem charOfUnit_eq_loneUnit (h : value < 0x10000) : charOfUnit value = loneUnit value := by
  have hvalid : value.isValidChar ↔ ¬(isHighSurrogate value ∨ isLowSurrogate value) := by
    rw [isHighSurrogate_iff, isLowSurrogate_iff]
    unfold Nat.isValidChar
    omega
  unfold charOfUnit loneUnit
  by_cases hunit : isHighSurrogate value ∨ isLowSurrogate value
  · rw [if_neg (fun hv => hvalid.mp hv hunit), if_pos (by simpa using hunit)]
  · rw [if_pos (hvalid.mpr hunit), if_neg (by simpa using hunit)]

theorem charOfPair_eq (hhigh : isHighSurrogate high) (hlow : isLowSurrogate low) :
    charOfPair high low = Char.ofNat (0x10000 + (high - 0xd800) * 0x400 + (low - 0xdc00)) := by
  rw [isHighSurrogate_iff] at hhigh
  rw [isLowSurrogate_iff] at hlow
  have hvalid : (0x10000 + (high - 0xd800) * 0x400 + (low - 0xdc00)).isValidChar := by
    unfold Nat.isValidChar
    omega
  rw [charOfPair, charOfUnit, if_pos hvalid]

/-- A unit that starts no pair is decoded by itself. -/
theorem decodeUnits_cons (h : ¬(isHighSurrogate value ∧ ∃ low ∈ units.head?, isLowSurrogate low)) :
    decodeUnits (value :: units) = loneUnit value :: decodeUnits units := by
  cases units with
  | nil => rfl
  | cons low units =>
      rw [decodeUnits, if_neg]
      simpa using h

theorem decodeUnits_pair (hhigh : isHighSurrogate high) (hlow : isLowSurrogate low) :
    decodeUnits (high :: low :: units) = charOfPair high low :: decodeUnits units := by
  rw [decodeUnits, if_pos (by rw [hhigh, hlow]; rfl), charOfPair_eq hhigh hlow]

/-- The code units of a character stand for it. -/
theorem decodeUnits_codeUnits (c : Char) (units : List Nat) :
    decodeUnits (codeUnits c ++ units) = c :: decodeUnits units := by
  have hvalid : c.toNat < 0xd800 ∨ 0xdfff < c.toNat ∧ c.toNat < 0x110000 := c.valid
  unfold codeUnits
  split
  · have hhigh : ¬isHighSurrogate c.toNat := by
      rw [isHighSurrogate_iff]
      omega
    have hlow : ¬isLowSurrogate c.toNat := by
      rw [isLowSurrogate_iff]
      omega
    rw [List.singleton_append, decodeUnits_cons fun h => hhigh h.1, loneUnit,
      if_neg (by simp [hhigh, hlow]), Char.ofNat_toNat]
  · have hhigh : isHighSurrogate (0xd800 + (c.toNat - 0x10000) / 0x400) := by
      rw [isHighSurrogate_iff]
      omega
    have hlow : isLowSurrogate (0xdc00 + (c.toNat - 0x10000) % 0x400) := by
      rw [isLowSurrogate_iff]
      omega
    have hpoint : 0x10000 + (0xd800 + (c.toNat - 0x10000) / 0x400 - 0xd800) * 0x400 +
        (0xdc00 + (c.toNat - 0x10000) % 0x400 - 0xdc00) = c.toNat := by
      omega
    show decodeUnits (_ :: _ :: units) = _
    rw [decodeUnits_pair hhigh hlow, charOfPair_eq hhigh hlow, hpoint, Char.ofNat_toNat]

/-- No character starts with a low surrogate. -/
theorem not_isLowSurrogate_of_codeUnits (c : Char) (units : List Nat) :
    ¬∃ low ∈ (codeUnits c ++ units).head?, isLowSurrogate low := by
  have hvalid : c.toNat < 0xd800 ∨ 0xdfff < c.toNat ∧ c.toNat < 0x110000 := c.valid
  rintro ⟨low, hhead, hlow⟩
  rw [isLowSurrogate_iff] at hlow
  unfold codeUnits at hhead
  split at hhead
  · cases hhead
    omega
  · cases hhead
    omega

/-! ## Runs between escaped line ends -/

/-- The code units of some pieces. -/
def unitsOf (ps : List StringPiece) : List Nat := ps.flatMap StringPiece.units

theorem unitsOf_cons (p : StringPiece) (ps : List StringPiece) :
    unitsOf (p :: ps) = p.units ++ unitsOf ps :=
  List.flatMap_cons

/-- The next code unit is a low surrogate if one stands behind pieces that stand for nothing. -/
theorem lowAhead_iff : LowAhead ps ↔ ∃ low ∈ (unitsOf ps).head?, isLowSurrogate low := by
  unfold LowAhead
  induction ps with
  | nil => simp [unitsOf]
  | cons p ps ih =>
      cases p with
      | nothing => simpa [unitsOf_cons, StringPiece.units] using ih
      | unit value => simp [unitsOf_cons, StringPiece.units]
      | char c =>
          have h := not_isLowSurrogate_of_codeUnits c (unitsOf ps)
          rw [unitsOf_cons]
          exact iff_of_false (by simp) h

theorem not_splitsPair_nil : ¬SplitsPair [] := by
  rintro ⟨before, _, _, h, -⟩
  exact absurd h.symm (List.append_ne_nil_of_right_ne_nil before (List.cons_ne_nil _ _))

theorem splitsPair_cons : SplitsPair (p :: ps) ↔
    (∃ high after, p = .unit high ∧ ps = .nothing :: after ∧ isHighSurrogate high ∧
      LowAhead after) ∨ SplitsPair ps := by
  constructor
  · rintro ⟨_ | ⟨q, before⟩, high, after, heq, h⟩
    · obtain ⟨rfl, rfl⟩ := List.cons.inj heq
      exact .inl ⟨high, after, rfl, rfl, h⟩
    · obtain ⟨rfl, rfl⟩ := List.cons.inj heq
      exact .inr ⟨before, high, after, rfl, h⟩
  · rintro (⟨high, after, rfl, rfl, h⟩ | ⟨before, high, after, rfl, h⟩)
    · exact ⟨[], high, after, rfl, h⟩
    · exact ⟨p :: before, high, after, rfl, h⟩

/-- The pieces stand for what their code units are decoded to, or else they split a pair, and more
characters are found. -/
def DecodedUnlessSplit (ps : List StringPiece) : Prop :=
  assemble ps = decodeUnits (unitsOf ps) ∧ ¬SplitsPair ps ∨
    (decodeUnits (unitsOf ps)).length < (assemble ps).length ∧ SplitsPair ps

theorem DecodedUnlessSplit.length_le (h : DecodedUnlessSplit ps) :
    (decodeUnits (unitsOf ps)).length ≤ (assemble ps).length := by
  obtain ⟨heq, -⟩ | ⟨hlt, -⟩ := h
  · rw [heq]
  · exact hlt.le

/-- A character that is found either way is put in front. -/
theorem DecodedUnlessSplit.extend (h : DecodedUnlessSplit ps)
    (hassemble : assemble qs = c :: assemble ps)
    (hdecode : decodeUnits (unitsOf qs) = c :: decodeUnits (unitsOf ps))
    (hsplits : SplitsPair qs ↔ SplitsPair ps) : DecodedUnlessSplit qs := by
  unfold DecodedUnlessSplit
  rw [hassemble, hdecode, hsplits]
  obtain ⟨heq, hno⟩ | ⟨hlt, hyes⟩ := h
  · exact .inl ⟨congrArg _ heq, hno⟩
  · exact .inr ⟨Nat.succ_lt_succ hlt, hyes⟩

/-- A unit in front of pieces is decoded by itself unless it starts a pair with what follows. -/
theorem DecodedUnlessSplit.unit (h : DecodedUnlessSplit ps) (hbits : value < 0x10000)
    (hunit : ¬(isHighSurrogate value ∧ LowAhead ps)) : DecodedUnlessSplit (.unit value :: ps) := by
  have hnext : ¬(isHighSurrogate value ∧ ∃ low ∈ (unitsOf ps).head?, isLowSurrogate low) := by
    rwa [← lowAhead_iff]
  refine h.extend (c := loneUnit value) ?_ (decodeUnits_cons hnext) ?_
  · rw [← charOfUnit_eq_loneUnit hbits]
    refine assemble_unit fun low after hps => Bool.eq_false_iff.mpr fun hpair => hunit ?_
    rw [Bool.and_eq_true] at hpair
    exact ⟨hpair.1, low, after, by rw [hps]; rfl, hpair.2⟩
  · refine splitsPair_cons.trans (or_iff_right ?_)
    rintro ⟨high, after, heq, rfl, hhigh, hlow⟩
    cases heq
    exact hunit ⟨hhigh, by simpa [LowAhead] using hlow⟩

theorem sixteenBits_cons : SixteenBits (p :: ps) ↔
    (∀ value, p = .unit value → value < 0x10000) ∧ SixteenBits ps := by
  simp only [SixteenBits, List.mem_cons, or_imp, forall_and, eq_comm]

theorem decodedUnlessSplit_nothing :
    DecodedUnlessSplit (.nothing :: ps) ↔ DecodedUnlessSplit ps := by
  have hsplits : SplitsPair (.nothing :: ps) ↔ SplitsPair ps :=
    splitsPair_cons.trans (or_iff_right (by simp))
  unfold DecodedUnlessSplit
  rw [assemble, hsplits]
  rfl

/-- A surrogate pair with escaped line ends in between is found as two characters. -/
theorem DecodedUnlessSplit.split (h : DecodedUnlessSplit ps) (hhigh : isHighSurrogate high)
    (hlow : LowAhead ps) : DecodedUnlessSplit (.unit high :: .nothing :: ps) := by
  refine .inr ⟨?_, splitsPair_cons.mpr (.inl ⟨high, ps, rfl, rfl, hhigh, hlow⟩)⟩
  obtain ⟨low, hhead, hlow⟩ := lowAhead_iff.mp hlow
  obtain ⟨units, hunits⟩ := List.head?_eq_some_iff.mp hhead
  have hle := h.length_le
  have hlone : ¬isHighSurrogate low := fun hh => by
    rw [isLowSurrogate_of_isHighSurrogate hh] at hlow
    cases hlow
  have hjoined : decodeUnits (unitsOf (.unit high :: .nothing :: ps)) =
      charOfPair high low :: decodeUnits units := by
    rw [← decodeUnits_pair hhigh hlow, ← hunits]
    rfl
  rw [hunits, decodeUnits_cons fun hpair => hlone hpair.1] at hle
  rw [hjoined]
  exact Nat.succ_lt_succ hle

theorem decodedUnlessSplit (hbits : SixteenBits ps) : DecodedUnlessSplit ps := by
  fun_induction assemble ps with
  | case1 => exact .inl ⟨rfl, not_splitsPair_nil⟩
  | case2 high low ps hpair ih =>
      obtain ⟨hhigh, hlow⟩ := Bool.and_eq_true_iff.mp hpair
      have hps := ih (sixteenBits_cons.mp (sixteenBits_cons.mp hbits).2).2
      refine hps.extend (c := charOfPair high low) (by rw [assemble, if_pos hpair])
        (decodeUnits_pair hhigh hlow) ?_
      refine splitsPair_cons.trans ((or_iff_right (by simp)).trans (splitsPair_cons.trans
        (or_iff_right ?_)))
      rintro ⟨_, _, heq, -, hh, -⟩
      cases heq
      rw [isLowSurrogate_of_isHighSurrogate hh] at hlow
      cases hlow
  | case3 high low ps hpair ih =>
      obtain ⟨hunit, hps⟩ := sixteenBits_cons.mp hbits
      refine (ih hps).unit (hunit high rfl) ?_
      rintro ⟨hhigh, _, _, heq, hlow⟩
      cases heq
      exact hpair (by rw [hhigh, hlow]; rfl)
  | case4 value ps hps ih =>
      obtain ⟨hunit, hbits⟩ := sixteenBits_cons.mp hbits
      by_cases hpair : isHighSurrogate value ∧ LowAhead ps
      · obtain ⟨hhigh, low, after, heq, hlow⟩ := hpair
        cases ps with
        | nil => cases heq
        | cons p ps =>
            cases p with
            | char c => cases heq
            | unit low => exact absurd rfl (hps low ps)
            | nothing =>
                exact (decodedUnlessSplit_nothing.mp (ih hbits)).split hhigh
                  ⟨low, after, by simpa using heq, hlow⟩
      · exact (ih hbits).unit (hunit value rfl) hpair
  | case5 c ps ih =>
      have hps := ih (sixteenBits_cons.mp hbits).2
      exact hps.extend (c := c) rfl (decodeUnits_codeUnits c _)
        (splitsPair_cons.trans (or_iff_right (by simp)))
  | case6 ps ih => exact decodedUnlessSplit_nothing.mpr (ih (sixteenBits_cons.mp hbits).2)

/-- An escaped line end cuts what is assembled in two. -/
theorem assemble_append_nothing (run rest : List StringPiece) :
    assemble (run ++ .nothing :: rest) = assemble run ++ assemble rest := by
  fun_induction assemble run with
  | case1 => rfl
  | case2 high low run hpair ih =>
      show assemble (.unit high :: .unit low :: (run ++ .nothing :: rest)) = _
      rw [assemble, if_pos hpair, ih, List.cons_append]
  | case3 high low run hpair ih =>
      show assemble (.unit high :: .unit low :: (run ++ .nothing :: rest)) = _
      rw [assemble, if_neg hpair, List.cons_append, ← ih]
      rfl
  | case4 value run hrun ih =>
      rw [List.cons_append, assemble_unit, ih, List.cons_append]
      intro low after h
      cases run with
      | nil => cases h
      | cons p run =>
          obtain ⟨rfl, -⟩ := List.cons.inj h
          exact absurd rfl (hrun low run)
  | case5 c run ih => exact congrArg (c :: ·) ih
  | case6 run ih => exact ih

/-- Pieces without an escaped line end are decoded all at once. -/
theorem assemble_of_not_mem (hbits : SixteenBits ps) (h : .nothing ∉ ps) :
    assemble ps = decodeUnits (unitsOf ps) := by
  obtain ⟨heq, -⟩ | ⟨-, before, high, after, rfl, -⟩ := decodedUnlessSplit hbits
  · exact heq
  · exact absurd (by simp) h

/-- The runs between escaped line ends are decoded one by one. -/
theorem assemble_eq_runs (hbits : SixteenBits ps) :
    assemble ps = (ps.splitOn .nothing).flatMap fun run => decodeUnits (unitsOf run) := by
  induction hlength : ps.length using Nat.strongRecOn generalizing ps with
  | ind n ih =>
      by_cases h : .nothing ∈ ps
      · obtain ⟨run, rest, rfl, hrun⟩ := List.eq_append_cons_of_mem h
        have hbits₁ : SixteenBits run := fun value hv => hbits value (by simp [hv])
        have hbits₂ : SixteenBits rest := fun value hv => hbits value (by simp [hv])
        have hlt : rest.length < n := by
          rw [← hlength, List.length_append, List.length_cons]
          omega
        rw [assemble_append_nothing, List.splitOn_append_cons_self_of_not_mem hrun,
          List.flatMap_cons, assemble_of_not_mem hbits₁ hrun, ih _ hlt hbits₂ rfl]
      · rw [List.splitOn_eq_singleton h, assemble_of_not_mem hbits h, List.flatMap_singleton]

/-! ## Tokens -/

variable {s s' : Scanner} {tok : Token}

theorem TokenAt.of_string {r : Text} (h : TokenAt .string w r) : ∃ quote body, w = quote :: body ∧
    (quote = '"' ∨ quote = '\'') ∧ (∀ u, stringRest quote (body ++ u) = (body, true)) ∧
    wellEscaped body := by
  generalize hk : TokenKind.string = k at h
  cases h with
  | @word c w =>
      obtain hw | ⟨hw, -⟩ := wordKind_cases (c :: w)
      · rw [hw] at hk
        cases hk
      · rw [← hk] at hw
        exact absurd hw (by decide)
  | number => cases hk
  | string hquote hclosed hescaped => exact ⟨_, _, rfl, hquote, hclosed, hescaped⟩
  | punctuator hp =>
      subst hk
      exact absurd (punctuator?_eq_some_iff.mp hp).1 (by decide)

/-- The text of a string token that the scanner accepts stands between quotes, and has a cut. -/
theorem Scanner.exists_cutInto (h : Scanner.next.run s = .ok tok s') (hkind : tok.kind = .string) :
    ∃ quote body ps, tok.text = quote :: (body ++ [quote]) ∧ CutInto body ps := by
  obtain ⟨site, hsite, hs⟩ := Scanner.exists_site h
  rw [Scanner.next_of_valid hsite hs.symm] at h
  cases h
  have hk : site.kind = .string := by
    change Scanner.kindAfterGap site.newline site.kind = .string at hkind
    generalize site.kind = k, site.newline = newline at hkind
    cases newline <;> cases k <;> first | rfl | cases hkind
  obtain ⟨hend, -⟩ | htoken := hsite.token
  · rw [hk] at hend
    cases hend
  · rw [hk] at htoken
    obtain ⟨quote, w, htext, hquote, hclosed, hescaped⟩ := htoken.of_string
    obtain ⟨body, ps, rfl, hps⟩ :=
      EcmaSyntax.exists_cutInto hquote (by simpa using hclosed []) hescaped
    exact ⟨quote, body, ps, htext, hps⟩

/-- A source that begins with a string. -/
theorem Scanner.next_ofText {taken : Text} (hquote : quote = '"' ∨ quote = '\'')
    (hclosed : stringRest quote t = (taken, true)) (hescaped : wellEscaped taken) :
    ∃ s', Scanner.next.run (Scanner.ofText (quote :: t)) =
      .ok ⟨.string, quote :: taken, ⟨⟨1, 1⟩, 0⟩, false⟩ s' := by
  have hsettled : isSettled (quote :: t) := by obtain rfl | rfl := hquote <;> rfl
  have hgap := Scanner.skipGap_of_fits (s := Scanner.ofText (quote :: t)) (g := []) false rfl
    trivial hsettled
  have hnext := Scanner.next_of_quote hgap hquote rfl
  simp only [hclosed, hescaped, if_true] at hnext
  exact ⟨_, hnext⟩

theorem CutInto.stringValue_eq (h : CutInto body ps) (quote : Char) :
    stringValue (quote :: (body ++ [quote])) = assemble ps := by
  rw [stringValue, List.drop_one, List.tail_cons, List.dropLast_concat, h.pieces_eq]

/-- The value of every string token: a text between quotes has one cut, whose runs between escaped
line ends are decoded one by one.  That is what all its code units are decoded to, unless escaped
line ends split a surrogate pair. -/
theorem string_value (h : Scanner.next.run s = .ok tok s') (hkind : tok.kind = .string) :
    ∃ quote body ps, tok.text = quote :: (body ++ [quote]) ∧ CutInto body ps ∧
      (∀ qs, CutInto body qs → qs = ps) ∧
      stringValue tok.text =
        (ps.splitOn .nothing).flatMap (fun run => decodeUnits (unitsOf run)) ∧
      (stringValue tok.text = decodeUnits (unitsOf ps) ↔ ¬SplitsPair ps) := by
  obtain ⟨quote, body, ps, htext, hps⟩ := Scanner.exists_cutInto h hkind
  have hvalue : stringValue tok.text = assemble ps := by rw [htext, hps.stringValue_eq]
  refine ⟨quote, body, ps, htext, hps, fun qs hqs => hqs.pieces_eq.symm.trans hps.pieces_eq, ?_, ?_⟩
  · rw [hvalue, assemble_eq_runs hps.sixteenBits]
  · rw [hvalue]
    obtain ⟨heq, hno⟩ | ⟨hlt, hyes⟩ := decodedUnlessSplit hps.sixteenBits
    · exact iff_of_true heq hno
    · exact iff_of_false (fun heq => (congrArg List.length heq).not_gt hlt) (not_not_intro hyes)

/-- A pair of escapes, then an escaped line end and another escape. -/
theorem string_value_pair : ∃ s', Scanner.next.run
    (Scanner.ofText ('\'' :: "\\uD83D\\uDE00\\\n\\x41'".toList)) =
      .ok ⟨.string, '\'' :: "\\uD83D\\uDE00\\\n\\x41'".toList, ⟨⟨1, 1⟩, 0⟩, false⟩ s' ∧
    stringValue ('\'' :: "\\uD83D\\uDE00\\\n\\x41'".toList) = "😀A".toList := by
  have hclosed : stringRest '\'' "\\uD83D\\uDE00\\\n\\x41'".toList =
      ("\\uD83D\\uDE00\\\n\\x41'".toList, true) := by decide
  obtain ⟨s', h⟩ := Scanner.next_ofText (.inr rfl) hclosed (by decide)
  refine ⟨s', h, ?_⟩
  have hcut : CutInto "\\uD83D\\uDE00\\\n\\x41".toList
      [.unit 0xd83d, .unit 0xde00, .nothing, .unit 0x41] := by
    change CutInto ("\\u".toList ++ ("D83D".toList ++ ("\\u".toList ++ ("DE00".toList ++
      ("\\\n\\x".toList ++ ("41".toList ++ [])))))) _
    exact .numeric rfl rfl (List.all_eq_true.mp rfl)
      (.numeric rfl rfl (List.all_eq_true.mp rfl)
        (.lineEnd rfl (by decide) (.numeric rfl rfl (List.all_eq_true.mp rfl) .nil)))
  have hno : ¬SplitsPair [.unit 0xd83d, .unit 0xde00, .nothing, .unit 0x41] := by
    simp [splitsPair_cons, not_splitsPair_nil, LowAhead, isHighSurrogate]
  obtain ⟨quote, body, ps, htext, -, hone, -, hvalue⟩ := string_value h rfl
  have hbody : "\\uD83D\\uDE00\\\n\\x41".toList = body := by
    simpa using congrArg (fun t : Text => (t.drop 1).dropLast) htext
  obtain rfl := hone _ (hbody ▸ hcut)
  exact (hvalue.mpr hno).trans (by decide)

/-- The escapes of a surrogate pair with an escaped line end in between are decoded one by one. -/
theorem string_value_fails_for_split_pair : ∃ s', Scanner.next.run
    (Scanner.ofText ('\'' :: "\\uD83D\\\n\\uDE00'".toList)) =
      .ok ⟨.string, '\'' :: "\\uD83D\\\n\\uDE00'".toList, ⟨⟨1, 1⟩, 0⟩, false⟩ s' ∧
    CutInto "\\uD83D\\\n\\uDE00".toList [.unit 0xd83d, .nothing, .unit 0xde00] ∧
    decodeUnits (unitsOf [.unit 0xd83d, .nothing, .unit 0xde00]) = "😀".toList ∧
    stringValue ('\'' :: "\\uD83D\\\n\\uDE00'".toList) = "\ufffd\ufffd".toList := by
  have hclosed : stringRest '\'' "\\uD83D\\\n\\uDE00'".toList =
      ("\\uD83D\\\n\\uDE00'".toList, true) := by decide
  obtain ⟨s', h⟩ := Scanner.next_ofText (.inr rfl) hclosed (by decide)
  have hcut : CutInto "\\uD83D\\\n\\uDE00".toList [.unit 0xd83d, .nothing, .unit 0xde00] := by
    change CutInto ("\\u".toList ++ ("D83D".toList ++ ("\\\n\\u".toList ++
      ("DE00".toList ++ [])))) _
    exact .numeric rfl rfl (List.all_eq_true.mp rfl) (.lineEnd rfl (by decide)
      (.numeric rfl rfl (List.all_eq_true.mp rfl) .nil))
  exact ⟨s', h, hcut, by decide, (hcut.stringValue_eq '\'').trans (by decide)⟩

end EcmaSyntax
