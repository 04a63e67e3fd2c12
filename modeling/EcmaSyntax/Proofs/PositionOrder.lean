import EcmaSyntax.Proofs.Trivia
import EcmaSyntax.Source
import Mathlib.Data.List.Basic
import Mathlib.Data.Prod.Lex

/-!
# The order of positions

**Order.**  Positions are compared by line and then by column: `Position.key` puts them into the
lexicographic order of the pairs.  `Text.counted` is the pair that a position stands for, before it
is kept in 32 bits.  Every character that follows a text moves the pair on, with a line end or
without.

**Line ends of two characters.**  A carriage return at the end of a text ends a line, the same
carriage return before a line feed does not.  So the position behind the carriage return is the one
behind the line feed, and nowhere else do two boundaries of a text share a pair.

**Bytes.**  `Text.bytes` is the UTF-8 form of a text.  An ASCII byte in it is a character of its
own, so that the two bytes around an offset tell whether a line end is cut in two there.

**Results.**
* `Text.halvesLineEnd_iff`: the bytes around a boundary and the characters around it.
* `Text.counted_append`: a text that goes on leads on, unless it only completes a line end.
* `Text.inRange_of_lines`: offsets fit in a text without too many lines or too long ones.
* `position_ordered`: positions are ordered as offsets are, up to the middle of a line end, where
  their lines and columns fit into 32 bits.
* `position_ordered_fails`: a column that does not fit starts again.
-/

namespace EcmaSyntax

/-- Line and column in the lexicographic order. -/
def Position.key (p : Position) : Nat ×ₗ Nat := toLex (p.line.toNat, p.column.toNat)

theorem Position.key_inj {p q : Position} : p.key = q.key ↔ p = q := by
  obtain ⟨line, column⟩ := p
  obtain ⟨line', column'⟩ := q
  simp [key, UInt32.toNat_inj]

/-! ## Bytes -/

namespace Text

variable {s t : Text} {b : UInt8} {c : Char} {offset : Nat}

/-- The UTF-8 form of a text. -/
def bytes (t : Text) : List UInt8 := t.flatMap String.utf8EncodeChar

@[simp] theorem bytes_nil : bytes [] = [] := rfl

@[simp] theorem bytes_cons (c : Char) (t : Text) :
    bytes (c :: t) = String.utf8EncodeChar c ++ bytes t := rfl

@[simp] theorem bytes_append (s t : Text) : bytes (s ++ t) = bytes s ++ bytes t :=
  List.flatMap_append

@[simp] theorem length_bytes (t : Text) : t.bytes.length = t.size := by
  induction t with
  | nil => rfl
  | cons c t ih => rw [bytes_cons, List.length_append, ih, String.length_utf8EncodeChar, size_cons]

/-- Only ASCII characters have ASCII bytes. -/
theorem toNat_eq_of_mem_utf8EncodeChar (hb : b ∈ String.utf8EncodeChar c) (hlt : b.toNat < 128) :
    c.toNat = b.toNat := by
  have hc : c.val.toNat = c.toNat := rfl
  unfold String.utf8EncodeChar at hb
  dsimp only at hb
  split at hb
  · simp only [List.mem_cons, List.not_mem_nil, or_false] at hb
    rw [hb, UInt8.toNat_ofNat']
    omega
  · exfalso
    -- every byte of a longer form has its highest bit set
    split_ifs at hb <;> simp only [List.mem_cons, List.not_mem_nil, or_false] at hb
    · obtain rfl | rfl := hb <;> rw [UInt8.toNat_ofNat'] at hlt <;> omega
    · obtain rfl | rfl | rfl := hb <;> rw [UInt8.toNat_ofNat'] at hlt <;> omega
    · obtain rfl | rfl | rfl | rfl := hb <;> rw [UInt8.toNat_ofNat'] at hlt <;> omega

theorem utf8EncodeChar_of_ascii (hc : c.toNat = b.toNat) (hlt : b.toNat < 128) :
    String.utf8EncodeChar c = [b] := by
  have hval : c.val.toNat = b.toNat := hc
  unfold String.utf8EncodeChar
  dsimp only
  rw [if_pos (by omega), hval, UInt8.ofNat_toNat]

/-- The first byte of a text is an ASCII character if and only if its first character is. -/
theorem head?_bytes (hc : c.toNat = b.toNat) (hlt : b.toNat < 128) :
    t.bytes.head? = some b ↔ t.head? = some c := by
  cases t with
  | nil => simp
  | cons d t =>
      have hne : String.utf8EncodeChar d ≠ [] := String.utf8EncodeChar_ne_nil
      rw [bytes_cons, List.head?_append_of_ne_nil _ hne, List.head?_cons, Option.some.injEq]
      constructor
      · intro h
        have hd := toNat_eq_of_mem_utf8EncodeChar (List.mem_of_head? h) hlt
        exact Char.toNat_inj.mp (hd.trans hc.symm)
      · rintro rfl
        rw [utf8EncodeChar_of_ascii hc hlt]
        rfl

/-- The last byte of a text is an ASCII character if and only if its last character is. -/
theorem getLast?_bytes (hc : c.toNat = b.toNat) (hlt : b.toNat < 128) :
    t.bytes.getLast? = some b ↔ t.getLast? = some c := by
  obtain rfl | ⟨t, d, rfl⟩ := List.eq_nil_or_concat t
  · simp
  · have hne : String.utf8EncodeChar d ≠ [] := String.utf8EncodeChar_ne_nil
    rw [List.concat_eq_append, bytes_append, List.getLast?_concat, Option.some.injEq, bytes_cons,
      bytes_nil, List.append_nil, List.getLast?_append_of_ne_nil _ hne]
    constructor
    · intro h
      have hd := toNat_eq_of_mem_utf8EncodeChar (List.mem_of_getLast? h) hlt
      exact Char.toNat_inj.mp (hd.trans hc.symm)
    · rintro rfl
      rw [utf8EncodeChar_of_ascii hc hlt]
      rfl

/-- The bytes before and behind an offset are a carriage return and a line feed. -/
def HalvesLineEnd (t : Text) (offset : Nat) : Prop :=
  ∃ n, offset = n + 1 ∧ t.bytes[n]? = some 13 ∧ t.bytes[n + 1]? = some 10

/-- An offset at which no character is cut in two. -/
def IsBoundary (t : Text) (offset : Nat) : Prop :=
  ∃ before : Text, before <+: t ∧ before.size = offset

/-- The bytes around a boundary tell whether a line end is cut in two. -/
theorem halvesLineEnd_iff : (s ++ t).HalvesLineEnd s.size ↔ Place.CutsLineEnd s t := by
  have hfeed : (s ++ t).bytes[s.size]? = some 10 ↔ t.head? = some '\n' := by
    rw [bytes_append, List.getElem?_append_right (length_bytes s).le, length_bytes, Nat.sub_self,
      ← List.head?_eq_getElem?]
    exact head?_bytes rfl (by decide)
  have hreturn {n : Nat} (hn : s.size = n + 1) :
      (s ++ t).bytes[n]? = some 13 ↔ s.getLast? = some '\r' := by
    have hlast : s.bytes.length - 1 = n := by rw [length_bytes, hn, Nat.add_sub_cancel]
    rw [bytes_append, List.getElem?_append_left (by rw [length_bytes, hn]; exact n.lt_succ_self),
      ← hlast, ← List.getLast?_eq_getElem?]
    exact getLast?_bytes rfl (by decide)
  constructor
  · rintro ⟨n, hn, hr, hf⟩
    exact ⟨(hreturn hn).mp hr, hfeed.mp (hn ▸ hf)⟩
  · rintro ⟨hr, hf⟩
    have hpos : 0 < s.size :=
      Nat.lt_of_lt_of_le (List.length_pos_iff.mpr fun h => by rw [h] at hr; cases hr)
        (length_le_size s)
    obtain ⟨n, hn⟩ := Nat.exists_eq_succ_of_ne_zero hpos.ne'
    have hnext := hfeed.mpr hf
    rw [hn] at hnext
    exact ⟨n, hn, (hreturn hn).mpr hr, hnext⟩

end Text

/-! ## Lines -/

namespace Text

variable {s t line : Text} {lines : List Text}

/-- The last line of a text goes on with the first one of the text behind it. -/
theorem linesBy_append (h : ¬Place.CutsLineEnd s t)
    (ht : linesBy isLineTerminator t = line :: lines) :
    linesBy isLineTerminator (s ++ t) = (linesBy isLineTerminator s).dropLast ++
      ((linesBy isLineTerminator s).getLastD [] ++ line) :: lines := by
  induction s with
  | nil => exact ht
  | cons c s ih =>
      have hs := ih fun hcut => h ⟨by rw [List.getLast?_cons, hcut.1, Option.getD_some], hcut.2⟩
      -- the character in front ends a line in both texts or in none
      have hhead : (decide (c = '\r') && decide ((s ++ t).head? = some '\n')) =
          (decide (c = '\r') && decide (s.head? = some '\n')) := by
        cases s with
        | cons d s => rfl
        | nil =>
            have hc : ¬(c = '\r' ∧ t.head? = some '\n') := by
              rintro ⟨rfl, hfeed⟩
              exact h ⟨rfl, hfeed⟩
            simpa using hc
      obtain ⟨l, ls, hlines⟩ := List.exists_cons_of_ne_nil (linesBy_ne_nil isLineTerminator s)
      rw [List.cons_append, linesBy, linesBy, hhead, hs, hlines]
      split
      · rfl
      · cases ls <;> rfl

/-- Line and column of the end of a text, as they are counted. -/
def counted (t : Text) : Nat ×ₗ Nat :=
  let lines := linesBy isLineTerminator t
  toLex (lines.length, (lines.getLastD []).length + 1)

/-- A text without line ends leads on along the line, any other one to a line behind it. -/
theorem counted_append_eq (h : ¬Place.CutsLineEnd s t)
    (ht : linesBy isLineTerminator t = line :: lines) : counted (s ++ t) =
      if lines = [] then toLex ((ofLex (counted s)).1, (ofLex (counted s)).2 + line.length)
      else toLex ((ofLex (counted s)).1 + lines.length, (lines.getLastD []).length + 1) := by
  have hs := List.length_pos_iff.mpr (linesBy_ne_nil isLineTerminator s)
  unfold counted
  rw [linesBy_append h ht]
  cases lines with
  | nil =>
      simp
      omega
  | cons l lines =>
      simp [List.getLast?_cons]
      omega

/-- A text that leads on along the line has characters on it. -/
theorem ne_nil_of_linesBy (ht : t ≠ []) (hlines : linesBy isLineTerminator t = [line]) :
    line ≠ [] := by
  rintro rfl
  obtain ⟨c, t, rfl⟩ := List.exists_cons_of_ne_nil ht
  obtain ⟨l, ls, htail⟩ := List.exists_cons_of_ne_nil (linesBy_ne_nil isLineTerminator t)
  rw [linesBy, htail] at hlines
  split at hlines <;> cases hlines

/-- Every text leads on, unless it starts in the middle of a line end. -/
theorem counted_lt (h : ¬Place.CutsLineEnd s t) (ht : t ≠ []) : counted s < counted (s ++ t) := by
  obtain ⟨line, lines, hlines⟩ :=
    List.exists_cons_of_ne_nil (linesBy_ne_nil isLineTerminator t)
  rw [counted_append_eq h hlines, Prod.Lex.lt_iff]
  cases lines with
  | nil =>
      have hpos := List.length_pos_iff.mpr (ne_nil_of_linesBy ht hlines)
      exact .inr ⟨rfl, Nat.lt_add_of_pos_right hpos⟩
  | cons l lines => exact .inl (Nat.lt_add_of_pos_right (Nat.succ_pos _))

/-- A text before a carriage return does not end in the middle of a line end. -/
theorem not_cutsLineEnd_return (s t : Text) : ¬Place.CutsLineEnd s ('\r' :: t) := by
  rintro ⟨-, h⟩
  cases h

/-- The two halves of a line end lead to one line and column. -/
theorem counted_cutsLineEnd (s : Text) :
    counted (s ++ ['\r', '\n']) = counted (s ++ ['\r']) := by
  rw [counted_append_eq (not_cutsLineEnd_return s _) rfl,
    counted_append_eq (not_cutsLineEnd_return s _) rfl]
  rfl

/-- A text that goes on leads on, unless it only completes a line end. -/
theorem counted_append (s : Text) (ht : t ≠ []) : counted s ≤ counted (s ++ t) ∧
    (counted s = counted (s ++ t) ↔ t.size = 1 ∧ Place.CutsLineEnd s t) := by
  by_cases hcut : Place.CutsLineEnd s t
  · obtain ⟨u, rfl⟩ := List.getLast?_eq_some_iff.mp hcut.1
    obtain ⟨r, rfl⟩ := List.head?_eq_some_iff.mp hcut.2
    have hsplit : u ++ ['\r'] ++ '\n' :: r = u ++ ['\r', '\n'] ++ r := by simp
    have hwhole : ¬Place.CutsLineEnd (u ++ ['\r', '\n']) r := by
      rintro ⟨h, -⟩
      rw [List.getLast?_append_of_ne_nil _ (List.cons_ne_nil _ _)] at h
      cases h
    rw [hsplit, ← counted_cutsLineEnd u, size_cons, show '\n'.utf8Size = 1 from rfl]
    by_cases hr : r = []
    · subst hr
      rw [List.append_nil]
      exact ⟨le_refl _, fun _ => ⟨rfl, hcut⟩, fun _ => rfl⟩
    · have hlt := counted_lt hwhole hr
      refine ⟨hlt.le, fun heq => absurd heq hlt.ne, fun h => absurd ?_ hr⟩
      have hsize := length_le_size r
      exact List.eq_nil_of_length_eq_zero (by omega)
  · have hlt := counted_lt hcut ht
    exact ⟨hlt.le, fun heq => absurd heq hlt.ne, fun h => absurd h.2 hcut⟩

/-! ## Positions of offsets -/

theorem takeBytes_of_size_le {n : Nat} (h : t.size ≤ n) : t.takeBytes n = t := by
  obtain ⟨k, rfl⟩ := Nat.exists_eq_add_of_le h
  have := takeBytes_size_append t [] k
  rwa [takeBytes, List.append_nil] at this

variable {o o₁ o₂ : Nat}

/-- Line and column of an offset fit into 32 bits. -/
def InRange (t : Text) (offset : Nat) : Prop :=
  (ofLex (t.takeBytes offset).counted).1 < UInt32.size ∧
    (ofLex (t.takeBytes offset).counted).2 < UInt32.size

/-- What fits is kept. -/
theorem key_positionAt (h : t.InRange o) : (t.positionAt o).key = (t.takeBytes o).counted := by
  refine toLex_inj.mpr (Prod.ext ?_ ?_)
  · exact UInt32.toNat_ofNat_of_lt' h.1
  · show (UInt32.ofNat _ + 1).toNat = _
    rw [← UInt32.ofNat_one, ← UInt32.ofNat_add]
    exact UInt32.toNat_ofNat_of_lt' h.2

/-- Offsets fit where there are not too many lines and none of them is too long. -/
theorem inRange_of_lines (hlines : (linesBy isLineTerminator t).length < UInt32.size)
    (hcolumns : ∀ line ∈ linesBy isLineTerminator t, line.length + 1 < UInt32.size)
    (ho : t.IsBoundary o) : t.InRange o := by
  obtain ⟨s, ⟨r, rfl⟩, rfl⟩ := ho
  rw [InRange, takeBytes_size]
  obtain rfl | hr := eq_or_ne r []
  · rw [List.append_nil] at hlines hcolumns
    refine ⟨hlines, hcolumns _ ?_⟩
    rw [List.getLastD_eq_getLast?, List.getLast?_eq_some_getLast (linesBy_ne_nil _ s)]
    exact List.getLast_mem _
  · refine ⟨?_, ?_⟩
    · obtain hlt | ⟨heq, -⟩ := Prod.Lex.le_iff.mp (counted_append s hr).1
      · exact hlt.trans hlines
      · exact heq.trans_lt hlines
    · by_cases hcut : Place.CutsLineEnd s r
      · obtain ⟨u, rfl⟩ := List.getLast?_eq_some_iff.mp hcut.1
        rw [counted_append_eq (not_cutsLineEnd_return u []) rfl]
        exact show 1 < UInt32.size by decide
      · obtain ⟨line, lines, hsplit⟩ :=
          List.exists_cons_of_ne_nil (linesBy_ne_nil isLineTerminator r)
        rw [linesBy_append hcut hsplit] at hcolumns
        have hlong := hcolumns _ (List.mem_append_right _ List.mem_cons_self)
        rw [List.length_append] at hlong
        show ((linesBy isLineTerminator s).getLastD []).length + 1 < _
        omega

/-- The earlier of two boundaries is one in the text before the later. -/
theorem IsBoundary.exists_split (h₁ : t.IsBoundary o₁) (h₂ : t.IsBoundary o₂) (hlt : o₁ < o₂) :
    ∃ before between rest : Text, between ≠ [] ∧ t = before ++ (between ++ rest) ∧
      before.size = o₁ ∧ before.size + between.size = o₂ := by
  obtain ⟨s, hs, rfl⟩ := h₁
  obtain ⟨s', hs', rfl⟩ := h₂
  have hprefix : s <+: s' := by
    obtain h | ⟨u, rfl⟩ := List.prefix_or_prefix_of_prefix hs hs'
    · exact h
    · rw [size_append] at hlt
      omega
  obtain ⟨between, rfl⟩ := hprefix
  obtain ⟨rest, rfl⟩ := hs'
  refine ⟨s, between, rest, ?_, List.append_assoc .., rfl, (size_append ..).symm⟩
  rintro rfl
  simp at hlt

theorem IsBoundary.key_le (h₁ : t.IsBoundary o₁) (h₂ : t.IsBoundary o₂) (hr₁ : t.InRange o₁)
    (hr₂ : t.InRange o₂) (hlt : o₁ < o₂) :
    (t.positionAt o₁).key ≤ (t.positionAt o₂).key ∧
      (t.positionAt o₁ = t.positionAt o₂ ↔ o₂ = o₁ + 1 ∧ t.HalvesLineEnd o₁) := by
  rw [← Position.key_inj, key_positionAt hr₁, key_positionAt hr₂]
  obtain ⟨before, between, rest, hne, rfl, rfl, rfl⟩ := h₁.exists_split h₂ hlt
  have htake : (before ++ (between ++ rest)).takeBytes (before.size + between.size) =
      before ++ between := by
    rw [← List.append_assoc, ← size_append, takeBytes_size]
  have hcut : Place.CutsLineEnd before (between ++ rest) ↔ Place.CutsLineEnd before between := by
    rw [Place.CutsLineEnd, Place.CutsLineEnd, List.head?_append_of_ne_nil _ hne]
  rw [takeBytes_size, htake, halvesLineEnd_iff, hcut, Nat.add_left_cancel_iff]
  exact counted_append before hne

/-- A line and a column are those of one boundary, or of the two around the second half of a line
end. -/
theorem IsBoundary.identified (h₁ : t.IsBoundary o₁) (h₂ : t.IsBoundary o₂) (hr₁ : t.InRange o₁)
    (hr₂ : t.InRange o₂) (heq : t.positionAt o₁ = t.positionAt o₂) :
    o₁ = o₂ ∨ (o₂ = o₁ + 1 ∧ t.HalvesLineEnd o₁) ∨ (o₁ = o₂ + 1 ∧ t.HalvesLineEnd o₂) := by
  obtain hlt | rfl | hlt := Nat.lt_trichotomy o₁ o₂
  · exact .inr (.inl ((h₁.key_le h₂ hr₁ hr₂ hlt).2.mp heq))
  · exact .inl rfl
  · exact .inr (.inr ((h₂.key_le h₁ hr₂ hr₁ hlt).2.mp heq.symm))

end Text

/-- The positions of two boundaries are ordered as the boundaries are, where the lines and columns
fit into 32 bits.  They are equal only if one of the boundaries cuts a line end in two and the other
stands behind it, so that a line and a column are those of one place otherwise.  An offset past the
end has the position of the end. -/
theorem position_ordered (source : Source) {o₁ o₂ : Nat} (h₁ : source.content.IsBoundary o₁)
    (h₂ : source.content.IsBoundary o₂) (hr₁ : source.content.InRange o₁)
    (hr₂ : source.content.InRange o₂) :
    (o₁ < o₂ →
      (source.position o₁).key ≤ (source.position o₂).key ∧
        (source.position o₁ = source.position o₂ ↔
          o₂ = o₁ + 1 ∧ source.content.HalvesLineEnd o₁)) ∧
      (source.position o₁ = source.position o₂ →
        o₁ = o₂ ∨ (o₂ = o₁ + 1 ∧ source.content.HalvesLineEnd o₁) ∨
          (o₁ = o₂ + 1 ∧ source.content.HalvesLineEnd o₂)) ∧
      ∀ o, source.content.size ≤ o → source.position o = source.position source.content.size := by
  refine ⟨h₁.key_le h₂ hr₁ hr₂, h₁.identified h₂ hr₁ hr₂, fun o ho => ?_⟩
  unfold Source.position Text.positionAt
  rw [Text.takeBytes_of_size_le ho, Text.takeBytes_of_size_le (Nat.le_refl _)]

theorem position_ordered_lineEnd :
    let source := Source.anonymous "é\r\nb".toList
    (source.position 3).key ≤ (source.position 4).key ∧ source.position 3 = source.position 4 ∧
      source.position 9 = source.position 5 := by
  intro source
  have hhalf : source.content.IsBoundary 3 := ⟨"é\r".toList, by decide, by decide⟩
  have hwhole : source.content.IsBoundary 4 := ⟨"é\r\n".toList, by decide, by decide⟩
  have hrange {o : Nat} : source.content.IsBoundary o → source.content.InRange o :=
    Text.inRange_of_lines (by decide) (by decide)
  obtain ⟨hordered, -, hend⟩ := position_ordered source hhalf hwhole (hrange hhalf) (hrange hwhole)
  obtain ⟨hle, heq⟩ := hordered (by decide)
  exact ⟨hle, heq.mpr ⟨rfl, 2, rfl, by decide, by decide⟩, hend 9 (by decide)⟩

/-! ## Columns that do not fit -/

namespace Text

theorem size_replicate_a (n : Nat) : size (List.replicate n 'a') = n := by
  induction n with
  | zero => rfl
  | succ n ih =>
      rw [List.replicate_succ, size_cons, ih, show 'a'.utf8Size = 1 from rfl, Nat.add_comm]

theorem linesBy_replicate_a (n : Nat) :
    linesBy isLineTerminator (List.replicate n 'a') = [List.replicate n 'a'] := by
  induction n with
  | zero => rfl
  | succ n ih =>
      have ha : isLineTerminator 'a' = false := by decide
      rw [List.replicate_succ, linesBy, ha, Bool.false_and, if_neg Bool.false_ne_true, ih]

/-- On a line of its own each letter has the next column. -/
theorem positionAt_replicate_a {k n : Nat} (h : k ≤ n) :
    IsBoundary (List.replicate n 'a') k ∧
      positionAt (List.replicate n 'a') k = ⟨1, .ofNat k + 1⟩ := by
  obtain ⟨m, rfl⟩ := Nat.exists_eq_add_of_le h
  rw [List.replicate_add]
  refine ⟨⟨_, List.prefix_append _ _, size_replicate_a k⟩, ?_⟩
  have htake := takeBytes_size (List.replicate k 'a') (List.replicate m 'a')
  rw [size_replicate_a] at htake
  rw [positionAt, htake, linesBy_replicate_a]
  show Position.mk _ (.ofNat (List.replicate k 'a').length + 1) = _
  rw [List.length_replicate]
  rfl

end Text

/-- After `2 ^ 32` letters the column is one again.  This is less than the column of the second
letter, and it is that of the first. -/
theorem position_ordered_fails :
    let source := Source.anonymous (List.replicate UInt32.size 'a')
    source.content.IsBoundary 0 ∧ source.content.IsBoundary 1 ∧
      source.content.IsBoundary UInt32.size ∧
      ¬(source.position 1).key ≤ (source.position UInt32.size).key ∧
      source.position 0 = source.position UInt32.size := by
  intro source
  have h (k : Nat) (hk : k ≤ UInt32.size) : source.content.IsBoundary k ∧
      source.position k = ⟨1, .ofNat k + 1⟩ := Text.positionAt_replicate_a hk
  obtain ⟨hstart, hfirst⟩ := h 0 (Nat.zero_le _)
  obtain ⟨hnext, hsecond⟩ := h 1 (by decide)
  obtain ⟨hend, hlast⟩ := h UInt32.size (le_refl _)
  refine ⟨hstart, hnext, hend, ?_, ?_⟩
  · rw [hsecond, hlast]
    decide
  · rw [hfirst, hlast]
    decide

end EcmaSyntax
