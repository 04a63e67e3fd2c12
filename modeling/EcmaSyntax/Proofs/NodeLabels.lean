import EcmaSyntax.Proofs.WellFormed

/-!
# Labels of nodes

**Texts.**  A text is solid if there is no white space in it, and trimmed if it stays on one line
and does not end in white space.  A label is a trimmed text that starts with something other than a
space.

**Parts.**  Names, numbers and operators are solid.  A quoted text escapes its line feeds and ends
with its quote, a pattern stays on its line because that is how the scanner reads it.

**Result.**  `Node.WellFormed.isLabel`: each well-formed node has such a label.
-/

namespace EcmaSyntax

namespace Text

variable {s t : Text} {c : Char}

/-- There is no white space in a text. -/
def isSolid (t : Text) : Bool := t.all (!isWhiteSpace ·)

/-- A text stays on one line, and it does not end in white space. -/
structure IsTrimmed (t : Text) : Prop where
  line : '\n' ∉ t
  last : ∀ c ∈ t.getLast?, isWhiteSpace c = false

/-- A trimmed text that starts with something other than a space. -/
structure IsLabel (t : Text) : Prop extends IsTrimmed t where
  first : ∃ c ∈ t.head?, c ≠ ' '

theorem isSolid_iff : t.isSolid ↔ ∀ c ∈ t, isWhiteSpace c = false := by
  simp [isSolid]

theorem isSolid_append (hs : s.isSolid) (ht : t.isSolid) : (s ++ t).isSolid := by
  rw [isSolid, List.all_append, Bool.and_eq_true]
  exact ⟨hs, ht⟩

theorem isSolid_cons (hc : isWhiteSpace c = false) (ht : t.isSolid) : isSolid (c :: t) := by
  rw [isSolid, List.all_cons, hc]
  exact ht

theorem lineFeed_notMem_of_isSolid (h : t.isSolid) : '\n' ∉ t := by
  intro hmem
  have := isSolid_iff.mp h '\n' hmem
  exact absurd this (by decide)

theorem isTrimmed_of_isSolid (h : t.isSolid) : t.IsTrimmed :=
  ⟨lineFeed_notMem_of_isSolid h, fun c hc => isSolid_iff.mp h c (List.mem_of_getLast? hc)⟩

theorem lineFeed_notMem_append (hs : '\n' ∉ s) (ht : '\n' ∉ t) : '\n' ∉ s ++ t :=
  fun hmem => (List.mem_append.mp hmem).elim hs ht

theorem isTrimmed_nil : IsTrimmed [] := isTrimmed_of_isSolid rfl

/-- Only the end of a text matters, as long as no line ends before. -/
theorem IsTrimmed.append (hs : '\n' ∉ s) (ht : t.IsTrimmed) (hne : t ≠ []) :
    (s ++ t).IsTrimmed := by
  refine ⟨lineFeed_notMem_append hs ht.line, fun c hc => ?_⟩
  rw [List.getLast?_append] at hc
  cases hlast : t.getLast? with
  | none => exact absurd (List.getLast?_eq_none_iff.mp hlast) hne
  | some d =>
      rw [hlast] at hc
      exact ht.last c (hlast ▸ hc)

theorem isTrimmed_concat (hs : '\n' ∉ s) (hc : isWhiteSpace c = false) : (s ++ [c]).IsTrimmed :=
  .append hs (isTrimmed_of_isSolid (isSolid_cons hc rfl)) (List.cons_ne_nil _ _)

/-! ## Names -/

/-- White space is a control character, a space or no ASCII character. -/
theorem isWhiteSpace_bounds (h : isWhiteSpace c) : c.toNat ≤ 32 ∨ 128 ≤ c.toNat := by
  simp only [isWhiteSpace, Bool.or_eq_true, Bool.and_eq_true, decide_eq_true_eq, Char.le_def,
    UInt32.le_iff_toNat_le] at h
  have hvalue : c.val.toNat = c.toNat := rfl
  have hlow : '\u2000'.val.toNat = 0x2000 := rfl
  have hhigh : '\r'.val.toNat = 13 := rfl
  rw [hvalue, hlow, hhigh] at h
  rcases h with ((((((((((h | rfl) | rfl) | rfl) | rfl) | h) | rfl) | rfl) | rfl) | rfl) | rfl)
  all_goals first | decide | omega

theorem isWhiteSpace_of_isIdentifierPart (h : isIdentifierPart c) : isWhiteSpace c = false := by
  refine Bool.eq_false_iff.mpr fun hw => ?_
  have hc := isWhiteSpace_bounds hw
  rw [isIdentifierPart_iff, isIdentifierStart_iff] at h
  obtain (h | rfl | rfl) | h := h
  · omega
  · exact absurd hc (by decide)
  · exact absurd hc (by decide)
  · omega

theorem isSolid_of_isIdentifierPart (h : ∀ c ∈ t, isIdentifierPart c) : t.isSolid :=
  isSolid_iff.mpr fun c hc => isWhiteSpace_of_isIdentifierPart (h c hc)

theorem isSolid_of_isIdentifierName (h : isIdentifierName t) : t.isSolid ∧ t ≠ [] := by
  obtain ⟨hhead, hall⟩ := (Bool.and_eq_true ..).mp h
  refine ⟨isSolid_of_isIdentifierPart (List.all_eq_true.mp hall), ?_⟩
  rintro rfl
  cases hhead

theorem isSolid_of_isBindingName (h : isBindingName t) : t.isSolid :=
  (isSolid_of_isIdentifierName (isBindingName_iff.mp h).1).1

/-! ## Numbers -/

theorem isWhiteSpace_digitChar (n : Nat) : isWhiteSpace n.digitChar = false := by
  obtain hlt | hge := Nat.lt_or_ge n 16
  · have hall : ∀ k < 16, isWhiteSpace (Nat.digitChar k) = false := by decide
    exact hall n hlt
  · have hstar : n.digitChar = '*' := by
      unfold Nat.digitChar
      simp (disch := omega) only [if_neg]
    rw [hstar]
    decide

theorem isSolid_toDigits {base : Nat} (hbase : 1 < base) (n : Nat) :
    isSolid (Nat.toDigits base n) := by
  induction n using Nat.strongRecOn with
  | ind n ih =>
      rw [Nat.toDigits_eq_if hbase]
      split
      · exact isSolid_cons (isWhiteSpace_digitChar n) rfl
      · next hle =>
          have hlt : n / base < n := Nat.div_lt_self (by omega) hbase
          exact isSolid_append (ih _ hlt) (isSolid_cons (isWhiteSpace_digitChar _) rfl)

theorem isSolid_fill (n : Nat) (hc : isWhiteSpace c = false) : (fill n c).isSolid :=
  isSolid_iff.mpr fun d hd => by rw [List.eq_of_mem_replicate hd, hc]

theorem isSolid_take (n : Nat) (h : t.isSolid) : isSolid (t.take n) :=
  isSolid_iff.mpr fun c hc => isSolid_iff.mp h c (List.mem_of_mem_take hc)

theorem isSolid_drop (n : Nat) (h : t.isSolid) : isSolid (t.drop n) :=
  isSolid_iff.mpr fun c hc => isSolid_iff.mp h c (List.mem_of_mem_drop hc)

end Text

open Text

theorem Decimal.isSolid_text (d : Decimal) : d.text.isSolid ∧ d.text ≠ [] := by
  have hdigits : (ofNat d.digits).isSolid := isSolid_toDigits (by decide) _
  unfold Decimal.text
  dsimp only
  split
  · refine ⟨isSolid_append hdigits (isSolid_fill _ (by decide)), fun h => ?_⟩
    exact Nat.toDigits_ne_nil (List.append_eq_nil_iff.mp h).1
  · refine ⟨isSolid_append (isSolid_take _ ?_) (isSolid_cons (by decide) (isSolid_drop _ ?_)),
      List.append_ne_nil_of_right_ne_nil _ (List.cons_ne_nil _ _)⟩
    · exact isSolid_append (isSolid_fill _ (by decide)) hdigits
    · exact isSolid_append (isSolid_fill _ (by decide)) hdigits

theorem Binary64.isSolid_text (v : Binary64) : v.text.isSolid ∧ v.text ≠ [] := by
  cases v with
  | finite negative m e =>
      have hsign : isSolid (if negative then ['-'] else []) := by cases negative <;> rfl
      unfold Binary64.text
      dsimp only
      by_cases hm : m = 0
      · rw [if_pos hm]
        exact ⟨isSolid_append hsign rfl,
          List.append_ne_nil_of_right_ne_nil _ (List.cons_ne_nil _ _)⟩
      · rw [if_neg hm]
        obtain ⟨hsolid, hne⟩ := (shortest m e).isSolid_text
        exact ⟨isSolid_append hsign hsolid, List.append_ne_nil_of_right_ne_nil _ hne⟩
  | infinite negative => cases negative <;> exact ⟨rfl, by decide⟩
  | nan => exact ⟨rfl, by decide⟩

/-! ## Quoted texts -/

namespace Text

theorem lineFeed_notMem_quoteChar (c : Char) : '\n' ∉ quoteChar c := by
  unfold quoteChar
  split
  case h_7 hfeed _ _ _ =>
    split
    · have hdigits := lineFeed_notMem_of_isSolid (isSolid_toDigits (by decide : 1 < 16) c.toNat)
      simp [codePointEscape, hdigits]
    · intro hmem
      exact hfeed (List.mem_singleton.mp hmem).symm
  all_goals decide

theorem isTrimmed_quote (t : Text) : t.quote.IsTrimmed := by
  refine isTrimmed_concat (fun hmem => ?_) (by decide)
  obtain hmem | hmem := List.mem_cons.mp hmem
  · exact absurd hmem (by decide)
  · obtain ⟨c, -, hc⟩ := List.mem_flatMap.mp hmem
    exact lineFeed_notMem_quoteChar c hc

theorem quote_ne_nil (t : Text) : t.quote ≠ [] := List.cons_ne_nil _ _

end Text

/-! ## Details -/

theorem PropertyKey.WellFormed.isTrimmed {key : PropertyKey} (h : key.WellFormed) :
    key.text.IsTrimmed ∧ key.text ≠ [] := by
  cases key with
  | identifier name =>
      obtain ⟨hsolid, hne⟩ := isSolid_of_isIdentifierName h
      exact ⟨isTrimmed_of_isSolid hsolid, hne⟩
  | string value => exact ⟨isTrimmed_quote value, quote_ne_nil value⟩
  | number value =>
      obtain ⟨hsolid, hne⟩ := value.isSolid_text
      exact ⟨isTrimmed_of_isSolid hsolid, hne⟩

theorem lineFeed_notMem_intercalate {separator : Text} {ts : List Text} (hs : '\n' ∉ separator)
    (hts : ∀ t ∈ ts, '\n' ∉ t) : '\n' ∉ separator.intercalate ts := by
  induction ts with
  | nil => exact nofun
  | cons t ts ih =>
      obtain ⟨ht, hts⟩ := List.forall_mem_cons.mp hts
      cases ts with
      | nil => simpa using ht
      | cons u ts =>
          rw [List.intercalate_cons_cons]
          simp only [List.mem_append, not_or]
          exact ⟨⟨ht, hs⟩, ih hts⟩

theorem Function.WellFormed.isTrimmed {f : Function} (h : f.WellFormed) :
    f.signature.IsTrimmed := by
  obtain ⟨hname, hparams⟩ := h
  have hnamed : '\n' ∉ f.name.getD "<anonymous>".toList := by
    cases hf : f.name with
    | none => decide
    | some name => exact lineFeed_notMem_of_isSolid (isSolid_of_isBindingName (hname name hf))
  have hlist : '\n' ∉ (", ".toList).intercalate f.params :=
    lineFeed_notMem_intercalate (by decide) fun p hp =>
      lineFeed_notMem_of_isSolid (isSolid_of_isBindingName (hparams p hp))
  refine isTrimmed_concat (lineFeed_notMem_append hnamed fun hmem => ?_) (by decide)
  obtain hmem | hmem := List.mem_cons.mp hmem
  · exact absurd hmem (by decide)
  · exact hlist hmem

theorem Expression.WellFormed.isTrimmed {e : Expression} (h : e.WellFormed) :
    e.detail.IsTrimmed := by
  cases e with
  | identifier name => exact isTrimmed_of_isSolid (isSolid_of_isBindingName h)
  | boolean value => cases value <;> exact isTrimmed_of_isSolid rfl
  | number value => exact isTrimmed_of_isSolid value.isSolid_text.1
  | string value => exact isTrimmed_quote value
  | regex pattern flags =>
      obtain ⟨-, hpattern, hflags⟩ := h
      have hline : '\n' ∉ '/' :: pattern := by
        intro hmem
        obtain hmem | hmem := List.mem_cons.mp hmem
        · exact absurd hmem (by decide)
        · exact absurd (hpattern '\n' hmem) (by decide)
      have hsolid : isSolid ('/' :: flags) :=
        isSolid_cons (by decide) (isSolid_of_isIdentifierPart hflags)
      exact .append hline (isTrimmed_of_isSolid hsolid) (List.cons_ne_nil _ _)
  | function f => exact Function.WellFormed.isTrimmed h
  | unary op _ isPostfix =>
      have hop : op.text.isSolid := by cases op <;> rfl
      cases isPostfix with
      | false => exact isTrimmed_of_isSolid (isSolid_append hop rfl)
      | true =>
          refine .append (lineFeed_notMem_of_isSolid hop) ⟨by decide, ?_⟩ (by decide)
          intro c hc
          cases hc
          decide
  | binary _ op _ => cases op <;> exact isTrimmed_of_isSolid rfl
  | logical _ op _ => cases op <;> exact isTrimmed_of_isSolid rfl
  | assign _ op _ => cases op <;> exact isTrimmed_of_isSolid rfl
  | dot _ property =>
      exact isTrimmed_of_isSolid (isSolid_cons (by decide) (isSolid_of_isIdentifierName h).1)
  | _ => exact isTrimmed_nil

/-- The label that a jump leads to, or nothing. -/
theorem isTrimmed_getD {label : Option Text} (h : ∀ name ∈ label, isBindingName name) :
    (label.getD []).IsTrimmed := by
  cases label with
  | none => exact isTrimmed_nil
  | some name => exact isTrimmed_of_isSolid (isSolid_of_isBindingName (h name rfl))

theorem Statement.WellFormed.isTrimmed {s : Statement} (h : s.WellFormed) :
    s.detail.IsTrimmed := by
  cases s with
  | continueTo label => exact isTrimmed_getD h
  | breakTo label => exact isTrimmed_getD h
  | labelled label _ => exact isTrimmed_of_isSolid (isSolid_of_isBindingName h.1)
  | function f => exact Function.WellFormed.isTrimmed h.2
  | comment c =>
      have hkind : '\n' ∉ c.kind.name ++ [' '] := by cases c.kind <;> decide
      have hdetail : c.kind.name ++ ' ' :: c.text.quote = c.kind.name ++ [' '] ++ c.text.quote := by
        rw [List.append_assoc]
        rfl
      show IsTrimmed (c.kind.name ++ ' ' :: c.text.quote)
      rw [hdetail]
      exact .append hkind (isTrimmed_quote c.text) (quote_ne_nil c.text)
  | _ => exact isTrimmed_nil

theorem Property.WellFormed.isTrimmed {p : Property} (h : p.WellFormed) :
    (Node.property p).detail.IsTrimmed := by
  cases p with
  | init key value => exact (PropertyKey.WellFormed.isTrimmed h).1
  | getter key body =>
      obtain ⟨hkey, hne⟩ := PropertyKey.WellFormed.isTrimmed h
      exact .append (by decide) hkey hne
  | setter key param body =>
      obtain ⟨hkey, hparam⟩ := h
      refine isTrimmed_concat (lineFeed_notMem_append
        (lineFeed_notMem_append (by decide) hkey.isTrimmed.1.line) ?_) (by decide)
      exact lineFeed_notMem_of_isSolid
        (isSolid_cons (by decide) (isSolid_of_isBindingName hparam))

theorem Node.WellFormed.isTrimmed {n : Node} (h : n.WellFormed) : n.detail.IsTrimmed := by
  cases n with
  | program p => exact isTrimmed_nil
  | statement s => exact Statement.WellFormed.isTrimmed h
  | expression e => exact Expression.WellFormed.isTrimmed h
  | elision => exact isTrimmed_nil
  | property p => exact Property.WellFormed.isTrimmed h
  | declarator d => exact isTrimmed_of_isSolid (isSolid_of_isBindingName h)
  | clause c =>
      show IsTrimmed (if c.test.isSome then "case".toList else "default".toList)
      split <;> exact isTrimmed_of_isSolid rfl
  | handler c => exact isTrimmed_of_isSolid (isSolid_of_isBindingName h)

/-! ## Labels -/

/-- The name of a kind is one word. -/
theorem NodeKind.isSolid_name (k : NodeKind) : k.name.isSolid ∧ k.name ≠ [] := by
  cases k <;> exact ⟨rfl, by decide⟩

/-- Each well-formed node has a label that stays on its line, with nothing to be trimmed. -/
theorem Node.WellFormed.isLabel {n : Node} (h : n.WellFormed) : n.label.IsLabel := by
  obtain ⟨hsolid, hne⟩ := n.kind.isSolid_name
  obtain ⟨c, t, hname⟩ := List.exists_cons_of_ne_nil hne
  have hc : c ≠ ' ' := by
    rintro rfl
    have := isSolid_iff.mp hsolid ' ' (hname ▸ List.mem_cons_self)
    exact absurd this (by decide)
  unfold Node.label
  by_cases hdetail : n.detail = []
  · rw [if_pos hdetail]
    exact ⟨isTrimmed_of_isSolid hsolid, c, by rw [hname]; rfl, hc⟩
  · rw [if_neg hdetail]
    have hline : '\n' ∉ n.kind.name ++ [' '] :=
      lineFeed_notMem_append (lineFeed_notMem_of_isSolid hsolid) (by decide)
    refine ⟨?_, c, by rw [hname]; rfl, hc⟩
    have htrimmed := IsTrimmed.append hline h.isTrimmed hdetail
    rwa [List.append_assoc] at htrimmed

end EcmaSyntax
