import EcmaSyntax.Proofs.Turns
import EcmaSyntax.Proofs.Variants
import Mathlib.Data.List.Chain

/-!
# Elements of an array literal

**Parts.**  Between the brackets of an array literal there are commas and expressions.  An
expression is as long as the rule for assignments reads it, and no such expression starts with a
comma or a closing bracket.  So a parser that stands behind the opening bracket sees one sequence of
parts and no other.

**Elements.**  The commas cut the parts into segments, of which the last one does not count if it is
empty.  An empty segment is a hole, any other one is an expression.  The loop of the parser goes
through the parts differently: a comma is a hole at the beginning of a turn, and it only separates
behind an expression.

**Results.**
* `Elided.iff_spaced`: the loop has a way through the parts if and only if no two expressions are
  next to each other, and then it finds the elements that the segments give.
* `itemsUntil_ok`, `run_itemsUntil`: what the loop reads is such a row of parts, and it reads each
  one.
* `array_elisions`: an array literal is read if and only if no two expressions are next to each
  other, with an element for each comma and one for an expression at the end.
-/

namespace EcmaSyntax
namespace Parser

/-! ## Parts -/

/-- What stands between the brackets of an array literal. -/
inductive ArrayPart where
  | comma
  | expression (e : Expression)

namespace ArrayPart

variable {w : List ArrayPart} {e : Expression} {es : List (Option Expression)}

/-- Whether a part is a comma. -/
def isComma : ArrayPart → Bool
  | comma => true
  | expression _ => false

theorem isComma_comma : comma.isComma := rfl

theorem not_isComma_expression (e : Expression) : ¬(expression e).isComma := Bool.false_ne_true

/-- The expression that a part is, if it is one. -/
def expression? : ArrayPart → Option Expression
  | comma => none
  | expression e => some e

/-- No two expressions are next to each other. -/
def Spaced (w : List ArrayPart) : Prop := w.IsChain fun a b => a.isComma ∨ b.isComma

/-- The parts between the commas, without an empty segment at the end. -/
def segments (w : List ArrayPart) : List (List ArrayPart) :=
  let all := w.splitOnP isComma
  if (all.getLastD []).isEmpty then all.dropLast else all

/-- The elements that the segments give: a hole for an empty one, its expression for another. -/
def elements (w : List ArrayPart) : List (Option Expression) :=
  (segments w).map fun segment => segment.head?.bind expression?

/-- How a loop goes through the parts: a comma is a hole at the beginning of a turn, and it belongs
to the expression before it otherwise. -/
inductive Elided : List ArrayPart → List (Option Expression) → Prop
  | done : Elided [] []
  | hole {w : List ArrayPart} {es : List (Option Expression)} :
      Elided w es → Elided (comma :: w) (none :: es)
  | last {e : Expression} : Elided [expression e] [some e]
  | separated {e : Expression} {w : List ArrayPart} {es : List (Option Expression)} :
      Elided w es → Elided (expression e :: comma :: w) (some e :: es)

/-! ## Segments -/

/-- A segment in front of the others is never the one that does not count. -/
theorem segments_of_splitOnP {w' first : List ArrayPart}
    (h : w'.splitOnP isComma = first :: w.splitOnP isComma) :
    segments w' = first :: segments w := by
  obtain ⟨segment, more, hw⟩ := List.exists_cons_of_ne_nil (List.splitOnP_ne_nil isComma w)
  unfold segments
  rw [h, hw]
  simp only [List.getLastD_cons, List.dropLast_cons_cons]
  split <;> rfl

theorem segments_comma (w : List ArrayPart) : segments (comma :: w) = [] :: segments w := by
  refine segments_of_splitOnP ?_
  rw [List.splitOnP_cons_eq_if_modifyHead, if_pos isComma_comma]

theorem segments_separated (e : Expression) (w : List ArrayPart) :
    segments (expression e :: comma :: w) = [expression e] :: segments w := by
  refine segments_of_splitOnP ?_
  rw [List.splitOnP_cons_eq_if_modifyHead, if_neg (not_isComma_expression e),
    List.splitOnP_cons_eq_if_modifyHead, if_pos isComma_comma]
  rfl

theorem segments_nil : segments [] = [] := by
  unfold segments
  rw [List.splitOnP_nil]
  rfl

theorem segments_last (e : Expression) : segments [expression e] = [[expression e]] := by
  unfold segments
  rw [List.splitOnP_cons_eq_if_modifyHead, if_neg (not_isComma_expression e), List.splitOnP_nil]
  rfl

/-! ## The two views -/

theorem Elided.eq_elements (h : Elided w es) : es = elements w := by
  induction h with
  | done => rw [elements, segments_nil, List.map_nil]
  | hole _ ih =>
      rw [elements, segments_comma, List.map_cons, ih]
      rfl
  | last =>
      rw [elements, segments_last]
      rfl
  | separated _ ih =>
      rw [elements, segments_separated, List.map_cons, ih]
      rfl

theorem Elided.spaced (h : Elided w es) : Spaced w := by
  induction h with
  | done => exact .nil
  | @hole w _ _ ih =>
      cases w with
      | nil => exact .singleton _
      | cons part w => exact List.isChain_cons_cons.mpr ⟨.inl rfl, ih⟩
  | last => exact .singleton _
  | @separated e w _ _ ih =>
      refine List.isChain_cons_cons.mpr ⟨.inr rfl, ?_⟩
      cases w with
      | nil => exact .singleton _
      | cons part w => exact List.isChain_cons_cons.mpr ⟨.inl rfl, ih⟩

/-- A loop has a way through parts that are spaced, also behind an expression if they are spaced
together with it. -/
theorem Spaced.exists_elided (w : List ArrayPart) : (Spaced w → ∃ es, Elided w es) ∧
    ∀ e, Spaced (expression e :: w) → ∃ es, Elided (expression e :: w) es := by
  induction w with
  | nil => exact ⟨fun _ => ⟨_, .done⟩, fun e _ => ⟨_, .last⟩⟩
  | cons part w ih =>
      cases part with
      | comma =>
          have hw : Spaced (comma :: w) → ∃ es, Elided w es := fun h => ih.1 h.tail
          refine ⟨fun h => ?_, fun e h => ?_⟩
          · obtain ⟨es, hes⟩ := hw h
            exact ⟨_, .hole hes⟩
          · obtain ⟨es, hes⟩ := hw h.tail
            exact ⟨_, .separated hes⟩
      | expression e' =>
          refine ⟨ih.2 e', fun e h => ?_⟩
          obtain h | h := (List.isChain_cons_cons.mp h).1 <;> cases h

/-- The loop and the segments give the same elements, if no two expressions are next to each
other. -/
theorem Elided.iff_spaced : Elided w es ↔ Spaced w ∧ es = elements w := by
  refine ⟨fun h => ⟨h.spaced, h.eq_elements⟩, ?_⟩
  rintro ⟨h, heq⟩
  obtain ⟨es', hes'⟩ := (Spaced.exists_elided w).1 h
  rw [heq, ← hes'.eq_elements]
  exact hes'

/-- There is an element for each comma and one for an expression at the end. -/
theorem Elided.length_eq (h : Elided w es) :
    es.length = w.countP isComma + if w.getLast?.any (!·.isComma) then 1 else 0 := by
  induction h with
  | done => rfl
  | @hole w es _ ih =>
      rw [List.length_cons, ih, List.countP_cons_of_pos isComma_comma]
      cases w with
      | nil => rfl
      | cons part w =>
          rw [List.getLast?_cons_cons]
          omega
  | last => rfl
  | @separated e w es _ ih =>
      rw [List.length_cons, ih, List.countP_cons_of_neg (not_isComma_expression e),
        List.countP_cons_of_pos isComma_comma,
        List.getLast?_cons_cons]
      cases w with
      | nil => rfl
      | cons part w =>
          rw [List.getLast?_cons_cons]
          omega

example (e e' : Expression) :
    elements [.expression e, .comma, .comma, .expression e', .comma, .comma] =
      [some e, none, some e', none] := rfl

theorem Spaced.elided (h : Spaced w) : Elided w (elements w) := Elided.iff_spaced.mpr ⟨h, rfl⟩

end ArrayPart

/-! ## Rows of parts -/

/-- A parser reads some parts, one after the other, and each expression as its rule reads it. -/
inductive Row (inner : Inner) : ParserState → List ArrayPart → ParserState → Prop
  | done {s : ParserState} : Row inner s [] s
  | comma {s s₁ s' : ParserState} {t : Token} {w : List ArrayPart} : s.current.kind = .comma →
      take.run s = .ok t s₁ → Row inner s₁ w s' → Row inner s (.comma :: w) s'
  | expression {s s₁ s' : ParserState} {e : Expression} {w : List ArrayPart} :
      (inner (.assignment .normal)).run s = .ok e s₁ → Row inner s₁ w s' →
      Row inner s (.expression e :: w) s'

/-- A parser reads some parts and the closing bracket behind them. -/
def Bracketed (inner : Inner) (s : ParserState) (w : List ArrayPart) (s' : ParserState) : Prop :=
  ∃ s₁ t, Row inner s w s₁ ∧ (expect .closeBracket).run s₁ = .ok t s'

/-- A comma and a closing bracket start no expression. -/
def Separates (inner : Inner) : Prop := ∀ s e s', (inner (.assignment .normal)).run s = .ok e s' →
  s.current.kind ≠ .comma ∧ s.current.kind ≠ .closeBracket

theorem separates_rule (turns room : Nat) : Separates (rule turns room) := by
  intro s e s' h
  cases room with
  | zero => cases h
  | succ room =>
      rw [run_assignment_succ] at h
      obtain ⟨s₁, hbody, -⟩ := run_deepen_ok.mp h
      have hrefused : ∀ k, s.current.kind = k → k = .comma ∨ k = .closeBracket → False := by
        intro k hk hor
        unfold assignment leftHandSide chainHead primary at hbody
        obtain rfl | rfl := hor <;> simp [EStateM.run_bind, hk, TokenKind.isPrefixOperator,
          TokenKind.prefixOperator?] at hbody
      exact ⟨fun hk => hrefused _ hk (.inl rfl), fun hk => hrefused _ hk (.inr rfl)⟩

section Rows

variable {inner : Inner} {turns : Nat} {s s₁ s₂ s' : ParserState} {w w' : List ArrayPart}
  {es : List (Option Expression)} {o : Option Expression}

theorem expect_ok {k : TokenKind} {t : Token} :
    (expect k).run s = .ok t s' ↔ s.current.kind = k ∧ take.run s = .ok t s' := by
  unfold expect
  rw [EStateM.run_bind, run_isAt]
  by_cases hk : s.current.kind = k
  · simp only [hk, decide_true, if_true, true_and]
  · simp only [hk, decide_false, Bool.false_eq_true, if_false, false_and, run_unexpected]
    refine ⟨fun h => ?_, False.elim⟩
    cases h

/-- There is one row of parts up to a closing bracket. -/
theorem Row.unique (hinner : Separates inner) (h : Row inner s w s₁) (h' : Row inner s w' s₂)
    (hclose : s₁.current.kind = .closeBracket) (hclose' : s₂.current.kind = .closeBracket) :
    w = w' ∧ s₁ = s₂ := by
  induction h generalizing w' with
  | done =>
      cases h' with
      | done => exact ⟨rfl, rfl⟩
      | comma hk =>
          rw [hclose] at hk
          cases hk
      | expression he => exact absurd hclose (hinner _ _ _ he).2
  | comma hk ht _ ih =>
      cases h' with
      | done =>
          rw [hclose'] at hk
          cases hk
      | comma _ ht' h' =>
          rw [ht] at ht'
          cases ht'
          obtain ⟨rfl, rfl⟩ := ih h' hclose
          exact ⟨rfl, rfl⟩
      | expression he => exact absurd hk (hinner _ _ _ he).1
  | expression he _ ih =>
      cases h' with
      | done => exact absurd hclose' (hinner _ _ _ he).2
      | comma hk => exact absurd hk (hinner _ _ _ he).1
      | expression he' h' =>
          rw [he] at he'
          cases he'
          obtain ⟨rfl, rfl⟩ := ih h' hclose
          exact ⟨rfl, rfl⟩

theorem Bracketed.unique (hinner : Separates inner) (h : Bracketed inner s w s₁)
    (h' : Bracketed inner s w' s₂) : w = w' := by
  obtain ⟨_, _, hrow, hclose⟩ := h
  obtain ⟨_, _, hrow', hclose'⟩ := h'
  exact (hrow.unique hinner hrow' (expect_ok.mp hclose).1 (expect_ok.mp hclose').1).1

/-! ## The loop -/

/-- Behind an expression the list is at its end, or a comma is taken. -/
theorem afterElement_ok {e : Expression} :
    (do
      if !(← isAt .closeBracket) then
        let _ ← expect .comma
      return some e : Parser (Option Expression)).run s = .ok o s' ↔
    o = some e ∧ (s.current.kind = .closeBracket ∧ s' = s ∨
      s.current.kind = .comma ∧ ∃ t, take.run s = .ok t s') := by
  rw [EStateM.run_bind, run_isAt]
  by_cases hk : s.current.kind = .closeBracket
  · simp only [hk, decide_true, Bool.not_true, Bool.false_eq_true, if_false]
    constructor
    · intro h
      cases h
      exact ⟨rfl, .inl ⟨trivial, rfl⟩⟩
    · rintro ⟨rfl, ⟨-, rfl⟩ | ⟨hcomma, -⟩⟩
      · rfl
      · cases hcomma
  · simp only [hk, decide_false, Bool.not_false, if_true, run_bind_ok, expect_ok]
    constructor
    · rintro ⟨t, s₁, ⟨hcomma, ht⟩, h⟩
      cases h
      exact ⟨rfl, .inr ⟨hcomma, t, ht⟩⟩
    · rintro ⟨rfl, ⟨hclose, -⟩ | ⟨hcomma, t, ht⟩⟩
      · exact hclose.elim
      · exact ⟨t, s', ⟨hcomma, ht⟩, rfl⟩

/-- One turn of the loop: a comma, or an expression with the comma behind it. -/
theorem arrayElement_ok : (arrayElement inner).run s = .ok o s' ↔
    (s.current.kind = .comma ∧ o = none ∧ ∃ t, take.run s = .ok t s') ∨
    (s.current.kind ≠ .comma ∧ ∃ e s₁, (inner (.assignment .normal)).run s = .ok e s₁ ∧
      o = some e ∧ (s₁.current.kind = .closeBracket ∧ s' = s₁ ∨
        s₁.current.kind = .comma ∧ ∃ t, take.run s₁ = .ok t s')) := by
  unfold arrayElement
  rw [ifEat_eq, EStateM.run_bind, run_isAt]
  by_cases hk : s.current.kind = .comma
  · simp only [hk, decide_true, if_true, run_bind_ok]
    constructor
    · rintro ⟨t, s₁, ht, h⟩
      cases h
      exact .inl ⟨trivial, rfl, t, ht⟩
    · rintro (⟨-, rfl, t, ht⟩ | ⟨hne, -⟩)
      · exact ⟨t, s', ht, rfl⟩
      · exact absurd rfl hne
  · simp only [hk, decide_false, Bool.false_eq_true, if_false]
    rw [run_bind_ok]
    constructor
    · rintro ⟨e, s₁, he, h⟩
      exact .inr ⟨hk, e, s₁, he, afterElement_ok.mp h⟩
    · rintro (⟨hcomma, -⟩ | ⟨-, e, s₁, he, h⟩)
      · exact hcomma.elim
      · exact ⟨e, s₁, he, afterElement_ok.mpr h⟩

/-- The loop ends in front of the closing bracket, or it takes a turn. -/
theorem itemsUntil_succ_ok {fuel : Nat} :
    (itemsUntil (isAt .closeBracket) (arrayElement inner) (fuel + 1)).run s = .ok es s' ↔
      (s.current.kind = .closeBracket ∧ es = [] ∧ s' = s) ∨
      (s.current.kind ≠ .closeBracket ∧ ∃ o s₁ rest, (arrayElement inner).run s = .ok o s₁ ∧
        (itemsUntil (isAt .closeBracket) (arrayElement inner) fuel).run s₁ = .ok rest s' ∧
        es = o :: rest) := by
  rw [itemsUntil, EStateM.run_bind, run_isAt]
  by_cases hk : s.current.kind = .closeBracket
  · simp only [hk, decide_true, if_true]
    constructor
    · intro h
      cases h
      exact .inl ⟨trivial, rfl, rfl⟩
    · rintro (⟨-, rfl, rfl⟩ | ⟨hne, -⟩)
      · rfl
      · exact absurd rfl hne
  · simp only [hk, decide_false, Bool.false_eq_true, if_false, run_bind_ok]
    constructor
    · rintro ⟨o, s₁, ho, rest, s₂, hrest, h⟩
      cases h
      exact .inr ⟨hk, o, s₁, rest, ho, hrest, rfl⟩
    · rintro (⟨hclose, -⟩ | ⟨-, o, s₁, rest, ho, hrest, rfl⟩)
      · exact hclose.elim
      · exact ⟨o, s₁, ho, rest, s', hrest, rfl⟩

/-- In front of the closing bracket the loop takes no turn. -/
theorem itemsUntil_closed {fuel : Nat} (hk : s.current.kind = .closeBracket)
    (h : (itemsUntil (isAt .closeBracket) (arrayElement inner) fuel).run s = .ok es s') :
    es = [] ∧ s' = s := by
  cases fuel with
  | zero => cases h
  | succ fuel =>
      obtain ⟨-, hes, hs⟩ | ⟨hne, -⟩ := itemsUntil_succ_ok.mp h
      · exact ⟨hes, hs⟩
      · exact absurd hk hne

/-- What the loop reads is a row of parts that it has a way through. -/
theorem itemsUntil_ok {fuel : Nat}
    (h : (itemsUntil (isAt .closeBracket) (arrayElement inner) fuel).run s = .ok es s') :
    s'.current.kind = .closeBracket ∧ ∃ w, Row inner s w s' ∧ ArrayPart.Elided w es := by
  induction fuel generalizing s es with
  | zero => cases h
  | succ fuel ih =>
      obtain ⟨hk, rfl, rfl⟩ | ⟨-, o, s₁, rest, ho, hrest, rfl⟩ := itemsUntil_succ_ok.mp h
      · exact ⟨hk, [], .done, .done⟩
      · obtain ⟨hclose, w, hw, helided⟩ := ih hrest
        refine ⟨hclose, ?_⟩
        obtain ⟨hk, rfl, t, ht⟩ | ⟨-, e, s₂, he, rfl, ⟨hk, rfl⟩ | ⟨hk, t, ht⟩⟩ :=
          arrayElement_ok.mp ho
        · exact ⟨_, .comma hk ht hw, .hole helided⟩
        · obtain ⟨rfl, rfl⟩ := itemsUntil_closed hk hrest
          exact ⟨_, .expression he .done, .last⟩
        · exact ⟨_, .expression he (.comma hk ht hw), .separated helided⟩

/-- The loop reads each row of parts that it has a way through, if its turns suffice. -/
theorem run_itemsUntil {fuel : Nat} (hinner : Separates inner) (hw : ArrayPart.Elided w es)
    (hrow : Row inner s w s') (hclose : s'.current.kind = .closeBracket) (hfuel : w.length < fuel) :
    (itemsUntil (isAt .closeBracket) (arrayElement inner) fuel).run s = .ok es s' := by
  induction fuel generalizing s w es with
  | zero => cases hfuel
  | succ fuel ih =>
      cases hw with
      | done =>
          cases hrow
          exact itemsUntil_succ_ok.mpr (.inl ⟨hclose, rfl, rfl⟩)
      | hole hw =>
          cases hrow with
          | comma hk ht hrow =>
              have hne : s.current.kind ≠ .closeBracket := by
                rw [hk]
                nofun
              have hturn : (arrayElement inner).run s = .ok none _ :=
                arrayElement_ok.mpr (.inl ⟨hk, rfl, _, ht⟩)
              have hrest := ih hw hrow (Nat.lt_of_succ_lt_succ hfuel)
              exact itemsUntil_succ_ok.mpr (.inr ⟨hne, _, _, _, hturn, hrest, rfl⟩)
      | @last e =>
          cases hrow with
          | expression he hrow =>
              cases hrow
              obtain ⟨hcomma, hne⟩ := hinner _ _ _ he
              have hturn : (arrayElement inner).run s = .ok (some e) s' :=
                arrayElement_ok.mpr (.inr ⟨hcomma, _, _, he, rfl, .inl ⟨hclose, rfl⟩⟩)
              have hrest := ih .done .done (Nat.lt_of_succ_lt_succ hfuel)
              exact itemsUntil_succ_ok.mpr (.inr ⟨hne, _, _, _, hturn, hrest, rfl⟩)
      | @separated e _ _ hw =>
          cases hrow with
          | expression he hrow =>
              cases hrow with
              | comma hk ht hrow =>
                  obtain ⟨hcomma, hne⟩ := hinner _ _ _ he
                  have hturn : (arrayElement inner).run s = .ok (some e) _ :=
                    arrayElement_ok.mpr (.inr ⟨hcomma, _, _, he, rfl, .inr ⟨hk, _, ht⟩⟩)
                  have hrest := ih hw hrow (Nat.lt_of_succ_lt (Nat.lt_of_succ_lt_succ hfuel))
                  exact itemsUntil_succ_ok.mpr (.inr ⟨hne, _, _, _, hturn, hrest, rfl⟩)

/-- An array literal is what the loop reads between brackets. -/
theorem array_ok {e : Expression} : (array inner turns).run s = .ok e s' ↔
    ∃ t s₁ es s₂ t', (expect .openBracket).run s = .ok t s₁ ∧
      (itemsUntil (isAt .closeBracket) (arrayElement inner) turns).run s₁ = .ok es s₂ ∧
      (expect .closeBracket).run s₂ = .ok t' s' ∧ e = .array es := by
  unfold array
  simp only [run_bind_ok]
  constructor
  · rintro ⟨t, s₁, hopen, es, s₂, hes, t', s₃, hclose, h⟩
    cases h
    exact ⟨t, s₁, es, s₂, t', hopen, hes, hclose, rfl⟩
  · rintro ⟨t, s₁, es, s₂, t', hopen, hes, hclose, rfl⟩
    exact ⟨t, s₁, hopen, es, s₂, hes, t', s', hclose, rfl⟩

/-! ## The literal -/

/-- What an array literal is read from is a row of parts without two expressions next to each
other. -/
theorem bracketed_of_array {e : Expression} {t : Token}
    (hopen : (expect .openBracket).run s = .ok t s₁)
    (h : (array inner turns).run s = .ok e s') :
    ∃ w, Bracketed inner s₁ w s' ∧ ArrayPart.Spaced w ∧ e = .array (ArrayPart.elements w) := by
  obtain ⟨_, _, es, s₂, t', hopen', hes, hclose, rfl⟩ := array_ok.mp h
  rw [hopen] at hopen'
  cases hopen'
  obtain ⟨-, w, hrow, hw⟩ := itemsUntil_ok hes
  exact ⟨w, ⟨s₂, t', hrow, hclose⟩, hw.spaced, congrArg _ hw.eq_elements⟩

/-- Each part takes a token at least. -/
theorem Row.length_le {room : Nat} (h : Row (rule turns room) s w s') (hs : Held s)
    (hturns : ahead s < turns) : w.length + ahead s' ≤ ahead s := by
  induction h with
  | done => exact Nat.le_of_eq (Nat.zero_add _)
  | @comma s s₁ s' t w hk ht _ ih =>
      obtain ⟨hheld, hle⟩ := hs.take_ahead ht
      have hcount : s.current.kind.count = 1 := by
        rw [hk]
        rfl
      have := ih hheld (by omega)
      rw [List.length_cons]
      omega
  | @expression s s₁ s' e w he _ ih =>
      have hspends := (agrees_rule room hturns hturns _ s hs (Nat.le_refl _)).spends he
      have hlt := hspends.lt rfl
      have := ih hspends.held (by omega)
      rw [List.length_cons]
      omega

/-- Each row of parts without two expressions next to each other is read as an array literal. -/
theorem array_of_bracketed {room : Nat} {t : Token} (hs : Held s) (hturns : ahead s < turns)
    (hopen : (expect .openBracket).run s = .ok t s₁) (hw : ArrayPart.Spaced w)
    (h : Bracketed (rule turns room) s₁ w s') :
    (array (rule turns room) turns).run s = .ok (.array (ArrayPart.elements w)) s' := by
  obtain ⟨s₂, t', hrow, hclose⟩ := h
  obtain ⟨hheld, hle⟩ := hs.take_ahead (expect_ok.mp hopen).2
  have hlength : w.length + ahead s₂ ≤ ahead s₁ := hrow.length_le hheld (by omega)
  have hloop := run_itemsUntil (separates_rule turns room) hw.elided hrow (expect_ok.mp hclose).1
    (by omega : w.length < turns)
  exact array_ok.mpr ⟨t, s₁, _, s₂, t', hopen, hloop, hclose, rfl⟩

/-- An array literal is read if and only if no two expressions are next to each other.  Its elements
are then the segments between the commas: an empty one is a hole, except at the end, where it does
not count.  So there is one for each comma and one for an expression at the end.  An expression is
as long as its rule reads it here: one in parentheses behind another one makes a call. -/
theorem array_elisions {room : Nat} {t : Token} (hs : Held s) (hturns : ahead s < turns)
    (hopen : (expect .openBracket).run s = .ok t s₁) :
    (∀ w s', Bracketed (rule turns room) s₁ w s' →
      ((∃ e s₂, (array (rule turns room) turns).run s = .ok e s₂) ↔ ArrayPart.Spaced w) ∧
      (ArrayPart.Spaced w →
        (array (rule turns room) turns).run s = .ok (.array (ArrayPart.elements w)) s' ∧
        (ArrayPart.elements w).length =
          w.countP ArrayPart.isComma + if w.getLast?.any (!·.isComma) then 1 else 0)) ∧
    ∀ e s', (array (rule turns room) turns).run s = .ok e s' →
      ∃ w, Bracketed (rule turns room) s₁ w s' ∧ ArrayPart.Spaced w ∧
        e = .array (ArrayPart.elements w) := by
  refine ⟨fun w s' h => ?_, fun e s' h => bracketed_of_array hopen h⟩
  have hread := fun hw => array_of_bracketed hs hturns hopen hw h
  refine ⟨⟨?_, fun hw => ⟨_, _, hread hw⟩⟩, fun hw => ⟨hread hw, hw.elided.length_eq⟩⟩
  rintro ⟨e, s₂, harray⟩
  obtain ⟨w', h', hw', -⟩ := bracketed_of_array hopen harray
  rw [h.unique (separates_rule turns room) h']
  exact hw'

/-- A literal with a hole in the middle and one at its end. -/
theorem array_elisions_holes : ∃ t s₁ w s', (expect .openBracket).run
      (atStart "[1, , 2, ,];".toList) = .ok t s₁ ∧
    Bracketed (rule 25 40) s₁ w s' ∧ ArrayPart.Spaced w ∧
    (array (rule 25 40) 25).run (atStart "[1, , 2, ,];".toList) =
      .ok (.array (ArrayPart.elements w)) s' := by
  have hs : Held (atStart "[1, , 2, ,];".toList) :=
    held_atStart (k := .openBracket) (by decide +kernel)
  have hopen : kindAfter? ((expect .openBracket).run (atStart "[1, , 2, ,];".toList)) =
      some .number := by decide +kernel
  have hend : kindAfter? ((array (rule 25 40) 25).run (atStart "[1, , 2, ,];".toList)) =
      some .semicolon := by decide +kernel
  obtain ⟨t, s₁, hopen, -⟩ := exists_of_kindAfter? hopen
  obtain ⟨e, s', harray, -⟩ := exists_of_kindAfter? hend
  have hturns : ahead (atStart "[1, , 2, ,];".toList) < 25 := by decide +kernel
  obtain ⟨w, hrow, hw, -⟩ := (array_elisions hs hturns hopen).2 e s' harray
  exact ⟨t, s₁, w, s', hopen, hrow, hw, (((array_elisions hs hturns hopen).1 w s' hrow).2 hw).1⟩

example : kindAfter? ((array (rule 25 40) 25).run (atStart "[1 2];".toList)) = none := by
  decide +kernel

end Rows

end Parser
end EcmaSyntax
