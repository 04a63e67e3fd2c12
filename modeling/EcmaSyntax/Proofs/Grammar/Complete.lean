import EcmaSyntax.Proofs.Grammar.Accepts

/-!
# The parser finds what the grammar derives

**Turns.**  `count` is the number of items that stand for a token of the source.  Each turn
of a repetition takes one of them, so more turns than that are never used up.

**Result.**  `Derives.accepts`: in a state from which one can move over the items of a
derivation, the parser of the nonterminal succeeds and yields the tree of the derivation.
There is one lemma for each way to expand a nonterminal, and the induction puts them together.
-/

namespace EcmaSyntax
namespace Parser

/-! ## Progress -/

/-- The number of items that stand for tokens which the grammar takes. -/
def count : List Item → Nat
  | [] => 0
  | .taken _ _ :: its => count its + 1
  | .member _ _ :: its => count its + 1
  | .literal _ _ :: its => count its + 1
  | _ :: its => count its

section Count

variable (its : List Item) (k : TokenKind) (t : Text)

@[simp] theorem count_nil : count [] = 0 := rfl

@[simp] theorem count_taken : count (.taken k t :: its) = count its + 1 := rfl

@[simp] theorem count_member : count (.member k t :: its) = count its + 1 := rfl

@[simp] theorem count_literal : count (.literal k t :: its) = count its + 1 := rfl

@[simp] theorem count_ended : count (.ended k :: its) = count its := rfl

@[simp] theorem count_inserted : count (.inserted k :: its) = count its := rfl

@[simp] theorem count_comments (cs : List Comment) : count (.comments cs :: its) = count its := rfl

end Count

/-- The number of tokens that a part of the grammar takes at least. -/
def Nonterminal.least : Nonterminal → Nat
  | .sequenceRest _ _ | .operands _ | .elements _ | .arrayElements | .members | .memberTail _
  | .callTail _ | .postfixed _ | .binary _ _ _ | .conditionalRest _ _ | .operatorsRest _ _
  | .assignmentRest _ _ | .declaratorsRest _ | .terminator | .expressionBefore _ | .handler
  | .finalizer => 0
  | _ => 1

namespace Derives

variable {last : TokenKind} {room : Nat} {n : Nonterminal} {i r : List Item} {tree : n.Tree}

theorem least_le (h : Derives last room n i tree r) : count r + n.least ≤ count i := by
  induction h <;>
    simp only [Nonterminal.least, count_taken, count_member, count_literal, count_ended,
      count_inserted, count_comments] at * <;>
    omega

theorem count_le (h : Derives last room n i tree r) : count r ≤ count i := by
  have := h.least_le
  omega

end Derives

section Expressions

variable {last : TokenKind} {inner : Inner} {turns fuel : Nat}
variable {i m m' r : List Item} {t t' t'' : Text} {g : Grammar} {e e' : Expression}
variable {es : List Expression} {ss : List Statement}

/-! ## Sequences and lists -/

theorem accepts_sequenceEnd {first : Expression} (hi : peek last i ≠ .comma) :
    Accepts last (sequenceRest inner turns first g) i first i := by
  unfold sequenceRest
  refine .isAt ?_
  simp only [hi, decide_false, Bool.false_eq_true, if_false]
  exact .pure

theorem accepts_sequenceMore {first : Expression} (hi : peek last i = .comma)
    (hes : Accepts last (itemsUntil (return !(← eat .comma)) (inner (.assignment g.operand)) turns)
      i es r) :
    Accepts last (sequenceRest inner turns first g) i (.sequence (first :: es)) r := by
  unfold sequenceRest
  refine .isAt ?_
  simp only [hi, decide_true, if_true]
  exact .bind hes .pure

/-- A list that goes on after each comma ends before anything else. -/
theorem accepts_afterCommaEnd {α : Type} {item : Parser α} (hi : peek last i ≠ .comma) :
    Accepts last (itemsUntil (return !(← eat .comma)) item (fuel + 1)) i [] i := by
  unfold itemsUntil
  rw [bind_assoc]
  refine .eatNot hi ?_
  rw [pure_bind]
  exact .pure

/-- A list that goes on after each comma takes a comma and an item. -/
theorem accepts_afterCommaMore {α : Type} {item : Parser α} {a : α} {as : List α}
    (ha : Accepts last item i a m)
    (has : Accepts last (itemsUntil (return !(← eat .comma)) item fuel) m as r) :
    Accepts last (itemsUntil (return !(← eat .comma)) item (fuel + 1)) (.taken .comma t :: i)
      (a :: as) r := by
  unfold itemsUntil
  rw [bind_assoc]
  refine .eat ?_
  rw [pure_bind]
  exact .bind ha (.bind has .pure)

theorem accepts_expression {first : Expression}
    (h₁ : Accepts last (inner (.assignment g)) i first m)
    (h₂ : Accepts last (sequenceRest inner turns first g) m e r) :
    Accepts last (expression inner turns g) i e r := by
  unfold expression
  exact .bind h₁ h₂

theorem accepts_parenthesized
    (h : Accepts last (expression inner turns .normal) i e (.taken .closeParen t' :: r)) :
    Accepts last (parenthesized inner turns) (.taken .openParen t :: i) e r := by
  unfold parenthesized
  exact .expect fun _ _ => .bind h (.expect fun _ _ => .pure)

section CommaList

variable {α : Type} {close : TokenKind} {item : Parser α} {a : α} {as : List α}

theorem accepts_commaListNone :
    Accepts last (commaList close item turns) (.taken close t :: r) [] r := by
  unfold commaList
  exact .eat .pure

theorem accepts_commaListSome (hi : peek last i ≠ close) (ha : Accepts last item i a m)
    (has : Accepts last (itemsUntil (eat close) (do let _ ← expect .comma; item) turns) m as r) :
    Accepts last (commaList close item turns) i (a :: as) r := by
  unfold commaList
  exact .eatNot hi (.bind ha (.bind has .pure))

theorem accepts_commaListEnd :
    Accepts last (itemsUntil (eat close) (do let _ ← expect .comma; item) (fuel + 1))
      (.taken close t :: r) [] r := by
  unfold itemsUntil
  exact .eat .pure

theorem accepts_commaListMore (hclose : close ≠ .comma) (ha : Accepts last item i a m)
    (has : Accepts last (itemsUntil (eat close) (do let _ ← expect .comma; item) fuel) m as r) :
    Accepts last (itemsUntil (eat close) (do let _ ← expect .comma; item) (fuel + 1))
      (.taken .comma t :: i) (a :: as) r := by
  unfold itemsUntil
  exact .eatNot hclose.symm (.bind (.expect fun _ _ => ha) (.bind has .pure))

end CommaList

theorem accepts_arguments
    (h : Accepts last (commaList .closeParen (inner (.assignment .normal)) turns) i es r) :
    Accepts last (arguments inner turns) (.taken .openParen t :: i) es r := by
  unfold arguments
  exact .expect fun _ _ => h

/-! ## Statement lists and functions -/

theorem accepts_elementFunction {s : Statement} (hi : peek last i = .kwFunction)
    (h : Accepts last (inner .declaration) i s r) : Accepts last (element inner) i s r := by
  unfold element
  refine .isAt ?_
  simp only [hi, decide_true, if_true]
  exact h

theorem accepts_elementStatement {s : Statement} (hi : peek last i ≠ .kwFunction)
    (h : Accepts last (inner .statement) i s r) : Accepts last (element inner) i s r := by
  unfold element
  refine .isAt ?_
  simp only [hi, decide_false, Bool.false_eq_true, if_false]
  exact h

theorem accepts_elementsEnd {stops : List TokenKind} {cs : List Comment}
    (hi : peek last i ∈ stops) :
    Accepts last (elements inner stops (fuel + 1)) (.comments cs :: i) (cs.map .comment) i := by
  unfold elements
  refine .pendingComments (.kind ?_)
  rw [if_pos (List.contains_iff_mem.mpr hi)]
  exact .pure

theorem accepts_elementsMore {stops : List TokenKind} {cs : List Comment} {s : Statement}
    (hi : peek last i ∉ stops) (hs : Accepts last (element inner) i s m)
    (hss : Accepts last (elements inner stops fuel) m ss r) :
    Accepts last (elements inner stops (fuel + 1)) (.comments cs :: i)
      (cs.map .comment ++ s :: ss) r := by
  unfold elements
  refine .pendingComments (.kind ?_)
  rw [if_neg fun h => hi (List.contains_iff_mem.mp h)]
  exact .bind hs (.bind hss .pure)

theorem accepts_blockBody
    (h : Accepts last (elements inner [.closeBrace] turns) i ss (.taken .closeBrace t' :: r)) :
    Accepts last (blockBody inner turns) (.taken .openBrace t :: i) ss r := by
  unfold blockBody
  exact .expect fun _ _ => .bind h (.expect fun _ _ => .pure)

/-- The parameters of a function with their parentheses. -/
def parameters (turns : Nat) : Parser (List Text) := do
  let _ ← expect .openParen
  commaList .closeParen bindingName turns

theorem accepts_signature {name : Option Text} {params : List Text}
    (hp : Accepts last (parameters turns) i params m)
    (hss : Accepts last (blockBody inner turns) m ss r) :
    Accepts last (do
        let _ ← expect .openParen
        let params ← commaList .closeParen bindingName turns
        let body ← blockBody inner turns
        return (⟨name, params, body⟩ : Function)) i ⟨name, params, ss⟩ r := by
  have h : Accepts last (parameters turns >>= fun params => do
      let body ← blockBody inner turns
      return (⟨name, params, body⟩ : Function)) i ⟨name, params, ss⟩ r :=
    .bind hp (.bind hss .pure)
  rw [parameters, bind_assoc] at h
  exact h

theorem accepts_functionNamed {needsName : Bool} {name : Text} {params : List Text}
    (hp : Accepts last (parameters turns) i params m)
    (hss : Accepts last (blockBody inner turns) m ss r) :
    Accepts last (function inner turns needsName)
      (.taken .kwFunction t :: .taken .identifier name :: i) ⟨some name, params, ss⟩ r := by
  unfold function
  refine .expect fun _ _ => .isAt ?_
  simp only [peek_taken, decide_true, if_true, map_eq_pure_bind, bind_assoc, pure_bind]
  exact .bindingName (accepts_signature hp hss)

theorem accepts_functionPlain {params : List Text} (hi : peek last i ≠ .identifier)
    (hp : Accepts last (parameters turns) i params m)
    (hss : Accepts last (blockBody inner turns) m ss r) :
    Accepts last (function inner turns false) (.taken .kwFunction t :: i) ⟨none, params, ss⟩ r := by
  unfold function
  refine .expect fun _ _ => .isAt ?_
  simp only [hi, decide_false, Bool.false_eq_true, if_false, pure_bind]
  exact accepts_signature hp hss

theorem accepts_parameters {params : List Text}
    (h : Accepts last (commaList .closeParen bindingName turns) i params r) :
    Accepts last (parameters turns) (.taken .openParen t :: i) params r := by
  unfold parameters
  exact .expect fun _ _ => h

/-! ## Literals with parts -/

theorem accepts_untilEnd {α : Type} {close : TokenKind} {item : Parser α}
    (hi : peek last i = close) :
    Accepts last (itemsUntil (isAt close) item (fuel + 1)) i [] i := by
  unfold itemsUntil
  refine .isAt ?_
  simp only [hi, decide_true, if_true]
  exact .pure

theorem accepts_untilMore {α : Type} {close : TokenKind} {item : Parser α} {a : α} {as : List α}
    (hi : peek last i ≠ close) (ha : Accepts last item i a m)
    (has : Accepts last (itemsUntil (isAt close) item fuel) m as r) :
    Accepts last (itemsUntil (isAt close) item (fuel + 1)) i (a :: as) r := by
  unfold itemsUntil
  refine .isAt ?_
  simp only [hi, decide_false, Bool.false_eq_true, if_false]
  exact .bind ha (.bind has .pure)

theorem accepts_arrayHole :
    Accepts last (arrayElement inner) (.taken .comma t :: i) none i := by
  unfold arrayElement
  exact .eat .pure

theorem accepts_arrayLast (hi : peek last i ≠ .comma) (hm : peek last m = .closeBracket)
    (h : Accepts last (inner (.assignment .normal)) i e m) :
    Accepts last (arrayElement inner) i (some e) m := by
  unfold arrayElement
  refine .eatNot hi (.bind h (.isAt ?_))
  simp only [hm, decide_true, Bool.not_true, Bool.false_eq_true, if_false]
  exact .pure

theorem accepts_arrayMore (hi : peek last i ≠ .comma)
    (h : Accepts last (inner (.assignment .normal)) i e (.taken .comma t :: m)) :
    Accepts last (arrayElement inner) i (some e) m := by
  unfold arrayElement
  refine .eatNot hi (.bind h (.isAt ?_))
  exact .expect fun _ _ => .pure

theorem accepts_propertyKey {α : Type} {k : TokenKind} {key : PropertyKey}
    {f : PropertyKey → Parser α} {a : α} (hkey : propertyKey? k t = some key)
    (h : Accepts last (f key) i a r) : Accepts last (propertyKey >>= f) (.taken k t :: i) a r := by
  unfold propertyKey
  rw [bind_assoc]
  refine .current ?_
  rintro tok rfl rfl
  rw [hkey]
  simp only [bind_assoc, pure_bind]
  exact .take fun _ _ _ => h

theorem accepts_propertyValue {key : PropertyKey}
    (h : Accepts last (inner (.assignment .normal)) i e r) :
    Accepts last (propertyValue inner key) (.taken .colon t :: i) (.init key e) r := by
  unfold propertyValue
  exact .expect fun _ _ => .bind h .pure

theorem accepts_propertyInit {k : TokenKind} {key : PropertyKey}
    (hkey : propertyKey? k t = some key) (h : Accepts last (inner (.assignment .normal)) i e r) :
    Accepts last (property inner turns) (.taken k t :: .taken .colon t' :: i) (.init key e) r := by
  unfold property
  refine .current ?_
  rintro tok rfl rfl
  by_cases hw : tok.kind = .identifier ∧ (tok.text = "get".toList ∨ tok.text = "set".toList)
  · rw [if_pos hw]
    refine .take fun _ _ _ => .isAt ?_
    have : key = .identifier tok.text := by
      rw [hw.1] at hkey
      exact (Option.some.inj hkey).symm
    subst this
    exact accepts_propertyValue h
  · rw [if_neg hw]
    exact accepts_propertyKey hkey (accepts_propertyValue h)

theorem accepts_propertyGetter {k : TokenKind} {key : PropertyKey}
    (hkey : propertyKey? k t = some key) (h : Accepts last (blockBody inner turns) i ss r) :
    Accepts last (property inner turns)
      (.taken .identifier "get".toList :: .taken k t :: .taken .openParen t'
        :: .taken .closeParen t'' :: i) (.getter key ss) r := by
  have hk : k ≠ .colon := by
    rintro rfl
    cases hkey
  unfold property
  refine .current fun tok hkind htext => ?_
  rw [if_pos ⟨hkind, .inl htext⟩]
  refine .take fun _ _ _ => .isAt ?_
  simp only [peek_taken, hk, decide_false, Bool.false_eq_true, if_false]
  unfold accessor
  refine accepts_propertyKey hkey (.expect fun _ _ => ?_)
  rw [if_pos (decide_eq_true htext)]
  exact .expect fun _ _ => .bind h .pure

theorem accepts_propertySetter {k : TokenKind} {key : PropertyKey} {p : Text}
    (hkey : propertyKey? k t = some key) (h : Accepts last (blockBody inner turns) i ss r) :
    Accepts last (property inner turns)
      (.taken .identifier "set".toList :: .taken k t :: .taken .openParen t'
        :: .taken .identifier p :: .taken .closeParen t'' :: i) (.setter key p ss) r := by
  have hk : k ≠ .colon := by
    rintro rfl
    cases hkey
  unfold property
  refine .current fun tok hkind htext => ?_
  rw [if_pos ⟨hkind, .inr htext⟩]
  refine .take fun _ _ _ => .isAt ?_
  simp only [peek_taken, hk, decide_false, Bool.false_eq_true, if_false]
  unfold accessor
  refine accepts_propertyKey hkey (.expect fun _ _ => ?_)
  have hget : tok.text ≠ "get".toList := by
    rw [htext]
    decide
  rw [if_neg (by simpa using hget)]
  exact .bindingName (.expect fun _ _ => .bind h .pure)

theorem accepts_memberLast {p : Property} (hm : peek last m = .closeBrace)
    (h : Accepts last (property inner turns) i p m) :
    Accepts last (objectMember inner turns) i p m := by
  unfold objectMember
  refine .bind h (.isAt ?_)
  simp only [hm, decide_true, Bool.not_true, Bool.false_eq_true, if_false]
  exact .pure

theorem accepts_memberMore {p : Property}
    (h : Accepts last (property inner turns) i p (.taken .comma t :: m)) :
    Accepts last (objectMember inner turns) i p m := by
  unfold objectMember
  refine .bind h (.isAt ?_)
  exact .expect fun _ _ => .pure

/-! ## Primary expressions -/

theorem accepts_leaf {k : TokenKind} : Accepts last (leaf e) (.taken k t :: r) e r := by
  unfold leaf
  exact .take fun _ _ _ => .pure

theorem accepts_number {value : Binary64} (hv : numberValue? t = some value) :
    Accepts last (primary inner turns g) (.taken .number t :: r) (.number value) r := by
  unfold primary
  refine .current fun tok hkind htext => ?_
  rw [hkind]
  show Accepts last (number tok) _ _ _
  unfold number
  rw [htext, hv]
  exact .take fun _ _ _ => .pure

theorem accepts_regex {k : TokenKind} :
    Accepts last (primary inner turns g) (.literal k t :: r)
      (.regex (regexParts t).1 (regexParts t).2) r := by
  intro s e hm he
  cases hm with
  | @literal _ s₁ s₂ _ tok tok' _ _ _ _ hs hk ho htext ht hm =>
      refine ⟨s₂, ?_, .literal hs hk ho htext ht .refl, hm⟩
      have hregex : (regex s.current).run s =
          .ok (.regex (regexParts t).1 (regexParts t).2) s₂ := by
        unfold regex
        refine run_bind_ok.mpr ⟨tok, s₁, hs, run_bind_ok.mpr ⟨(), _, rfl, ?_⟩⟩
        refine run_bind_ok.mpr ⟨tok', s₂, ht, ?_⟩
        rw [htext]
        rfl
      unfold primary
      rw [EStateM.run_bind, run_current]
      have : s.current.kind = .slash ∨ s.current.kind = .slashEquals := by
        rw [hk]
        simpa [opensRegex] using ho
      obtain h | h := this
      · simp only [h]
        exact hregex
      · simp only [h]
        exact hregex

theorem accepts_array {els : List (Option Expression)}
    (h : Accepts last (itemsUntil (isAt .closeBracket) (arrayElement inner) turns) i els
      (.taken .closeBracket t' :: r)) :
    Accepts last (array inner turns) (.taken .openBracket t :: i) (.array els) r := by
  unfold array
  exact .expect fun _ _ => .bind h (.expect fun _ _ => .pure)

theorem accepts_object {ps : List Property}
    (h : Accepts last (itemsUntil (isAt .closeBrace) (objectMember inner turns) turns) i ps
      (.taken .closeBrace t' :: r)) :
    Accepts last (object inner turns) (.taken .openBrace t :: i) (.object ps) r := by
  unfold object
  exact .expect fun _ _ => .bind h (.expect fun _ _ => .pure)

theorem accepts_primaryThis :
    Accepts last (primary inner turns g) (.taken .kwThis t :: r) .this r := by
  unfold primary
  refine .current fun tok hkind _ => ?_
  rw [hkind]
  exact accepts_leaf

theorem accepts_primaryName :
    Accepts last (primary inner turns g) (.taken .identifier t :: r) (.identifier t) r := by
  unfold primary
  refine .current fun tok hkind htext => ?_
  rw [hkind, htext]
  exact accepts_leaf

theorem accepts_primaryNull :
    Accepts last (primary inner turns g) (.taken .kwNull t :: r) .null r := by
  unfold primary
  refine .current fun tok hkind _ => ?_
  rw [hkind]
  exact accepts_leaf

theorem accepts_primaryTrue :
    Accepts last (primary inner turns g) (.taken .kwTrue t :: r) (.boolean true) r := by
  unfold primary
  refine .current fun tok hkind _ => ?_
  rw [hkind]
  exact accepts_leaf

theorem accepts_primaryFalse :
    Accepts last (primary inner turns g) (.taken .kwFalse t :: r) (.boolean false) r := by
  unfold primary
  refine .current fun tok hkind _ => ?_
  rw [hkind]
  exact accepts_leaf

theorem accepts_primaryString :
    Accepts last (primary inner turns g) (.taken .string t :: r) (.string (stringValue t)) r := by
  unfold primary
  refine .current fun tok hkind htext => ?_
  rw [hkind, htext]
  exact accepts_leaf

theorem accepts_primaryArray {els : List (Option Expression)}
    (h : Accepts last (itemsUntil (isAt .closeBracket) (arrayElement inner) turns) i els
      (.taken .closeBracket t' :: r)) :
    Accepts last (primary inner turns g) (.taken .openBracket t :: i) (.array els) r := by
  unfold primary
  refine .current fun tok hkind _ => ?_
  rw [hkind]
  exact accepts_array h

theorem accepts_primaryObject {ps : List Property} (hg : g ≠ .noBrace)
    (h : Accepts last (itemsUntil (isAt .closeBrace) (objectMember inner turns) turns) i ps
      (.taken .closeBrace t' :: r)) :
    Accepts last (primary inner turns g) (.taken .openBrace t :: i) (.object ps) r := by
  unfold primary
  refine .current fun tok hkind _ => ?_
  rw [hkind]
  simp only [hg, if_false]
  exact accepts_object h

theorem accepts_primaryFunction {f : Function} (hg : g ≠ .noBrace)
    (hi : peek last i = .kwFunction) (h : Accepts last (function inner turns false) i f r) :
    Accepts last (primary inner turns g) i (.function f) r := by
  unfold primary
  refine .currentKind fun tok hkind => ?_
  rw [hkind, hi]
  simp only [hg, if_false]
  exact .bind h .pure

theorem accepts_primaryParenthesized (hi : peek last i = .openParen)
    (h : Accepts last (parenthesized inner turns) i e r) :
    Accepts last (primary inner turns g) i e r := by
  unfold primary
  refine .currentKind fun tok hkind => ?_
  rw [hkind, hi]
  exact h

/-! ## Left-hand sides -/

theorem accepts_memberEnd {base : Expression} (hd : peek last i ≠ .dot)
    (hb : peek last i ≠ .openBracket) :
    Accepts last (iterate (memberStep inner turns) (fuel + 1) base) i base i := by
  have hnone : Accepts last (memberStep inner turns base) i none i := by
    unfold memberStep
    refine .kind ?_
    split
    · contradiction
    · contradiction
    · exact .pure
  unfold iterate
  exact .bind hnone .pure

theorem accepts_memberDot {base : Expression} {k : TokenKind}
    (h : Accepts last (iterate (memberStep inner turns) fuel (.dot base t)) i e r) :
    Accepts last (iterate (memberStep inner turns) (fuel + 1) base) (.member k t :: i) e r := by
  have hstep : Accepts last (memberStep inner turns base) (.member k t :: i)
      (some (.dot base t)) i := by
    unfold memberStep
    exact .kind (.member .pure)
  unfold iterate
  exact .bind hstep h

theorem accepts_memberBracket {base index : Expression}
    (hindex : Accepts last (expression inner turns .normal) i index (.taken .closeBracket t' :: m))
    (h : Accepts last (iterate (memberStep inner turns) fuel (.bracket base index)) m e r) :
    Accepts last (iterate (memberStep inner turns) (fuel + 1) base) (.taken .openBracket t :: i) e
      r := by
  have hstep : Accepts last (memberStep inner turns base) (.taken .openBracket t :: i)
      (some (.bracket base index)) m := by
    unfold memberStep
    exact .kind (.take fun _ _ _ => .bind hindex (.expect fun _ _ => .pure))
  unfold iterate
  exact .bind hstep h

theorem accepts_callEnd {base : Expression} (hi : peek last i ≠ .openParen) :
    Accepts last (iterate (callStep inner turns) (fuel + 1) base) i base i := by
  have hnone : Accepts last (callStep inner turns base) i none i := by
    unfold callStep
    refine .isAt ?_
    simp only [hi, decide_false, Bool.false_eq_true, if_false]
    exact .pure
  unfold iterate
  exact .bind hnone .pure

theorem accepts_callMore {base result : Expression} {args : List Expression}
    (hi : peek last i = .openParen) (hargs : Accepts last (arguments inner turns) i args m)
    (hresult : Accepts last (memberTail inner turns (.call base args)) m result m')
    (h : Accepts last (iterate (callStep inner turns) fuel result) m' e r) :
    Accepts last (iterate (callStep inner turns) (fuel + 1) base) i e r := by
  have hstep : Accepts last (callStep inner turns base) i (some result) m' := by
    unfold callStep
    refine .isAt ?_
    simp only [hi, decide_true, if_true]
    exact .bind hargs (.bind hresult .pure)
  unfold iterate
  exact .bind hstep h

theorem accepts_headNew (hi : peek last i = .kwNew)
    (h : Accepts last (inner .construction) i e r) :
    Accepts last (chainHead inner turns g) i e r := by
  unfold chainHead
  refine .isAt ?_
  simp only [hi, decide_true, if_true]
  exact h

theorem accepts_headPrimary (hi : peek last i ≠ .kwNew)
    (h : Accepts last (primary inner turns g) i e r) :
    Accepts last (chainHead inner turns g) i e r := by
  unfold chainHead
  refine .isAt ?_
  simp only [hi, decide_false, Bool.false_eq_true, if_false]
  exact h

theorem accepts_leftHandSide {head base : Expression}
    (hhead : Accepts last (chainHead inner turns g) i head m)
    (hbase : Accepts last (memberTail inner turns head) m base m')
    (h : Accepts last (iterate (callStep inner turns) turns base) m' e r) :
    Accepts last (leftHandSide inner turns g) i e r := by
  unfold leftHandSide
  exact .bind hhead (.bind hbase h)

theorem accepts_constructionApplied {head callee : Expression} {args : List Expression}
    (hhead : Accepts last (chainHead inner turns .normal) i head m)
    (hcallee : Accepts last (memberTail inner turns head) m callee m')
    (hm : peek last m' = .openParen) (hargs : Accepts last (arguments inner turns) m' args r) :
    Accepts last (construction inner turns) (.taken .kwNew t :: i) (.construct callee args) r := by
  unfold construction
  refine .expect fun _ _ => .bind hhead (.bind hcallee (.isAt ?_))
  simp only [hm, decide_true, if_true]
  exact .bind hargs .pure

theorem accepts_constructionBare {head callee : Expression}
    (hhead : Accepts last (chainHead inner turns .normal) i head m)
    (hcallee : Accepts last (memberTail inner turns head) m callee r)
    (hr : peek last r ≠ .openParen) :
    Accepts last (construction inner turns) (.taken .kwNew t :: i) (.construct callee []) r := by
  unfold construction
  refine .expect fun _ _ => .bind hhead (.bind hcallee (.isAt ?_))
  simp only [hr, decide_false, Bool.false_eq_true, if_false]
  exact .pure

/-! ## Operators -/

theorem accepts_postfixEnd {operand : Expression}
    (hi : (peek last i).postfixOperator? = none) :
    Accepts last (postfixed operand) i operand i := by
  unfold postfixed
  refine .kind ?_
  rw [hi]
  exact .pure

theorem accepts_postfixMore {operand : Expression} {k : TokenKind} {op : UnaryOperator}
    (hop : k.postfixOperator? = some op) :
    Accepts last (postfixed operand) (.taken k t :: r) (.unary op operand true) r := by
  unfold postfixed
  refine .kind ?_
  rw [peek_taken, hop]
  exact .take fun _ _ _ => .pure

theorem accepts_unaryPrefix {operand : Expression} {k : TokenKind} {op : UnaryOperator}
    (hop : k.prefixOperator? = some op)
    (h : Accepts last (inner (.operand g.operand)) i operand r) :
    Accepts last (unary inner turns g) (.taken k t :: i) (.unary op operand false) r := by
  unfold unary
  refine .kind ?_
  rw [peek_taken, hop]
  exact .take fun _ _ _ => .bind h .pure

theorem accepts_unaryPostfix {operand : Expression} (hi : (peek last i).prefixOperator? = none)
    (h₁ : Accepts last (leftHandSide inner turns g) i operand m)
    (h₂ : Accepts last (postfixed operand) m e r) :
    Accepts last (unary inner turns g) i e r := by
  unfold unary
  refine .kind ?_
  rw [hi]
  exact .bind h₁ h₂

theorem accepts_binaryEnd {left : Expression} {p : Nat}
    (hi : infixOperator? p g (peek last i) = none) :
    Accepts last (binary inner turns (fuel + 1) left p g) i left i := by
  unfold binary
  rw [infixOperator, bind_assoc]
  refine .kind ?_
  rw [pure_bind, hi]
  exact .pure

theorem accepts_binaryMore {left operand right : Expression} {p : Nat} {k : TokenKind}
    {op : InfixOperator} (hop : infixOperator? p g k = some op)
    (hoperand : Accepts last (unary inner turns g.operand) i operand m)
    (hright : Accepts last (binary inner turns fuel operand op.rightPower g.operand) m right m')
    (h : Accepts last (binary inner turns fuel (op.apply left right) p g) m' e r) :
    Accepts last (binary inner turns (fuel + 1) left p g) (.taken k t :: i) e r := by
  unfold binary
  rw [infixOperator, bind_assoc]
  refine .kind ?_
  rw [pure_bind, peek_taken, hop]
  exact .take fun _ _ _ => .bind hoperand (.bind hright h)

theorem accepts_conditionalEnd {test : Expression} (hi : peek last i ≠ .question) :
    Accepts last (conditionalRest inner test g) i test i := by
  unfold conditionalRest
  exact .eatNot hi .pure

theorem accepts_conditionalMore {test consequent alternate : Expression}
    (hc : Accepts last (inner (.assignment .normal)) i consequent (.taken .colon t' :: m))
    (ha : Accepts last (inner (.assignment g.operand)) m alternate r) :
    Accepts last (conditionalRest inner test g) (.taken .question t :: i)
      (.conditional test consequent alternate) r := by
  unfold conditionalRest
  exact .eat (.bind hc (.expect fun _ _ => .bind ha .pure))

theorem accepts_operatorsRest {operand test : Expression}
    (h₁ : Accepts last (binary inner turns turns operand 0 g) i test m)
    (h₂ : Accepts last (conditionalRest inner test g) m e r) :
    Accepts last (operatorsRest inner turns operand g) i e r := by
  unfold operatorsRest
  exact .bind h₁ h₂

theorem accepts_assignMore {left value : Expression} {k : TokenKind} {op : AssignOperator}
    (hop : k.assignOperator? = some op)
    (h : Accepts last (inner (.assignment g.operand)) i value r) :
    Accepts last (assignmentRest inner turns left g) (.taken k t :: i) (.assign left op value)
      r := by
  unfold assignmentRest
  refine .kind ?_
  rw [peek_taken, hop]
  exact .take fun _ _ _ => .bind h .pure

theorem accepts_assignEnd {left operand : Expression}
    (hi : (peek last i).assignOperator? = none) (h₁ : Accepts last (postfixed left) i operand m)
    (h₂ : Accepts last (operatorsRest inner turns operand g) m e r) :
    Accepts last (assignmentRest inner turns left g) i e r := by
  unfold assignmentRest
  refine .kind ?_
  rw [hi]
  exact .bind h₁ h₂

theorem accepts_assignmentPrefixed {operand : Expression}
    (hi : (peek last i).isPrefixOperator) (h₁ : Accepts last (unary inner turns g) i operand m)
    (h₂ : Accepts last (operatorsRest inner turns operand g) m e r) :
    Accepts last (assignment inner turns g) i e r := by
  unfold assignment
  refine .kind ?_
  rw [if_pos hi]
  exact .bind h₁ h₂

theorem accepts_assignmentPlain {left : Expression}
    (hi : (peek last i).isPrefixOperator = false)
    (h₁ : Accepts last (leftHandSide inner turns g) i left m)
    (h₂ : Accepts last (assignmentRest inner turns left g) m e r) :
    Accepts last (assignment inner turns g) i e r := by
  unfold assignment
  refine .kind ?_
  simp only [hi, Bool.false_eq_true, if_false]
  exact .bind h₁ h₂

end Expressions

section Statements

variable {last : TokenKind} {inner : Inner} {turns fuel : Nat}
variable {i m m' m'' r : List Item} {t t' t'' : Text} {g : Grammar} {e : Expression}
variable {s : Statement} {ss : List Statement} {ds : List Declarator} {item : Item}

/-! ## Simple statements -/

theorem accepts_declaratorPlain {name : Text} (hi : peek last i ≠ .equals) :
    Accepts last (declarator inner g) (.taken .identifier name :: i) ⟨name, none⟩ i := by
  unfold declarator
  exact .bindingName (.eatNot hi .pure)

theorem accepts_declaratorInit {name : Text} {value : Expression}
    (h : Accepts last (inner (.assignment g)) i value r) :
    Accepts last (declarator inner g) (.taken .identifier name :: .taken .equals t :: i)
      ⟨name, some value⟩ r := by
  unfold declarator
  exact .bindingName (.eat (.bind h .pure))

theorem accepts_declarators {d : Declarator} (hd : Accepts last (declarator inner g) i d m)
    (hds : Accepts last (itemsUntil (return !(← eat .comma)) (declarator inner g) turns) m ds r) :
    Accepts last (declarators inner turns g) i (d :: ds) r := by
  unfold declarators
  exact .bind hd (.bind hds .pure)

theorem accepts_declare (hds : Accepts last (declarators inner turns .normal) i ds m)
    (hend : Accepts last endStatement m () r) :
    Accepts last (varDeclaration inner turns) (.taken .kwVar t :: i) (.declare ds) r := by
  unfold varDeclaration
  exact .expect fun _ _ => .bind hds (.bind hend .pure)

theorem accepts_empty : Accepts last empty (.taken .semicolon t :: r) .empty r := by
  unfold empty
  exact .take fun _ _ _ => .pure

theorem accepts_labelled {label : Text} {body : Statement}
    (he : Accepts last (expression inner turns .noBrace)
      (.taken .identifier label :: .taken .colon t :: i) (.identifier label)
      (.taken .colon t :: i))
    (hbody : Accepts last (inner .statement) i body r) :
    Accepts last (expressionOrLabelled inner turns)
      (.taken .identifier label :: .taken .colon t :: i) (.labelled label body) r := by
  intro s e hm hlast
  obtain ⟨s₁, h₁, hm₁, hm₁'⟩ := he s e hm hlast
  have htail : Accepts last (do let _ ← take; return Statement.labelled label (← inner .statement))
      (.taken .colon t :: i) (.labelled label body) r :=
    .take fun _ _ _ => .bind hbody .pure
  obtain ⟨s₂, h₂, hm₂, hm₂'⟩ := htail s₁ e hm₁' hlast
  refine ⟨s₂, ?_, hm₁.trans hm₂, hm₂'⟩
  have hfirst : s.current.kind = .identifier := (hm.peek_eq hlast.symm).symm
  have hcolon : s₁.current.kind = .colon := (hm₁'.peek_eq hlast.symm).symm
  unfold expressionOrLabelled
  rw [EStateM.run_bind, run_current]
  refine run_bind_ok.mpr ⟨_, s₁, h₁, run_bind_ok.mpr ⟨s₁, s₁, rfl, ?_⟩⟩
  simp only [hfirst, hcolon, hm₁.lastEnd_eq, and_self, if_true]
  exact h₂

theorem accepts_expressionStatement (he : Accepts last (expression inner turns .noBrace) i e m)
    (hname : ¬(peek last i = .identifier ∧ isName e ∧ peek last m = .colon))
    (hend : Accepts last endStatement m () r) :
    Accepts last (expressionOrLabelled inner turns) i (.expression e) r := by
  intro s end' hm hlast
  obtain ⟨s₁, h₁, hm₁, hm₁'⟩ := he s end' hm hlast
  have htail : Accepts last (do endStatement; return Statement.expression e) m (.expression e) r :=
    .bind hend .pure
  obtain ⟨s₂, h₂, hm₂, hm₂'⟩ := htail s₁ end' hm₁' hlast
  refine ⟨s₂, ?_, hm₁.trans hm₂, hm₂'⟩
  unfold expressionOrLabelled
  rw [EStateM.run_bind, run_current]
  refine run_bind_ok.mpr ⟨_, s₁, h₁, run_bind_ok.mpr ⟨s₁, s₁, rfl, ?_⟩⟩
  rw [hm.peek_eq hlast.symm, hm₁'.peek_eq hlast.symm] at hname
  cases e with
  | identifier name =>
      have hnot : ¬(s.current.kind = .identifier ∧ s₁.lastEnd = s.current.stop ∧
          s₁.current.kind = .colon) := fun h => hname ⟨h.1, rfl, h.2.2⟩
      simp only [hnot, if_false]
      exact h₂
  | _ => exact h₂

theorem accepts_debugger (hend : Accepts last endStatement i () r) :
    Accepts last debugger (.taken .kwDebugger t :: i) .debugger r := by
  unfold debugger
  exact .take fun _ _ _ => .bind hend .pure

/-! ## Branches and loops -/

theorem accepts_ifThen {test : Expression} {consequent : Statement}
    (htest : Accepts last (parenthesized inner turns) i test m)
    (hc : Accepts last (inner .statement) m consequent r) (hr : peek last r ≠ .kwElse) :
    Accepts last (ifElse inner turns) (.taken .kwIf t :: i) (.ifElse test consequent none) r := by
  unfold ifElse
  exact .expect fun _ _ => .bind htest (.bind hc (.eatNot hr .pure))

theorem accepts_ifElse {test : Expression} {consequent alternate : Statement}
    (htest : Accepts last (parenthesized inner turns) i test m)
    (hc : Accepts last (inner .statement) m consequent (.taken .kwElse t' :: m'))
    (ha : Accepts last (inner .statement) m' alternate r) :
    Accepts last (ifElse inner turns) (.taken .kwIf t :: i)
      (.ifElse test consequent (some alternate)) r := by
  unfold ifElse
  exact .expect fun _ _ => .bind htest (.bind hc (.eat (.bind ha .pure)))

theorem accepts_doWhile {test : Expression} {body : Statement}
    (hbody : Accepts last (inner .statement) i body (.taken .kwWhile t' :: m))
    (htest : Accepts last (parenthesized inner turns) m test m')
    (hend : Accepts last endStatement m' () r) :
    Accepts last (doWhile inner turns) (.taken .kwDo t :: i) (.doWhile body test) r := by
  unfold doWhile
  exact .expect fun _ _ => .bind hbody (.expect fun _ _ => .bind htest (.bind hend .pure))

theorem accepts_whileDo {test : Expression} {body : Statement}
    (htest : Accepts last (parenthesized inner turns) i test m)
    (hbody : Accepts last (inner .statement) m body r) :
    Accepts last (whileDo inner turns) (.taken .kwWhile t :: i) (.whileDo test body) r := by
  unfold whileDo
  exact .expect fun _ _ => .bind htest (.bind hbody .pure)

theorem accepts_expressionAbsent {close : TokenKind} (hi : peek last i = close) :
    Accepts last (expressionBefore inner turns close) i none i := by
  unfold expressionBefore
  refine .isAt ?_
  simp only [hi, decide_true, if_true]
  exact .pure

theorem accepts_expressionPresent {close : TokenKind} (hi : peek last i ≠ close)
    (he : Accepts last (expression inner turns .normal) i e r) :
    Accepts last (expressionBefore inner turns close) i (some e) r := by
  unfold expressionBefore
  refine .isAt ?_
  simp only [hi, decide_false, Bool.false_eq_true, if_false]
  exact .map he

theorem accepts_forRest {init : Option ForInit} {test update : Option Expression}
    {body : Statement}
    (htest : Accepts last (expressionBefore inner turns .semicolon) i test
      (.taken .semicolon t' :: m))
    (hupdate : Accepts last (expressionBefore inner turns .closeParen) m update
      (.taken .closeParen t'' :: m'))
    (hbody : Accepts last (inner .statement) m' body r) :
    Accepts last (forRest inner turns init) (.taken .semicolon t :: i)
      (.forLoop init test update body) r := by
  unfold forRest
  exact .expect fun _ _ => .bind htest (.expect fun _ _ => .bind hupdate
    (.expect fun _ _ => .bind hbody .pure))

theorem accepts_forInRest {target : ForTarget} {object : Expression} {body : Statement}
    (ho : Accepts last (expression inner turns .normal) i object (.taken .closeParen t :: m))
    (hbody : Accepts last (inner .statement) m body r) :
    Accepts last (forInRest inner turns target) i (.forIn target object body) r := by
  unfold forInRest
  exact .bind ho (.expect fun _ _ => .bind hbody .pure)

theorem accepts_forVariables (hds : Accepts last (declarators inner turns .noIn) i ds m)
    (hm : ¬(ds.length = 1 ∧ peek last m = .kwIn))
    (h : Accepts last (forRest inner turns (some (.declared ds))) m s r) :
    Accepts last (forVariables inner turns) (.taken .kwVar t :: i) s r := by
  unfold forVariables
  refine .take fun _ _ _ => .bind hds ?_
  match ds, hm, h with
  | [], _, h => exact h
  | [d], hm, h => exact .eatNot (fun hin => hm ⟨rfl, hin⟩) h
  | _ :: _ :: _, _, h => exact h

theorem accepts_forInVariable {d : Declarator}
    (hd : Accepts last (declarators inner turns .noIn) i [d] (.taken .kwIn t' :: m))
    (h : Accepts last (forInRest inner turns (.declared d)) m s r) :
    Accepts last (forVariables inner turns) (.taken .kwVar t :: i) s r := by
  unfold forVariables
  exact .take fun _ _ _ => .bind hd (.eat h)

theorem accepts_forPrefixed {first : Expression}
    (h₁ : Accepts last (inner (.assignment .noIn)) i first m)
    (h₂ : Accepts last (sequenceRest inner turns first .noIn) m e m')
    (h : Accepts last (forRest inner turns (some (.expression e))) m' s r) :
    Accepts last (forPrefixed inner turns) i s r := by
  unfold forPrefixed
  exact .bind h₁ (.bind h₂ h)

theorem accepts_forExpression {left first : Expression}
    (hl : Accepts last (leftHandSide inner turns .noIn) i left m) (hm : peek last m ≠ .kwIn)
    (h₁ : Accepts last (assignmentRest inner turns left .noIn) m first m')
    (h₂ : Accepts last (sequenceRest inner turns first .noIn) m' e m'')
    (h : Accepts last (forRest inner turns (some (.expression e))) m'' s r) :
    Accepts last (forTarget inner turns) i s r := by
  unfold forTarget
  exact .bind hl (.eatNot hm (.bind h₁ (.bind h₂ h)))

theorem accepts_forInExpression {left : Expression}
    (hl : Accepts last (leftHandSide inner turns .noIn) i left (.taken .kwIn t :: m))
    (h : Accepts last (forInRest inner turns (.expression left)) m s r) :
    Accepts last (forTarget inner turns) i s r := by
  unfold forTarget
  exact .bind hl (.eat h)

/-! ## Jumps -/

theorem accepts_jumpBare {k : TokenKind} (hi : peek last i ≠ .identifier)
    (hend : Accepts last endStatement i () r) :
    Accepts last jump (.taken k t :: i) (jumpTo k none) r := by
  unfold jump
  refine .take fun tok hkind _ => .isAt ?_
  simp only [hi, decide_false, Bool.false_eq_true, if_false, pure_bind, hkind]
  exact .bind hend .pure

theorem accepts_jumpLabel {k : TokenKind} {label : Text}
    (hend : Accepts last endStatement i () r) :
    Accepts last jump (.taken k t :: .taken .identifier label :: i) (jumpTo k (some label)) r := by
  unfold jump
  refine .take fun tok hkind _ => .isAt ?_
  simp only [peek_taken, decide_true, if_true, map_eq_pure_bind, bind_assoc, pure_bind, hkind]
  exact .bindingName (.bind hend .pure)

theorem accepts_returnNothing (hi : endsReturn (peek last i))
    (hend : Accepts last endStatement i () r) :
    Accepts last (returnWith inner turns) (.taken .kwReturn t :: i) (.returnWith none) r := by
  unfold returnWith
  refine .expect fun _ _ => .kind ?_
  simp only [hi, if_true, pure_bind]
  exact .bind hend .pure

theorem accepts_returnValue (hi : endsReturn (peek last i) = false)
    (he : Accepts last (expression inner turns .normal) i e m)
    (hend : Accepts last endStatement m () r) :
    Accepts last (returnWith inner turns) (.taken .kwReturn t :: i) (.returnWith (some e)) r := by
  unfold returnWith
  refine .expect fun _ _ => .kind ?_
  simp only [hi, Bool.false_eq_true, if_false]
  exact .bind (.map he) (.bind hend .pure)

theorem accepts_throwValue (he : Accepts last (expression inner turns .normal) i e m)
    (hend : Accepts last endStatement m () r) :
    Accepts last (throwWith inner turns) (.taken .kwThrow t :: i) (.throwWith e) r := by
  unfold throwWith
  exact .expect fun _ _ => .bind he (.bind hend .pure)

/-! ## Compound statements -/

theorem accepts_withObject {object : Expression} {body : Statement}
    (ho : Accepts last (parenthesized inner turns) i object m)
    (hbody : Accepts last (inner .statement) m body r) :
    Accepts last (withObject inner turns) (.taken .kwWith t :: i) (.withObject object body) r := by
  unfold withObject
  exact .expect fun _ _ => .bind ho (.bind hbody .pure)

theorem accepts_switch {discriminant : Expression} {cs : List SwitchClause}
    (hd : Accepts last (parenthesized inner turns) i discriminant (.taken .openBrace t' :: m))
    (hcs : Accepts last (clauses inner turns false turns) m cs r) :
    Accepts last (switch inner turns) (.taken .kwSwitch t :: i) (.switch discriminant cs) r := by
  unfold switch
  exact .expect fun _ _ => .bind hd (.expect fun _ _ => .bind hcs .pure)

theorem accepts_clausesEnd {seen : Bool} :
    Accepts last (clauses inner turns seen (fuel + 1)) (.taken .closeBrace t :: r) [] r := by
  unfold clauses
  exact .eat .pure

theorem accepts_clausesCase {seen : Bool} {test : Expression} {cs : List SwitchClause}
    (htest : Accepts last (expression inner turns .normal) i test (.taken .colon t' :: m))
    (hss : Accepts last (elements inner clauseStops turns) m ss m')
    (hcs : Accepts last (clauses inner turns seen fuel) m' cs r) :
    Accepts last (clauses inner turns seen (fuel + 1)) (.taken .kwCase t :: i)
      (⟨some test, ss⟩ :: cs) r := by
  have hclause : Accepts last (clauseTest inner turns seen) (.taken .kwCase t :: i) (some test)
      (.taken .colon t' :: m) := by
    unfold clauseTest
    refine .kind ?_
    rw [peek_taken, if_pos rfl]
    exact .take fun _ _ _ => .map htest
  unfold clauses
  refine .eatNot (by simp) (.bind hclause (.expect fun _ _ => .bind hss ?_))
  rw [Option.isNone_some, Bool.or_false]
  exact .bind hcs .pure

theorem accepts_clausesDefault {cs : List SwitchClause}
    (hss : Accepts last (elements inner clauseStops turns) m ss m')
    (hcs : Accepts last (clauses inner turns true fuel) m' cs r) :
    Accepts last (clauses inner turns false (fuel + 1))
      (.taken .kwDefault t :: .taken .colon t' :: m) (⟨none, ss⟩ :: cs) r := by
  have hclause : Accepts last (clauseTest inner turns false)
      (.taken .kwDefault t :: .taken .colon t' :: m) none (.taken .colon t' :: m) := by
    unfold clauseTest
    refine .kind ?_
    rw [peek_taken, if_neg (by decide), if_pos (by decide)]
    exact .take fun _ _ _ => .pure
  unfold clauses
  exact .eatNot (by simp) (.bind hclause (.expect fun _ _ => .bind hss (.bind hcs .pure)))

theorem accepts_handlerAbsent (hi : peek last i ≠ .kwCatch) :
    Accepts last (handler inner turns) i none i := by
  unfold handler
  exact .eatNot hi .pure

theorem accepts_handlerPresent {param : Text} {t₁ : Text}
    (h : Accepts last (blockBody inner turns) i ss r) :
    Accepts last (handler inner turns)
      (.taken .kwCatch t :: .taken .openParen t' :: .taken .identifier param
        :: .taken .closeParen t₁ :: i) (some ⟨param, ss⟩) r := by
  unfold handler
  exact .eat (.expect fun _ _ => .bindingName (.expect fun _ _ => .bind h .pure))

/-- The final block of a statement that handles exceptions, if there is one. -/
def finalizer (inner : Inner) (turns : Nat) : Parser (Option Statement) := do
  if ← eat .kwFinally then some <$> block inner turns else pure none

theorem accepts_block (h : Accepts last (blockBody inner turns) i ss r) :
    Accepts last (block inner turns) i (.block ss) r := by
  unfold block
  exact .bind h .pure

theorem accepts_finalizerAbsent (hi : peek last i ≠ .kwFinally) :
    Accepts last (finalizer inner turns) i none i := by
  unfold finalizer
  exact .eatNot hi .pure

theorem accepts_finalizerPresent (h : Accepts last (blockBody inner turns) i ss r) :
    Accepts last (finalizer inner turns) (.taken .kwFinally t :: i) (some (.block ss)) r := by
  unfold finalizer
  exact .eat (.map (accepts_block h))

theorem accepts_tryCatch {hand : Option CatchClause} {fin : Option Statement}
    (hss : Accepts last (blockBody inner turns) i ss m)
    (hhand : Accepts last (handler inner turns) m hand m')
    (hfin : Accepts last (finalizer inner turns) m' fin r) (hsome : hand.isSome ∨ fin.isSome) :
    Accepts last (tryCatch inner turns) (.taken .kwTry t :: i) (.tryCatch (.block ss) hand fin)
      r := by
  have hnot : ¬(hand.isNone = true ∧ fin.isNone = true) := by
    cases hand <;> cases fin <;> simp at hsome ⊢
  have htail : Accepts last (finalizer inner turns >>= fun fin =>
      if hand.isNone ∧ fin.isNone then unexpected
      else pure (Statement.tryCatch (.block ss) hand fin)) m' (.tryCatch (.block ss) hand fin) r := by
    refine .bind hfin ?_
    rw [if_neg hnot]
    exact .pure
  rw [finalizer, bind_assoc] at htail
  unfold tryCatch
  refine .expect fun _ _ => .bind (accepts_block hss) (.bind hhand ?_)
  refine (congrArg (fun f => Accepts last (eat .kwFinally >>= f) m' _ r) (funext fun b => ?_)).mp
    htail
  cases b <;> rfl

end Statements

/-! ## The parsers of the nonterminals -/

/-- What follows `for (`. -/
def forHeader (inner : Inner) (turns : Nat) : Parser Statement := do
  let k ← kind
  if k = .semicolon then forRest inner turns none
  else if k = .kwVar then forVariables inner turns
  else if k.isPrefixOperator then forPrefixed inner turns
  else forTarget inner turns

/-- The parser of a part of the grammar.  Repetitions have `fuel` turns left. -/
def Nonterminal.parser (turns room fuel : Nat) : (n : Nonterminal) → Parser n.Tree
  | .rule r => Parser.rule turns room r
  | .body r => ruleBody (Parser.rule turns room) turns r
  | .sequenceRest first g => Parser.sequenceRest (Parser.rule turns room) turns first g
  | .operands g =>
      itemsUntil (return !(← eat .comma)) (Parser.rule turns room (.assignment g.operand)) fuel
  | .expression g => Parser.expression (Parser.rule turns room) turns g
  | .parenthesized => Parser.parenthesized (Parser.rule turns room) turns
  | .arguments => Parser.arguments (Parser.rule turns room) turns
  | .argumentsRest =>
      itemsUntil (eat .closeParen)
        (do let _ ← expect .comma; Parser.rule turns room (.assignment .normal)) fuel
  | .element => Parser.element (Parser.rule turns room)
  | .elements stops => Parser.elements (Parser.rule turns room) stops fuel
  | .blockBody => Parser.blockBody (Parser.rule turns room) turns
  | .function needsName => Parser.function (Parser.rule turns room) turns needsName
  | .parameters => Parser.parameters turns
  | .parametersRest =>
      itemsUntil (eat .closeParen) (do let _ ← expect .comma; bindingName) fuel
  | .arrayElements =>
      itemsUntil (isAt .closeBracket) (arrayElement (Parser.rule turns room)) fuel
  | .property => Parser.property (Parser.rule turns room) turns
  | .members =>
      itemsUntil (isAt .closeBrace) (objectMember (Parser.rule turns room) turns) fuel
  | .primary g => Parser.primary (Parser.rule turns room) turns g
  | .memberTail base => iterate (memberStep (Parser.rule turns room) turns) fuel base
  | .callTail base => iterate (callStep (Parser.rule turns room) turns) fuel base
  | .chainHead g => Parser.chainHead (Parser.rule turns room) turns g
  | .leftHandSide g => Parser.leftHandSide (Parser.rule turns room) turns g
  | .postfixed operand => Parser.postfixed operand
  | .binary left p g => Parser.binary (Parser.rule turns room) turns fuel left p g
  | .conditionalRest test g => Parser.conditionalRest (Parser.rule turns room) test g
  | .operatorsRest operand g => Parser.operatorsRest (Parser.rule turns room) turns operand g
  | .assignmentRest left g => Parser.assignmentRest (Parser.rule turns room) turns left g
  | .declarator g => Parser.declarator (Parser.rule turns room) g
  | .declarators g => Parser.declarators (Parser.rule turns room) turns g
  | .declaratorsRest g =>
      itemsUntil (return !(← eat .comma)) (Parser.declarator (Parser.rule turns room) g) fuel
  | .terminator => endStatement
  | .expressionBefore close => Parser.expressionBefore (Parser.rule turns room) turns close
  | .forHeader => Parser.forHeader (Parser.rule turns room) turns
  | .forRest init => Parser.forRest (Parser.rule turns room) turns init
  | .forInRest target => Parser.forInRest (Parser.rule turns room) turns target
  | .clauses seen => Parser.clauses (Parser.rule turns room) turns seen fuel
  | .handler => Parser.handler (Parser.rule turns room) turns
  | .finalizer => Parser.finalizer (Parser.rule turns room) turns

section Dispatch

variable {last : TokenKind} {inner : Inner} {turns : Nat}
variable {i r : List Item} {t t' : Text} {s : Statement}

theorem accepts_otherStatement (hi : opensStatement (peek last i) = false)
    (h : Accepts last (expressionOrLabelled inner turns) i s r) :
    Accepts last (statement inner turns) i s r := by
  unfold statement
  refine .kind ?_
  generalize peek last i = k at hi
  cases k <;> first | exact h | cases hi

theorem accepts_openBrace (hi : peek last i = .openBrace)
    (h : Accepts last (block inner turns) i s r) : Accepts last (statement inner turns) i s r := by
  unfold statement
  refine .kind ?_
  rw [hi]
  exact h

theorem accepts_jumpStatement {k : TokenKind} {its : List Item}
    (hk : k = .kwContinue ∨ k = .kwBreak) (h : Accepts last jump (.taken k t :: its) s r) :
    Accepts last (statement inner turns) (.taken k t :: its) s r := by
  unfold statement
  refine .kind ?_
  obtain rfl | rfl := hk
  · exact h
  · exact h

theorem accepts_end {item : Item} (hitem : (∃ k, item = .ended k) ∨ ∃ k, item = .inserted k) :
    Accepts last endStatement (item :: r) () r := by
  have h : Accepts last (endStatement >>= pure) (item :: r) () r := .endStatement hitem .pure
  rwa [bind_pure] at h

theorem accepts_bindingName {name : Text} :
    Accepts last bindingName (.taken .identifier name :: r) name r := by
  have h : Accepts last (bindingName >>= pure) (.taken .identifier name :: r) name r :=
    .bindingName .pure
  rwa [bind_pure] at h

theorem accepts_declaration {f : Function} (h : Accepts last (function inner turns true) i f r) :
    Accepts last (declaration inner turns) i (.function f) r := by
  unfold declaration
  exact .bind h .pure

theorem accepts_forNothing (hi : peek last i = .semicolon)
    (h : Accepts last (forRest inner turns none) i s r) :
    Accepts last (forHeader inner turns) i s r := by
  unfold forHeader
  refine .kind ?_
  rw [if_pos hi]
  exact h

theorem accepts_forPrefix (hi : (peek last i).isPrefixOperator)
    (h : Accepts last (forPrefixed inner turns) i s r) :
    Accepts last (forHeader inner turns) i s r := by
  have hs : peek last i ≠ .semicolon := by
    intro hk
    rw [hk] at hi
    cases hi
  have hv : peek last i ≠ .kwVar := by
    intro hk
    rw [hk] at hi
    cases hi
  unfold forHeader
  refine .kind ?_
  rw [if_neg hs, if_neg hv, if_pos hi]
  exact h

theorem accepts_forLoop (h : Accepts last (forHeader inner turns) i s r) :
    Accepts last (forLoop inner turns) (.taken .kwFor t :: .taken .openParen t' :: i) s r := by
  unfold forLoop
  exact .expect fun _ _ => .expect fun _ _ => h

theorem accepts_forTarget (hs : peek last i ≠ .semicolon) (hv : peek last i ≠ .kwVar)
    (hp : (peek last i).isPrefixOperator = false) (h : Accepts last (forTarget inner turns) i s r) :
    Accepts last (forHeader inner turns) i s r := by
  unfold forHeader
  refine .kind ?_
  simp only [hs, hv, hp, Bool.false_eq_true, if_false]
  exact h

end Dispatch

/-- What the grammar derives is accepted by the parser of the nonterminal. -/
theorem Derives.accepts {last : TokenKind} {room : Nat} {n : Nonterminal} {i r : List Item}
    {tree : n.Tree} (h : Derives last room n i tree r) {turns fuel : Nat} (hf : count i < fuel)
    (hle : fuel ≤ turns) : Accepts last (n.parser turns room fuel) i tree r := by
  induction h generalizing fuel with
  | nested _ ih => exact .deepen (ih hf hle)
  -- sequences and lists
  | sequenceEnd hi => exact accepts_sequenceEnd hi
  | sequenceMore hi _ ih => exact accepts_sequenceMore hi (ih (by omega) (Nat.le_refl turns))
  | operandsEnd hi =>
      obtain ⟨fuel, rfl⟩ := Nat.exists_eq_add_of_lt hf
      exact accepts_afterCommaEnd hi
  | operandsMore h₁ _ ih₁ ih₂ =>
      have := h₁.count_le
      rw [count_taken] at hf
      obtain ⟨fuel, rfl⟩ : ∃ k, fuel = k + 1 := ⟨fuel - 1, by omega⟩
      exact accepts_afterCommaMore (ih₁ (by omega) (Nat.le_refl turns)) (ih₂ (by omega) (by omega))
  | expression h₁ _ ih₁ ih₂ =>
      have := h₁.count_le
      exact accepts_expression (ih₁ hf hle) (ih₂ (by omega) hle)
  | parenthesized _ ih =>
      rw [count_taken] at hf
      exact accepts_parenthesized (ih (by omega) hle)
  | argumentsNone => exact accepts_arguments accepts_commaListNone
  | argumentsSome hi h₁ _ ih₁ ih₂ =>
      have := h₁.count_le
      rw [count_taken] at hf
      exact accepts_arguments (accepts_commaListSome hi (ih₁ (by omega) hle)
        (ih₂ (by omega) (Nat.le_refl turns)))
  | argumentsEnd =>
      obtain ⟨fuel, rfl⟩ := Nat.exists_eq_add_of_lt hf
      exact accepts_commaListEnd
  | argumentsMore h₁ _ ih₁ ih₂ =>
      have := h₁.count_le
      rw [count_taken] at hf
      obtain ⟨fuel, rfl⟩ : ∃ k, fuel = k + 1 := ⟨fuel - 1, by omega⟩
      exact accepts_commaListMore (by decide) (ih₁ (by omega) (Nat.le_refl turns))
        (ih₂ (by omega) (by omega))
  -- statement lists and functions
  | elementFunction hi _ ih => exact accepts_elementFunction hi (ih hf hle)
  | elementStatement hi _ ih => exact accepts_elementStatement hi (ih hf hle)
  | elementsEnd hi =>
      obtain ⟨fuel, rfl⟩ := Nat.exists_eq_add_of_lt hf
      exact accepts_elementsEnd hi
  | elementsMore hi h₁ _ ih₁ ih₂ =>
      have := h₁.least_le
      rw [count_comments] at hf
      simp only [Nonterminal.least] at this
      obtain ⟨fuel, rfl⟩ : ∃ k, fuel = k + 1 := ⟨fuel - 1, by omega⟩
      exact accepts_elementsMore hi (ih₁ (by omega) (Nat.le_refl turns)) (ih₂ (by omega) (by omega))
  | blockBody _ ih =>
      rw [count_taken] at hf
      exact accepts_blockBody (ih (by omega) (Nat.le_refl turns))
  | functionNamed h₁ _ ih₁ ih₂ =>
      have := h₁.count_le
      rw [count_taken, count_taken] at hf
      exact accepts_functionNamed (ih₁ (by omega) hle) (ih₂ (by omega) hle)
  | @functionPlain _ _ _ _ _ _ _ h₁ _ ih₁ ih₂ =>
      have := h₁.count_le
      rw [count_taken] at hf
      refine accepts_functionPlain ?_ (ih₁ (by omega) hle) (ih₂ (by omega) hle)
      cases h₁ <;> simp
  | parametersNone => exact accepts_parameters accepts_commaListNone
  | parametersSome _ ih =>
      rw [count_taken, count_taken] at hf
      exact accepts_parameters (accepts_commaListSome (by simp) accepts_bindingName
        (ih (by omega) (Nat.le_refl turns)))
  | parametersEnd =>
      obtain ⟨fuel, rfl⟩ := Nat.exists_eq_add_of_lt hf
      exact accepts_commaListEnd
  | parametersMore _ ih =>
      rw [count_taken, count_taken] at hf
      obtain ⟨fuel, rfl⟩ : ∃ k, fuel = k + 1 := ⟨fuel - 1, by omega⟩
      exact accepts_commaListMore (by decide) accepts_bindingName (ih (by omega) (by omega))
  -- literals with parts
  | arrayEnd hi =>
      obtain ⟨fuel, rfl⟩ := Nat.exists_eq_add_of_lt hf
      exact accepts_untilEnd hi
  | arrayHole _ ih =>
      rw [count_taken] at hf
      obtain ⟨fuel, rfl⟩ : ∃ k, fuel = k + 1 := ⟨fuel - 1, by omega⟩
      exact accepts_untilMore (by simp) accepts_arrayHole (ih (by omega) (by omega))
  | arrayLast hi hi' h₁ hm _ ih₁ ih₂ =>
      have := h₁.least_le
      simp only [Nonterminal.least] at this
      obtain ⟨fuel, rfl⟩ : ∃ k, fuel = k + 1 := ⟨fuel - 1, by omega⟩
      exact accepts_untilMore hi (accepts_arrayLast hi' hm (ih₁ (by omega) (Nat.le_refl turns)))
        (ih₂ (by omega) (by omega))
  | arrayMore hi hi' h₁ _ ih₁ ih₂ =>
      have := h₁.count_le
      rw [count_taken] at this
      obtain ⟨fuel, rfl⟩ : ∃ k, fuel = k + 1 := ⟨fuel - 1, by omega⟩
      exact accepts_untilMore hi (accepts_arrayMore hi' (ih₁ (by omega) (Nat.le_refl turns)))
        (ih₂ (by omega) (by omega))
  | propertyInit hkey _ ih =>
      rw [count_taken, count_taken] at hf
      exact accepts_propertyInit hkey (ih (by omega) hle)
  | propertyGetter hkey _ ih =>
      simp only [count_taken] at hf
      exact accepts_propertyGetter hkey (ih (by omega) hle)
  | propertySetter hkey _ ih =>
      simp only [count_taken] at hf
      exact accepts_propertySetter hkey (ih (by omega) hle)
  | membersEnd hi =>
      obtain ⟨fuel, rfl⟩ := Nat.exists_eq_add_of_lt hf
      exact accepts_untilEnd hi
  | membersLast hi h₁ hm _ ih₁ ih₂ =>
      have := h₁.least_le
      simp only [Nonterminal.least] at this
      obtain ⟨fuel, rfl⟩ : ∃ k, fuel = k + 1 := ⟨fuel - 1, by omega⟩
      exact accepts_untilMore hi (accepts_memberLast hm (ih₁ (by omega) (Nat.le_refl turns)))
        (ih₂ (by omega) (by omega))
  | membersMore hi h₁ _ ih₁ ih₂ =>
      have := h₁.count_le
      rw [count_taken] at this
      obtain ⟨fuel, rfl⟩ : ∃ k, fuel = k + 1 := ⟨fuel - 1, by omega⟩
      exact accepts_untilMore hi (accepts_memberMore (ih₁ (by omega) (Nat.le_refl turns)))
        (ih₂ (by omega) (by omega))
  -- primary expressions
  | primaryThis => exact accepts_primaryThis
  | primaryName => exact accepts_primaryName
  | primaryNull => exact accepts_primaryNull
  | primaryTrue => exact accepts_primaryTrue
  | primaryFalse => exact accepts_primaryFalse
  | primaryString => exact accepts_primaryString
  | primaryNumber hv => exact accepts_number hv
  | primaryRegex => exact accepts_regex
  | primaryArray _ ih =>
      rw [count_taken] at hf
      exact accepts_primaryArray (ih (by omega) (Nat.le_refl turns))
  | primaryObject hg _ ih =>
      rw [count_taken] at hf
      exact accepts_primaryObject hg (ih (by omega) (Nat.le_refl turns))
  | primaryFunction hg hi _ ih => exact accepts_primaryFunction hg hi (ih hf hle)
  | primaryParenthesized hi _ ih => exact accepts_primaryParenthesized hi (ih hf hle)
  -- left-hand sides
  | memberEnd hd hb =>
      obtain ⟨fuel, rfl⟩ := Nat.exists_eq_add_of_lt hf
      exact accepts_memberEnd hd hb
  | memberDot _ ih =>
      rw [count_member] at hf
      obtain ⟨fuel, rfl⟩ : ∃ k, fuel = k + 1 := ⟨fuel - 1, by omega⟩
      exact accepts_memberDot (ih (by omega) (by omega))
  | memberBracket h₁ _ ih₁ ih₂ =>
      have := h₁.count_le
      rw [count_taken] at hf this
      obtain ⟨fuel, rfl⟩ : ∃ k, fuel = k + 1 := ⟨fuel - 1, by omega⟩
      exact accepts_memberBracket (ih₁ (by omega) (Nat.le_refl turns)) (ih₂ (by omega) (by omega))
  | callEnd hi =>
      obtain ⟨fuel, rfl⟩ := Nat.exists_eq_add_of_lt hf
      exact accepts_callEnd hi
  | callMore hi h₁ h₂ _ ih₁ ih₂ ih₃ =>
      have := h₂.count_le
      have := h₁.least_le
      simp only [Nonterminal.least] at this
      obtain ⟨fuel, rfl⟩ : ∃ k, fuel = k + 1 := ⟨fuel - 1, by omega⟩
      exact accepts_callMore hi (ih₁ (by omega) (Nat.le_refl turns))
        (ih₂ (by omega) (Nat.le_refl turns)) (ih₃ (by omega) (by omega))
  | headNew hi _ ih => exact accepts_headNew hi (ih hf hle)
  | headPrimary hi _ ih => exact accepts_headPrimary hi (ih hf hle)
  | leftHandSide h₁ h₂ _ ih₁ ih₂ ih₃ =>
      have := h₁.count_le
      have := h₂.count_le
      exact accepts_leftHandSide (ih₁ hf hle) (ih₂ (by omega) (Nat.le_refl turns))
        (ih₃ (by omega) (Nat.le_refl turns))
  | constructionApplied h₁ h₂ hm _ ih₁ ih₂ ih₃ =>
      have := h₁.count_le
      have := h₂.count_le
      rw [count_taken] at hf
      exact accepts_constructionApplied (ih₁ (by omega) hle) (ih₂ (by omega) (Nat.le_refl turns)) hm
        (ih₃ (by omega) hle)
  | constructionBare h₁ _ hr ih₁ ih₂ =>
      have := h₁.count_le
      rw [count_taken] at hf
      exact accepts_constructionBare (ih₁ (by omega) hle) (ih₂ (by omega) (Nat.le_refl turns)) hr
  -- operators
  | postfixEnd hi => exact accepts_postfixEnd hi
  | postfixMore hop => exact accepts_postfixMore hop
  | unaryPrefix hop _ ih =>
      rw [count_taken] at hf
      exact accepts_unaryPrefix hop (ih (by omega) hle)
  | unaryPostfix hi h₁ _ ih₁ ih₂ =>
      have := h₁.count_le
      exact accepts_unaryPostfix hi (ih₁ hf hle) (ih₂ (by omega) hle)
  | binaryEnd hi =>
      obtain ⟨fuel, rfl⟩ := Nat.exists_eq_add_of_lt hf
      exact accepts_binaryEnd hi
  | binaryMore hop h₁ h₂ _ ih₁ ih₂ ih₃ =>
      have := h₁.count_le
      have := h₂.count_le
      rw [count_taken] at hf
      obtain ⟨fuel, rfl⟩ : ∃ k, fuel = k + 1 := ⟨fuel - 1, by omega⟩
      exact accepts_binaryMore hop (ih₁ (by omega) (Nat.le_refl turns)) (ih₂ (by omega) (by omega))
        (ih₃ (by omega) (by omega))
  | conditionalEnd hi => exact accepts_conditionalEnd hi
  | conditionalMore h₁ _ ih₁ ih₂ =>
      have := h₁.count_le
      rw [count_taken] at hf this
      exact accepts_conditionalMore (ih₁ (by omega) hle) (ih₂ (by omega) hle)
  | operatorsRest h₁ _ ih₁ ih₂ =>
      have := h₁.count_le
      exact accepts_operatorsRest (ih₁ (by omega) (Nat.le_refl turns)) (ih₂ (by omega) hle)
  | assignMore hop _ ih =>
      rw [count_taken] at hf
      exact accepts_assignMore hop (ih (by omega) hle)
  | assignEnd hi h₁ _ ih₁ ih₂ =>
      have := h₁.count_le
      exact accepts_assignEnd hi (ih₁ hf hle) (ih₂ (by omega) hle)
  | assignmentPrefixed hi h₁ _ ih₁ ih₂ =>
      have := h₁.count_le
      exact accepts_assignmentPrefixed hi (ih₁ hf hle) (ih₂ (by omega) hle)
  | assignmentPlain hi h₁ _ ih₁ ih₂ =>
      have := h₁.count_le
      exact accepts_assignmentPlain hi (ih₁ hf hle) (ih₂ (by omega) hle)
  -- declared variables
  | declaratorPlain hi => exact accepts_declaratorPlain hi
  | declaratorInit _ ih =>
      rw [count_taken, count_taken] at hf
      exact accepts_declaratorInit (ih (by omega) hle)
  | declarators h₁ _ ih₁ ih₂ =>
      have := h₁.count_le
      exact accepts_declarators (ih₁ hf hle) (ih₂ (by omega) (Nat.le_refl turns))
  | declaratorsEnd hi =>
      obtain ⟨fuel, rfl⟩ := Nat.exists_eq_add_of_lt hf
      exact accepts_afterCommaEnd hi
  | declaratorsMore h₁ _ ih₁ ih₂ =>
      have := h₁.count_le
      rw [count_taken] at hf
      obtain ⟨fuel, rfl⟩ : ∃ k, fuel = k + 1 := ⟨fuel - 1, by omega⟩
      exact accepts_afterCommaMore (ih₁ (by omega) (Nat.le_refl turns)) (ih₂ (by omega) (by omega))
  -- statements
  | @ended _ k _ => exact accepts_end (.inl ⟨k, rfl⟩)
  | @inserted _ k _ => exact accepts_end (.inr ⟨k, rfl⟩)
  | block hi _ ih =>
      exact accepts_openBrace hi (accepts_block (ih hf hle))
  | declare h₁ _ ih₁ ih₂ =>
      have := h₁.count_le
      rw [count_taken] at hf
      exact .kind (accepts_declare (ih₁ (by omega) hle) (ih₂ (by omega) hle))
  | empty => exact .kind accepts_empty
  | labelled _ h₂ ih₁ ih₂ =>
      have hf' := hf
      rw [count_taken, count_taken] at hf'
      exact .kind (accepts_labelled (ih₁ hf hle) (ih₂ (by omega) hle))
  | expressionStatement hi h₁ hname _ ih₁ ih₂ =>
      have := h₁.count_le
      exact accepts_otherStatement hi
        (accepts_expressionStatement (ih₁ hf hle) hname (ih₂ (by omega) hle))
  | debugger _ ih =>
      rw [count_taken] at hf
      exact .kind (accepts_debugger (ih (by omega) hle))
  | ifThen h₁ _ hr ih₁ ih₂ =>
      have := h₁.count_le
      rw [count_taken] at hf
      exact .kind (accepts_ifThen (ih₁ (by omega) hle) (ih₂ (by omega) hle) hr)
  | ifElse h₁ h₂ _ ih₁ ih₂ ih₃ =>
      have := h₁.count_le
      have := h₂.count_le
      rw [count_taken] at hf this
      exact .kind (accepts_ifElse (ih₁ (by omega) hle) (ih₂ (by omega) hle) (ih₃ (by omega) hle))
  | doWhile h₁ h₂ _ ih₁ ih₂ ih₃ =>
      have := h₂.count_le
      have := h₁.count_le
      rw [count_taken] at hf this
      exact .kind (accepts_doWhile (ih₁ (by omega) hle) (ih₂ (by omega) hle) (ih₃ (by omega) hle))
  | whileDo h₁ _ ih₁ ih₂ =>
      have := h₁.count_le
      rw [count_taken] at hf
      exact .kind (accepts_whileDo (ih₁ (by omega) hle) (ih₂ (by omega) hle))
  | forLoop _ ih =>
      rw [count_taken, count_taken] at hf
      exact .kind (accepts_forLoop (ih (by omega) hle))
  | forNothing hi _ ih =>
      exact accepts_forNothing hi (ih hf hle)
  | forVariables h₁ hm _ ih₁ ih₂ =>
      have := h₁.count_le
      rw [count_taken] at hf
      exact .kind (accepts_forVariables (ih₁ (by omega) hle) hm (ih₂ (by omega) hle))
  | forInVariable h₁ _ ih₁ ih₂ =>
      have := h₁.count_le
      rw [count_taken] at hf this
      exact .kind (accepts_forInVariable (ih₁ (by omega) hle) (ih₂ (by omega) hle))
  | forPrefixed hi h₁ h₂ _ ih₁ ih₂ ih₃ =>
      have := h₁.count_le
      have := h₂.count_le
      exact accepts_forPrefix hi (accepts_forPrefixed (ih₁ hf hle) (ih₂ (by omega) hle)
        (ih₃ (by omega) hle))
  | forExpression hs hv hp h₁ hm h₂ h₃ _ ih₁ ih₂ ih₃ ih₄ =>
      have := h₁.count_le
      have := h₂.count_le
      have := h₃.count_le
      exact accepts_forTarget hs hv hp (accepts_forExpression (ih₁ hf hle) hm (ih₂ (by omega) hle)
        (ih₃ (by omega) hle) (ih₄ (by omega) hle))
  | forInExpression hs hv hp h₁ _ ih₁ ih₂ =>
      have := h₁.count_le
      rw [count_taken] at this
      exact accepts_forTarget hs hv hp (accepts_forInExpression (ih₁ hf hle) (ih₂ (by omega) hle))
  | forRest h₁ h₂ _ ih₁ ih₂ ih₃ =>
      have := h₁.count_le
      have := h₂.count_le
      simp only [count_taken] at *
      exact accepts_forRest (ih₁ (by omega) hle) (ih₂ (by omega) hle) (ih₃ (by omega) hle)
  | forInRest h₁ _ ih₁ ih₂ =>
      have := h₁.count_le
      rw [count_taken] at this
      exact accepts_forInRest (ih₁ hf hle) (ih₂ (by omega) hle)
  | expressionAbsent hi => exact accepts_expressionAbsent hi
  | expressionPresent hi _ ih => exact accepts_expressionPresent hi (ih hf hle)
  | jumpBare hk hi _ ih =>
      rw [count_taken] at hf
      exact accepts_jumpStatement hk (accepts_jumpBare hi (ih (by omega) hle))
  | jumpLabel hk _ ih =>
      rw [count_taken, count_taken] at hf
      exact accepts_jumpStatement hk (accepts_jumpLabel (ih (by omega) hle))
  | returnNothing hi _ ih =>
      rw [count_taken] at hf
      exact .kind (accepts_returnNothing hi (ih (by omega) hle))
  | returnValue hi h₁ _ ih₁ ih₂ =>
      have := h₁.count_le
      rw [count_taken] at hf
      exact .kind (accepts_returnValue hi (ih₁ (by omega) hle) (ih₂ (by omega) hle))
  | throwValue h₁ _ ih₁ ih₂ =>
      have := h₁.count_le
      rw [count_taken] at hf
      exact .kind (accepts_throwValue (ih₁ (by omega) hle) (ih₂ (by omega) hle))
  | withObject h₁ _ ih₁ ih₂ =>
      have := h₁.count_le
      rw [count_taken] at hf
      exact .kind (accepts_withObject (ih₁ (by omega) hle) (ih₂ (by omega) hle))
  | switch h₁ _ ih₁ ih₂ =>
      have := h₁.count_le
      rw [count_taken] at hf this
      exact .kind (accepts_switch (ih₁ (by omega) hle) (ih₂ (by omega) (Nat.le_refl turns)))
  | clausesEnd =>
      obtain ⟨fuel, rfl⟩ := Nat.exists_eq_add_of_lt hf
      exact accepts_clausesEnd
  | clausesCase h₁ h₂ _ ih₁ ih₂ ih₃ =>
      have := h₁.count_le
      have := h₂.count_le
      simp only [count_taken] at *
      obtain ⟨fuel, rfl⟩ : ∃ k, fuel = k + 1 := ⟨fuel - 1, by omega⟩
      exact accepts_clausesCase (ih₁ (by omega) (Nat.le_refl turns))
        (ih₂ (by omega) (Nat.le_refl turns))
        (ih₃ (by omega) (by omega))
  | clausesDefault h₁ _ ih₁ ih₂ =>
      have := h₁.count_le
      rw [count_taken, count_taken] at hf
      obtain ⟨fuel, rfl⟩ : ∃ k, fuel = k + 1 := ⟨fuel - 1, by omega⟩
      exact accepts_clausesDefault (ih₁ (by omega) (Nat.le_refl turns)) (ih₂ (by omega) (by omega))
  | tryCatch h₁ h₂ _ hsome ih₁ ih₂ ih₃ =>
      have := h₁.count_le
      have := h₂.count_le
      rw [count_taken] at hf
      exact .kind (accepts_tryCatch (ih₁ (by omega) hle) (ih₂ (by omega) hle) (ih₃ (by omega) hle)
        hsome)
  | handlerAbsent hi => exact accepts_handlerAbsent hi
  | handlerPresent _ ih =>
      simp only [count_taken] at hf
      exact accepts_handlerPresent (ih (by omega) hle)
  | finalizerAbsent hi => exact accepts_finalizerAbsent hi
  | finalizerPresent _ ih =>
      rw [count_taken] at hf
      exact accepts_finalizerPresent (ih (by omega) hle)
  | declaration _ ih => exact accepts_declaration (ih hf hle)

end Parser
end EcmaSyntax
