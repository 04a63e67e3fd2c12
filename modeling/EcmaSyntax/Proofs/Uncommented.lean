import EcmaSyntax.Proofs.Grammar
import Mathlib.Logic.Basic

/-!
# Programs without their comments

**Input.**  A syntax tree.  Comments are members of the statement lists in it.

**Results.**
* `Derives.redone`: from items that differ only in the comments that were claimed, the
  grammar derives a tree that differs only in its comments.

Which comments stand between two tokens makes no difference to any choice of the grammar.
-/

namespace EcmaSyntax

/-- Whether a statement is a comment. -/
def Statement.isComment : Statement → Bool
  | .comment _ => true
  | _ => false

mutual

/-- An expression without the comments in its functions. -/
def Expression.uncommented : Expression → Expression
  | .this => .this
  | .identifier name => .identifier name
  | .null => .null
  | .boolean value => .boolean value
  | .number value => .number value
  | .string value => .string value
  | .regex pattern flags => .regex pattern flags
  | .array elements => .array (elementsUncommented elements)
  | .object properties => .object (propertiesUncommented properties)
  | .function f => .function f.uncommented
  | .unary op operand isPostfix => .unary op operand.uncommented isPostfix
  | .binary left op right => .binary left.uncommented op right.uncommented
  | .logical left op right => .logical left.uncommented op right.uncommented
  | .assign target op value => .assign target.uncommented op value.uncommented
  | .conditional test consequent alternate =>
      .conditional test.uncommented consequent.uncommented alternate.uncommented
  | .dot base property => .dot base.uncommented property
  | .bracket base index => .bracket base.uncommented index.uncommented
  | .call callee args => .call callee.uncommented (expressionsUncommented args)
  | .construct callee args => .construct callee.uncommented (expressionsUncommented args)
  | .sequence operands => .sequence (expressionsUncommented operands)

/-- A statement without the comments in its lists. -/
def Statement.uncommented : Statement → Statement
  | .block body => .block (statementsUncommented body)
  | .declare ds => .declare (declaratorsUncommented ds)
  | .empty => .empty
  | .expression e => .expression e.uncommented
  | .ifElse test consequent alternate =>
      .ifElse test.uncommented consequent.uncommented (alternateUncommented alternate)
  | .doWhile body test => .doWhile body.uncommented test.uncommented
  | .whileDo test body => .whileDo test.uncommented body.uncommented
  | .forLoop init test update body =>
      .forLoop (initUncommented init) (optionUncommented test) (optionUncommented update)
        body.uncommented
  | .forIn target object body => .forIn target.uncommented object.uncommented body.uncommented
  | .continueTo label => .continueTo label
  | .breakTo label => .breakTo label
  | .returnWith value => .returnWith (optionUncommented value)
  | .withObject object body => .withObject object.uncommented body.uncommented
  | .switch discriminant clauses => .switch discriminant.uncommented (clausesUncommented clauses)
  | .labelled label body => .labelled label body.uncommented
  | .throwWith value => .throwWith value.uncommented
  | .tryCatch guarded handler finalizer =>
      .tryCatch guarded.uncommented (handlerUncommented handler) (alternateUncommented finalizer)
  | .debugger => .debugger
  | .function f => .function f.uncommented
  | .comment c => .comment c

/-- A property without comments. -/
def Property.uncommented : Property → Property
  | .init key value => .init key value.uncommented
  | .getter key body => .getter key (statementsUncommented body)
  | .setter key param body => .setter key param (statementsUncommented body)

/-- A loop's initial part without comments. -/
def ForInit.uncommented : ForInit → ForInit
  | .declared ds => .declared (declaratorsUncommented ds)
  | .expression e => .expression e.uncommented

/-- An enumerating loop's target without comments. -/
def ForTarget.uncommented : ForTarget → ForTarget
  | .declared d => .declared d.uncommented
  | .expression e => .expression e.uncommented

/-- A declarator without comments. -/
def Declarator.uncommented : Declarator → Declarator
  | ⟨name, initializer⟩ => ⟨name, optionUncommented initializer⟩

/-- A clause without comments. -/
def SwitchClause.uncommented : SwitchClause → SwitchClause
  | ⟨test, body⟩ => ⟨optionUncommented test, statementsUncommented body⟩

/-- A handler without comments. -/
def CatchClause.uncommented : CatchClause → CatchClause
  | ⟨param, body⟩ => ⟨param, statementsUncommented body⟩

/-- A function without comments. -/
def Function.uncommented : Function → Function
  | ⟨name, params, body⟩ => ⟨name, params, statementsUncommented body⟩

/-- The statements of a list, but for its comments. -/
def statementsUncommented : List Statement → List Statement
  | [] => []
  | s :: body =>
      if s.isComment then statementsUncommented body
      else s.uncommented :: statementsUncommented body

/-- The expressions of a list without comments. -/
def expressionsUncommented : List Expression → List Expression
  | [] => []
  | e :: es => e.uncommented :: expressionsUncommented es

/-- The elements of an array without comments. -/
def elementsUncommented : List (Option Expression) → List (Option Expression)
  | [] => []
  | none :: es => none :: elementsUncommented es
  | some e :: es => some e.uncommented :: elementsUncommented es

/-- The properties of a list without comments. -/
def propertiesUncommented : List Property → List Property
  | [] => []
  | p :: ps => p.uncommented :: propertiesUncommented ps

/-- The declarators of a list without comments. -/
def declaratorsUncommented : List Declarator → List Declarator
  | [] => []
  | d :: ds => d.uncommented :: declaratorsUncommented ds

/-- The clauses of a list without comments. -/
def clausesUncommented : List SwitchClause → List SwitchClause
  | [] => []
  | c :: cs => c.uncommented :: clausesUncommented cs

/-- An optional expression without comments. -/
def optionUncommented : Option Expression → Option Expression
  | none => none
  | some e => some e.uncommented

/-- An optional statement without comments. -/
def alternateUncommented : Option Statement → Option Statement
  | none => none
  | some s => some s.uncommented

/-- An optional initial part without comments. -/
def initUncommented : Option ForInit → Option ForInit
  | none => none
  | some i => some i.uncommented

/-- An optional handler without comments. -/
def handlerUncommented : Option CatchClause → Option CatchClause
  | none => none
  | some c => some c.uncommented

end

/-- A program without its comments. -/
def Program.uncommented (p : Program) : Program := ⟨statementsUncommented p.body⟩

/-! ## Statement lists -/

theorem statementsUncommented_append (cs : List Comment) (body : List Statement) :
    statementsUncommented (cs.map .comment ++ body) = statementsUncommented body := by
  induction cs with
  | nil => rfl
  | cons c cs ih => exact ih

theorem statementsUncommented_map (cs : List Comment) :
    statementsUncommented (cs.map .comment) = [] := by
  rw [← List.append_nil (cs.map _), statementsUncommented_append]
  rfl

theorem Statement.isComment_uncommented (s : Statement) :
    s.uncommented.isComment = s.isComment := by
  cases s <;> rfl

theorem statementsUncommented_cons {s s' : Statement} {body body' : List Statement}
    (hs : s'.uncommented = s.uncommented)
    (hbody : statementsUncommented body' = statementsUncommented body) :
    statementsUncommented (s' :: body') = statementsUncommented (s :: body) := by
  have hc : s'.isComment = s.isComment := by
    rw [← s'.isComment_uncommented, hs, s.isComment_uncommented]
  rw [statementsUncommented, statementsUncommented, hc, hs, hbody]

theorem isName_uncommented (e : Expression) :
    Parser.isName e.uncommented = Parser.isName e := by
  cases e <;> rfl

theorem isName_congr {e e' : Expression} (h : e'.uncommented = e.uncommented) :
    Parser.isName e' = Parser.isName e := by
  rw [← isName_uncommented, h, isName_uncommented]

theorem length_declaratorsUncommented (ds : List Declarator) :
    (declaratorsUncommented ds).length = ds.length := by
  induction ds with
  | nil => rfl
  | cons d ds ih => simp [declaratorsUncommented, ih]

theorem length_declarators_congr {ds ds' : List Declarator}
    (h : declaratorsUncommented ds' = declaratorsUncommented ds) : ds'.length = ds.length := by
  rw [← length_declaratorsUncommented, h, length_declaratorsUncommented]

theorem declaratorsUncommented_singleton {d : Declarator} {ds : List Declarator}
    (h : declaratorsUncommented ds = declaratorsUncommented [d]) :
    ∃ d', ds = [d'] ∧ d'.uncommented = d.uncommented := by
  obtain ⟨d', rfl⟩ := List.length_eq_one_iff.mp (length_declarators_congr h)
  simp only [declaratorsUncommented, List.cons.injEq, and_true] at h
  exact ⟨d', rfl, h⟩

theorem isSome_handler_congr {c c' : Option CatchClause}
    (h : handlerUncommented c' = handlerUncommented c) : c'.isSome = c.isSome := by
  cases c <;> cases c' <;> first | rfl | cases h

theorem isSome_alternate_congr {s s' : Option Statement}
    (h : alternateUncommented s' = alternateUncommented s) : s'.isSome = s.isSome := by
  cases s <;> cases s' <;> first | rfl | cases h

theorem InfixOperator.uncommented_apply (op : InfixOperator) (left right : Expression) :
    (op.apply left right).uncommented = op.apply left.uncommented right.uncommented := by
  cases op <;> rfl

theorem InfixOperator.apply_uncommented {op : InfixOperator} {left right left' right' : Expression}
    (hl : left'.uncommented = left.uncommented) (hr : right'.uncommented = right.uncommented) :
    (op.apply left' right').uncommented = (op.apply left right).uncommented := by
  rw [uncommented_apply, uncommented_apply, hl, hr]

/-- What a rule yields, without comments. -/
def Rule.uncommented : (r : Rule) → r.Tree → r.Tree
  | .statement, s => s.uncommented
  | .declaration, s => s.uncommented
  | .assignment _, e => e.uncommented
  | .operand _, e => e.uncommented
  | .construction, e => e.uncommented

namespace Parser

/-- What a part of the grammar yields, without comments. -/
def Nonterminal.uncommented : (n : Nonterminal) → n.Tree → n.Tree
  | .rule r, tree => r.uncommented tree
  | .body r, tree => r.uncommented tree
  | .sequenceRest _ _, e => e.uncommented
  | .operands _, es => expressionsUncommented es
  | .expression _, e => e.uncommented
  | .parenthesized, e => e.uncommented
  | .arguments, es => expressionsUncommented es
  | .argumentsRest, es => expressionsUncommented es
  | .element, s => s.uncommented
  | .elements _, ss => statementsUncommented ss
  | .blockBody, ss => statementsUncommented ss
  | .function _, f => f.uncommented
  | .parameters, ps => ps
  | .parametersRest, ps => ps
  | .arrayElements, es => elementsUncommented es
  | .property, p => p.uncommented
  | .members, ps => propertiesUncommented ps
  | .primary _, e => e.uncommented
  | .memberTail _, e => e.uncommented
  | .callTail _, e => e.uncommented
  | .chainHead _, e => e.uncommented
  | .leftHandSide _, e => e.uncommented
  | .postfixed _, e => e.uncommented
  | .binary _ _ _, e => e.uncommented
  | .conditionalRest _ _, e => e.uncommented
  | .operatorsRest _ _, e => e.uncommented
  | .assignmentRest _ _, e => e.uncommented
  | .declarator _, d => d.uncommented
  | .declarators _, ds => declaratorsUncommented ds
  | .declaratorsRest _, ds => declaratorsUncommented ds
  | .terminator, u => u
  | .expressionBefore _, e => optionUncommented e
  | .forHeader, s => s.uncommented
  | .forRest _, s => s.uncommented
  | .forInRest _, s => s.uncommented
  | .clauses _, cs => clausesUncommented cs
  | .handler, h => handlerUncommented h
  | .finalizer, f => alternateUncommented f

/-- Items that differ only in the comments that were claimed. -/
def Recommented : List Item → List Item → Prop
  | [], x => x = []
  | .comments _ :: its, x => ∃ cs its', x = .comments cs :: its' ∧ Recommented its its'
  | it :: its, x => ∃ its', x = it :: its' ∧ Recommented its its'

namespace Recommented

variable {its its' : List Item}

theorem nil : Recommented [] [] := rfl

theorem cons (it : Item) (h : Recommented its its') : Recommented (it :: its) (it :: its') := by
  cases it with
  | comments cs => exact ⟨cs, its', rfl, h⟩
  | _ => exact ⟨its', rfl, h⟩

theorem comments (cs cs' : List Comment) (h : Recommented its its') :
    Recommented (.comments cs :: its) (.comments cs' :: its') :=
  ⟨cs', its', rfl, h⟩

theorem refl (its : List Item) : Recommented its its := by
  induction its with
  | nil => exact .nil
  | cons it its ih => exact .cons it ih

/-- Comments do not change the token at hand. -/
theorem peek_eq (last : TokenKind) (h : Recommented its its') :
    peek last its' = peek last its := by
  induction its generalizing its' with
  | nil =>
      obtain rfl := h
      rfl
  | cons it its ih =>
      cases it with
      | comments =>
          obtain ⟨_, its'', rfl, h⟩ := h
          show peek last its'' = peek last its
          exact ih h
      | _ =>
          obtain ⟨_, rfl, -⟩ := h
          rfl

end Recommented

/-- From items with other comments, a part of the grammar yields a tree with other comments. -/
def Redone (last : TokenKind) (room : Nat) (n : Nonterminal) (i : List Item) (tree : n.Tree)
    (r : List Item) : Prop :=
  ∀ i', Recommented i i' → ∃ (tree' : n.Tree) (r' : List Item), Recommented r r' ∧
    n.uncommented tree' = n.uncommented tree ∧ Derives last room n i' tree' r'

/-- What a part of the grammar starts from may have other comments too. -/
def Nonterminal.Redone (last : TokenKind) (room : Nat) :
    (n : Nonterminal) → List Item → n.Tree → List Item → Prop
  | .sequenceRest first g, i, e, r => ∀ first', first'.uncommented = first.uncommented →
      Parser.Redone last room (.sequenceRest first' g) i e r
  | .memberTail base, i, e, r => ∀ base', base'.uncommented = base.uncommented →
      Parser.Redone last room (.memberTail base') i e r
  | .callTail base, i, e, r => ∀ base', base'.uncommented = base.uncommented →
      Parser.Redone last room (.callTail base') i e r
  | .postfixed operand, i, e, r => ∀ operand', operand'.uncommented = operand.uncommented →
      Parser.Redone last room (.postfixed operand') i e r
  | .binary left p g, i, e, r => ∀ left', left'.uncommented = left.uncommented →
      Parser.Redone last room (.binary left' p g) i e r
  | .conditionalRest test g, i, e, r => ∀ test', test'.uncommented = test.uncommented →
      Parser.Redone last room (.conditionalRest test' g) i e r
  | .operatorsRest operand g, i, e, r => ∀ operand', operand'.uncommented = operand.uncommented →
      Parser.Redone last room (.operatorsRest operand' g) i e r
  | .assignmentRest left g, i, e, r => ∀ left', left'.uncommented = left.uncommented →
      Parser.Redone last room (.assignmentRest left' g) i e r
  | .forRest init, i, s, r => ∀ init', initUncommented init' = initUncommented init →
      Parser.Redone last room (.forRest init') i s r
  | .forInRest target, i, s, r => ∀ target', ForTarget.uncommented target' = target.uncommented →
      Parser.Redone last room (.forInRest target') i s r
  | n, i, tree, r => Parser.Redone last room n i tree r

/-- What a part of the grammar yields from items with other comments. -/
theorem Derives.redone {last : TokenKind} {room : Nat} {n : Nonterminal} {i r : List Item}
    {tree : n.Tree} (h : Derives last room n i tree r) : n.Redone last room i tree r := by
  induction h with
  | nested _ ih =>
      intro i' h
      obtain ⟨tree', r', hr, he, d⟩ := ih i' h
      exact ⟨tree', r', hr, he, .nested d⟩
  -- sequences and lists
  | sequenceEnd hk =>
      intro first' hf i' h
      exact ⟨first', i', h, hf, .sequenceEnd (by rwa [h.peek_eq])⟩
  | sequenceMore hk _ ih =>
      intro first' hf i' h
      obtain ⟨es', r', hr, he, d⟩ := ih i' h
      exact ⟨.sequence (first' :: es'), r', hr,
        congrArg₂ (fun e es => Expression.sequence (e :: es)) hf he,
        .sequenceMore (by rwa [h.peek_eq]) d⟩
  | operandsEnd hk =>
      intro i' h
      exact ⟨[], i', h, rfl, .operandsEnd (by rwa [h.peek_eq])⟩
  | operandsMore _ _ ih₁ ih₂ =>
      rintro _ ⟨i', rfl, h⟩
      obtain ⟨e', m', hm, he, d₁⟩ := ih₁ i' h
      obtain ⟨es', r', hr, hes, d₂⟩ := ih₂ m' hm
      exact ⟨e' :: es', r', hr, congrArg₂ List.cons he hes, .operandsMore d₁ d₂⟩
  | expression _ _ ih₁ ih₂ =>
      intro i' h
      obtain ⟨first', m', hm, hf, d₁⟩ := ih₁ i' h
      obtain ⟨e', r', hr, he, d₂⟩ := ih₂ first' hf m' hm
      exact ⟨e', r', hr, he, .expression d₁ d₂⟩
  | parenthesized _ ih =>
      rintro _ ⟨i', rfl, h⟩
      obtain ⟨e', _, ⟨r', rfl, hr⟩, he, d⟩ := ih i' h
      exact ⟨e', r', hr, he, .parenthesized d⟩
  | argumentsNone =>
      rintro _ ⟨_, rfl, r', rfl, hr⟩
      exact ⟨[], r', hr, rfl, .argumentsNone⟩
  | argumentsSome hk _ _ ih₁ ih₂ =>
      rintro _ ⟨i', rfl, h⟩
      obtain ⟨e', m', hm, he, d₁⟩ := ih₁ i' h
      obtain ⟨es', r', hr, hes, d₂⟩ := ih₂ m' hm
      exact ⟨e' :: es', r', hr, congrArg₂ List.cons he hes,
        .argumentsSome (by rwa [h.peek_eq]) d₁ d₂⟩
  | argumentsEnd =>
      rintro _ ⟨r', rfl, hr⟩
      exact ⟨[], r', hr, rfl, .argumentsEnd⟩
  | argumentsMore _ _ ih₁ ih₂ =>
      rintro _ ⟨i', rfl, h⟩
      obtain ⟨e', m', hm, he, d₁⟩ := ih₁ i' h
      obtain ⟨es', r', hr, hes, d₂⟩ := ih₂ m' hm
      exact ⟨e' :: es', r', hr, congrArg₂ List.cons he hes, .argumentsMore d₁ d₂⟩
  -- statement lists and functions
  | elementFunction hk _ ih =>
      intro i' h
      obtain ⟨s', r', hr, hs, d⟩ := ih i' h
      exact ⟨s', r', hr, hs, .elementFunction (by rwa [h.peek_eq]) d⟩
  | elementStatement hk _ ih =>
      intro i' h
      obtain ⟨s', r', hr, hs, d⟩ := ih i' h
      exact ⟨s', r', hr, hs, .elementStatement (by rwa [h.peek_eq]) d⟩
  | elementsEnd hk =>
      rintro _ ⟨cs', i', rfl, h⟩
      exact ⟨_, i', h, (statementsUncommented_map _).trans (statementsUncommented_map _).symm,
        .elementsEnd (by rwa [h.peek_eq])⟩
  | elementsMore hk _ _ ih₁ ih₂ =>
      rintro _ ⟨cs', i', rfl, h⟩
      obtain ⟨s', m', hm, hs, d₁⟩ := ih₁ i' h
      obtain ⟨ss', r', hr, hss, d₂⟩ := ih₂ m' hm
      refine ⟨_, r', hr, ?_, .elementsMore (by rwa [h.peek_eq]) d₁ d₂⟩
      exact (statementsUncommented_append _ _).trans <|
        (statementsUncommented_cons hs hss).trans (statementsUncommented_append _ _).symm
  | blockBody _ ih =>
      rintro _ ⟨i', rfl, h⟩
      obtain ⟨ss', _, ⟨r', rfl, hr⟩, hss, d⟩ := ih i' h
      exact ⟨ss', r', hr, hss, .blockBody d⟩
  | functionNamed _ _ ih₁ ih₂ =>
      rintro _ ⟨_, rfl, i', rfl, h⟩
      obtain ⟨ps', m', hm, rfl, d₁⟩ := ih₁ i' h
      obtain ⟨ss', r', hr, hss, d₂⟩ := ih₂ m' hm
      exact ⟨⟨some _, ps', ss'⟩, r', hr, congrArg (Function.mk _ _) hss, .functionNamed d₁ d₂⟩
  | functionPlain _ _ ih₁ ih₂ =>
      rintro _ ⟨i', rfl, h⟩
      obtain ⟨ps', m', hm, rfl, d₁⟩ := ih₁ i' h
      obtain ⟨ss', r', hr, hss, d₂⟩ := ih₂ m' hm
      exact ⟨⟨none, ps', ss'⟩, r', hr, congrArg (Function.mk _ _) hss, .functionPlain d₁ d₂⟩
  | parametersNone =>
      rintro _ ⟨_, rfl, r', rfl, hr⟩
      exact ⟨[], r', hr, rfl, .parametersNone⟩
  | parametersSome _ ih =>
      rintro _ ⟨_, rfl, i', rfl, h⟩
      obtain ⟨ps', r', hr, rfl, d⟩ := ih i' h
      exact ⟨_, r', hr, rfl, .parametersSome d⟩
  | parametersEnd =>
      rintro _ ⟨r', rfl, hr⟩
      exact ⟨[], r', hr, rfl, .parametersEnd⟩
  | parametersMore _ ih =>
      rintro _ ⟨_, rfl, i', rfl, h⟩
      obtain ⟨ps', r', hr, rfl, d⟩ := ih i' h
      exact ⟨_, r', hr, rfl, .parametersMore d⟩
  -- literals with parts
  | arrayEnd hk =>
      intro i' h
      exact ⟨[], i', h, rfl, .arrayEnd (by rwa [h.peek_eq])⟩
  | arrayHole _ ih =>
      rintro _ ⟨i', rfl, h⟩
      obtain ⟨es', r', hr, hes, d⟩ := ih i' h
      exact ⟨none :: es', r', hr, congrArg (List.cons none) hes, .arrayHole d⟩
  | arrayLast hk hc _ hm _ ih₁ ih₂ =>
      intro i' h
      obtain ⟨e', m', hm', he, d₁⟩ := ih₁ i' h
      obtain ⟨es', r', hr, hes, d₂⟩ := ih₂ m' hm'
      exact ⟨some e' :: es', r', hr, congrArg₂ (fun e es => some e :: es) he hes,
        .arrayLast (by rwa [h.peek_eq]) (by rwa [h.peek_eq]) d₁ (by rwa [hm'.peek_eq]) d₂⟩
  | arrayMore hk hc _ _ ih₁ ih₂ =>
      intro i' h
      obtain ⟨e', _, ⟨m', rfl, hm⟩, he, d₁⟩ := ih₁ i' h
      obtain ⟨es', r', hr, hes, d₂⟩ := ih₂ m' hm
      exact ⟨some e' :: es', r', hr, congrArg₂ (fun e es => some e :: es) he hes,
        .arrayMore (by rwa [h.peek_eq]) (by rwa [h.peek_eq]) d₁ d₂⟩
  | propertyInit hkey _ ih =>
      rintro _ ⟨_, rfl, i', rfl, h⟩
      obtain ⟨value', r', hr, he, d⟩ := ih i' h
      exact ⟨.init _ value', r', hr, congrArg (Property.init _) he, .propertyInit hkey d⟩
  | propertyGetter hkey _ ih =>
      rintro _ ⟨_, rfl, _, rfl, _, rfl, i', rfl, h⟩
      obtain ⟨ss', r', hr, hss, d⟩ := ih i' h
      exact ⟨.getter _ ss', r', hr, congrArg (Property.getter _) hss, .propertyGetter hkey d⟩
  | propertySetter hkey _ ih =>
      rintro _ ⟨_, rfl, _, rfl, _, rfl, _, rfl, i', rfl, h⟩
      obtain ⟨ss', r', hr, hss, d⟩ := ih i' h
      exact ⟨.setter _ _ ss', r', hr, congrArg (Property.setter _ _) hss, .propertySetter hkey d⟩
  | membersEnd hk =>
      intro i' h
      exact ⟨[], i', h, rfl, .membersEnd (by rwa [h.peek_eq])⟩
  | membersLast hk _ hm _ ih₁ ih₂ =>
      intro i' h
      obtain ⟨p', m', hm', hp, d₁⟩ := ih₁ i' h
      obtain ⟨ps', r', hr, hps, d₂⟩ := ih₂ m' hm'
      exact ⟨p' :: ps', r', hr, congrArg₂ List.cons hp hps,
        .membersLast (by rwa [h.peek_eq]) d₁ (by rwa [hm'.peek_eq]) d₂⟩
  | membersMore hk _ _ ih₁ ih₂ =>
      intro i' h
      obtain ⟨p', _, ⟨m', rfl, hm⟩, hp, d₁⟩ := ih₁ i' h
      obtain ⟨ps', r', hr, hps, d₂⟩ := ih₂ m' hm
      exact ⟨p' :: ps', r', hr, congrArg₂ List.cons hp hps,
        .membersMore (by rwa [h.peek_eq]) d₁ d₂⟩
  -- primary expressions
  | primaryThis =>
      rintro _ ⟨r', rfl, hr⟩
      exact ⟨_, r', hr, rfl, .primaryThis⟩
  | primaryName =>
      rintro _ ⟨r', rfl, hr⟩
      exact ⟨_, r', hr, rfl, .primaryName⟩
  | primaryNull =>
      rintro _ ⟨r', rfl, hr⟩
      exact ⟨_, r', hr, rfl, .primaryNull⟩
  | primaryTrue =>
      rintro _ ⟨r', rfl, hr⟩
      exact ⟨_, r', hr, rfl, .primaryTrue⟩
  | primaryFalse =>
      rintro _ ⟨r', rfl, hr⟩
      exact ⟨_, r', hr, rfl, .primaryFalse⟩
  | primaryNumber hvalue =>
      rintro _ ⟨r', rfl, hr⟩
      exact ⟨_, r', hr, rfl, .primaryNumber hvalue⟩
  | primaryString =>
      rintro _ ⟨r', rfl, hr⟩
      exact ⟨_, r', hr, rfl, .primaryString⟩
  | primaryRegex =>
      rintro _ ⟨r', rfl, hr⟩
      exact ⟨_, r', hr, rfl, .primaryRegex⟩
  | primaryArray _ ih =>
      rintro _ ⟨i', rfl, h⟩
      obtain ⟨es', _, ⟨r', rfl, hr⟩, hes, d⟩ := ih i' h
      exact ⟨.array es', r', hr, congrArg Expression.array hes, .primaryArray d⟩
  | primaryObject hg _ ih =>
      rintro _ ⟨i', rfl, h⟩
      obtain ⟨ps', _, ⟨r', rfl, hr⟩, hps, d⟩ := ih i' h
      exact ⟨.object ps', r', hr, congrArg Expression.object hps, .primaryObject hg d⟩
  | primaryFunction hg hk _ ih =>
      intro i' h
      obtain ⟨f', r', hr, hf, d⟩ := ih i' h
      exact ⟨.function f', r', hr, congrArg Expression.function hf,
        .primaryFunction hg (by rwa [h.peek_eq]) d⟩
  | primaryParenthesized hk _ ih =>
      intro i' h
      obtain ⟨e', r', hr, he, d⟩ := ih i' h
      exact ⟨e', r', hr, he, .primaryParenthesized (by rwa [h.peek_eq]) d⟩
  -- left-hand sides
  | memberEnd hk hk' =>
      intro base' hb i' h
      exact ⟨base', i', h, hb, .memberEnd (by rwa [h.peek_eq]) (by rwa [h.peek_eq])⟩
  | memberDot _ ih =>
      rintro base' hb _ ⟨i', rfl, h⟩
      obtain ⟨e', r', hr, he, d⟩ := ih (.dot base' _) (congrArg (Expression.dot · _) hb) i' h
      exact ⟨e', r', hr, he, .memberDot d⟩
  | memberBracket _ _ ih₁ ih₂ =>
      rintro base' hb _ ⟨i', rfl, h⟩
      obtain ⟨index', _, ⟨m', rfl, hm⟩, hi, d₁⟩ := ih₁ i' h
      obtain ⟨e', r', hr, he, d₂⟩ :=
        ih₂ (.bracket base' index') (congrArg₂ Expression.bracket hb hi) m' hm
      exact ⟨e', r', hr, he, .memberBracket d₁ d₂⟩
  | callEnd hk =>
      intro base' hb i' h
      exact ⟨base', i', h, hb, .callEnd (by rwa [h.peek_eq])⟩
  | callMore hk _ _ _ ih₁ ih₂ ih₃ =>
      intro base' hb i' h
      obtain ⟨args', m', hm, ha, d₁⟩ := ih₁ i' h
      obtain ⟨result', m'', hm', hs, d₂⟩ :=
        ih₂ (.call base' args') (congrArg₂ Expression.call hb ha) m' hm
      obtain ⟨e', r', hr, he, d₃⟩ := ih₃ result' hs m'' hm'
      exact ⟨e', r', hr, he, .callMore (by rwa [h.peek_eq]) d₁ d₂ d₃⟩
  | headNew hk _ ih =>
      intro i' h
      obtain ⟨e', r', hr, he, d⟩ := ih i' h
      exact ⟨e', r', hr, he, .headNew (by rwa [h.peek_eq]) d⟩
  | headPrimary hk _ ih =>
      intro i' h
      obtain ⟨e', r', hr, he, d⟩ := ih i' h
      exact ⟨e', r', hr, he, .headPrimary (by rwa [h.peek_eq]) d⟩
  | leftHandSide _ _ _ ih₁ ih₂ ih₃ =>
      intro i' h
      obtain ⟨head', m', hm, hh, d₁⟩ := ih₁ i' h
      obtain ⟨base', m'', hm', hb, d₂⟩ := ih₂ head' hh m' hm
      obtain ⟨e', r', hr, he, d₃⟩ := ih₃ base' hb m'' hm'
      exact ⟨e', r', hr, he, .leftHandSide d₁ d₂ d₃⟩
  | constructionApplied _ _ hk _ ih₁ ih₂ ih₃ =>
      rintro _ ⟨i', rfl, h⟩
      obtain ⟨head', m', hm, hh, d₁⟩ := ih₁ i' h
      obtain ⟨callee', m'', hm', hc, d₂⟩ := ih₂ head' hh m' hm
      obtain ⟨args', r', hr, ha, d₃⟩ := ih₃ m'' hm'
      exact ⟨.construct callee' args', r', hr, congrArg₂ Expression.construct hc ha,
        .constructionApplied d₁ d₂ (by rwa [hm'.peek_eq]) d₃⟩
  | constructionBare _ _ hk ih₁ ih₂ =>
      rintro _ ⟨i', rfl, h⟩
      obtain ⟨head', m', hm, hh, d₁⟩ := ih₁ i' h
      obtain ⟨callee', r', hr, hc, d₂⟩ := ih₂ head' hh m' hm
      exact ⟨.construct callee' [], r', hr, congrArg (Expression.construct · []) hc,
        .constructionBare d₁ d₂ (by rwa [hr.peek_eq])⟩
  -- operators
  | postfixEnd hk =>
      intro operand' ho i' h
      exact ⟨operand', i', h, ho, .postfixEnd (by rwa [h.peek_eq])⟩
  | postfixMore hop =>
      rintro operand' ho _ ⟨r', rfl, hr⟩
      exact ⟨.unary _ operand' true, r', hr,
        congrArg (Expression.unary _ · true) ho, .postfixMore hop⟩
  | unaryPrefix hop _ ih =>
      rintro _ ⟨i', rfl, h⟩
      obtain ⟨operand', r', hr, ho, d⟩ := ih i' h
      exact ⟨.unary _ operand' false, r', hr,
        congrArg (Expression.unary _ · false) ho, .unaryPrefix hop d⟩
  | unaryPostfix hk _ _ ih₁ ih₂ =>
      intro i' h
      obtain ⟨operand', m', hm, ho, d₁⟩ := ih₁ i' h
      obtain ⟨e', r', hr, he, d₂⟩ := ih₂ operand' ho m' hm
      exact ⟨e', r', hr, he, .unaryPostfix (by rwa [h.peek_eq]) d₁ d₂⟩
  | binaryEnd hk =>
      intro left' hl i' h
      exact ⟨left', i', h, hl, .binaryEnd (by rwa [h.peek_eq])⟩
  | binaryMore hop _ _ _ ih₁ ih₂ ih₃ =>
      rintro left' hl _ ⟨i', rfl, h⟩
      obtain ⟨operand', m', hm, ho, d₁⟩ := ih₁ i' h
      obtain ⟨right', m'', hm', hr', d₂⟩ := ih₂ operand' ho m' hm
      obtain ⟨e', r', hr, he, d₃⟩ := ih₃ _
        (InfixOperator.apply_uncommented hl hr') m'' hm'
      exact ⟨e', r', hr, he, .binaryMore hop d₁ d₂ d₃⟩
  | conditionalEnd hk =>
      intro test' ht i' h
      exact ⟨test', i', h, ht, .conditionalEnd (by rwa [h.peek_eq])⟩
  | conditionalMore _ _ ih₁ ih₂ =>
      rintro test' ht _ ⟨i', rfl, h⟩
      obtain ⟨consequent', _, ⟨m', rfl, hm⟩, hc, d₁⟩ := ih₁ i' h
      obtain ⟨alternate', r', hr, ha, d₂⟩ := ih₂ m' hm
      exact ⟨.conditional test' consequent' alternate', r', hr,
        (congr (congrArg₂ Expression.conditional ht hc) ha :), .conditionalMore d₁ d₂⟩
  | operatorsRest _ _ ih₁ ih₂ =>
      intro operand' ho i' h
      obtain ⟨test', m', hm, ht, d₁⟩ := ih₁ operand' ho i' h
      obtain ⟨e', r', hr, he, d₂⟩ := ih₂ test' ht m' hm
      exact ⟨e', r', hr, he, .operatorsRest d₁ d₂⟩
  | assignMore hop _ ih =>
      rintro left' hl _ ⟨i', rfl, h⟩
      obtain ⟨value', r', hr, hv, d⟩ := ih i' h
      exact ⟨.assign left' _ value', r', hr,
        congrArg₂ (Expression.assign · _ ·) hl hv, .assignMore hop d⟩
  | assignEnd hk _ _ ih₁ ih₂ =>
      intro left' hl i' h
      obtain ⟨operand', m', hm, ho, d₁⟩ := ih₁ left' hl i' h
      obtain ⟨e', r', hr, he, d₂⟩ := ih₂ operand' ho m' hm
      exact ⟨e', r', hr, he, .assignEnd (by rwa [h.peek_eq]) d₁ d₂⟩
  | assignmentPrefixed hk _ _ ih₁ ih₂ =>
      intro i' h
      obtain ⟨operand', m', hm, ho, d₁⟩ := ih₁ i' h
      obtain ⟨e', r', hr, he, d₂⟩ := ih₂ operand' ho m' hm
      exact ⟨e', r', hr, he, .assignmentPrefixed (by rwa [h.peek_eq]) d₁ d₂⟩
  | assignmentPlain hk _ _ ih₁ ih₂ =>
      intro i' h
      obtain ⟨left', m', hm, hl, d₁⟩ := ih₁ i' h
      obtain ⟨e', r', hr, he, d₂⟩ := ih₂ left' hl m' hm
      exact ⟨e', r', hr, he, .assignmentPlain (by rwa [h.peek_eq]) d₁ d₂⟩
  -- declared variables
  | declaratorPlain hk =>
      rintro _ ⟨r', rfl, hr⟩
      exact ⟨_, r', hr, rfl, .declaratorPlain (by rwa [hr.peek_eq])⟩
  | declaratorInit _ ih =>
      rintro _ ⟨_, rfl, i', rfl, h⟩
      obtain ⟨value', r', hr, hv, d⟩ := ih i' h
      exact ⟨⟨_, some value'⟩, r', hr, congrArg (fun e => Declarator.mk _ (some e)) hv,
        .declaratorInit d⟩
  | declarators _ _ ih₁ ih₂ =>
      intro i' h
      obtain ⟨d', m', hm, hd, d₁⟩ := ih₁ i' h
      obtain ⟨ds', r', hr, hds, d₂⟩ := ih₂ m' hm
      exact ⟨d' :: ds', r', hr, congrArg₂ List.cons hd hds, .declarators d₁ d₂⟩
  | declaratorsEnd hk =>
      intro i' h
      exact ⟨[], i', h, rfl, .declaratorsEnd (by rwa [h.peek_eq])⟩
  | declaratorsMore _ _ ih₁ ih₂ =>
      rintro _ ⟨i', rfl, h⟩
      obtain ⟨d', m', hm, hd, d₁⟩ := ih₁ i' h
      obtain ⟨ds', r', hr, hds, d₂⟩ := ih₂ m' hm
      exact ⟨d' :: ds', r', hr, congrArg₂ List.cons hd hds, .declaratorsMore d₁ d₂⟩
  -- statements
  | ended =>
      rintro _ ⟨r', rfl, hr⟩
      exact ⟨(), r', hr, rfl, .ended⟩
  | inserted =>
      rintro _ ⟨r', rfl, hr⟩
      exact ⟨(), r', hr, rfl, .inserted⟩
  | block hk _ ih =>
      intro i' h
      obtain ⟨ss', r', hr, hss, d⟩ := ih i' h
      exact ⟨.block ss', r', hr, congrArg Statement.block hss, .block (by rwa [h.peek_eq]) d⟩
  | declare _ _ ih₁ ih₂ =>
      rintro _ ⟨i', rfl, h⟩
      obtain ⟨ds', m', hm, hds, d₁⟩ := ih₁ i' h
      obtain ⟨_, r', hr, -, d₂⟩ := ih₂ m' hm
      exact ⟨.declare ds', r', hr, congrArg Statement.declare hds, .declare d₁ d₂⟩
  | empty =>
      rintro _ ⟨r', rfl, hr⟩
      exact ⟨_, r', hr, rfl, .empty⟩
  | labelled h₁ h₂ ih₁ ih₂ =>
      rintro _ ⟨_, rfl, i', rfl, h⟩
      obtain ⟨body', r', hr, hbody, d₂⟩ := ih₂ i' h
      obtain ⟨e', _, ⟨_, rfl, -⟩, he, d₁⟩ := ih₁ _ ⟨_, rfl, i', rfl, h⟩
      obtain ⟨name, rfl⟩ := isName_iff.mp (isName_congr he)
      obtain ⟨heq, hrest⟩ := List.cons.inj (d₁.eq_name rfl)
      cases heq
      cases hrest
      exact ⟨.labelled _ body', r', hr, congrArg (Statement.labelled _) hbody, .labelled d₁ d₂⟩
  | expressionStatement hk _ hl _ ih₁ ih₂ =>
      intro i' h
      obtain ⟨e', m', hm, he, d₁⟩ := ih₁ i' h
      obtain ⟨_, r', hr, -, d₂⟩ := ih₂ m' hm
      refine ⟨.expression e', r', hr, congrArg Statement.expression he,
        .expressionStatement (by rwa [h.peek_eq]) d₁ ?_ d₂⟩
      rwa [h.peek_eq, hm.peek_eq, isName_congr he]
  | debugger _ ih =>
      rintro _ ⟨i', rfl, h⟩
      obtain ⟨_, r', hr, -, d⟩ := ih i' h
      exact ⟨_, r', hr, rfl, .debugger d⟩
  | ifThen _ _ hk ih₁ ih₂ =>
      rintro _ ⟨i', rfl, h⟩
      obtain ⟨test', m', hm, ht, d₁⟩ := ih₁ i' h
      obtain ⟨consequent', r', hr, hc, d₂⟩ := ih₂ m' hm
      exact ⟨.ifElse test' consequent' none, r', hr, congrArg₂ (Statement.ifElse · · none) ht hc,
        .ifThen d₁ d₂ (by rwa [hr.peek_eq])⟩
  | ifElse _ _ _ ih₁ ih₂ ih₃ =>
      rintro _ ⟨i', rfl, h⟩
      obtain ⟨test', m', hm, ht, d₁⟩ := ih₁ i' h
      obtain ⟨consequent', _, ⟨m'', rfl, hm'⟩, hc, d₂⟩ := ih₂ m' hm
      obtain ⟨alternate', r', hr, ha, d₃⟩ := ih₃ m'' hm'
      exact ⟨.ifElse test' consequent' (some alternate'), r', hr,
        (congr (congrArg₂ (fun t c a => Statement.ifElse t c (some a)) ht hc) ha :),
        .ifElse d₁ d₂ d₃⟩
  | doWhile _ _ _ ih₁ ih₂ ih₃ =>
      rintro _ ⟨i', rfl, h⟩
      obtain ⟨body', _, ⟨m', rfl, hm⟩, hb, d₁⟩ := ih₁ i' h
      obtain ⟨test', m'', hm', ht, d₂⟩ := ih₂ m' hm
      obtain ⟨_, r', hr, -, d₃⟩ := ih₃ m'' hm'
      exact ⟨.doWhile body' test', r', hr, congrArg₂ Statement.doWhile hb ht, .doWhile d₁ d₂ d₃⟩
  | whileDo _ _ ih₁ ih₂ =>
      rintro _ ⟨i', rfl, h⟩
      obtain ⟨test', m', hm, ht, d₁⟩ := ih₁ i' h
      obtain ⟨body', r', hr, hb, d₂⟩ := ih₂ m' hm
      exact ⟨.whileDo test' body', r', hr, congrArg₂ Statement.whileDo ht hb, .whileDo d₁ d₂⟩
  | forLoop _ ih =>
      rintro _ ⟨_, rfl, i', rfl, h⟩
      obtain ⟨s', r', hr, hs, d⟩ := ih i' h
      exact ⟨s', r', hr, hs, .forLoop d⟩
  | forNothing hk _ ih =>
      intro i' h
      obtain ⟨s', r', hr, hs, d⟩ := ih none rfl i' h
      exact ⟨s', r', hr, hs, .forNothing (by rwa [h.peek_eq]) d⟩
  | forVariables _ hk _ ih₁ ih₂ =>
      rintro _ ⟨i', rfl, h⟩
      obtain ⟨ds', m', hm, hds, d₁⟩ := ih₁ i' h
      obtain ⟨s', r', hr, hs, d₂⟩ :=
        ih₂ (some (.declared ds')) (congrArg (fun ds => some (ForInit.declared ds)) hds) m' hm
      refine ⟨s', r', hr, hs, .forVariables d₁ ?_ d₂⟩
      rwa [hm.peek_eq, length_declarators_congr hds]
  | forInVariable _ _ ih₁ ih₂ =>
      rintro _ ⟨i', rfl, h⟩
      obtain ⟨ds', _, ⟨m', rfl, hm⟩, hds, d₁⟩ := ih₁ i' h
      obtain ⟨d', rfl, hd⟩ := declaratorsUncommented_singleton hds
      obtain ⟨s', r', hr, hs, d₂⟩ :=
        ih₂ (.declared d') (congrArg ForTarget.declared hd) m' hm
      exact ⟨s', r', hr, hs, .forInVariable d₁ d₂⟩
  | forPrefixed hk _ _ _ ih₁ ih₂ ih₃ =>
      intro i' h
      obtain ⟨first', m', hm, hf, d₁⟩ := ih₁ i' h
      obtain ⟨e', m'', hm', he, d₂⟩ := ih₂ first' hf m' hm
      obtain ⟨s', r', hr, hs, d₃⟩ := ih₃ (some (.expression e'))
        (congrArg (fun e => some (ForInit.expression e)) he) m'' hm'
      exact ⟨s', r', hr, hs, .forPrefixed (by rwa [h.peek_eq]) d₁ d₂ d₃⟩
  | forExpression hk₁ hk₂ hk₃ _ hm _ _ _ ih₁ ih₂ ih₃ ih₄ =>
      intro i' h
      obtain ⟨left', m₁, hm₁, hl, d₁⟩ := ih₁ i' h
      obtain ⟨first', m₂, hm₂, hf, d₂⟩ := ih₂ left' hl m₁ hm₁
      obtain ⟨e', m₃, hm₃, he, d₃⟩ := ih₃ first' hf m₂ hm₂
      obtain ⟨s', r', hr, hs, d₄⟩ := ih₄ (some (.expression e'))
        (congrArg (fun e => some (ForInit.expression e)) he) m₃ hm₃
      exact ⟨s', r', hr, hs, .forExpression (by rwa [h.peek_eq]) (by rwa [h.peek_eq])
        (by rwa [h.peek_eq]) d₁ (by rwa [hm₁.peek_eq]) d₂ d₃ d₄⟩
  | forInExpression hk₁ hk₂ hk₃ _ _ ih₁ ih₂ =>
      intro i' h
      obtain ⟨left', _, ⟨m', rfl, hm⟩, hl, d₁⟩ := ih₁ i' h
      obtain ⟨s', r', hr, hs, d₂⟩ :=
        ih₂ (.expression left') (congrArg ForTarget.expression hl) m' hm
      exact ⟨s', r', hr, hs, .forInExpression (by rwa [h.peek_eq]) (by rwa [h.peek_eq])
        (by rwa [h.peek_eq]) d₁ d₂⟩
  | forRest _ _ _ ih₁ ih₂ ih₃ =>
      rintro init' hi _ ⟨i', rfl, h⟩
      obtain ⟨test', _, ⟨m', rfl, hm⟩, ht, d₁⟩ := ih₁ i' h
      obtain ⟨update', _, ⟨m'', rfl, hm'⟩, hu, d₂⟩ := ih₂ m' hm
      obtain ⟨body', r', hr, hb, d₃⟩ := ih₃ m'' hm'
      exact ⟨.forLoop init' test' update' body', r', hr,
        (congr (congr (congrArg₂ Statement.forLoop hi ht) hu) hb :), .forRest d₁ d₂ d₃⟩
  | forInRest _ _ ih₁ ih₂ =>
      intro target' ht i' h
      obtain ⟨object', _, ⟨m', rfl, hm⟩, ho, d₁⟩ := ih₁ i' h
      obtain ⟨body', r', hr, hb, d₂⟩ := ih₂ m' hm
      exact ⟨.forIn target' object' body', r', hr,
        (congr (congrArg₂ Statement.forIn ht ho) hb :), .forInRest d₁ d₂⟩
  | expressionAbsent hk =>
      intro i' h
      exact ⟨none, i', h, rfl, .expressionAbsent (by rwa [h.peek_eq])⟩
  | expressionPresent hk _ ih =>
      intro i' h
      obtain ⟨e', r', hr, he, d⟩ := ih i' h
      exact ⟨some e', r', hr, congrArg some he,
        .expressionPresent (by rwa [h.peek_eq]) d⟩
  | jumpBare hk hi _ ih =>
      rintro _ ⟨i', rfl, h⟩
      obtain ⟨_, r', hr, -, d⟩ := ih i' h
      exact ⟨_, r', hr, rfl, .jumpBare hk (by rwa [h.peek_eq]) d⟩
  | jumpLabel hk _ ih =>
      rintro _ ⟨_, rfl, i', rfl, h⟩
      obtain ⟨_, r', hr, -, d⟩ := ih i' h
      exact ⟨_, r', hr, rfl, .jumpLabel hk d⟩
  | returnNothing hk _ ih =>
      rintro _ ⟨i', rfl, h⟩
      obtain ⟨_, r', hr, -, d⟩ := ih i' h
      exact ⟨_, r', hr, rfl, .returnNothing (by rwa [h.peek_eq]) d⟩
  | returnValue hk _ _ ih₁ ih₂ =>
      rintro _ ⟨i', rfl, h⟩
      obtain ⟨value', m', hm, hv, d₁⟩ := ih₁ i' h
      obtain ⟨_, r', hr, -, d₂⟩ := ih₂ m' hm
      exact ⟨.returnWith (some value'), r', hr,
        congrArg (fun e => Statement.returnWith (some e)) hv,
        .returnValue (by rwa [h.peek_eq]) d₁ d₂⟩
  | throwValue _ _ ih₁ ih₂ =>
      rintro _ ⟨i', rfl, h⟩
      obtain ⟨value', m', hm, hv, d₁⟩ := ih₁ i' h
      obtain ⟨_, r', hr, -, d₂⟩ := ih₂ m' hm
      exact ⟨.throwWith value', r', hr, congrArg Statement.throwWith hv, .throwValue d₁ d₂⟩
  | withObject _ _ ih₁ ih₂ =>
      rintro _ ⟨i', rfl, h⟩
      obtain ⟨object', m', hm, ho, d₁⟩ := ih₁ i' h
      obtain ⟨body', r', hr, hb, d₂⟩ := ih₂ m' hm
      exact ⟨.withObject object' body', r', hr,
        congrArg₂ Statement.withObject ho hb, .withObject d₁ d₂⟩
  | switch _ _ ih₁ ih₂ =>
      rintro _ ⟨i', rfl, h⟩
      obtain ⟨discriminant', _, ⟨m', rfl, hm⟩, hd, d₁⟩ := ih₁ i' h
      obtain ⟨cs', r', hr, hcs, d₂⟩ := ih₂ m' hm
      exact ⟨.switch discriminant' cs', r', hr, congrArg₂ Statement.switch hd hcs, .switch d₁ d₂⟩
  | clausesEnd =>
      rintro _ ⟨r', rfl, hr⟩
      exact ⟨[], r', hr, rfl, .clausesEnd⟩
  | clausesCase _ _ _ ih₁ ih₂ ih₃ =>
      rintro _ ⟨i', rfl, h⟩
      obtain ⟨test', _, ⟨m', rfl, hm⟩, ht, d₁⟩ := ih₁ i' h
      obtain ⟨ss', m'', hm', hss, d₂⟩ := ih₂ m' hm
      obtain ⟨cs', r', hr, hcs, d₃⟩ := ih₃ m'' hm'
      refine ⟨⟨some test', ss'⟩ :: cs', r', hr, ?_, .clausesCase d₁ d₂ d₃⟩
      exact congrArg₂ List.cons (congrArg₂ (fun t ss => SwitchClause.mk (some t) ss) ht hss) hcs
  | clausesDefault _ _ ih₁ ih₂ =>
      rintro _ ⟨_, rfl, i', rfl, h⟩
      obtain ⟨ss', m', hm, hss, d₁⟩ := ih₁ i' h
      obtain ⟨cs', r', hr, hcs, d₂⟩ := ih₂ m' hm
      refine ⟨⟨none, ss'⟩ :: cs', r', hr, ?_, .clausesDefault d₁ d₂⟩
      exact congrArg₂ List.cons (congrArg (SwitchClause.mk none) hss) hcs
  | tryCatch _ _ _ hsome ih₁ ih₂ ih₃ =>
      rintro _ ⟨i', rfl, h⟩
      obtain ⟨ss', m', hm, hss, d₁⟩ := ih₁ i' h
      obtain ⟨handler', m'', hm', hh, d₂⟩ := ih₂ m' hm
      obtain ⟨finalizer', r', hr, hf, d₃⟩ := ih₃ m'' hm'
      refine ⟨.tryCatch (.block ss') handler' finalizer', r', hr,
        (congr (congrArg₂ (fun ss h => Statement.tryCatch (.block ss) h) hss hh) hf :),
        .tryCatch d₁ d₂ d₃ ?_⟩
      rwa [isSome_handler_congr hh, isSome_alternate_congr hf]
  | handlerAbsent hk =>
      intro i' h
      exact ⟨none, i', h, rfl, .handlerAbsent (by rwa [h.peek_eq])⟩
  | handlerPresent _ ih =>
      rintro _ ⟨_, rfl, _, rfl, _, rfl, i', rfl, h⟩
      obtain ⟨ss', r', hr, hss, d⟩ := ih i' h
      exact ⟨some ⟨_, ss'⟩, r', hr, congrArg (fun ss => some (CatchClause.mk _ ss)) hss,
        .handlerPresent d⟩
  | finalizerAbsent hk =>
      intro i' h
      exact ⟨none, i', h, rfl, .finalizerAbsent (by rwa [h.peek_eq])⟩
  | finalizerPresent _ ih =>
      rintro _ ⟨i', rfl, h⟩
      obtain ⟨ss', r', hr, hss, d⟩ := ih i' h
      exact ⟨some (.block ss'), r', hr, congrArg (fun ss => some (Statement.block ss)) hss,
        .finalizerPresent d⟩
  | declaration _ ih =>
      intro i' h
      obtain ⟨f', r', hr, hf, d⟩ := ih i' h
      exact ⟨.function f', r', hr, congrArg Statement.function hf, .declaration d⟩

end Parser

end EcmaSyntax
