import EcmaSyntax.Proofs.Contents
import EcmaSyntax.Proofs.Reading

/-!
# Tokens are conserved

**Derivations.**  `Conserves` compares the contents of the items that a derivation takes with
those of its tree.  A part of the grammar that goes on with a tree starts from the contents of that
tree, and the parts of a loop after its keyword start from the keyword.

**Spellings.**  `Spells.consumed` finds the contents of the items among the tokens that the
stream has noted.

**Results.**
* `tokens_conserved`: the tokens that a successful run has taken have the contents of its
  program, in the same order.
-/

namespace EcmaSyntax

namespace Parser

/-! ## The contents of items -/

/-- What an item contributes.  A kind that settles the text of a token contributes its spelling. -/
def Item.contents : Item → List Content
  | .taken k t => EcmaSyntax.contents k (if hasManyTexts k then t else k.display)
  | .member _ t => [.text t]
  | .literal _ t => [.regex (regexParts t).1 (regexParts t).2]
  | .ended _ => []
  | .inserted _ => []
  | .comments _ => []

section Item

variable (k : TokenKind) (t : Text)

theorem Item.contents_member : (Item.member k t).contents = [.text t] := rfl

theorem Item.contents_literal :
    (Item.literal k t).contents = [.regex (regexParts t).1 (regexParts t).2] := rfl

theorem Item.contents_ended : (Item.ended k).contents = [] := rfl

theorem Item.contents_number {value : Binary64} (h : numberValue? t = some value) :
    (Item.taken .number t).contents = [.number value] := by
  simp [Item.contents, EcmaSyntax.contents, isStructural, contentOf, hasManyTexts, h]

variable {k}

theorem Item.contents_spelled (h : isStructural k = false) (hm : hasManyTexts k = false) :
    (Item.taken k t).contents = [spelled k] := by
  cases k <;> first | rfl | exact absurd h (by decide) | exact absurd hm (by decide)

end Item

/-- The contents of a list of items. -/
def contentsOfItems (its : List Item) : List Content := its.flatMap Item.contents

@[simp] theorem contentsOfItems_cons (it : Item) (its : List Item) :
    contentsOfItems (it :: its) = it.contents ++ contentsOfItems its := rfl

/-! ## Operators and names -/

theorem contents_of_prefixOperator? {k : TokenKind} {op : UnaryOperator} (t : Text)
    (h : k.prefixOperator? = some op) : (Item.taken k t).contents = [.text op.text] := by
  cases k <;> cases h <;> rfl

theorem contents_of_postfixOperator? {k : TokenKind} {op : UnaryOperator} (t : Text)
    (h : k.postfixOperator? = some op) : (Item.taken k t).contents = [.text op.text] := by
  cases k <;> cases h <;> rfl

theorem contents_of_assignOperator? {k : TokenKind} {op : AssignOperator} (t : Text)
    (h : k.assignOperator? = some op) : (Item.taken k t).contents = [.text op.text] := by
  cases k <;> cases h <;> rfl

theorem contents_of_infixOperator? {p : Nat} {g : Grammar} {k : TokenKind} {op : InfixOperator}
    (t : Text) (h : infixOperator? p g k = some op) :
    (Item.taken k t).contents = [.text op.text] := by
  have hk := (infixOperator?_eq_some_iff.mp h).1
  cases k <;> cases hk <;> rfl

theorem flat_apply (op : InfixOperator) (left right : Expression) :
    (op.apply left right).flat = left.flat ++ .text op.text :: right.flat := by
  cases op <;> rfl

/-- The text of a keyword is its spelling. -/
def Item.IsSpelled : Item → Prop
  | .taken k t => hasManyTexts k = false → t = k.display
  | _ => True

theorem contents_of_propertyKey? {k : TokenKind} {t : Text} {key : PropertyKey}
    (h : propertyKey? k t = some key) (ht : (Item.taken k t).IsSpelled) :
    (Item.taken k t).contents = [key.content] := by
  unfold propertyKey? at h
  split at h
  · next hk =>
      subst hk
      cases h
      rfl
  · next hstring =>
      split at h
      · next hk =>
          subst hk
          obtain ⟨value, hvalue, rfl⟩ := Option.map_eq_some_iff.mp h
          exact Item.contents_number t hvalue
      · next hnumber =>
          split at h
          · next hname =>
              cases h
              by_cases hk : k = .identifier
              · subst hk
                rfl
              · have hm : hasManyTexts k = false := by
                  cases k <;> first | rfl | exact absurd rfl hk | cases hname
                rw [Item.contents_spelled t (by cases k <;> first | rfl | cases hname) hm, ht hm]
                rfl
          · cases h

@[simp] theorem flat_comments (cs : List Comment) : statementsFlat (cs.map .comment) = [] := by
  induction cs with
  | nil => rfl
  | cons c cs ih => exact ih

@[simp] theorem flat_comments_append (cs : List Comment) (ss : List Statement) :
    statementsFlat (cs.map .comment ++ ss) = statementsFlat ss := by
  induction cs with
  | nil => rfl
  | cons c cs ih => exact ih

theorem contents_of_jump {k : TokenKind} (hk : k = .kwContinue ∨ k = .kwBreak) (t : Text) :
    (Item.taken k t).contents = [spelled k] := by
  obtain rfl | rfl := hk <;> rfl

theorem flat_jumpTo {k : TokenKind} (hk : k = .kwContinue ∨ k = .kwBreak) (label : Option Text) :
    (jumpTo k label).flat = spelled k :: label.toList.map .text := by
  obtain rfl | rfl := hk <;> rfl

/-! ## Derivations -/

/-- What a part of the grammar starts from. -/
def Nonterminal.lead : Nonterminal → List Content
  | .sequenceRest first _ => first.flat
  | .memberTail base => base.flat
  | .callTail base => base.flat
  | .postfixed operand => operand.flat
  | .binary left _ _ => left.flat
  | .conditionalRest test _ => test.flat
  | .operatorsRest operand _ => operand.flat
  | .assignmentRest left _ => left.flat
  | .forHeader => [spelled .kwFor]
  | .forRest init => spelled .kwFor :: initFlat init
  | .forInRest target => spelled .kwFor :: (target.flat ++ [spelled .kwIn])
  | _ => []

/-- The contents of what a rule yields. -/
def ruleFlat : (r : Rule) → r.Tree → List Content
  | .statement, s => Statement.flat s
  | .declaration, s => Statement.flat s
  | .assignment _, e => Expression.flat e
  | .operand _, e => Expression.flat e
  | .construction, e => Expression.flat e

/-- The contents of what a part of the grammar yields. -/
def Nonterminal.flat : (n : Nonterminal) → n.Tree → List Content
  | .rule r, tree => ruleFlat r tree
  | .body r, tree => ruleFlat r tree
  | .sequenceRest _ _, e => Expression.flat e
  | .operands _, es => expressionsFlat es
  | .expression _, e => Expression.flat e
  | .parenthesized, e => Expression.flat e
  | .arguments, es => expressionsFlat es
  | .argumentsRest, es => expressionsFlat es
  | .element, s => Statement.flat s
  | .elements _, ss => statementsFlat ss
  | .blockBody, ss => statementsFlat ss
  | .function _, f => Function.flat f
  | .parameters, ps => ps.map .text
  | .parametersRest, ps => ps.map .text
  | .arrayElements, es => elementsFlat es
  | .property, p => Property.flat p
  | .members, ps => propertiesFlat ps
  | .primary _, e => Expression.flat e
  | .memberTail _, e => Expression.flat e
  | .callTail _, e => Expression.flat e
  | .chainHead _, e => Expression.flat e
  | .leftHandSide _, e => Expression.flat e
  | .postfixed _, e => Expression.flat e
  | .binary _ _ _, e => Expression.flat e
  | .conditionalRest _ _, e => Expression.flat e
  | .operatorsRest _ _, e => Expression.flat e
  | .assignmentRest _ _, e => Expression.flat e
  | .declarator _, d => Declarator.flat d
  | .declarators _, ds => declaratorsFlat ds
  | .declaratorsRest _, ds => declaratorsFlat ds
  | .terminator, _ => []
  | .expressionBefore _, e => optionFlat e
  | .forHeader, s => Statement.flat s
  | .forRest _, s => Statement.flat s
  | .forInRest _, s => Statement.flat s
  | .clauses _, cs => clausesFlat cs
  | .handler, c => handlerFlat c
  | .finalizer, s => finalizerFlat s

/-- The texts of all keywords are their spellings. -/
def AreSpelled (its : List Item) : Prop := ∀ it ∈ its, it.IsSpelled

theorem areSpelled_cons (it : Item) (its : List Item) :
    AreSpelled (it :: its) ↔ it.IsSpelled ∧ AreSpelled its := List.forall_mem_cons

/-- With some contents in front of those of the items, others are passed on to the items that are
left. -/
def Conserves (lead : List Content) (i : List Item) (cs : List Content) (r : List Item) : Prop :=
  AreSpelled i → AreSpelled r ∧ lead ++ contentsOfItems i = cs ++ contentsOfItems r

namespace Conserves

variable {lead mid cs cs' : List Content} {c : Content} {it : Item} {i m r : List Item}

theorem here : Conserves cs i cs i := fun hi => ⟨hi, rfl⟩

theorem trans (h₁ : Conserves lead i mid m) (h₂ : Conserves mid m cs r) :
    Conserves lead i cs r := by
  intro hi
  obtain ⟨hm, h₁⟩ := h₁ hi
  obtain ⟨hr, h₂⟩ := h₂ hm
  exact ⟨hr, h₁.trans h₂⟩

/-- What stands in front of everything stays there. -/
theorem behind (h : Conserves [] i cs r) : Conserves lead i (lead ++ cs) r := by
  intro hi
  obtain ⟨hr, h⟩ := h hi
  exact ⟨hr, by rw [List.append_assoc, ← h, List.nil_append]⟩

theorem append (h₁ : Conserves lead i cs m) (h₂ : Conserves [] m cs' r) :
    Conserves lead i (cs ++ cs') r :=
  h₁.trans h₂.behind

/-- What ends a statement has no contents. -/
theorem terminated (h : Conserves lead i cs m) (hend : Conserves [] m [] r) :
    Conserves lead i cs r :=
  List.append_nil cs ▸ h.append hend

/-- An item with contents of its own. -/
theorem token {own : List Content} (h : Conserves (lead ++ own) i cs r) (hit : it.contents = own) :
    Conserves lead (it :: i) cs r := by
  intro hi
  obtain ⟨hr, h⟩ := h ((areSpelled_cons it i).mp hi).2
  exact ⟨hr, by rw [contentsOfItems_cons, hit, ← List.append_assoc, h]⟩

theorem word (h : Conserves [] i cs r) (hit : it.contents = [c]) :
    Conserves [] (it :: i) (c :: cs) r :=
  h.behind.token hit

/-- An item without contents. -/
theorem silent (h : Conserves lead i cs r) (hit : it.contents = []) :
    Conserves lead (it :: i) cs r :=
  token (by rwa [List.append_nil]) hit

/-- An item without contents, behind a part. -/
theorem drop (h : Conserves lead i cs (it :: r)) (hit : it.contents = []) : Conserves lead i cs r :=
  List.append_nil cs ▸ h.append (here.silent hit)

/-- An item behind a part. -/
theorem close (h : Conserves lead i cs (it :: r)) (hit : it.contents = [c]) :
    Conserves lead i (cs ++ [c]) r :=
  h.append (here.word hit)

/-- The key of a property. -/
theorem key {k : TokenKind} {t : Text} {name : PropertyKey} (h : Conserves [] i cs r)
    (hkey : propertyKey? k t = some name) :
    Conserves [] (.taken k t :: i) (name.content :: cs) r := fun hi =>
  h.word (contents_of_propertyKey? hkey ((areSpelled_cons _ _).mp hi).1) hi

theorem comments (claimed : List Comment) {ss : List Statement}
    (h : Conserves [] i (statementsFlat ss) r) :
    Conserves [] (.comments claimed :: i) (statementsFlat (claimed.map .comment ++ ss)) r :=
  (flat_comments_append claimed ss).symm ▸ h.silent rfl

theorem stop (claimed : List Comment) :
    Conserves [] (.comments claimed :: i) (statementsFlat (claimed.map .comment)) i :=
  (flat_comments claimed).symm ▸ here.silent rfl

theorem apply {op : InfixOperator} {left right : Expression} (h : Conserves [] i right.flat r)
    (hit : it.contents = [.text op.text]) :
    Conserves left.flat (it :: i) (op.apply left right).flat r :=
  flat_apply op left right ▸ (h.word hit).behind

theorem jump {k : TokenKind} {t : Text} {label : Option Text}
    (hk : k = .kwContinue ∨ k = .kwBreak) (h : Conserves [] i (label.toList.map .text) r) :
    Conserves [] (.taken k t :: i) (jumpTo k label).flat r :=
  flat_jumpTo hk label ▸ h.word (contents_of_jump hk t)

theorem declared {d : Declarator} (h : Conserves [] i (declaratorsFlat [d]) r) :
    Conserves [] i d.flat r := by
  rwa [declaratorsFlat, declaratorsFlat, List.append_nil] at h

theorem forIn {target : ForTarget} {object : Expression} {body : Statement}
    (h : Conserves [] i (object.flat ++ body.flat) r) :
    Conserves (spelled .kwFor :: (target.flat ++ [spelled .kwIn])) i
      (Statement.forIn target object body).flat r := by
  have hflat : (Statement.forIn target object body).flat =
      spelled .kwFor :: (target.flat ++ [spelled .kwIn]) ++ (object.flat ++ body.flat) := by
    simp [Statement.flat]
  exact hflat ▸ h.behind

end Conserves

/-- A derivation loses no content, and adds none. -/
theorem Derives.conserves {last : TokenKind} {room : Nat} {n : Nonterminal} {i r : List Item}
    {tree : n.Tree} (h : Derives last room n i tree r) : Conserves n.lead i (n.flat tree) r := by
  induction h with
  | nested _ ih => exact ih
  -- sequences and lists
  | sequenceEnd _ => exact .here
  | sequenceMore _ _ ih => exact ih.behind
  | operandsEnd _ => exact .here
  | operandsMore _ _ ih₁ ih₂ => exact (ih₁.append ih₂).silent rfl
  | expression _ _ ih₁ ih₂ => exact ih₁.trans ih₂
  | parenthesized _ ih => exact (ih.drop rfl).silent rfl
  | argumentsNone => exact (Conserves.here.silent rfl).silent rfl
  | argumentsSome _ _ _ ih₁ ih₂ => exact (ih₁.append ih₂).silent rfl
  | argumentsEnd => exact Conserves.here.silent rfl
  | argumentsMore _ _ ih₁ ih₂ => exact (ih₁.append ih₂).silent rfl
  -- statement lists and functions
  | elementFunction _ _ ih => exact ih
  | elementStatement _ _ ih => exact ih
  | elementsEnd _ => exact .stop _
  | elementsMore _ _ _ ih₁ ih₂ => exact .comments _ (ih₁.append ih₂)
  | blockBody _ ih => exact (ih.drop rfl).silent rfl
  | functionNamed _ _ ih₁ ih₂ => exact ((ih₁.word rfl).append ih₂).word rfl
  | functionPlain _ _ ih₁ ih₂ => exact (ih₁.append ih₂).word rfl
  | parametersNone => exact (Conserves.here.silent rfl).silent rfl
  | parametersSome _ ih => exact (ih.word rfl).silent rfl
  | parametersEnd => exact Conserves.here.silent rfl
  | parametersMore _ ih => exact (ih.word rfl).silent rfl
  -- literals with parts
  | arrayEnd _ => exact .here
  | arrayHole _ ih => exact ih.silent rfl
  | arrayLast _ _ _ _ _ ih₁ ih₂ => exact ih₁.append ih₂
  | arrayMore _ _ _ _ ih₁ ih₂ => exact (ih₁.drop rfl).append ih₂
  | propertyInit hkey _ ih => exact (ih.silent rfl).key hkey
  | propertyGetter hkey _ ih => exact (((ih.silent rfl).silent rfl).key hkey).word rfl
  | propertySetter hkey _ ih =>
      exact ((((ih.silent rfl).word rfl).silent rfl).key hkey).word rfl
  | membersEnd _ => exact .here
  | membersLast _ _ _ _ ih₁ ih₂ => exact ih₁.append ih₂
  | membersMore _ _ _ ih₁ ih₂ => exact (ih₁.drop rfl).append ih₂
  -- primary expressions
  | primaryThis => exact Conserves.here.word rfl
  | primaryName => exact Conserves.here.word rfl
  | primaryNull => exact Conserves.here.word rfl
  | primaryTrue => exact Conserves.here.word rfl
  | primaryFalse => exact Conserves.here.word rfl
  | primaryNumber hvalue => exact Conserves.here.word (Item.contents_number _ hvalue)
  | primaryString => exact Conserves.here.word rfl
  | primaryRegex => exact Conserves.here.word rfl
  | primaryArray _ ih => exact (ih.drop rfl).silent rfl
  | primaryObject _ _ ih => exact (ih.drop rfl).silent rfl
  | primaryFunction _ _ _ ih => exact ih
  | primaryParenthesized _ _ ih => exact ih
  -- left-hand sides
  | memberEnd _ _ => exact .here
  | memberDot _ ih => exact ih.token rfl
  | memberBracket _ _ ih₁ ih₂ => exact ((ih₁.drop rfl).behind.trans ih₂).silent rfl
  | callEnd _ => exact .here
  | callMore _ _ _ _ ih₁ ih₂ ih₃ => exact ih₁.behind.trans (ih₂.trans ih₃)
  | headNew _ _ ih => exact ih
  | headPrimary _ _ ih => exact ih
  | leftHandSide _ _ _ ih₁ ih₂ ih₃ => exact ih₁.trans (ih₂.trans ih₃)
  | constructionApplied _ _ _ _ ih₁ ih₂ ih₃ => exact ((ih₁.trans ih₂).append ih₃).word rfl
  | constructionBare _ _ _ ih₁ ih₂ => exact ((ih₁.trans ih₂).append .here).word rfl
  -- operators
  | postfixEnd _ => exact .here
  | postfixMore hop => exact (Conserves.here.word (contents_of_postfixOperator? _ hop)).behind
  | unaryPrefix hop _ ih => exact ih.word (contents_of_prefixOperator? _ hop)
  | unaryPostfix _ _ _ ih₁ ih₂ => exact ih₁.trans ih₂
  | binaryEnd _ => exact .here
  | binaryMore hop _ _ _ ih₁ ih₂ ih₃ =>
      exact ((ih₁.trans ih₂).apply (contents_of_infixOperator? _ hop)).trans ih₃
  | conditionalEnd _ => exact .here
  | conditionalMore _ _ ih₁ ih₂ => exact ((ih₁.drop rfl).behind.append ih₂).silent rfl
  | operatorsRest _ _ ih₁ ih₂ => exact ih₁.trans ih₂
  | assignMore hop _ ih => exact (ih.word (contents_of_assignOperator? _ hop)).behind
  | assignEnd _ _ _ ih₁ ih₂ => exact ih₁.trans ih₂
  | assignmentPrefixed _ _ _ ih₁ ih₂ => exact ih₁.trans ih₂
  | assignmentPlain _ _ _ ih₁ ih₂ => exact ih₁.trans ih₂
  -- declared variables
  | declaratorPlain _ => exact Conserves.here.word rfl
  | declaratorInit _ ih => exact (ih.word rfl).word rfl
  | declarators _ _ ih₁ ih₂ => exact ih₁.append ih₂
  | declaratorsEnd _ => exact .here
  | declaratorsMore _ _ ih₁ ih₂ => exact (ih₁.append ih₂).silent rfl
  -- statements
  | ended => exact Conserves.here.silent rfl
  | inserted => exact Conserves.here.silent rfl
  | block _ _ ih => exact ih
  | declare _ _ ih₁ ih₂ => exact (ih₁.terminated ih₂).word rfl
  | empty => exact Conserves.here.silent rfl
  | labelled _ _ _ ih => exact (ih.silent rfl).word rfl
  | expressionStatement _ _ _ _ ih₁ ih₂ => exact ih₁.terminated ih₂
  | debugger _ ih => exact ih.word rfl
  | ifThen _ _ _ ih₁ ih₂ => exact ((ih₁.append ih₂).append .here).word rfl
  | ifElse _ _ _ ih₁ ih₂ ih₃ => exact ((ih₁.append ih₂).append (ih₃.word rfl)).word rfl
  | doWhile _ _ _ ih₁ ih₂ ih₃ =>
      exact (ih₁.append ((ih₂.terminated ih₃).word rfl)).word rfl
  | whileDo _ _ ih₁ ih₂ => exact (ih₁.append ih₂).word rfl
  | forLoop _ ih => exact (ih.silent rfl).token rfl
  | forNothing _ _ ih => exact ih
  | forVariables _ _ _ ih₁ ih₂ => exact (ih₁.behind.trans ih₂).token rfl
  | forInVariable _ _ ih₁ ih₂ =>
      exact ((ih₁.declared.close rfl).behind.trans ih₂).token rfl
  | forPrefixed _ _ _ _ ih₁ ih₂ ih₃ => exact (ih₁.trans ih₂).behind.trans ih₃
  | forExpression _ _ _ _ _ _ _ _ ih₁ ih₂ ih₃ ih₄ =>
      exact (ih₁.trans (ih₂.trans ih₃)).behind.trans ih₄
  | forInExpression _ _ _ _ _ ih₁ ih₂ => exact (ih₁.close rfl).behind.trans ih₂
  | forRest _ _ _ ih₁ ih₂ ih₃ =>
      exact (((ih₁.drop rfl).behind.append (ih₂.drop rfl)).append ih₃).silent rfl
  | forInRest _ _ ih₁ ih₂ => exact .forIn ((ih₁.drop rfl).append ih₂)
  | expressionAbsent _ => exact .here
  | expressionPresent _ _ ih => exact ih
  | jumpBare hk _ _ ih => exact .jump hk ih
  | jumpLabel hk _ ih => exact .jump hk (ih.word rfl)
  | returnNothing _ _ ih => exact ih.word rfl
  | returnValue _ _ _ ih₁ ih₂ => exact (ih₁.terminated ih₂).word rfl
  | throwValue _ _ ih₁ ih₂ => exact (ih₁.terminated ih₂).word rfl
  | withObject _ _ ih₁ ih₂ => exact (ih₁.append ih₂).word rfl
  | switch _ _ ih₁ ih₂ => exact ((ih₁.drop rfl).append ih₂).word rfl
  | clausesEnd => exact Conserves.here.silent rfl
  | clausesCase _ _ _ ih₁ ih₂ ih₃ =>
      exact (((ih₁.drop rfl).append ih₂).word rfl).append ih₃
  | clausesDefault _ _ ih₁ ih₂ => exact ((ih₁.silent rfl).word rfl).append ih₂
  | tryCatch _ _ _ _ ih₁ ih₂ ih₃ => exact ((ih₁.append ih₂).append ih₃).word rfl
  | handlerAbsent _ => exact .here
  | handlerPresent _ ih => exact (((ih.silent rfl).word rfl).silent rfl).word rfl
  | finalizerAbsent _ => exact .here
  | finalizerPresent _ ih => exact ih.word rfl
  | declaration _ ih => exact ih

end Parser

/-! ## Spellings -/

/-- A site begins with its token. -/
theorem Site.Valid.consistsOf {p : Site} {ts : List Text} (hp : p.Valid)
    (h : ConsistsOf p.rest ts) : ConsistsOf p.all (p.text :: ts) :=
  ⟨p.gap, p.rest, rfl, hp.fits, h⟩

/-- Adds what stands for the token of a mark to what stands for those before it. -/
def Mark.consumeWith {α : Type} (f : TokenKind → Text → Nat → α) (tokens : List α) :
    Mark → List α
  | .token k t start _ => tokens ++ [f k t start]
  | .literal k t start => tokens.dropLast ++ [f k t start]
  | _ => tokens

/-- Adds the token of a mark to those before it. -/
abbrev Mark.consume : List (TokenKind × Text) → Mark → List (TokenKind × Text) :=
  Mark.consumeWith fun k t _ => (k, t)

/-- The kind and the text of a token. -/
def lexemeOf (t : Token) : TokenKind × Text := (t.kind, t.text)

theorem consumed_marksWith {α : Type} (f : TokenKind → Text → Nat → α) (events : List Event) :
    (consumed events).map (fun t => f t.kind t.text t.place.offset) =
      (marksOf events).foldl (Mark.consumeWith f) [] := by
  rw [marksOf, List.foldl_filterMap]
  refine (List.foldl_hom _ fun tokens e => ?_).symm
  cases e <;> simp [Event.mark?, consume, Mark.consumeWith]

theorem consumed_marks (events : List Event) :
    (consumed events).map lexemeOf = (marksOf events).foldl Mark.consume [] :=
  consumed_marksWith (fun k t _ => (k, t)) events

theorem Site.marks_consume {α : Type} (f : TokenKind → Text → Nat → α) (q : Site) (o : Nat)
    (bare : Bool) (ts : List α) : (q.marks o bare).foldl (Mark.consumeWith f) ts =
      ts ++ [f q.kindHere q.text (q.start o)] := by
  unfold Site.marks
  cases bare && q.newline <;> rfl

namespace Parser

/-- The contents of some kinds and texts. -/
def contentsOfLexemes (lexemes : List (TokenKind × Text)) : List Content :=
  lexemes.flatMap fun l => EcmaSyntax.contents l.1 l.2

theorem contentsOf_eq (tokens : List Token) :
    contentsOf tokens = contentsOfLexemes (tokens.map lexemeOf) := by
  unfold contentsOf contentsOfLexemes
  rw [List.flatMap_map]
  rfl

theorem Spells.areSpelled {o : Nat} {bare claimed : Bool} {p : Site} {its : List Item}
    {marks : List Mark} (h : Spells o bare claimed p its marks) : AreSpelled its := by
  induction h with
  | stop => exact fun _ => nofun
  | taken hp _ hk _ _ ih =>
      refine (areSpelled_cons _ _).mpr ⟨hp.text_eq ?_, ih⟩
      rintro hend
      rw [hend] at hk
      cases hk
  | member _ _ _ _ _ _ _ _ ih => exact (areSpelled_cons _ _).mpr ⟨trivial, ih⟩
  | literal _ _ _ _ _ _ _ ih => exact (areSpelled_cons _ _).mpr ⟨trivial, ih⟩
  | ended _ _ _ _ _ ih => exact (areSpelled_cons _ _).mpr ⟨trivial, ih⟩
  | early _ _ ih => exact (areSpelled_cons _ _).mpr ⟨trivial, ih⟩
  | inserted _ _ _ _ ih => exact (areSpelled_cons _ _).mpr ⟨trivial, ih⟩
  | comments _ ih => exact (areSpelled_cons _ _).mpr ⟨trivial, ih⟩

theorem contents_eq {k : TokenKind} {t : Text} (h : (Item.taken k t).IsSpelled) :
    EcmaSyntax.contents k t = (Item.taken k t).contents := by
  cases hk : hasManyTexts k with
  | true => simp [Item.contents, hk]
  | false => simp [Item.contents, hk, h hk]

/-- What a stream has noted are the tokens that a text consists of, and their contents are those of
the items. -/
theorem Spells.consumed {o : Nat} {bare claimed : Bool} {p : Site} {its : List Item}
    {marks : List Mark} (h : Spells o bare claimed p its marks) (ts : List (TokenKind × Text)) :
    ∃ us, marks.foldl Mark.consume (ts ++ [(p.kindHere, p.text)]) = ts ++ us ∧
      ConsistsOf p.all (us.map (·.2)) ∧ contentsOfLexemes us = contentsOfItems its := by
  induction h generalizing ts with
  | @stop o bare claimed p hp hb hk =>
      refine ⟨[(p.kindHere, p.text)], rfl, hp.consistsOf (hp.rest_nil hk).2, ?_⟩
      rw [hk]
      rfl
  | @taken o bare claimed p q its marks hp hb hplain hall h ih =>
      obtain ⟨us, hfold, hconsists, hcontents⟩ := ih (ts ++ [(p.kindHere, p.text)])
      have hspelled : (Item.taken p.kindHere p.text).IsSpelled := hp.text_eq <| by
        intro hend
        rw [hend] at hplain
        cases hplain
      refine ⟨(p.kindHere, p.text) :: us, ?_, hp.consistsOf (hall ▸ hconsists), ?_⟩
      · rw [List.foldl_append, Site.marks_consume, hfold, List.append_assoc]
        rfl
      · rw [contentsOfItems_cons, ← contents_eq hspelled, ← hcontents]
        rfl
  | @member o bare claimed p q n its marks hp hb hk hall hq hname halln h ih =>
      obtain ⟨us, hfold, hconsists, hcontents⟩ :=
        ih (ts ++ [(p.kindHere, p.text)] ++ [(q.kindHere, q.text)])
      refine ⟨(p.kindHere, p.text) :: (q.kindHere, q.text) :: us, ?_,
        hp.consistsOf (hall ▸ hq.consistsOf (halln ▸ hconsists)), ?_⟩
      · rw [List.foldl_append, List.foldl_append, Site.marks_consume, Site.marks_consume, hfold,
          List.append_assoc, List.append_assoc]
        rfl
      · have hcontent : EcmaSyntax.contents q.kindHere q.text = [.text q.text] := by
          generalize q.kindHere = k at hname
          cases k <;> first | rfl | cases hname
        rw [contentsOfItems_cons, Item.contents_member, ← hcontents, ← hcontent, hk]
        rfl
  | @literal o bare claimed p q after body its marks hp hb hk htext hbody hall h ih =>
      obtain ⟨us, hfold, hconsists, hcontents⟩ := ih (ts ++ [(.regex, '/' :: body)])
      have hrest : p.text ++ p.rest = '/' :: body ++ q.all := by rw [htext, hall, List.cons_append]
      refine ⟨(.regex, '/' :: body) :: us, ?_, ⟨p.gap, q.all, ?_, ?_, hconsists⟩, ?_⟩
      · rw [List.foldl_cons, List.foldl_append, Mark.consume, Mark.consumeWith.eq_2,
          List.dropLast_concat, Site.marks_consume, hfold, List.append_assoc]
        rfl
      · rw [Site.all, hrest]
      · rw [← hrest]
        exact hp.fits
      · rw [contentsOfItems_cons, Item.contents_literal, ← hcontents]
        rfl
  | @ended o bare claimed p q its marks hp hb hk hall h ih =>
      obtain ⟨us, hfold, hconsists, hcontents⟩ := ih (ts ++ [(p.kindHere, p.text)])
      refine ⟨(p.kindHere, p.text) :: us, ?_, hp.consistsOf (hall ▸ hconsists), ?_⟩
      · show (q.marks _ _ ++ marks).foldl Mark.consume (ts ++ [(p.kindHere, p.text)]) = _
        rw [List.foldl_append, Site.marks_consume, hfold, List.append_assoc]
        rfl
      · rw [contentsOfItems_cons, Item.contents_ended, ← hcontents, hk]
        rfl
  | @early o bare claimed p its marks hb h ih => exact ih ts
  | @inserted o bare claimed p its marks hb hk ha h ih => exact ih ts
  | @comments o bare claimed p its marks h ih => exact ih ts

/-- The tokens that a run has taken are those that its stream has noted. -/
theorem lexemes_consumed {limit o : Nat} {bare : Bool} {p : Site} {P : Program} {s : ParserState}
    {ms : List Mark} {us : List (TokenKind × Text)} (h : run limit p.all = .ok P s)
    (hmarks : s.stream.marks = p.marks o bare ++ ms)
    (hfold : ms.foldl Mark.consume [(p.kindHere, p.text)] = [] ++ us) :
    (consumed (history (run limit p.all))).map lexemeOf = us := by
  rw [consumed_marks, h]
  show s.stream.marks.foldl Mark.consume [] = us
  rw [hmarks, List.foldl_append, Site.marks_consume]
  exact hfold

end Parser

/-- The tokens that a successful run has taken make up its source, and their contents are those of
the program. -/
theorem tokens_conserved {limit : Nat} {source : Text} {P : Program} {s : ParserState}
    (h : run limit source = .ok P s) :
    ConsistsOf source ((consumed (history (run limit source))).map (·.text)) ∧
      contentsOf (consumed (history (run limit source))) = P.flat := by
  obtain ⟨its, ⟨p, ms, rfl, hspells, hmarks⟩, hderives⟩ := Parser.run_ok_iff.mp ⟨s, h, rfl⟩
  obtain ⟨us, hfold, hconsists, hcontents⟩ := hspells.consumed []
  have hlexemes := Parser.lexemes_consumed h hmarks hfold
  have htexts : (consumed (history (run limit p.all))).map (·.text) = us.map (·.2) := by
    rw [← hlexemes, List.map_map]
    rfl
  have hflat := (hderives.conserves hspells.areSpelled).2
  refine ⟨htexts ▸ hconsists, ?_⟩
  rw [Parser.contentsOf_eq, hlexemes, hcontents]
  exact hflat.trans (List.append_nil _)

/-- In this source a slash divides, and another one opens a regular expression in a line that a
keyword has left. -/
theorem tokens_conserved_loop : ∃ P s,
    run 256 "for (var x in o) y[1] /= -z / 2\nreturn\n/a/g".toList = .ok P s ∧
      contentsOf (consumed (history
        (run 256 "for (var x in o) y[1] /= -z / 2\nreturn\n/a/g".toList))) = P.flat := by
  obtain ⟨P, s, h⟩ :=
    exists_run 256 "for (var x in o) y[1] /= -z / 2\nreturn\n/a/g".toList (by decide +kernel)
  exact ⟨P, s, h, (tokens_conserved h).2⟩

example : contentsOf (consumed (history (run 256 "(\x7bget a() \x7b\x7d\x7d)".toList))) =
    [.text "get".toList, .text "a".toList] := by decide +kernel

end EcmaSyntax
