import EcmaSyntax.Proofs.Grammar

/-!
# Where statements end

**Endings.**  An ending is an item that ends a statement: a semicolon, written or inserted.
Lists of items are alike if they differ only in their endings, and each ending of the second
list shows a token that goes on with neither an expression nor a list of variables.

**Results.**
* `Derives.orderly`: in what the grammar takes, each ending comes directly after a token.
* `Derives.transfer`: from alike items the grammar derives the same tree.

Neither do comments come between a token and an ending, nor are there two endings without a
token between them.  So whatever looks for the next token of a statement list sees the same
one in both lists.
-/

namespace EcmaSyntax

/-- Whether an ending may follow a rule. -/
def Rule.exit : Rule → Bool
  | .statement => false
  | .declaration => false
  | _ => true

namespace Parser

/-- Items that end a statement. -/
def Item.isEnding : Item → Bool
  | .ended _ => true
  | .inserted _ => true
  | _ => false

/-- Items that are tokens of the source. -/
def Item.isToken : Item → Bool
  | .taken _ _ => true
  | .member _ _ => true
  | .literal _ _ => true
  | _ => false

/-- Each ending comes directly after a token; whether a token comes before the first item is
given. -/
def Orderly : Bool → List Item → Prop
  | _, [] => True
  | b, it :: its => (it.isEnding → b) ∧ Orderly it.isToken its

namespace Orderly

variable {b : Bool} {k : TokenKind} {t : Text} {its : List Item}

@[simp] theorem nil : Orderly b [] := trivial

@[simp] theorem taken : Orderly b (.taken k t :: its) ↔ Orderly true its :=
  and_iff_right nofun

@[simp] theorem member : Orderly b (.member k t :: its) ↔ Orderly true its :=
  and_iff_right nofun

@[simp] theorem literal : Orderly b (.literal k t :: its) ↔ Orderly true its :=
  and_iff_right nofun

@[simp] theorem ended : Orderly b (.ended k :: its) ↔ b ∧ Orderly false its :=
  and_congr_left fun _ => ⟨fun h => h rfl, fun h _ => h⟩

@[simp] theorem inserted : Orderly b (.inserted k :: its) ↔ b ∧ Orderly false its :=
  and_congr_left fun _ => ⟨fun h => h rfl, fun h _ => h⟩

@[simp] theorem comments {cs : List Comment} :
    Orderly b (.comments cs :: its) ↔ Orderly false its :=
  and_iff_right nofun

theorem mono (h : Orderly false its) : Orderly b its := by
  cases its with
  | nil => trivial
  | cons it its => exact ⟨fun he => absurd (h.1 he) Bool.false_ne_true, h.2⟩

end Orderly

/-- Whether an ending may follow a part of the grammar. -/
def Nonterminal.exit : Nonterminal → Bool
  | .rule r => r.exit
  | .body r => r.exit
  | .element => false
  | .elements _ => false
  | .arrayElements => false
  | .property => false
  | .members => false
  | .terminator => false
  | .expressionBefore _ => false
  | .forHeader => false
  | .forRest _ => false
  | .forInRest _ => false
  | .clauses _ => false
  | .handler => false
  | .finalizer => false
  | _ => true

/-- Whether a part of the grammar may start with an ending, or be empty before one. -/
def Nonterminal.entry : Nonterminal → Bool
  | .sequenceRest _ _ => true
  | .operands _ => true
  | .memberTail _ => true
  | .callTail _ => true
  | .postfixed _ => true
  | .binary _ _ _ => true
  | .conditionalRest _ _ => true
  | .operatorsRest _ _ => true
  | .assignmentRest _ _ => true
  | .declaratorsRest _ => true
  | .terminator => true
  | _ => false

open TokenStream (isRestrictedKeyword)

/-- Kinds of tokens that go on with neither an expression nor a list of variables. -/
def closes : TokenKind → Bool
  | .semicolon | .insertedSemicolon | .closeBrace | .endOfInput | .identifier | .number | .string
  | .openBrace | .logicalNot | .tilde | .restrictedIncrement | .restrictedDecrement => true
  | k => k.isKeyword && k ≠ .kwIn && k ≠ .kwInstanceof

/-- Endings in front of which every expression stops; after a keyword that may stand alone, endings
in front of which nothing follows it. -/
inductive Ending : Bool → Item → Prop
  | ended {a : Bool} {k : TokenKind} :
      closes k → (a → endsReturn k) → Ending a (.ended k)
  | inserted {a : Bool} {k : TokenKind} :
      closes k → (a → endsReturn k) → Ending a (.inserted k)

/-- Items are alike if they differ only in some of their endings. -/
inductive Alike : Bool → List Item → List Item → Prop
  | nil {a : Bool} : Alike a [] []
  | taken {a : Bool} {k : TokenKind} {t : Text} {its its' : List Item} :
      Alike (isRestrictedKeyword k) its its' → Alike a (.taken k t :: its) (.taken k t :: its')
  | member {a : Bool} {k : TokenKind} {t : Text} {its its' : List Item} :
      Alike false its its' → Alike a (.member k t :: its) (.member k t :: its')
  | literal {a : Bool} {k : TokenKind} {t : Text} {its its' : List Item} :
      Alike false its its' → Alike a (.literal k t :: its) (.literal k t :: its')
  | comments {a : Bool} {cs : List Comment} {its its' : List Item} :
      Alike false its its' → Alike a (.comments cs :: its) (.comments cs :: its')
  | kept {a : Bool} {e : Item} {its its' : List Item} :
      e.isEnding → Alike false its its' → Alike a (e :: its) (e :: its')
  | ending {a : Bool} {e e' : Item} {its its' : List Item} :
      e.isEnding → Ending a e' → Alike false its its' → Alike a (e :: its) (e' :: its')

namespace Alike

variable {a : Bool} {k : TokenKind} {t : Text} {its x : List Item}

theorem cons (it : Item) {its' : List Item} (h : ∀ a, Alike a its its') (a : Bool) :
    Alike a (it :: its) (it :: its') := by
  cases it with
  | taken => exact .taken (h _)
  | member => exact .member (h _)
  | literal => exact .literal (h _)
  | ended => exact .kept rfl (h _)
  | inserted => exact .kept rfl (h _)
  | comments => exact .comments (h _)

/-- What differs in its endings only may stand behind other items. -/
theorem append_left (its : List Item) {x' : List Item} (h : ∀ a, Alike a x x') (a : Bool) :
    Alike a (its ++ x) (its ++ x') := by
  induction its generalizing a with
  | nil => exact h a
  | cons it its ih => exact cons it ih a

theorem refl (a : Bool) (its : List Item) : Alike a its its := by
  simpa using append_left its (fun _ => .nil) a

theorem taken_iff : Alike a (.taken k t :: its) x ↔
    ∃ its', x = .taken k t :: its' ∧ Alike (isRestrictedKeyword k) its its' := by
  constructor
  · intro h
    cases h with
    | taken h => exact ⟨_, rfl, h⟩
    | kept he => cases he
    | ending he => cases he
  · rintro ⟨its', rfl, h⟩
    exact .taken h

theorem member_iff : Alike a (.member k t :: its) x ↔
    ∃ its', x = .member k t :: its' ∧ Alike false its its' := by
  constructor
  · intro h
    cases h with
    | member h => exact ⟨_, rfl, h⟩
    | kept he => cases he
    | ending he => cases he
  · rintro ⟨its', rfl, h⟩
    exact .member h

theorem literal_iff : Alike a (.literal k t :: its) x ↔
    ∃ its', x = .literal k t :: its' ∧ Alike false its its' := by
  constructor
  · intro h
    cases h with
    | literal h => exact ⟨_, rfl, h⟩
    | kept he => cases he
    | ending he => cases he
  · rintro ⟨its', rfl, h⟩
    exact .literal h

theorem comments_iff {cs : List Comment} : Alike a (.comments cs :: its) x ↔
    ∃ its', x = .comments cs :: its' ∧ Alike false its its' := by
  constructor
  · intro h
    cases h with
    | comments h => exact ⟨_, rfl, h⟩
    | kept he => cases he
    | ending he => cases he
  · rintro ⟨its', rfl, h⟩
    exact .comments h

/-- The same token is at hand before alike items, unless an ending comes first. -/
theorem peek_orderly {last : TokenKind} (h : Alike a its x) (ho : Orderly false its) :
    peek last x = peek last its := by
  induction h with
  | comments _ ih => exact ih (by simpa using ho)
  | kept he => exact absurd (ho.1 he) Bool.false_ne_true
  | ending he => exact absurd (ho.1 he) Bool.false_ne_true
  | _ => rfl

theorem peek_closes {last : TokenKind} (h : Alike a its x) :
    peek last x = peek last its ∨ closes (peek last x) := by
  induction h with
  | comments _ ih => exact ih
  | @kept _ e _ _ he =>
      cases e with
      | comments => cases he
      | _ => exact .inl rfl
  | ending _ he => cases he with
    | ended h => exact .inr h
    | inserted h => exact .inr h
  | _ => exact .inl rfl

theorem peek_ne {last c : TokenKind} (h : Alike a its x) (hc : closes c = false)
    (hp : peek last its ≠ c) : peek last x ≠ c := by
  obtain hx | hx : peek last x = peek last its ∨ closes (peek last x) := h.peek_closes
  · rw [hx]
    exact hp
  · rintro rfl
    rw [hc] at hx
    cases hx

end Alike

theorem Derives.terminator_inv {last : TokenKind} {room : Nat} {i r : List Item}
    (h : Derives last room .terminator i () r) : ∃ e, e.isEnding ∧ i = e :: r := by
  cases h with
  | ended => exact ⟨_, rfl, rfl⟩
  | inserted => exact ⟨_, rfl, rfl⟩

/-- Where a statement ends, one of the alike items ends it too. -/
theorem Alike.terminator {a : Bool} {e : Item} {its x : List Item} (last : TokenKind) (room : Nat)
    (h : Alike a (e :: its) x) (he : e.isEnding) :
    (peek last x = peek last (e :: its) ∨ (a → endsReturn (peek last x))) ∧
      ∃ b x', Alike b its x' ∧ Derives last room .terminator x () x' := by
  cases h with
  | kept _ h =>
      cases e with
      | ended => exact ⟨.inl rfl, _, _, h, .ended⟩
      | inserted => exact ⟨.inl rfl, _, _, h, .inserted⟩
      | _ => cases he
  | ending _ hx h =>
      cases hx with
      | ended _ hk => exact ⟨.inr hk, _, _, h, .ended⟩
      | inserted _ hk => exact ⟨.inr hk, _, _, h, .inserted⟩
  | _ => cases he

section Closes

variable {k : TokenKind} (h : closes k)

include h

theorem closes_postfix : k.postfixOperator? = none := by
  cases k <;> first | rfl | cases h

theorem closes_assign : k.assignOperator? = none := by
  cases k <;> first | rfl | cases h

theorem closes_infix (p : Nat) (g : Grammar) : infixOperator? p g k = none := by
  have hk : k.infixOperator? = none := by cases k <;> first | rfl | cases h
  simp [infixOperator?, hk]

end Closes

/-- Items in which each ending comes directly after a token, and items alike. -/
structure Paired (afterToken : Bool) (its its' : List Item) : Prop where
  orderly : Orderly afterToken its
  alike : ∃ a, Alike a its its'

namespace Paired

variable {b : Bool} {its its' : List Item} {last : TokenKind}

theorem mono (h : Paired false its its') : Paired b its its' := ⟨h.orderly.mono, h.alike⟩

theorem peek_eq (h : Paired false its its') : peek last its' = peek last its := by
  obtain ⟨ho, _, h⟩ := h
  exact h.peek_orderly ho

theorem peek_ne {c : TokenKind} (h : Paired b its its') (hc : closes c = false)
    (hp : peek last its ≠ c) : peek last its' ≠ c := by
  obtain ⟨-, _, h⟩ := h
  exact h.peek_ne hc hp

theorem peek_postfix (h : Paired b its its') (hp : (peek last its).postfixOperator? = none) :
    (peek last its').postfixOperator? = none := by
  obtain ⟨-, _, h⟩ := h
  obtain heq | hc := h.peek_closes 
  · rwa [heq]
  · exact closes_postfix hc

theorem peek_assign (h : Paired b its its') (hp : (peek last its).assignOperator? = none) :
    (peek last its').assignOperator? = none := by
  obtain ⟨-, _, h⟩ := h
  obtain heq | hc := h.peek_closes 
  · rwa [heq]
  · exact closes_assign hc

theorem peek_infix {p : Nat} {g : Grammar} (h : Paired b its its')
    (hp : infixOperator? p g (peek last its) = none) :
    infixOperator? p g (peek last its') = none := by
  obtain ⟨-, _, h⟩ := h
  obtain heq | hc := h.peek_closes 
  · rwa [heq]
  · exact closes_infix hc p g

end Paired

/-- In what is taken from one list on to another one each ending comes directly after a token, and
of alike items alike ones are taken, so that what holds of the two lists holds of them. -/
def Transferring (entry exit : Bool) (i r : List Item) (holds : List Item → List Item → Prop) :
    Prop :=
  Orderly exit r → Orderly entry i ∧
    ∀ a i', Alike a i i' → ∃ b r', Alike b r r' ∧ holds i' r'

namespace Transferring

variable {a b c : Bool} {i m n r : List Item} {k : TokenKind} {t : Text} {it : Item}
  {holds holds' holds₁ holds₂ holds₃ : List Item → List Item → Prop}

theorem here (h : ∀ {r'}, Paired b r r' → holds r' r') : Transferring b b r r holds :=
  fun ho => ⟨ho, fun a r' hr => ⟨a, r', hr, h ⟨ho, a, hr⟩⟩⟩

theorem imp (h : Transferring a b i r holds)
    (himp : ∀ {i' r'}, Paired a i i' → Paired b r r' → holds i' r' → holds' i' r') :
    Transferring a b i r holds' := by
  intro ho
  obtain ⟨hi, h⟩ := h ho
  refine ⟨hi, fun c i' halike => ?_⟩
  obtain ⟨d, r', hr, hholds⟩ := h c i' halike
  exact ⟨d, r', hr, himp ⟨hi, c, halike⟩ ⟨ho, d, hr⟩ hholds⟩

theorem comp (h : Transferring a b i m holds) (h' : Transferring b c m r holds') :
    Transferring a c i r fun i' r' => ∃ m', Paired b m m' ∧ holds i' m' ∧ holds' m' r' := by
  intro ho
  obtain ⟨hm, h'⟩ := h' ho
  obtain ⟨hi, h⟩ := h hm
  refine ⟨hi, fun d i' halike => ?_⟩
  obtain ⟨d', m', halike', hholds⟩ := h d i' halike
  obtain ⟨e, r', hr, hholds'⟩ := h' d' m' halike'
  exact ⟨e, r', hr, m', ⟨hm, d', halike'⟩, hholds, hholds'⟩

theorem imp₂ (h : Transferring a b i r
      fun i' r' => ∃ m', Paired c m m' ∧ holds₁ i' m' ∧ holds₂ m' r')
    (himp : ∀ {i' m' r'}, Paired a i i' → Paired b r r' → Paired c m m' → holds₁ i' m' →
      holds₂ m' r' → holds i' r') : Transferring a b i r holds := by
  refine h.imp fun hi hr hholds => ?_
  obtain ⟨m', hm, h₁, h₂⟩ := hholds
  exact himp hi hr hm h₁ h₂

theorem imp₃ {d : Bool} (h : Transferring a b i r fun i' r' => ∃ n', Paired d n n' ∧
      (∃ m', Paired c m m' ∧ holds₁ i' m' ∧ holds₂ m' n') ∧ holds₃ n' r')
    (himp : ∀ {i' m' n' r'}, Paired a i i' → Paired b r r' → Paired c m m' → holds₁ i' m' →
      holds₂ m' n' → holds₃ n' r' → holds i' r') : Transferring a b i r holds := by
  refine h.imp₂ fun hi hr _ hholds h₃ => ?_
  obtain ⟨m', hm, h₁, h₂⟩ := hholds
  exact himp hi hr hm h₁ h₂ h₃

/-- What starts with no ending may follow a token. -/
theorem mono (h : Transferring false b i r holds) : Transferring a b i r holds := by
  intro ho
  obtain ⟨hi, h⟩ := h ho
  exact ⟨hi.mono, h⟩

/-- What may follow a token may follow where none may. -/
theorem loose (h : Transferring a b i r holds) : Transferring a false i r holds :=
  fun ho => h (by cases b with
    | true => exact ho.mono
    | false => exact ho)

theorem token (h : Transferring true b i r fun i' r' => holds (.taken k t :: i') r') :
    Transferring a b (.taken k t :: i) r holds := by
  intro ho
  obtain ⟨hi, h⟩ := h ho
  refine ⟨Orderly.taken.mpr hi, fun c x hx => ?_⟩
  obtain ⟨i', rfl, halike⟩ := Alike.taken_iff.mp hx
  exact h _ i' halike

theorem member (h : Transferring true b i r fun i' r' => holds (.member k t :: i') r') :
    Transferring a b (.member k t :: i) r holds := by
  intro ho
  obtain ⟨hi, h⟩ := h ho
  refine ⟨Orderly.member.mpr hi, fun c x hx => ?_⟩
  obtain ⟨i', rfl, halike⟩ := Alike.member_iff.mp hx
  exact h _ i' halike

theorem literal (h : Transferring true b i r fun i' r' => holds (.literal k t :: i') r') :
    Transferring a b (.literal k t :: i) r holds := by
  intro ho
  obtain ⟨hi, h⟩ := h ho
  refine ⟨Orderly.literal.mpr hi, fun c x hx => ?_⟩
  obtain ⟨i', rfl, halike⟩ := Alike.literal_iff.mp hx
  exact h _ i' halike

theorem comments {cs : List Comment}
    (h : Transferring false b i r fun i' r' => holds (.comments cs :: i') r') :
    Transferring a b (.comments cs :: i) r holds := by
  intro ho
  obtain ⟨hi, h⟩ := h ho
  refine ⟨Orderly.comments.mpr hi, fun c x hx => ?_⟩
  obtain ⟨i', rfl, halike⟩ := Alike.comments_iff.mp hx
  exact h _ i' halike

/-- The token after the items is taken too. -/
theorem before (h : Transferring a b i (.taken k t :: r) holds) :
    Transferring a c i r fun i' r' => holds i' (.taken k t :: r') := by
  intro ho
  have ho : Orderly true r := by cases c with
    | true => exact ho
    | false => exact ho.mono
  obtain ⟨hi, h⟩ := h (Orderly.taken.mpr ho)
  refine ⟨hi, fun d i' halike => ?_⟩
  obtain ⟨_, x, hx, hholds⟩ := h d i' halike
  obtain ⟨r', rfl, hr⟩ := Alike.taken_iff.mp hx
  exact ⟨_, r', hr, hholds⟩

/-- Behind the keyword of a jump it is known which endings may come. -/
theorem jump (h : Transferring true b i r holds)
    (himp : ∀ {i' r'}, Alike (isRestrictedKeyword k) i i' → holds i' r' →
      holds' (.taken k t :: i') r') : Transferring a b (.taken k t :: i) r holds' := by
  intro ho
  obtain ⟨hi, h⟩ := h ho
  refine ⟨Orderly.taken.mpr hi, fun c x hx => ?_⟩
  obtain ⟨i', rfl, halike⟩ := Alike.taken_iff.mp hx
  obtain ⟨d, r', hr, hholds⟩ := h _ i' halike
  exact ⟨d, r', hr, himp halike hholds⟩

/-- The end of a statement. -/
theorem ending {last : TokenKind} {room : Nat} (hit : it.isEnding) :
    Transferring true false (it :: r) r fun i' r' => Derives last room .terminator i' () r' := by
  have htoken : it.isToken = false := by cases it <;> first | rfl | cases hit
  refine fun ho => ⟨⟨fun _ => rfl, by rwa [htoken]⟩, fun _ _ h => ?_⟩
  exact (h.terminator last room hit).2

end Transferring

/-- In what the grammar takes, each ending comes directly after a token, and any other ending that
closes the statement does as well. -/
theorem Derives.transfers {last : TokenKind} {room : Nat} {n : Nonterminal} {i r : List Item}
    {tree : n.Tree} (h : Derives last room n i tree r) :
    Transferring n.entry n.exit i r fun i' r' => Derives last room n i' tree r' := by
  induction h with
  | nested _ ih => exact ih.imp fun _ _ d => .nested d
  -- sequences and lists
  | sequenceEnd hi => exact .here fun h => .sequenceEnd (h.peek_ne rfl hi)
  | sequenceMore hi hes ih =>
      cases hes with
      | operandsEnd hi' => exact absurd hi hi'
      | operandsMore =>
          -- the comma is still there
          refine ih.imp fun h _ d => ?_
          obtain ⟨-, _, h⟩ := h
          obtain ⟨_, rfl, -⟩ := Alike.taken_iff.mp h
          exact .sequenceMore rfl d
  | operandsEnd hi => exact .here fun h => .operandsEnd (h.peek_ne rfl hi)
  | operandsMore _ _ ih₁ ih₂ =>
      exact .token (.mono ((ih₁.comp ih₂).imp₂ fun _ _ _ d₁ d₂ => .operandsMore d₁ d₂))
  | expression _ _ ih₁ ih₂ => exact (ih₁.comp ih₂).imp₂ fun _ _ _ d₁ d₂ => .expression d₁ d₂
  | parenthesized _ ih => exact .token (.mono (ih.before.imp fun _ _ d => .parenthesized d))
  | argumentsNone => exact .token (.token (.here fun _ => .argumentsNone))
  | argumentsSome hi _ _ ih₁ ih₂ =>
      exact .token (.mono ((ih₁.loose.comp ih₂).imp₂ fun h _ _ d₁ d₂ =>
        .argumentsSome (h.peek_eq ▸ hi) d₁ d₂))
  | argumentsEnd => exact .token (.here fun _ => .argumentsEnd)
  | argumentsMore _ _ ih₁ ih₂ =>
      exact .token (.mono ((ih₁.loose.comp ih₂).imp₂ fun _ _ _ d₁ d₂ => .argumentsMore d₁ d₂))
  -- statement lists and functions
  | elementFunction hi _ ih => exact ih.imp fun h _ d => .elementFunction (h.peek_eq ▸ hi) d
  | elementStatement hi _ ih => exact ih.imp fun h _ d => .elementStatement (h.peek_eq ▸ hi) d
  | elementsEnd hi => exact .comments (.here fun h => .elementsEnd (h.peek_eq ▸ hi))
  | elementsMore hi _ _ ih₁ ih₂ =>
      exact .comments ((ih₁.comp ih₂).imp₂ fun h _ _ d₁ d₂ =>
        .elementsMore (h.peek_eq ▸ hi) d₁ d₂)
  | blockBody _ ih => exact .token (.mono (ih.before.imp fun _ _ d => .blockBody d))
  | functionNamed _ _ ih₁ ih₂ =>
      exact .token (.token (.mono ((ih₁.loose.comp ih₂).imp₂ fun _ _ _ d₁ d₂ =>
        .functionNamed d₁ d₂)))
  | functionPlain _ _ ih₁ ih₂ =>
      exact .token (.mono ((ih₁.loose.comp ih₂).imp₂ fun _ _ _ d₁ d₂ => .functionPlain d₁ d₂))
  | parametersNone => exact .token (.token (.here fun _ => .parametersNone))
  | parametersSome _ ih => exact .token (.token (.mono (ih.imp fun _ _ d => .parametersSome d)))
  | parametersEnd => exact .token (.here fun _ => .parametersEnd)
  | parametersMore _ ih => exact .token (.token (.mono (ih.imp fun _ _ d => .parametersMore d)))
  -- literals with parts
  | arrayEnd hi => exact .here fun h => .arrayEnd (h.peek_eq ▸ hi)
  | arrayHole _ ih => exact .token (.mono (ih.imp fun _ _ d => .arrayHole d))
  | arrayLast hi hi' _ hm _ ih₁ ih₂ =>
      exact (ih₁.loose.comp ih₂).imp₂ fun h _ hm' d₁ d₂ =>
        .arrayLast (h.peek_eq ▸ hi) (h.peek_eq ▸ hi') d₁ (hm'.peek_eq ▸ hm) d₂
  | arrayMore hi hi' _ _ ih₁ ih₂ =>
      exact (ih₁.before.comp ih₂).imp₂ fun h _ _ d₁ d₂ =>
        .arrayMore (h.peek_eq ▸ hi) (h.peek_eq ▸ hi') d₁ d₂
  | propertyInit hkey _ ih =>
      exact .token (.token (.mono (ih.loose.imp fun _ _ d => .propertyInit hkey d)))
  | propertyGetter hkey _ ih =>
      exact .token (.token (.token (.token
        (.mono (ih.loose.imp fun _ _ d => .propertyGetter hkey d)))))
  | propertySetter hkey _ ih =>
      exact .token (.token (.token (.token (.token
        (.mono (ih.loose.imp fun _ _ d => .propertySetter hkey d))))))
  | membersEnd hi => exact .here fun h => .membersEnd (h.peek_eq ▸ hi)
  | membersLast hi _ hm _ ih₁ ih₂ =>
      exact (ih₁.comp ih₂).imp₂ fun h _ hm' d₁ d₂ =>
        .membersLast (h.peek_eq ▸ hi) d₁ (hm'.peek_eq ▸ hm) d₂
  | membersMore hi _ _ ih₁ ih₂ =>
      exact (ih₁.before.comp ih₂).imp₂ fun h _ _ d₁ d₂ => .membersMore (h.peek_eq ▸ hi) d₁ d₂
  -- primary expressions
  | primaryThis => exact .token (.here fun _ => .primaryThis)
  | primaryName => exact .token (.here fun _ => .primaryName)
  | primaryNull => exact .token (.here fun _ => .primaryNull)
  | primaryTrue => exact .token (.here fun _ => .primaryTrue)
  | primaryFalse => exact .token (.here fun _ => .primaryFalse)
  | primaryNumber hvalue => exact .token (.here fun _ => .primaryNumber hvalue)
  | primaryString => exact .token (.here fun _ => .primaryString)
  | primaryRegex => exact .literal (.here fun _ => .primaryRegex)
  | primaryArray _ ih => exact .token (.mono (ih.before.imp fun _ _ d => .primaryArray d))
  | primaryObject hg _ ih => exact .token (.mono (ih.before.imp fun _ _ d => .primaryObject hg d))
  | primaryFunction hg hi _ ih =>
      exact ih.imp fun h _ d => .primaryFunction hg (h.peek_eq ▸ hi) d
  | primaryParenthesized hi _ ih =>
      exact ih.imp fun h _ d => .primaryParenthesized (h.peek_eq ▸ hi) d
  -- left-hand sides
  | memberEnd hi hi' =>
      exact .here fun h => .memberEnd (h.peek_ne rfl hi) (h.peek_ne rfl hi')
  | memberDot _ ih => exact .member (ih.imp fun _ _ d => .memberDot d)
  | memberBracket _ _ ih₁ ih₂ =>
      exact .token (.mono ((ih₁.before.comp ih₂).imp₂ fun _ _ _ d₁ d₂ => .memberBracket d₁ d₂))
  | callEnd hi => exact .here fun h => .callEnd (h.peek_ne rfl hi)
  | callMore hi _ _ _ ih₁ ih₂ ih₃ =>
      exact .mono (((ih₁.comp ih₂).comp ih₃).imp₃ fun h _ _ d₁ d₂ d₃ =>
        .callMore (h.peek_eq ▸ hi) d₁ d₂ d₃)
  | headNew hi _ ih => exact ih.imp fun h _ d => .headNew (h.peek_eq ▸ hi) d
  | headPrimary hi _ ih => exact ih.imp fun h _ d => .headPrimary (h.peek_eq ▸ hi) d
  | leftHandSide _ _ _ ih₁ ih₂ ih₃ =>
      exact ((ih₁.comp ih₂).comp ih₃).imp₃ fun _ _ _ d₁ d₂ d₃ => .leftHandSide d₁ d₂ d₃
  | constructionApplied _ _ hm _ ih₁ ih₂ ih₃ =>
      refine .token (.mono (((ih₁.comp ih₂).loose.comp ih₃).imp fun _ _ hholds => ?_))
      obtain ⟨_, hm', ⟨_, _, d₁, d₂⟩, d₃⟩ := hholds
      exact .constructionApplied d₁ d₂ (hm'.peek_eq ▸ hm) d₃
  | constructionBare _ _ hr ih₁ ih₂ =>
      exact .token (.mono ((ih₁.comp ih₂).imp₂ fun _ hr' _ d₁ d₂ =>
        .constructionBare d₁ d₂ (hr'.peek_ne rfl hr)))
  -- operators
  | postfixEnd hi => exact .here fun h => .postfixEnd (h.peek_postfix hi)
  | postfixMore hop => exact .token (.here fun _ => .postfixMore hop)
  | unaryPrefix hop _ ih => exact .token (.mono (ih.imp fun _ _ d => .unaryPrefix hop d))
  | unaryPostfix hi _ _ ih₁ ih₂ =>
      exact (ih₁.comp ih₂).imp₂ fun h _ _ d₁ d₂ => .unaryPostfix (h.peek_eq ▸ hi) d₁ d₂
  | binaryEnd hi => exact .here fun h => .binaryEnd (h.peek_infix hi)
  | binaryMore hop _ _ _ ih₁ ih₂ ih₃ =>
      exact .token (.mono (((ih₁.comp ih₂).comp ih₃).imp₃ fun _ _ _ d₁ d₂ d₃ =>
        .binaryMore hop d₁ d₂ d₃))
  | conditionalEnd hi => exact .here fun h => .conditionalEnd (h.peek_ne rfl hi)
  | conditionalMore _ _ ih₁ ih₂ =>
      exact .token (.mono ((ih₁.before.comp ih₂).imp₂ fun _ _ _ d₁ d₂ => .conditionalMore d₁ d₂))
  | operatorsRest _ _ ih₁ ih₂ =>
      exact (ih₁.comp ih₂).imp₂ fun _ _ _ d₁ d₂ => .operatorsRest d₁ d₂
  | assignMore hop _ ih => exact .token (.mono (ih.imp fun _ _ d => .assignMore hop d))
  | assignEnd hi _ _ ih₁ ih₂ =>
      exact (ih₁.comp ih₂).imp₂ fun h _ _ d₁ d₂ => .assignEnd (h.peek_assign hi) d₁ d₂
  | assignmentPrefixed hi _ _ ih₁ ih₂ =>
      exact (ih₁.comp ih₂).imp₂ fun h _ _ d₁ d₂ => .assignmentPrefixed (h.peek_eq ▸ hi) d₁ d₂
  | assignmentPlain hi _ _ ih₁ ih₂ =>
      exact (ih₁.comp ih₂).imp₂ fun h _ _ d₁ d₂ => .assignmentPlain (h.peek_eq ▸ hi) d₁ d₂
  -- declared variables
  | declaratorPlain hi => exact .token (.here fun h => .declaratorPlain (h.peek_ne rfl hi))
  | declaratorInit _ ih => exact .token (.token (.mono (ih.imp fun _ _ d => .declaratorInit d)))
  | declarators _ _ ih₁ ih₂ => exact (ih₁.comp ih₂).imp₂ fun _ _ _ d₁ d₂ => .declarators d₁ d₂
  | declaratorsEnd hi => exact .here fun h => .declaratorsEnd (h.peek_ne rfl hi)
  | declaratorsMore _ _ ih₁ ih₂ =>
      exact .token (.mono ((ih₁.comp ih₂).imp₂ fun _ _ _ d₁ d₂ => .declaratorsMore d₁ d₂))
  -- statements
  | ended => exact .ending rfl
  | inserted => exact .ending rfl
  | block hi _ ih => exact ih.loose.imp fun h _ d => .block (h.peek_eq ▸ hi) d
  | declare _ _ ih₁ ih₂ =>
      exact .token (.mono ((ih₁.comp ih₂).imp₂ fun _ _ _ d₁ d₂ => .declare d₁ d₂))
  | empty => exact .token (.mono (.here fun _ => .empty))
  | labelled _ _ ih₁ ih₂ =>
      refine (ih₁.before.comp ih₂).imp₂ fun h _ _ d₁ d₂ => ?_
      -- the name and the colon are still there
      obtain rfl := d₁.eq_name (h.peek_eq.trans rfl)
      exact .labelled d₁ d₂
  | expressionStatement hi _ hm _ ih₁ ih₂ =>
      refine (ih₁.comp ih₂).imp₂ fun h _ hm' d₁ d₂ => ?_
      refine .expressionStatement (h.peek_eq ▸ hi) d₁ (fun hname => ?_) d₂
      rw [h.peek_eq] at hname
      exact hm'.peek_ne rfl (fun hcolon => hm ⟨hname.1, hname.2.1, hcolon⟩) hname.2.2
  | debugger _ ih => exact .token (ih.imp fun _ _ d => .debugger d)
  | ifThen _ _ hr ih₁ ih₂ =>
      exact .token (.mono ((ih₁.loose.comp ih₂).imp₂ fun _ hr' _ d₁ d₂ =>
        .ifThen d₁ d₂ (hr'.peek_eq ▸ hr)))
  | ifElse _ _ _ ih₁ ih₂ ih₃ =>
      exact .token (.mono (((ih₁.loose.comp ih₂.before).comp ih₃).imp₃ fun _ _ _ d₁ d₂ d₃ =>
        .ifElse d₁ d₂ d₃))
  | doWhile _ _ _ ih₁ ih₂ ih₃ =>
      exact .token (.mono (((ih₁.before.comp ih₂).comp ih₃).imp₃ fun _ _ _ d₁ d₂ d₃ =>
        .doWhile d₁ d₂ d₃))
  | whileDo _ _ ih₁ ih₂ =>
      exact .token (.mono ((ih₁.loose.comp ih₂).imp₂ fun _ _ _ d₁ d₂ => .whileDo d₁ d₂))
  | forLoop _ ih => exact .token (.token (.mono (ih.imp fun _ _ d => .forLoop d)))
  | forNothing hi _ ih => exact ih.imp fun h _ d => .forNothing (h.peek_eq ▸ hi) d
  | forVariables _ hm _ ih₁ ih₂ =>
      exact .token (.mono ((ih₁.loose.comp ih₂).imp₂ fun _ _ hm' d₁ d₂ =>
        .forVariables d₁ (hm'.peek_eq ▸ hm) d₂))
  | forInVariable _ _ ih₁ ih₂ =>
      exact .token (.mono ((ih₁.before.comp ih₂).imp₂ fun _ _ _ d₁ d₂ => .forInVariable d₁ d₂))
  | forPrefixed hi _ _ _ ih₁ ih₂ ih₃ =>
      refine ((ih₁.comp ih₂).loose.comp ih₃).imp fun h _ hholds => ?_
      obtain ⟨_, _, ⟨_, _, d₁, d₂⟩, d₃⟩ := hholds
      exact .forPrefixed (h.peek_eq ▸ hi) d₁ d₂ d₃
  | forExpression hi hi' hp _ hm _ _ _ ih₁ ih₂ ih₃ ih₄ =>
      refine (ih₁.comp ((ih₂.comp ih₃).loose.comp ih₄)).imp₂ fun h _ hm' d₁ hholds => ?_
      obtain ⟨_, _, ⟨_, _, d₂, d₃⟩, d₄⟩ := hholds
      exact .forExpression (h.peek_eq ▸ hi) (h.peek_eq ▸ hi') (h.peek_eq ▸ hp) d₁
        (hm'.peek_ne rfl hm) d₂ d₃ d₄
  | forInExpression hi hi' hp _ _ ih₁ ih₂ =>
      exact (ih₁.before.comp ih₂).imp₂ fun h _ _ d₁ d₂ =>
        .forInExpression (h.peek_eq ▸ hi) (h.peek_eq ▸ hi') (h.peek_eq ▸ hp) d₁ d₂
  | forRest _ _ _ ih₁ ih₂ ih₃ =>
      exact .token (.mono (((ih₁.before.comp ih₂.before).comp ih₃).imp₃ fun _ _ _ d₁ d₂ d₃ =>
        .forRest d₁ d₂ d₃))
  | forInRest _ _ ih₁ ih₂ =>
      exact (ih₁.before.comp ih₂).imp₂ fun _ _ _ d₁ d₂ => .forInRest d₁ d₂
  | expressionAbsent hi => exact .here fun h => .expressionAbsent (h.peek_eq ▸ hi)
  | expressionPresent hi _ ih =>
      exact ih.loose.imp fun h _ d => .expressionPresent (h.peek_eq ▸ hi) d
  | jumpBare hk hi hend ih =>
      obtain ⟨e, he, rfl⟩ := hend.terminator_inv
      refine .jump ih fun halike d => .jumpBare hk (fun hname => ?_) d
      obtain hc | hc := (halike.terminator last room he).1
      · exact hi (hc.symm.trans hname)
      · have := hc (by obtain rfl | rfl := hk <;> rfl)
        rw [hname] at this
        cases this
  | jumpLabel hk _ ih => exact .token (.token (ih.imp fun _ _ d => .jumpLabel hk d))
  | returnNothing hi hend ih =>
      obtain ⟨e, he, rfl⟩ := hend.terminator_inv
      refine .jump ih fun halike d => .returnNothing ?_ d
      obtain hc | hc := (halike.terminator last room he).1
      · exact hc ▸ hi
      · exact hc rfl
  | returnValue hi _ _ ih₁ ih₂ =>
      exact .token (.mono ((ih₁.comp ih₂).imp₂ fun h _ _ d₁ d₂ =>
        .returnValue (h.peek_eq ▸ hi) d₁ d₂))
  | throwValue _ _ ih₁ ih₂ =>
      exact .token (.mono ((ih₁.comp ih₂).imp₂ fun _ _ _ d₁ d₂ => .throwValue d₁ d₂))
  | withObject _ _ ih₁ ih₂ =>
      exact .token (.mono ((ih₁.loose.comp ih₂).imp₂ fun _ _ _ d₁ d₂ => .withObject d₁ d₂))
  | switch _ _ ih₁ ih₂ =>
      exact .token (.mono ((ih₁.before.comp ih₂).imp₂ fun _ _ _ d₁ d₂ => .switch d₁ d₂))
  | clausesEnd => exact .token (.mono (.here fun _ => .clausesEnd))
  | clausesCase _ _ _ ih₁ ih₂ ih₃ =>
      exact .token (.mono (((ih₁.before.comp ih₂).comp ih₃).imp₃ fun _ _ _ d₁ d₂ d₃ =>
        .clausesCase d₁ d₂ d₃))
  | clausesDefault _ _ ih₁ ih₂ =>
      exact .token (.token (.mono ((ih₁.comp ih₂).imp₂ fun _ _ _ d₁ d₂ => .clausesDefault d₁ d₂)))
  | tryCatch _ _ _ hsome ih₁ ih₂ ih₃ =>
      exact .token (.mono (((ih₁.loose.comp ih₂).comp ih₃).imp₃ fun _ _ _ d₁ d₂ d₃ =>
        .tryCatch d₁ d₂ d₃ hsome))
  | handlerAbsent hi => exact .here fun h => .handlerAbsent (h.peek_eq ▸ hi)
  | handlerPresent _ ih =>
      exact .token (.token (.token (.token
        (.mono (ih.loose.imp fun _ _ d => .handlerPresent d)))))
  | finalizerAbsent hi => exact .here fun h => .finalizerAbsent (h.peek_eq ▸ hi)
  | finalizerPresent _ ih => exact .token (.mono (ih.loose.imp fun _ _ d => .finalizerPresent d))
  | declaration _ ih => exact ih.loose.imp fun _ _ d => .declaration d
namespace Derives

variable {last : TokenKind} {room : Nat} {n : Nonterminal} {i i' r : List Item} {tree : n.Tree}

theorem orderly (h : Derives last room n i tree r) (hr : Orderly n.exit r) : Orderly n.entry i :=
  (h.transfers hr).1

/-- From alike items the grammar derives the same tree. -/
theorem transfer {a : Bool} (h : Derives last room n i tree r) (hr : Orderly n.exit r)
    (hi : Alike a i i') : ∃ b r', Alike b r r' ∧ Derives last room n i' tree r' :=
  (h.transfers hr).2 a i' hi

end Derives

end Parser
end EcmaSyntax
