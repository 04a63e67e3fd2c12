import EcmaSyntax.Proofs.Conservation
import EcmaSyntax.Proofs.Endings
import EcmaSyntax.Proofs.SourceElements

/-!
# Which comments reach the tree

**Input.**  A source that is read as a program.

**Cut.**  The source is cut into pieces: a token with the gap in front of it, and what the parser
makes of the two.  A gap is a boundary if its comments are claimed; semicolons that are inserted
stand in a gap and separate nothing.

**Results.**
* `Derives.parted`: comments are claimed right in front of a token, or at the end.
* `Spells.cutsAs`: the items that a source spells cut it into pieces, each gap claimed at most once.
* `comments_between_elements`: the comments of a program are those of the boundaries, in their
  order.  A gap is a boundary exactly if it lies between source elements of the program or of a list
  of statements in it, and then its comments stand there in the list.
-/

namespace EcmaSyntax
namespace Parser

/-! ## Claims -/

/-- A list of items starts with a token if it is not empty. -/
def StartsWithToken (its : List Item) : Prop := ∀ it ∈ its.head?, it.isToken

/-- Comments are claimed right in front of a token, or at the end. -/
def Parted : List Item → Prop
  | [] => True
  | .comments _ :: its => StartsWithToken its ∧ Parted its
  | _ :: its => Parted its

theorem startsWithToken_nil : StartsWithToken [] := fun _ => nofun

theorem startsWithToken_taken (k : TokenKind) (t : Text) (its : List Item) :
    StartsWithToken (.taken k t :: its) := by
  rintro it ⟨⟩
  rfl

theorem startsWithToken_literal (k : TokenKind) (t : Text) (its : List Item) :
    StartsWithToken (.literal k t :: its) := by
  rintro it ⟨⟩
  rfl

/-- Whether a part of the grammar starts with a token. -/
def Nonterminal.leads : Nonterminal → Bool
  | .rule _ => true
  | .body _ => true
  | .expression _ => true
  | .parenthesized => true
  | .element => true
  | .blockBody => true
  | .function _ => true
  | .primary _ => true
  | .chainHead _ => true
  | .leftHandSide _ => true
  | .clauses _ => true
  | _ => false

/-- Whether a part of the grammar may end with claimed comments. -/
def Nonterminal.trails : Nonterminal → Bool
  | .elements _ => true
  | _ => false

/-- From some items on to others, comments are claimed right in front of a token.  The items may be
known to start with a token, and the others may have to. -/
def Parting (leads trails : Bool) (i r : List Item) : Prop :=
  (leads → StartsWithToken i) ∧ (Parted r → (trails → StartsWithToken r) → Parted i)

namespace Parting

variable {a b c : Bool} {i m r : List Item} {k : TokenKind} {t : Text}

theorem here : Parting false false r r := ⟨nofun, fun h _ => h⟩

theorem taken (h : Parting a b i r) : Parting c b (.taken k t :: i) r :=
  ⟨fun _ => startsWithToken_taken _ _ _, h.2⟩

theorem skip (h : Parting a b i r) : Parting false b (.taken k t :: i) r := ⟨nofun, h.2⟩

/-- A token stands behind a part. -/
theorem drop (h : Parting a b i (.taken k t :: r)) : Parting a false i r :=
  ⟨h.1, fun hr _ => h.2 hr fun _ => startsWithToken_taken _ _ _⟩

theorem inner (h : Parting a b i r) : Parting false b i r := ⟨nofun, h.2⟩

theorem trans (h : Parting a false i m) (h' : Parting b c m r) : Parting a c i r :=
  ⟨h.1, fun hr ht => h.2 (h'.2 hr ht) nofun⟩

/-- Behind claimed comments comes a part that starts with a token. -/
theorem before (h : Parting a true i m) (h' : Parting true c m r) : Parting a c i r :=
  ⟨h.1, fun hr ht => h.2 (h'.2 hr ht) fun _ => h'.1 rfl⟩

end Parting

/-- In what the grammar takes, comments are claimed right in front of a token or at the end. -/
theorem Derives.parted {last : TokenKind} {room : Nat} {n : Nonterminal} {i r : List Item}
    {tree : n.Tree} (h : Derives last room n i tree r) : Parting n.leads n.trails i r := by
  induction h with
  | nested _ ih => exact ih
  -- sequences and lists
  | sequenceEnd _ => exact .here
  | sequenceMore _ _ ih => exact ih
  | operandsEnd _ => exact .here
  | operandsMore _ _ ih₁ ih₂ => exact (ih₁.trans ih₂).taken
  | expression _ _ ih₁ ih₂ => exact ih₁.trans ih₂
  | parenthesized _ ih => exact ih.drop.taken
  | argumentsNone => exact .taken (.skip .here)
  | argumentsSome _ _ _ ih₁ ih₂ => exact (ih₁.trans ih₂).taken
  | argumentsEnd => exact .taken .here
  | argumentsMore _ _ ih₁ ih₂ => exact (ih₁.trans ih₂).taken
  -- statement lists and functions
  | elementFunction _ _ ih => exact ih
  | elementStatement _ _ ih => exact ih
  | elementsEnd _ => exact ⟨nofun, fun hr ht => ⟨ht rfl, hr⟩⟩
  | elementsMore _ _ _ ih₁ ih₂ =>
      exact ⟨nofun, fun hr ht => ⟨ih₁.1 rfl, (ih₁.trans ih₂).2 hr ht⟩⟩
  | blockBody _ ih => exact ih.drop.taken
  | functionNamed _ _ ih₁ ih₂ => exact (ih₁.trans ih₂).skip.taken
  | functionPlain _ _ ih₁ ih₂ => exact (ih₁.trans ih₂).taken
  | parametersNone => exact .taken (.skip .here)
  | parametersSome _ ih => exact ih.skip.taken
  | parametersEnd => exact .taken .here
  | parametersMore _ ih => exact ih.skip.taken
  -- literals with parts
  | arrayEnd _ => exact .here
  | arrayHole _ ih => exact ih.taken
  | arrayLast _ _ _ _ _ ih₁ ih₂ => exact (ih₁.trans ih₂).inner
  | arrayMore _ _ _ _ ih₁ ih₂ => exact (ih₁.drop.trans ih₂).inner
  | propertyInit _ _ ih => exact ih.skip.taken
  | propertyGetter _ _ ih => exact ih.skip.skip.skip.taken
  | propertySetter _ _ ih => exact ih.skip.skip.skip.skip.taken
  | membersEnd _ => exact .here
  | membersLast _ _ _ _ ih₁ ih₂ => exact ih₁.trans ih₂
  | membersMore _ _ _ ih₁ ih₂ => exact ih₁.drop.trans ih₂
  -- primary expressions
  | primaryThis => exact .taken .here
  | primaryName => exact .taken .here
  | primaryNull => exact .taken .here
  | primaryTrue => exact .taken .here
  | primaryFalse => exact .taken .here
  | primaryNumber _ => exact .taken .here
  | primaryString => exact .taken .here
  | primaryRegex => exact ⟨fun _ => startsWithToken_literal _ _ _, fun hr _ => hr⟩
  | primaryArray _ ih => exact ih.drop.taken
  | primaryObject _ _ ih => exact ih.drop.taken
  | primaryFunction _ _ _ ih => exact ih
  | primaryParenthesized _ _ ih => exact ih
  -- left-hand sides
  | memberEnd _ _ => exact .here
  | memberDot _ ih => exact ⟨nofun, ih.2⟩
  | memberBracket _ _ ih₁ ih₂ => exact (ih₁.drop.trans ih₂).taken
  | callEnd _ => exact .here
  | callMore _ _ _ _ ih₁ ih₂ ih₃ => exact ih₁.trans (ih₂.trans ih₃)
  | headNew _ _ ih => exact ih
  | headPrimary _ _ ih => exact ih
  | leftHandSide _ _ _ ih₁ ih₂ ih₃ => exact ih₁.trans (ih₂.trans ih₃)
  | constructionApplied _ _ _ _ ih₁ ih₂ ih₃ => exact (ih₁.trans (ih₂.trans ih₃)).taken
  | constructionBare _ _ _ ih₁ ih₂ => exact (ih₁.trans ih₂).taken
  -- operators
  | postfixEnd _ => exact .here
  | postfixMore _ => exact .taken .here
  | unaryPrefix _ _ ih => exact ih.taken
  | unaryPostfix _ _ _ ih₁ ih₂ => exact ih₁.trans ih₂
  | binaryEnd _ => exact .here
  | binaryMore _ _ _ _ ih₁ ih₂ ih₃ => exact (ih₁.trans (ih₂.trans ih₃)).taken
  | conditionalEnd _ => exact .here
  | conditionalMore _ _ ih₁ ih₂ => exact (ih₁.drop.trans ih₂).taken
  | operatorsRest _ _ ih₁ ih₂ => exact ih₁.trans ih₂
  | assignMore _ _ ih => exact ih.taken
  | assignEnd _ _ _ ih₁ ih₂ => exact ih₁.trans ih₂
  | assignmentPrefixed _ _ _ ih₁ ih₂ => exact ih₁.trans ih₂
  | assignmentPlain _ _ _ ih₁ ih₂ => exact ih₁.trans ih₂
  -- declared variables
  | declaratorPlain _ => exact .taken .here
  | declaratorInit _ ih => exact ih.skip.taken
  | declarators _ _ ih₁ ih₂ => exact ih₁.trans ih₂
  | declaratorsEnd _ => exact .here
  | declaratorsMore _ _ ih₁ ih₂ => exact (ih₁.trans ih₂).taken
  -- statements
  | ended => exact ⟨nofun, fun hr _ => hr⟩
  | inserted => exact ⟨nofun, fun hr _ => hr⟩
  | block _ _ ih => exact ih
  | declare _ _ ih₁ ih₂ => exact (ih₁.trans ih₂).taken
  | empty => exact .taken .here
  | labelled _ _ _ ih => exact ih.skip.taken
  | expressionStatement _ _ _ _ ih₁ ih₂ => exact ih₁.trans ih₂
  | debugger _ ih => exact ih.taken
  | ifThen _ _ _ ih₁ ih₂ => exact (ih₁.trans ih₂).taken
  | ifElse _ _ _ ih₁ ih₂ ih₃ => exact (ih₁.trans (ih₂.drop.trans ih₃)).taken
  | doWhile _ _ _ ih₁ ih₂ ih₃ => exact (ih₁.drop.trans (ih₂.trans ih₃)).taken
  | whileDo _ _ ih₁ ih₂ => exact (ih₁.trans ih₂).taken
  | forLoop _ ih => exact ih.skip.taken
  | forNothing _ _ ih => exact ih
  | forVariables _ _ _ ih₁ ih₂ => exact (ih₁.trans ih₂).taken
  | forInVariable _ _ ih₁ ih₂ => exact (ih₁.drop.trans ih₂).taken
  | forPrefixed _ _ _ _ ih₁ ih₂ ih₃ => exact (ih₁.trans (ih₂.trans ih₃)).inner
  | forExpression _ _ _ _ _ _ _ _ ih₁ ih₂ ih₃ ih₄ =>
      exact (ih₁.trans (ih₂.trans (ih₃.trans ih₄))).inner
  | forInExpression _ _ _ _ _ ih₁ ih₂ => exact (ih₁.drop.trans ih₂).inner
  | forRest _ _ _ ih₁ ih₂ ih₃ => exact (ih₁.drop.trans (ih₂.drop.trans ih₃)).taken
  | forInRest _ _ ih₁ ih₂ => exact (ih₁.drop.trans ih₂).inner
  | expressionAbsent _ => exact .here
  | expressionPresent _ _ ih => exact ih.inner
  | jumpBare _ _ _ ih => exact ih.taken
  | jumpLabel _ _ ih => exact ih.skip.taken
  | returnNothing _ _ ih => exact ih.taken
  | returnValue _ _ _ ih₁ ih₂ => exact (ih₁.trans ih₂).taken
  | throwValue _ _ ih₁ ih₂ => exact (ih₁.trans ih₂).taken
  | withObject _ _ ih₁ ih₂ => exact (ih₁.trans ih₂).taken
  | switch _ _ ih₁ ih₂ => exact (ih₁.drop.trans ih₂).taken
  | clausesEnd => exact .taken .here
  | clausesCase _ _ _ ih₁ ih₂ ih₃ => exact (ih₁.drop.trans (ih₂.before ih₃)).taken
  | clausesDefault _ _ ih₁ ih₂ => exact (ih₁.before ih₂).skip.taken
  | tryCatch _ _ _ _ ih₁ ih₂ ih₃ => exact (ih₁.trans (ih₂.trans ih₃)).taken
  | handlerAbsent _ => exact .here
  | handlerPresent _ ih => exact ih.skip.skip.skip.taken
  | finalizerAbsent _ => exact .here
  | finalizerPresent _ ih => exact ih.taken
  | declaration _ ih => exact ih

/-! ## Pieces of a source -/

/-- The text of the token that an item starts with. -/
def Item.word : Item → Text
  | .taken _ t => t
  | .member _ _ => TokenKind.dot.display
  | .literal _ t => t
  | .ended k => k.display
  | _ => []

/-- A token of a source with the gap in front of it, and what a parser makes of the two. -/
structure CutPiece where
  gap : Gap
  text : Text
  /-- The semicolons inserted in the gap. -/
  endings : List Item
  /-- Whether the gap lies between source elements. -/
  boundary : Bool
  /-- What the token is taken as.  A name after a point is taken with the point. -/
  item : Option Item

/-- The comments that are claimed in the gap. -/
def CutPiece.claimed (x : CutPiece) : List Comment := if x.boundary then x.gap.comments else []

/-- The items of a piece. -/
def CutPiece.items (x : CutPiece) : List Item :=
  x.endings ++ ((if x.boundary then [.comments x.gap.comments] else []) ++ x.item.toList)

/-- The items of some pieces. -/
def itemsOf (xs : List CutPiece) : List Item := xs.flatMap CutPiece.items

@[simp] theorem itemsOf_nil : itemsOf [] = [] := rfl

@[simp] theorem itemsOf_cons (x : CutPiece) (xs : List CutPiece) :
    itemsOf (x :: xs) = x.items ++ itemsOf xs := rfl

theorem itemsOf_append (xs ys : List CutPiece) : itemsOf (xs ++ ys) = itemsOf xs ++ itemsOf ys :=
  List.flatMap_append

/-- Items that stand for no token: semicolons that are inserted. -/
def Item.isInserted : Item → Bool
  | .ended k => k = .insertedSemicolon
  | .inserted _ => true
  | _ => false

theorem Item.not_isInserted (it : Item) (h : it.isToken) : it.isInserted = false := by
  cases it <;> first | rfl | cases h

/-- A text is cut into its tokens, each with the gap in front of it. -/
inductive IsCut : Text → List CutPiece → Prop
  | stop {g : Gap} {endings : List Item} {boundary : Bool} :
      g.Fits [] → (∀ it ∈ endings, it.isInserted) → IsCut g.text [⟨g, [], endings, boundary, none⟩]
  | token {g : Gap} {t rest : Text} {endings : List Item} {boundary : Bool} {it : Item}
      {xs : List CutPiece} :
      g.Fits (t ++ rest) → (∀ it ∈ endings, it.isInserted) → it.isToken ∨ it = .ended .semicolon →
      it.word = t → IsCut rest xs →
      IsCut (g.text ++ (t ++ rest)) (⟨g, t, endings, boundary, some it⟩ :: xs)
  | member {g g' : Gap} {t t' rest : Text} {endings : List Item} {boundary : Bool} {k : TokenKind}
      {xs : List CutPiece} :
      g.Fits (t ++ (g'.text ++ (t' ++ rest))) → (∀ it ∈ endings, it.isInserted) →
      TokenKind.dot.display = t → g'.Fits (t' ++ rest) → IsCut rest xs →
      IsCut (g.text ++ (t ++ (g'.text ++ (t' ++ rest))))
        (⟨g, t, endings, boundary, some (.member k t')⟩ :: ⟨g', t', [], false, none⟩ :: xs)

/-- What a source spells from a site on cuts it into pieces, the first of which has the gap of the
site. -/
def CutsAs (p : Site) (its : List Item) (texts : List Text) : Prop :=
  ∃ (x : CutPiece) (xs : List CutPiece), IsCut p.all (x :: xs) ∧ x.gap = p.gap ∧
    itemsOf (x :: xs) = its ∧ (x :: xs).map CutPiece.text = texts

section Cut

variable {source : Text} {x : CutPiece} {xs : List CutPiece} {p : Site} {its : List Item}
  {texts : List Text}

/-- What is made of the first gap has no part in the cut. -/
theorem IsCut.regap (h : IsCut source (x :: xs)) :
    (∀ it ∈ x.endings, it.isInserted) ∧ ∀ endings boundary, (∀ it ∈ endings, it.isInserted) →
      IsCut source ({ x with endings := endings, boundary := boundary } :: xs) := by
  cases h with
  | stop hg h => exact ⟨h, fun _ _ h => .stop hg h⟩
  | token hg h hit hw hrest => exact ⟨h, fun _ _ h => .token hg h hit hw hrest⟩
  | member hg h ht hg' hrest => exact ⟨h, fun _ _ h => .member hg h ht hg' hrest⟩

/-- A semicolon is inserted in the first gap. -/
theorem CutsAs.ending {e : Item} (h : CutsAs p its texts) (he : e.isInserted) :
    CutsAs p (e :: its) texts := by
  obtain ⟨x, xs, hcut, hgap, rfl, rfl⟩ := h
  obtain ⟨hendings, hregap⟩ := hcut.regap
  exact ⟨{ x with endings := e :: x.endings }, xs,
    hregap _ _ (List.forall_mem_cons.mpr ⟨he, hendings⟩), hgap, rfl, rfl⟩

/-- The comments of the first gap are claimed in front of a token. -/
theorem CutsAs.comments (h : CutsAs p its texts) (hits : StartsWithToken its) :
    CutsAs p (.comments p.gap.comments :: its) texts := by
  obtain ⟨⟨_, t, endings, boundary, item⟩, xs, hcut, rfl, rfl, rfl⟩ := h
  obtain ⟨hendings, hregap⟩ := hcut.regap
  obtain rfl : endings = [] := by
    cases endings with
    | nil => rfl
    | cons e endings =>
        have htoken : e.isToken := hits e rfl
        have he : e.isInserted := hendings e (List.mem_cons_self ..)
        rw [e.not_isInserted htoken] at he
        cases he
  obtain rfl : boundary = false := by
    cases boundary with
    | false => rfl
    | true => cases hits _ rfl
  exact ⟨⟨_, t, [], true, item⟩, xs, hregap _ _ (fun _ => nofun), rfl, rfl, rfl⟩

/-- A token comes before what the source behind it is cut into. -/
theorem CutsAs.token {q : Site} {it : Item} (h : CutsAs q its texts) (hp : p.Valid)
    (hall : q.all = p.rest) (hit : it.isToken ∨ it = .ended .semicolon) (hw : it.word = p.text) :
    CutsAs p (it :: its) (p.text :: texts) := by
  obtain ⟨x, xs, hcut, -, rfl, rfl⟩ := h
  refine ⟨⟨p.gap, p.text, [], false, some it⟩, x :: xs, ?_, rfl, rfl, rfl⟩
  exact .token hp.fits (fun _ => nofun) hit hw (hall ▸ hcut)

/-- What comes before a piece does not end with comments. -/
theorem IsCut.not_comments (h : IsCut source xs) {front back : List CutPiece}
    (hxs : xs = front ++ x :: back) (cs : List Comment) :
    (itemsOf front).getLast? ≠ some (.comments cs) := by
  induction h generalizing front with
  | stop =>
      obtain ⟨rfl, -⟩ | ⟨front', rfl, hback⟩ := List.cons_eq_append_iff.mp hxs
      · nofun
      · exact absurd hback (by simp)
  | @token _ _ _ endings boundary it _ _ _ hit _ _ ih =>
      obtain ⟨rfl, -⟩ | ⟨front', rfl, hback⟩ := List.cons_eq_append_iff.mp hxs
      · nofun
      · have hne : it ≠ .comments cs := by
          rintro rfl
          obtain hit | hit := hit <;> cases hit
        have hfront := ih hback
        rw [itemsOf_cons, List.getLast?_append]
        cases hlast : (itemsOf front').getLast? with
        | none => simpa [CutPiece.items, List.getLast?_append] using hne
        | some last => rwa [hlast] at hfront
  | @member _ _ _ _ _ endings boundary k _ _ _ _ _ _ ih =>
      obtain ⟨rfl, -⟩ | ⟨front', rfl, hback⟩ := List.cons_eq_append_iff.mp hxs
      · nofun
      obtain ⟨rfl, -⟩ | ⟨front'', rfl, hback⟩ := List.cons_eq_append_iff.mp hback
      · simp [CutPiece.items, List.getLast?_append]
      · have hfront := ih (List.cons.inj hback).2
        rw [itemsOf_cons, itemsOf_cons, List.getLast?_append, List.getLast?_append]
        cases hlast : (itemsOf front'').getLast? with
        | none => simp [CutPiece.items, List.getLast?_append]
        | some last => rwa [hlast] at hfront

theorem IsCut.isInserted (h : IsCut source xs) : ∀ x ∈ xs, ∀ it ∈ x.endings, it.isInserted := by
  induction h with
  | stop _ hendings => exact List.forall_mem_cons.mpr ⟨hendings, fun _ => nofun⟩
  | token _ hendings _ _ _ ih => exact List.forall_mem_cons.mpr ⟨hendings, ih⟩
  | member _ hendings _ _ _ ih =>
      exact List.forall_mem_cons.mpr ⟨hendings, List.forall_mem_cons.mpr ⟨fun _ => nofun, ih⟩⟩

/-- Neither inserted semicolons nor tokens claim comments. -/
theorem Item.not_isClaim {it : Item}
    (h : it.isInserted ∨ it.isToken ∨ it = .ended .semicolon) : it.isClaim = false := by
  cases it <;> first | rfl | simp [isInserted, isToken] at h

theorem IsCut.not_isClaim (h : IsCut source xs) :
    ∀ x ∈ xs, ∀ it ∈ x.endings ++ x.item.toList, it.isClaim = false := by
  induction h with
  | stop _ hendings =>
      refine List.forall_mem_cons.mpr ⟨fun it hit => ?_, fun _ => nofun⟩
      exact Item.not_isClaim (.inl (hendings it (by simpa using hit)))
  | token _ hendings hit _ _ ih =>
      refine List.forall_mem_cons.mpr ⟨fun it hmem => ?_, ih⟩
      obtain hmem | hmem := List.mem_append.mp hmem
      · exact Item.not_isClaim (.inl (hendings it hmem))
      · rw [List.mem_singleton.mp hmem]
        exact Item.not_isClaim (.inr hit)
  | member _ hendings _ _ _ ih =>
      refine List.forall_mem_cons.mpr ⟨fun it hmem => ?_,
        List.forall_mem_cons.mpr ⟨fun _ => nofun, ih⟩⟩
      obtain hmem | hmem := List.mem_append.mp hmem
      · exact Item.not_isClaim (.inl (hendings it hmem))
      · rw [List.mem_singleton.mp hmem]
        rfl

/-- Nothing but the comments of its gap is claimed in a piece. -/
theorem CutPiece.claimedBy_items (h : ∀ it ∈ x.endings ++ x.item.toList, it.isClaim = false) :
    claimedBy x.items = x.claimed := by
  have hnil : ∀ its : List Item, (∀ it ∈ its, it.isClaim = false) → claimedBy its = [] :=
    fun its h => List.flatMap_eq_nil_iff.mpr fun it hit => by
      have := h it hit
      cases it <;> first | rfl | cases this
  obtain ⟨hendings, hitem⟩ := List.forall_mem_append.mp h
  rw [items, claimedBy_append, claimedBy_append, hnil _ hendings, hnil _ hitem, claimed]
  cases x.boundary <;> simp [Item.claimed]

theorem CutPiece.claims_items (h : ∀ it ∈ x.endings ++ x.item.toList, it.isClaim = false) :
    claims x.items = if x.boundary then 1 else 0 := by
  have hzero : ∀ its : List Item, (∀ it ∈ its, it.isClaim = false) → claims its = 0 :=
    fun its h => List.countP_eq_zero.mpr fun it hit => by simp [h it hit]
  obtain ⟨hendings, hitem⟩ := List.forall_mem_append.mp h
  rw [items, claims_append, claims_append, hzero _ hendings, hzero _ hitem]
  cases x.boundary <;> rfl

/-- The comments that are claimed are those of the gaps between source elements. -/
theorem IsCut.claimedBy_eq (h : IsCut source xs) :
    claimedBy (itemsOf xs) = xs.flatMap CutPiece.claimed := by
  rw [claimedBy, itemsOf, List.flatMap_assoc]
  exact congrArg List.flatten
    (List.map_congr_left fun x hx => CutPiece.claimedBy_items (h.not_isClaim x hx))

/-- Comments are claimed once in each gap between source elements. -/
theorem IsCut.claims_eq (h : IsCut source xs) :
    claims (itemsOf xs) = xs.countP CutPiece.boundary := by
  have hclaims := fun x hx => CutPiece.claims_items (h.not_isClaim x hx)
  clear h
  induction xs with
  | nil => rfl
  | cons x xs ih =>
      obtain ⟨hx, hxs⟩ := List.forall_mem_cons.mp hclaims
      rw [itemsOf_cons, claims_append, hx, ih hxs, List.countP_cons, Nat.add_comm]

/-- Comments in front of a token are claimed in its gap. -/
theorem IsCut.boundary_of_suffix {front back : List CutPiece}
    (h : IsCut source (front ++ x :: back)) {cs : List Comment}
    (hs : .comments cs :: (x.item.toList ++ itemsOf back) <:+ itemsOf (front ++ x :: back)) :
    x.boundary := by
  obtain ⟨its, hits⟩ := hs
  cases hb : x.boundary with
  | true => rfl
  | false =>
      have hitems : (itemsOf front ++ x.endings) ++ (x.item.toList ++ itemsOf back) =
          (its ++ [.comments cs]) ++ (x.item.toList ++ itemsOf back) := by
        rw [List.append_assoc its, List.singleton_append, hits, itemsOf_append, itemsOf_cons,
          CutPiece.items, hb]
        simp
      have hfront := List.append_cancel_right hitems
      have hlast := congrArg List.getLast? hfront
      rw [List.getLast?_append, List.getLast?_concat] at hlast
      cases he : x.endings.getLast? with
      | none =>
          rw [he] at hlast
          exact absurd hlast (h.not_comments rfl cs)
      | some e =>
          rw [he] at hlast
          cases hlast
          exact h.isInserted x (by simp) _ (List.mem_of_getLast? he)

end Cut

/-- What a stream has noted are the tokens that the source is cut into, and comments are claimed in
each gap at most once. -/
theorem Spells.cutsAs {o : Nat} {bare claimed : Bool} {p : Site} {its : List Item}
    {marks : List Mark} (h : Spells o bare claimed p its marks) (hparted : Parted its)
    (hclaimed : claimed → StartsWithToken its) (ts : List (TokenKind × Text)) :
    ∃ us, marks.foldl Mark.consume (ts ++ [(p.kindHere, p.text)]) = ts ++ us ∧
      CutsAs p its (us.map (·.2)) := by
  have hfree : ∀ {its : List Item}, false → StartsWithToken its :=
    fun h => absurd h Bool.false_ne_true
  induction h generalizing ts with
  | @stop o bare claimed p hp hb hk =>
      obtain ⟨htext, hrest⟩ := hp.rest_nil hk
      refine ⟨[(p.kindHere, p.text)], rfl, ⟨p.gap, p.text, [], false, none⟩, [], ?_, rfl, rfl, rfl⟩
      have hfits := hp.fits
      rw [htext, hrest] at hfits
      rw [Site.all, htext, hrest, List.append_nil, List.append_nil]
      exact .stop hfits (List.forall_mem_nil _)
  | @taken o bare claimed p q its marks hp hb hplain hall h ih =>
      obtain ⟨us, hfold, hcut⟩ := ih hparted hfree (ts ++ [(p.kindHere, p.text)])
      refine ⟨(p.kindHere, p.text) :: us, ?_, hcut.token hp hall (.inl rfl) rfl⟩
      rw [List.foldl_append, Site.marks_consume, hfold, List.append_assoc]
      rfl
  | @member o bare claimed p q n its marks hp hb hk hall hq hname halln h ih =>
      obtain ⟨us, hfold, x, xs, hcut, -, rfl, htexts⟩ :=
        ih hparted hfree (ts ++ [(p.kindHere, p.text)] ++ [(q.kindHere, q.text)])
      refine ⟨(p.kindHere, p.text) :: (q.kindHere, q.text) :: us, ?_,
        ⟨p.gap, p.text, [], false, some (.member q.kindHere q.text)⟩,
        ⟨q.gap, q.text, [], false, none⟩ :: x :: xs, ?_, rfl, rfl, ?_⟩
      · rw [List.foldl_append, List.foldl_append, Site.marks_consume, Site.marks_consume, hfold,
          List.append_assoc, List.append_assoc]
        rfl
      · have hfits := hp.fits
        have hdot : p.text = TokenKind.dot.display := by
          have := hp.text_eq (by rw [hk]; decide) (by rw [hk]; rfl)
          rwa [hk] at this
        rw [Site.all, ← hall, Site.all, ← halln]
        rw [← hall, Site.all, ← halln] at hfits
        have hfits' := hq.fits
        rw [← halln] at hfits'
        exact .member hfits (List.forall_mem_nil _) hdot.symm hfits' hcut
      · rw [List.map_cons, List.map_cons, htexts]
        rfl
  | @literal o bare claimed p q after body its marks hp hb hk htext hbody hall h ih =>
      obtain ⟨us, hfold, x, xs, hcut, -, rfl, htexts⟩ :=
        ih hparted hfree (ts ++ [(.regex, '/' :: body)])
      have hrest : p.text ++ p.rest = '/' :: body ++ q.all := by rw [htext, hall, List.cons_append]
      refine ⟨(.regex, '/' :: body) :: us, ?_,
        ⟨p.gap, '/' :: body, [], false, some (.literal p.kindHere ('/' :: body))⟩,
        x :: xs, ?_, rfl, rfl, ?_⟩
      · rw [List.foldl_cons, List.foldl_append, Mark.consume, Mark.consumeWith.eq_2,
          List.dropLast_concat, Site.marks_consume, hfold, List.append_assoc]
        rfl
      · have hfits := hp.fits
        rw [hrest] at hfits
        rw [Site.all, hrest]
        exact .token hfits (List.forall_mem_nil _) (.inl rfl) rfl hcut
      · rw [List.map_cons, htexts]
        rfl
  | @ended o bare claimed p q its marks hp hb hk hall h ih =>
      obtain ⟨us, hfold, hcut⟩ := ih hparted hfree (ts ++ [(p.kindHere, p.text)])
      have htext : (Item.ended .semicolon).word = p.text := by
        have := hp.text_eq (by rw [hk]; decide) (by rw [hk]; rfl)
        rw [this, hk]
        rfl
      refine ⟨(p.kindHere, p.text) :: us, ?_, hcut.token hp hall (.inr rfl) htext⟩
      show (q.marks _ _ ++ marks).foldl Mark.consume (ts ++ [(p.kindHere, p.text)]) = _
      rw [List.foldl_append, Site.marks_consume, hfold, List.append_assoc]
      rfl
  | @early o bare claimed p its marks hb h ih =>
      cases claimed with
      | false =>
          obtain ⟨us, hfold, hcut⟩ := ih hparted hfree ts
          exact ⟨us, hfold, hcut.ending rfl⟩
      | true => cases hclaimed rfl _ rfl
  | @inserted o bare claimed p its marks hb hk ha h ih =>
      cases claimed with
      | false =>
          obtain ⟨us, hfold, hcut⟩ := ih hparted hfree ts
          exact ⟨us, hfold, hcut.ending rfl⟩
      | true => cases hclaimed rfl _ rfl
  | @comments o bare claimed p its marks h ih =>
      obtain ⟨us, hfold, hcut⟩ := ih hparted.2 (fun _ => hparted.1) ts
      refine ⟨us, hfold, ?_⟩
      cases claimed with
      | false => exact hcut.comments hparted.1
      | true => cases hclaimed rfl _ rfl

/-- Comments stand between source elements of a program, or of a list of statements in it. -/
def Between (P : Program) (its : List Item) (cs : List Comment) (m : List Item) : Prop :=
  StandIn .endOfInput [.endOfInput] its P.body cs m [] ∨ Nested .endOfInput its P.bodies cs m

theorem Between.suffix {P : Program} {its m : List Item} {cs : List Comment}
    (h : Between P its cs m) : .comments cs :: m <:+ its := by
  obtain ⟨before, after, room, helements, -⟩ | ⟨start, stops, body, r, hopens, h, -⟩ := h
  · exact helements.suffix
  · obtain ⟨before, after, room, helements, -⟩ := h
    exact helements.suffix.trans hopens.suffix

end Parser

open EcmaSyntax.Parser in
/-- A source that is read as a program is cut into tokens and gaps.  The comments of the program are
those of the gaps between source elements, in their order, and each stands where its gap is.  There
are as many such gaps as there are places for comments in the program. -/
theorem comments_between_elements {limit : Nat} {source : Text} {P : Program} {s : ParserState}
    (h : run limit source = .ok P s) :
    ∃ pieces, IsCut source pieces ∧
      pieces.map CutPiece.text = (consumed (history (run limit source))).map (·.text) ∧
      Derives .endOfInput limit (.elements [.endOfInput]) (itemsOf pieces) P.body [] ∧
      P.comments = pieces.flatMap CutPiece.claimed ∧ pieces.countP CutPiece.boundary = P.places ∧
      ∀ front x back, pieces = front ++ x :: back →
        (x.boundary ↔
          Between P (itemsOf pieces) x.gap.comments (x.item.toList ++ itemsOf back)) := by
  obtain ⟨its, ⟨p, ms, rfl, hspells, hmarks⟩, hderives⟩ := run_ok_iff.mp ⟨s, h, rfl⟩
  have hparted : Parted its := hderives.parted.2 trivial fun _ => startsWithToken_nil
  obtain ⟨us, hfold, x, xs, hcut, -, rfl, htexts⟩ := hspells.cutsAs hparted nofun []
  have hlexemes := lexemes_consumed h hmarks hfold
  have hconsumed : (consumed (history (run limit p.all))).map (·.text) = us.map (·.2) := by
    rw [← hlexemes, List.map_map]
    rfl
  have hcomments : P.comments = (x :: xs).flatMap CutPiece.claimed := by
    have heq : claimedBy (itemsOf (x :: xs)) = Node.commentsOf (statementNodes P.body) :=
      hderives.builds.comments_eq.trans (List.append_nil _)
    rw [← hcut.claimedBy_eq, heq]
    exact Node.comments_of rfl
  have hplaces : (x :: xs).countP CutPiece.boundary = P.places := by
    have heq : claims (itemsOf (x :: xs)) =
        elementCount P.body + 1 + Node.placesOf (statementNodes P.body) :=
      (Nat.zero_add _).symm.trans hderives.builds.claims_eq
    rw [← hcut.claims_eq, heq, Program.places, Node.places_eq]
    rfl
  refine ⟨x :: xs, hcut, htexts.trans hconsumed.symm, hderives, hcomments, hplaces, ?_⟩
  intro front y back hpieces
  rw [hpieces] at hcut hderives ⊢
  refine ⟨fun hb => ?_, fun hbetween => hcut.boundary_of_suffix hbetween.suffix⟩
  obtain ⟨-, -, hplaced⟩ := hderives.builds.places P.bodies <| by
    rw [Program.bodies, Node.bodies_eq]
    exact List.subset_cons_self _ _
  refine (hplaced y.gap.comments (y.item.toList ++ itemsOf back) ⟨?_, ?_⟩)
  · rw [itemsOf_append, itemsOf_cons, CutPiece.items, hb]
    exact ⟨itemsOf front ++ y.endings, by simp⟩
  · simp

open EcmaSyntax.Parser in
/-- In this source the second comment stands within an expression, and the last one at the end of a
block. -/
theorem comments_between_elements_call : ∃ P s,
    run 256 "/* a */ f /* b */ (); // c\n\x7b /* d */ \x7d".toList = .ok P s ∧
      ∃ pieces, IsCut "/* a */ f /* b */ (); // c\n\x7b /* d */ \x7d".toList pieces ∧
        P.comments = pieces.flatMap CutPiece.claimed ∧
          pieces.countP CutPiece.boundary = P.places := by
  obtain ⟨P, s, h⟩ :=
    exists_run 256 "/* a */ f /* b */ (); // c\n\x7b /* d */ \x7d".toList (by decide +kernel)
  obtain ⟨pieces, hcut, -, -, hcomments, hplaces, -⟩ := comments_between_elements h
  exact ⟨P, s, h, pieces, hcut, hcomments, hplaces⟩

end EcmaSyntax
