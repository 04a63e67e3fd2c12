import EcmaSyntax.Proofs.Grammar.Builds
import EcmaSyntax.Proofs.Reading

/-!
# Source elements and the comments between them

**Trees.**  `Node.walk` lists the nodes of a tree as a walk visits them.  The comments of a tree are
nodes of this list, and each list of statements belongs to one of its nodes.

**Results.**
* `Builds.comments_eq`: the comments of what the grammar builds are those that its items claim, in
  the same order.
* `Builds.claims_eq`: comments are claimed as many times as there are places in front of source
  elements and at the ends of their lists.
* `Builds.places`: wherever comments are claimed, they stand in a list of statements, behind the
  elements that are taken before and in front of those that are taken after.
-/

namespace EcmaSyntax

/-! ## Walks -/

namespace Node

/-- The nodes of a tree, each before its children. -/
def walk (n : Node) : List Node := (n.rows 0).map (·.2)

/-- The comments of a tree, in the order of a walk. -/
def comments (n : Node) : List Comment := n.walk.filterMap comment?

/-- The lists of statements of a tree. -/
def bodies (n : Node) : List (List Statement) := n.walk.filterMap body?

theorem rows_nodes (n : Node) (d d' : Nat) :
    (n.rows d).map (·.2) = (n.rows d').map (·.2) := by
  induction n, d using rows.induct generalizing d' with
  | case1 n depth ih =>
      rw [rows, rows, List.map_cons, List.map_cons, List.map_flatMap, List.map_flatMap]
      exact congrArg (n :: n.children.attach.flatMap ·) (funext fun child => ih child (d' + 1))

theorem walk_eq (n : Node) : n.walk = n :: n.children.flatMap walk := by
  have hchildren : n.children.flatMap walk = n.children.attach.flatMap fun c => walk c.val := by
    conv => lhs; rw [← List.attach_map_subtype_val n.children, List.flatMap_map]
  rw [hchildren, walk, rows, List.map_cons, List.map_flatMap]
  exact congrArg (n :: n.children.attach.flatMap ·) (funext fun child => rows_nodes child _ _)

theorem comments_eq (n : Node) :
    n.comments = n.comment?.toList ++ n.children.flatMap comments := by
  rw [comments, walk_eq, List.filterMap_cons, List.filterMap_flatMap]
  cases n.comment? <;> rfl

theorem bodies_eq (n : Node) : n.bodies = n.body?.toList ++ n.children.flatMap bodies := by
  rw [bodies, walk_eq, List.filterMap_cons, List.filterMap_flatMap]
  cases n.body? <;> rfl

/-- The comments of some trees. -/
def commentsOf (ns : List Node) : List Comment := ns.flatMap comments

@[simp] theorem commentsOf_nil : commentsOf [] = [] := rfl

@[simp] theorem commentsOf_cons (n : Node) (ns : List Node) :
    commentsOf (n :: ns) = n.comments ++ commentsOf ns := rfl

@[simp] theorem commentsOf_append (ns ms : List Node) :
    commentsOf (ns ++ ms) = commentsOf ns ++ commentsOf ms := List.flatMap_append

/-- The comments of a tree are those of its parts, unless it is a comment itself. -/
theorem comments_of {n : Node} (hn : n.comment? = none) : n.comments = commentsOf n.children := by
  rw [comments_eq, hn]
  rfl

/-- The lists of statements of some trees. -/
def bodiesOf (ns : List Node) : List (List Statement) := ns.flatMap bodies

@[simp] theorem bodiesOf_nil : bodiesOf [] = [] := rfl

@[simp] theorem bodiesOf_cons (n : Node) (ns : List Node) :
    bodiesOf (n :: ns) = n.bodies ++ bodiesOf ns := rfl

@[simp] theorem bodiesOf_append (ns ms : List Node) :
    bodiesOf (ns ++ ms) = bodiesOf ns ++ bodiesOf ms := List.flatMap_append

end Node

/-- The number of source elements in a list of statements. -/
def elementCount (ss : List Statement) : Nat :=
  ss.countP fun s => (Node.statement s).comment?.isNone

namespace Node

/-- The number of places for comments in some lists of statements: each has one in front of each of
its source elements and one at its end. -/
def placesIn : List (List Statement) → Nat
  | [] => 0
  | body :: bodies => elementCount body + 1 + placesIn bodies

theorem placesIn_append (bodies bodies' : List (List Statement)) :
    placesIn (bodies ++ bodies') = placesIn bodies + placesIn bodies' := by
  induction bodies with
  | nil => exact (Nat.zero_add _).symm
  | cons body bodies ih =>
      rw [List.cons_append, placesIn, placesIn, ih]
      omega

/-- The number of places for comments in a tree. -/
def places (n : Node) : Nat := placesIn n.bodies

/-- The number of places for comments in some trees. -/
def placesOf (ns : List Node) : Nat := placesIn (bodiesOf ns)

@[simp] theorem placesOf_nil : placesOf [] = 0 := rfl

@[simp] theorem placesOf_cons (n : Node) (ns : List Node) :
    placesOf (n :: ns) = n.places + placesOf ns := placesIn_append _ _

@[simp] theorem placesOf_append (ns ms : List Node) :
    placesOf (ns ++ ms) = placesOf ns + placesOf ms := by
  rw [placesOf, bodiesOf_append, placesIn_append]
  rfl

theorem places_eq (n : Node) : n.places = placesIn n.body?.toList + placesOf n.children := by
  rw [places, bodies_eq, placesIn_append]
  rfl

end Node

/-- The comments of a program, in the order of a walk. -/
def Program.comments (p : Program) : List Comment := (Node.program p).comments

/-- The lists of statements of a program. -/
def Program.bodies (p : Program) : List (List Statement) := (Node.program p).bodies

/-- The number of places for comments in a program. -/
def Program.places (p : Program) : Nat := (Node.program p).places

namespace Parser

/-! ## Comments -/

/-- The comments that an item claims. -/
def Item.claimed : Item → List Comment
  | .comments cs => cs
  | _ => []

/-- The comments that some items claim. -/
def claimedBy (its : List Item) : List Comment := its.flatMap Item.claimed

@[simp] theorem claimedBy_nil : claimedBy [] = [] := rfl

@[simp] theorem claimedBy_cons (it : Item) (its : List Item) :
    claimedBy (it :: its) = it.claimed ++ claimedBy its := rfl

@[simp] theorem claimedBy_append (its its' : List Item) :
    claimedBy (its ++ its') = claimedBy its ++ claimedBy its' := List.flatMap_append

theorem claimed_of_not_isClaim {it : Item} (h : it.isClaim = false) : it.claimed = [] := by
  cases it <;> first | rfl | cases h

theorem commentsOf_comments (cs : List Comment) :
    Node.commentsOf (statementNodes (cs.map .comment)) = cs := by
  induction cs with
  | nil => rfl
  | cons c cs ih =>
      have hc : (Node.statement (.comment c)).comments = [c] := Node.comments_eq _
      rw [List.map_cons, statementNodes_cons, Node.commentsOf_cons, hc, ih]
      rfl

/-- The comments of what is built. -/
def Built.comments : Built → List Comment
  | .nodes ns => Node.commentsOf ns
  | .list _ ss => Node.commentsOf (statementNodes ss)
  | .body ss => Node.commentsOf (statementNodes ss)

theorem commentsOf_one {n : Node} (hn : n.comment? = none) :
    Node.commentsOf [n] = Node.commentsOf n.children := by
  rw [Node.commentsOf_cons, Node.commentsOf_nil, List.append_nil, Node.comments_of hn]

/-- What is built has the comments that are claimed. -/
theorem Builds.comments_eq {last : TokenKind} {lead : List Node} {b : Built} {i r : List Item}
    (h : Builds last lead i b r) :
    Node.commentsOf lead ++ claimedBy i = b.comments ++ claimedBy r := by
  induction h with
  | here => rfl
  | token hit _ ih => rwa [claimedBy_cons, claimed_of_not_isClaim hit]
  | trans _ _ ih₁ ih₂ => exact ih₁.trans ih₂
  | append _ _ ih₁ ih₂ =>
      refine ih₁.trans ?_
      show Node.commentsOf _ ++ _ = Node.commentsOf (_ ++ _) ++ _
      rw [Node.commentsOf_append, List.append_assoc]
      exact congrArg (_ ++ ·) ih₂
  | node hn _ ih => rwa [Built.comments, commentsOf_one (Node.isPlain_iff.mp hn).1]
  | choice _ _ ih => rwa [Built.comments, commentsOf_one rfl]
  | stop _ =>
      rw [Built.comments, commentsOf_comments]
      rfl
  | more _ _ _ _ _ ih₁ ih₂ =>
      -- the comments come before the element, and this before the rest of the list
      rw [Built.comments, statementNodes_append, statementNodes_cons, Node.commentsOf_append,
        commentsOf_comments, Node.commentsOf_cons, List.append_assoc, List.append_assoc,
        Node.commentsOf_nil, List.nil_append, claimedBy_cons]
      refine congrArg (_ ++ ·) (ih₁.trans ?_)
      rw [Built.comments, Node.commentsOf_cons, Node.commentsOf_nil, List.append_nil]
      exact congrArg (_ ++ ·) ih₂
  | braces _ ih => exact ih
  | params _ _ ih₁ ih₂ => exact ih₁.trans ih₂
  | owner hn hparts _ ih => rwa [Built.comments, commentsOf_one (Node.not_of_body? hn).1, hparts]
  | clause _ _ ih₁ ih₂ =>
      rw [Built.comments, commentsOf_one rfl, Node.children, Node.commentsOf_append,
        List.append_assoc]
      exact ih₁.trans (congrArg (_ ++ ·) ih₂)

/-! ## How many places there are -/

/-- The number of items that claim comments. -/
def claims (its : List Item) : Nat := its.countP Item.isClaim

@[simp] theorem claims_comments (cs : List Comment) (its : List Item) :
    claims (.comments cs :: its) = claims its + 1 :=
  List.countP_cons_of_pos rfl

@[simp] theorem claims_taken (k : TokenKind) (t : Text) (its : List Item) :
    claims (.taken k t :: its) = claims its := rfl

@[simp] theorem claims_append (its its' : List Item) :
    claims (its ++ its') = claims its + claims its' := List.countP_append

theorem elementCount_more {s : Statement} (hs : (Node.statement s).comment? = none)
    (cs : List Comment) (ss : List Statement) :
    elementCount (cs.map .comment ++ s :: ss) = elementCount ss + 1 := by
  unfold elementCount
  rw [List.countP_append, List.countP_cons, hs, List.countP_map, List.countP_eq_zero.mpr]
  · simp
  · simp [Node.comment?]

theorem elementCount_comments (cs : List Comment) : elementCount (cs.map .comment) = 0 := by
  simp [elementCount, Node.comment?]

theorem placesOf_comments (cs : List Comment) :
    Node.placesOf (statementNodes (cs.map .comment)) = 0 := by
  induction cs with
  | nil => rfl
  | cons c cs ih => simpa [Node.places_eq (.statement (.comment c)), Node.body?, Node.placesIn,
      Node.children, Statement.children] using ih

theorem placesOf_of {n : Node} (hn : n.body? = none) :
    Node.placesOf [n] = Node.placesOf n.children := by
  rw [Node.placesOf_cons, Node.placesOf_nil, Node.places_eq, hn]
  exact Nat.zero_add _

theorem placesOf_owner {n : Node} {ss : List Statement} (hn : n.body? = some ss) :
    Node.placesOf [n] = elementCount ss + 1 + Node.placesOf n.children := by
  rw [Node.placesOf_cons, Node.placesOf_nil, Node.places_eq, hn]
  rfl

theorem claims_token {it : Item} (h : it.isClaim = false) (its : List Item) :
    claims (it :: its) = claims its :=
  List.countP_cons_of_neg (by rw [h]; exact Bool.false_ne_true)

/-- The number of places for comments in what is built. -/
def Built.places : Built → Nat
  | .nodes ns => Node.placesOf ns
  | .list _ ss => elementCount ss + 1 + Node.placesOf (statementNodes ss)
  | .body ss => elementCount ss + 1 + Node.placesOf (statementNodes ss)

/-- Each place for comments in what is built has an item that claims them. -/
theorem Builds.claims_eq {last : TokenKind} {lead : List Node} {b : Built} {i r : List Item}
    (h : Builds last lead i b r) : Node.placesOf lead + claims i = b.places + claims r := by
  induction h with
  | here => rfl
  | token hit _ ih => rwa [claims_token hit]
  | trans _ _ ih₁ ih₂ => exact ih₁.trans ih₂
  | append _ _ ih₁ ih₂ =>
      simp only [Built.places, Node.placesOf_nil, Node.placesOf_append] at ih₁ ih₂ ⊢
      omega
  | node hn _ ih => rwa [Built.places, placesOf_of (Node.isPlain_iff.mp hn).2.1]
  | choice _ _ ih => rwa [Built.places, placesOf_of rfl]
  | stop _ =>
      rw [Built.places, elementCount_comments, placesOf_comments, claims_comments]
      simp only [Node.placesOf_nil]
      omega
  | more _ hs _ _ _ ih₁ ih₂ =>
      rw [Built.places, elementCount_more hs.noComment, statementNodes_append,
        statementNodes_cons, Node.placesOf_append, Node.placesOf_cons, placesOf_comments,
        claims_comments]
      simp only [Built.places, Node.placesOf_nil, Node.placesOf_cons] at ih₁ ih₂ ⊢
      omega
  | braces _ ih => exact ih
  | params _ _ ih₁ ih₂ => exact ih₁.trans ih₂
  | owner hn hparts _ ih => rwa [Built.places, placesOf_owner hn, hparts]
  | @clause test ss _ _ _ _ _ _ ih₁ ih₂ =>
      have hclause : Node.placesOf [.clause ⟨test, ss⟩] = elementCount ss + 1 +
          (Node.placesOf (Node.ofOption test) + Node.placesOf (statementNodes ss)) := by
        rw [placesOf_owner rfl, Node.children, Node.placesOf_append]
      have hcolon := ih₁.trans (congrArg (_ + ·) (claims_taken _ _ _))
      simp only [Built.places, Node.placesOf_nil] at hcolon ih₂ ⊢
      omega

/-! ## Places of comments -/

/-- A point of some items lies before the end of the items at their head that something takes. -/
def Inside (i r point : List Item) : Prop := point <:+ i ∧ ¬point <:+ r

theorem Inside.split {i r point : List Item} (m : List Item) (h : Inside i r point) :
    Inside i m point ∨ Inside m r point := by
  by_cases hm : point <:+ m
  · exact .inr ⟨hm, h.2⟩
  · exact .inl ⟨h.1, hm⟩

theorem Inside.cons {it : Item} {i r point : List Item} (h : Inside (it :: i) r point) :
    point = it :: i ∨ Inside i r point := by
  obtain ⟨h, hr⟩ := h
  obtain h | h := List.suffix_cons_iff.mp h
  · exact .inl h
  · exact .inr ⟨h, hr⟩

theorem not_inside_self {i point : List Item} : ¬Inside i i point := fun h => h.2 h.1

/-- The grammar takes source elements, each with the comments in front of it. -/
inductive Elements (last : TokenKind) : List Item → List Statement → List Item → Prop
  | none {i : List Item} : Elements last i [] i
  | some {room : Nat} {cs : List Comment} {i m r : List Item} {s : Statement}
      {ss : List Statement} :
      Derives last room .element i s m → Elements last m ss r →
      Elements last (.comments cs :: i) (cs.map .comment ++ s :: ss) r

theorem Elements.suffix {last : TokenKind} {i r : List Item} {ss : List Statement}
    (h : Elements last i ss r) : r <:+ i := by
  induction h with
  | none => exact List.suffix_refl _
  | some hs _ ih => exact suffix_cons_of (ih.trans hs.suffix)

/-- A list of source elements starts among some items, behind a brace or behind the colon of a
clause, and goes on to one of its stops. -/
inductive OpensList (its start : List Item) : List TokenKind → Prop
  | brace {t : Text} : .taken .openBrace t :: start <:+ its → OpensList its start [.closeBrace]
  | colon {t : Text} : .taken .colon t :: start <:+ its → OpensList its start clauseStops

/-- Comments stand in a list of statements, behind its first source elements and in front of some
items from which the grammar takes the others. -/
def StandIn (last : TokenKind) (stops : List TokenKind) (start : List Item)
    (body : List Statement) (cs : List Comment) (m r : List Item) : Prop :=
  ∃ before after room, Elements last start before (.comments cs :: m) ∧
    Derives last room (.elements stops) (.comments cs :: m) (cs.map .comment ++ after) r ∧
    body = before ++ (cs.map .comment ++ after)

/-- Comments stand in one of some lists of statements, which starts among some items. -/
def Nested (last : TokenKind) (its : List Item) (bodies : List (List Statement))
    (cs : List Comment) (m : List Item) : Prop :=
  ∃ start stops body r, OpensList its start stops ∧ StandIn last stops start body cs m r ∧
    body ∈ bodies

theorem OpensList.suffix {its start : List Item} {stops : List TokenKind}
    (h : OpensList its start stops) : start <:+ its := by
  cases h with
  | brace h => exact (List.suffix_cons _ _).trans h
  | colon h => exact (List.suffix_cons _ _).trans h

theorem OpensList.mono {its its' start : List Item} {stops : List TokenKind}
    (h : OpensList its start stops) (hs : its <:+ its') : OpensList its' start stops := by
  cases h with
  | brace h => exact .brace (h.trans hs)
  | colon h => exact .colon (h.trans hs)

theorem Nested.mono {last : TokenKind} {its its' : List Item} {bodies : List (List Statement)}
    {cs : List Comment} {m : List Item} (h : Nested last its bodies cs m) (hs : its <:+ its') :
    Nested last its' bodies cs m := by
  obtain ⟨start, stops, body, r, hopens, hstand, hbody⟩ := h
  exact ⟨start, stops, body, r, hopens.mono hs, hstand, hbody⟩

/-- Whatever comments something takes among some items stand in one of some lists of statements. -/
structure Placed (last : TokenKind) (bodies : List (List Statement)) (i r : List Item) : Prop where
  suffix : r <:+ i
  nested : ∀ cs m, Inside i r (.comments cs :: m) → Nested last i bodies cs m

namespace Placed

variable {last : TokenKind} {bodies : List (List Statement)} {i m r : List Item} {it : Item}

theorem self : Placed last bodies i i :=
  ⟨List.suffix_refl i, fun _ _ h => absurd h not_inside_self⟩

theorem trans (h : Placed last bodies i m) (h' : Placed last bodies m r) :
    Placed last bodies i r := by
  refine ⟨h'.suffix.trans h.suffix, fun cs point hpoint => ?_⟩
  obtain hpoint | hpoint := hpoint.split m
  · exact h.nested cs point hpoint
  · exact (h'.nested cs point hpoint).mono h.suffix

theorem cons (h : Placed last bodies i r) (hit : ∀ cs, it ≠ .comments cs) :
    Placed last bodies (it :: i) r := by
  have hsuffix := List.suffix_cons it i
  refine ⟨h.suffix.trans hsuffix, fun cs point hpoint => ?_⟩
  obtain heq | hpoint := hpoint.cons
  · exact absurd (List.cons.inj heq).1.symm (hit cs)
  · exact (h.nested cs point hpoint).mono hsuffix

theorem taken {k : TokenKind} {t : Text} (h : Placed last bodies i r) :
    Placed last bodies (.taken k t :: i) r := h.cons nofun

theorem drop {k : TokenKind} {t : Text} (h : Placed last bodies i (.taken k t :: r)) :
    Placed last bodies i r := h.trans self.taken

end Placed

/-- The lists of statements of what is built, apart from the source elements themselves. -/
def Built.bodies : Built → List (List Statement)
  | .nodes ns => Node.bodiesOf ns
  | .list _ ss => Node.bodiesOf (statementNodes ss)
  | .body ss => ss :: Node.bodiesOf (statementNodes ss)

/-- Comments in front of some source elements stand in the list of them, or in one that starts
among their items. -/
def PlacedInList (last : TokenKind) (stops : List TokenKind) (bodies : List (List Statement))
    (i : List Item) (ss : List Statement) (r : List Item) : Prop :=
  ∀ cs m, Inside i r (.comments cs :: m) →
    StandIn last stops i ss cs m r ∨ Nested last i bodies cs m

/-- Comments that are claimed where something is built stand in a list of statements. -/
def Built.Places (last : TokenKind) (bodies : List (List Statement)) :
    Built → List Item → List Item → Prop
  | .list stops ss, i, r => r <:+ i ∧ PlacedInList last stops bodies i ss r
  | _, i, r => Placed last bodies i r

theorem bodiesOf_one (n : Node) :
    Node.bodiesOf [n] = n.body?.toList ++ Node.bodiesOf n.children := by
  rw [Node.bodiesOf_cons, Node.bodiesOf_nil, List.append_nil, Node.bodies_eq]
  rfl

theorem StandIn.cons {last : TokenKind} {room : Nat} {stops : List TokenKind}
    {i mid m r : List Item} {cs cs' : List Comment} {s : Statement} {ss : List Statement}
    (hs : Derives last room .element i s mid) (h : StandIn last stops mid ss cs m r) :
    StandIn last stops (.comments cs' :: i) (cs'.map .comment ++ s :: ss) cs m r := by
  obtain ⟨before, after, room, helements, hrest, rfl⟩ := h
  exact ⟨cs'.map .comment ++ s :: before, after, room, .some hs helements, hrest, by simp⟩

theorem PlacedInList.nested {last k : TokenKind} {t : Text} {stops : List TokenKind}
    {bodies : List (List Statement)} {i r : List Item} {ss : List Statement}
    (h : PlacedInList last stops bodies i ss r) (hr : r <:+ i)
    (hopens : OpensList (.taken k t :: i) i stops) (hss : ss ∈ bodies) :
    Placed last bodies (.taken k t :: i) r := by
  refine ⟨suffix_cons_of hr, fun cs m hm => ?_⟩
  obtain heq | hm := hm.cons
  · cases heq
  obtain hstand | hnested := h cs m hm
  · exact ⟨i, stops, ss, r, hopens, hstand, hss⟩
  · exact hnested.mono (List.suffix_cons _ _)

/-- Wherever comments are claimed, they stand in one of the lists of what is built. -/
theorem Builds.places {last : TokenKind} {lead : List Node} {b : Built} {i r : List Item}
    (h : Builds last lead i b r) (bodies : List (List Statement)) :
    b.bodies ⊆ bodies → Node.bodiesOf lead ⊆ bodies ∧ b.Places last bodies i r := by
  induction h with
  | here => exact fun h => ⟨h, .self⟩
  | token hit _ ih =>
      intro h
      obtain ⟨hlead, hr⟩ := ih h
      refine ⟨hlead, hr.cons ?_⟩
      rintro cs rfl
      cases hit
  | trans _ _ ih₁ ih₂ =>
      intro h
      obtain ⟨hmid, hr⟩ := ih₂ h
      obtain ⟨hlead, hm⟩ := ih₁ hmid
      exact ⟨hlead, hm.trans hr⟩
  | append _ _ ih₁ ih₂ =>
      intro h
      rw [Built.bodies, Node.bodiesOf_append] at h
      obtain ⟨h₁, h₂⟩ := List.append_subset.mp h
      obtain ⟨hlead, hm⟩ := ih₁ h₁
      exact ⟨hlead, hm.trans (ih₂ h₂).2⟩
  | node hn _ ih =>
      intro h
      rw [Built.bodies, bodiesOf_one, (Node.isPlain_iff.mp hn).2.1] at h
      exact ih h
  | choice _ _ ih =>
      intro h
      rw [Built.bodies, bodiesOf_one] at h
      exact ih h
  | stop hk =>
      refine fun _ => ⟨List.nil_subset _, List.suffix_cons _ _, fun cs m hm => ?_⟩
      obtain heq | hm := hm.cons
      · obtain ⟨hcs, rfl⟩ := List.cons.inj heq
        obtain rfl := Item.comments.inj hcs
        exact .inl ⟨[], [], 0, .none, by simpa using .elementsEnd hk, by simp⟩
      · exact absurd hm not_inside_self
  | more hk hs hss _ _ ih₁ ih₂ =>
      intro h
      rw [Built.bodies, statementNodes_append, Node.bodiesOf_append, statementNodes_cons,
        Node.bodiesOf_cons] at h
      obtain ⟨h₁, h₂⟩ := List.append_subset.mp (List.append_subset.mp h).2
      have hm := (ih₁ (by rwa [Built.bodies, Node.bodiesOf_cons, Node.bodiesOf_nil,
        List.append_nil])).2
      obtain ⟨-, hr, hrest⟩ := ih₂ h₂
      refine ⟨List.nil_subset _, suffix_cons_of (hr.trans hs.suffix), fun cs point hpoint => ?_⟩
      -- the comments stand in front of the element, within it or behind it
      obtain heq | hpoint := hpoint.cons
      · obtain ⟨hcs, rfl⟩ := List.cons.inj heq
        obtain rfl := Item.comments.inj hcs
        exact .inl ⟨[], _, _, .none, .elementsMore hk hs hss, rfl⟩
      obtain hpoint | hpoint := hpoint.split _
      · exact .inr ((hm.nested cs point hpoint).mono (List.suffix_cons _ _))
      obtain hstand | hnested := hrest cs point hpoint
      · exact .inl (hstand.cons hs)
      · exact .inr (hnested.mono (suffix_cons_of hs.suffix))
  | braces _ ih =>
      intro h
      obtain ⟨hss, hlists⟩ := List.cons_subset.mp h
      obtain ⟨-, hr, hlist⟩ := ih hlists
      exact ⟨List.nil_subset _, (hlist.nested hr (.brace (List.suffix_refl _)) hss).drop⟩
  | params _ _ ih₁ ih₂ =>
      exact fun h => ⟨List.nil_subset _, (ih₁ (List.nil_subset _)).2.trans (ih₂ h).2⟩
  | owner hn hparts _ ih =>
      intro h
      rw [Built.bodies, bodiesOf_one, hn, hparts] at h
      exact ih h
  | @clause test ss _ _ _ _ _ _ ih₁ ih₂ =>
      have hclause : Node.bodiesOf [.clause ⟨test, ss⟩] =
          ss :: (Node.bodiesOf (Node.ofOption test) ++ Node.bodiesOf (statementNodes ss)) := by
        rw [bodiesOf_one, Node.children, Node.bodiesOf_append]
        rfl
      intro h
      rw [Built.bodies, hclause] at h
      obtain ⟨hss, hparts⟩ := List.cons_subset.mp h
      obtain ⟨ht, hlists⟩ := List.append_subset.mp hparts
      obtain ⟨-, hr, hlist⟩ := ih₂ hlists
      exact ⟨List.nil_subset _,
        (ih₁ ht).2.trans (hlist.nested hr (.colon (List.suffix_refl _)) hss)⟩

end Parser
end EcmaSyntax
