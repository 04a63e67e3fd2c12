import EcmaSyntax.Proofs.Transcript

/-!
# Operators between operands

**Input.**  A run of `binary` from an operand: it reads operators that hold what is on their
left with at least some power, each with the operand behind it.

**Chains.**  `Chain minPower g s links s'` says that a parser gets from `s` to `s'` by taking
an operator and running `unary` behind it, once for each of `links`.

**Trees.**  An `OperatorTree` has the nodes that one run builds, over operands that it does
not look into.  Its `word` is what it says from left to right, and it is `Balanced` if a left
child holds at least as strongly as its parent, and a right child more strongly.

**Results.**
* `Balanced.eq_of_word_eq`: a word has at most one balanced tree.
* `binary_chain`: one run reads a chain and builds a balanced tree of it.
* `binary_builds_only_tree`: the chain is as long as it can be, and no other tree is balanced.
-/

namespace EcmaSyntax
namespace Parser

/-! ## Trees of operators -/

/-- The nodes that a run builds over operands. -/
inductive OperatorTree where
  | operand (e : Expression)
  | node (op : InfixOperator) (left right : OperatorTree)

/-- An operator, and the operand behind it. -/
abbrev Link := InfixOperator × Expression

/-- Links in the order of the source. -/
def linksWord (links : List Link) : List (Expression ⊕ InfixOperator) :=
  links.flatMap fun link => [.inr link.1, .inl link.2]

@[simp] theorem linksWord_nil : linksWord [] = [] := rfl

@[simp] theorem linksWord_cons (link : Link) (links : List Link) :
    linksWord (link :: links) = .inr link.1 :: .inl link.2 :: linksWord links := rfl

@[simp] theorem linksWord_append (links links' : List Link) :
    linksWord (links ++ links') = linksWord links ++ linksWord links' :=
  List.flatMap_append

namespace OperatorTree

/-- The expression that a tree stands for. -/
def build : OperatorTree → Expression
  | operand e => e
  | node op left right => op.apply left.build right.build

/-- The operands and operators of a tree from left to right. -/
def word : OperatorTree → List (Expression ⊕ InfixOperator)
  | operand e => [.inl e]
  | node op left right => left.word ++ .inr op :: right.word

/-- The root of a tree is an operand, or an operator of at least some power. -/
def Holds (power : Nat) : OperatorTree → Prop
  | operand _ => True
  | node op _ _ => power ≤ op.power

/-- At each node the left child holds at least as strongly as the node, and the right child
more strongly. -/
def Balanced : OperatorTree → Prop
  | operand _ => True
  | node op left right =>
      left.Holds op.power ∧ right.Holds (op.power + 1) ∧ left.Balanced ∧ right.Balanced

variable {t t' left right : OperatorTree} {op : InfixOperator} {p q : Nat}

/-- The root of a balanced tree is its weakest operator. -/
theorem Balanced.power_le (h : t.Balanced) (hp : t.Holds p) {op : InfixOperator}
    (hop : .inr op ∈ t.word) : p ≤ op.power := by
  induction t generalizing p with
  | operand e => simp [word] at hop
  | node root left right ihl ihr =>
      obtain ⟨hl, hr, hbl, hbr⟩ := h
      have hroot : p ≤ root.power := hp
      simp only [word, List.mem_append, List.mem_cons, Sum.inr.injEq] at hop
      obtain hop | rfl | hop := hop
      · exact Nat.le_trans hroot (ihl hbl hl hop)
      · exact hroot
      · have := ihr hbr hr hop
        omega

theorem word_ne_nil : t.word ≠ [] := by
  cases t <;> simp [word]

/-- An operator that is weaker than all before it and not stronger than all behind it stands
in one place only. -/
theorem node_word_split {l l' r r' : List (Expression ⊕ InfixOperator)} {op op' : InfixOperator}
    (h : l ++ .inr op :: r = l' ++ .inr op' :: r')
    (hr : ∀ o, .inr o ∈ r → op.power + 1 ≤ o.power)
    (hl' : ∀ o, .inr o ∈ l' → op'.power ≤ o.power)
    (hl : ∀ o, .inr o ∈ l → op.power ≤ o.power)
    (hr' : ∀ o, .inr o ∈ r' → op'.power + 1 ≤ o.power) :
    l = l' ∧ op = op' ∧ r = r' := by
  -- if the two places differ, each of the two operators is weaker than the other
  obtain ⟨mid, hmid, htail⟩ | ⟨mid, hmid, htail⟩ := List.append_eq_append_iff.mp h
  · cases mid with
    | nil =>
        obtain ⟨hop, rfl⟩ := List.cons.inj htail
        exact ⟨by simpa using hmid.symm, Sum.inr.inj hop, rfl⟩
    | cons x mid =>
        obtain ⟨rfl, rfl⟩ := List.cons.inj htail
        have h₁ := hl' op (by simp [hmid])
        have h₂ := hr op' (by simp)
        omega
  · cases mid with
    | nil =>
        obtain ⟨hop, rfl⟩ := List.cons.inj htail
        exact ⟨by simpa using hmid, (Sum.inr.inj hop).symm, rfl⟩
    | cons x mid =>
        obtain ⟨rfl, rfl⟩ := List.cons.inj htail
        have h₁ := hl op' (by simp [hmid])
        have h₂ := hr' op (by simp)
        omega

/-- Balanced trees with the same word are the same. -/
theorem Balanced.eq_of_word_eq (h : t.Balanced) (h' : t'.Balanced) (hword : t.word = t'.word) :
    t = t' := by
  induction t generalizing t' with
  | operand e =>
      cases t' with
      | operand e' => simpa [word] using hword
      | node op left right =>
          have hlength := congrArg List.length hword
          have := List.length_pos_iff.mpr (word_ne_nil (t := left))
          simp only [word, List.length_cons, List.length_nil, List.length_append] at hlength
          omega
  | node op left right ihl ihr =>
      cases t' with
      | operand e =>
          have hlength := congrArg List.length hword
          have := List.length_pos_iff.mpr (word_ne_nil (t := left))
          simp only [word, List.length_cons, List.length_nil, List.length_append] at hlength
          omega
      | node op' left' right' =>
          obtain ⟨hl, hr, hbl, hbr⟩ := h
          obtain ⟨hl', hr', hbl', hbr'⟩ := h'
          obtain ⟨hleft, rfl, hright⟩ := node_word_split hword
            (fun _ => hbr.power_le hr) (fun _ => hbl'.power_le hl')
            (fun _ => hbl.power_le hl) (fun _ => hbr'.power_le hr')
          rw [ihl hbl hbl' hleft, ihr hbr hbr' hright]

end OperatorTree

/-! ## Chains of operators -/

/-- Why no operator is read at a token: it is none, it is too weak, or it is `in` where `in` is
no operator. -/
def EndsChain (minPower : Nat) (g : Grammar) (k : TokenKind) : Prop :=
  k.infixOperator? = none ∨ (∃ op, k.infixOperator? = some op ∧ op.power < minPower) ∨
    k = .kwIn ∧ g = .noIn

section Operators

variable {minPower p : Nat} {g : Grammar} {k : TokenKind} {op : InfixOperator}

theorem infixOperator?_eq_none_iff :
    infixOperator? minPower g k = none ↔ EndsChain minPower g k := by
  unfold infixOperator? EndsChain
  split
  · rename_i h
    simp [h]
  · rename_i h
    cases k.infixOperator? with
    | none => simp
    | some op => simp [h]

/-- Behind the first operand the same operators are read as before it. -/
@[simp] theorem infixOperator?_operand :
    infixOperator? minPower g.operand k = infixOperator? minPower g k := by
  cases g <;> simp [infixOperator?, Grammar.operand]

@[simp] theorem operand_operand (g : Grammar) : g.operand.operand = g.operand := by
  cases g <;> rfl

end Operators

section Chains

variable (inner : Inner) (turns : Nat)

/-- A parser gets from a state to another by operators of at least some power, each with an
operand behind it. -/
inductive Chain (minPower : Nat) (g : Grammar) : ParserState → List Link → ParserState → Prop
  | nil {s : ParserState} : Chain minPower g s [] s
  | cons {s s₁ s₂ s' : ParserState} {t : Token} {op : InfixOperator} {e : Expression}
      {links : List Link} :
      infixOperator? minPower g s.current.kind = some op →
      take.run s = .ok t s₁ →
      (unary inner turns g.operand).run s₁ = .ok e s₂ →
      Chain minPower g s₂ links s' →
      Chain minPower g s ((op, e) :: links) s'

end Chains

section Runs

variable {inner : Inner} {turns fuel minPower p : Nat} {g : Grammar} {left e : Expression}
variable {s s₁ s' : ParserState} {links links' : List Link}

namespace Chain

theorem append (h : Chain inner turns minPower g s links s₁)
    (h' : Chain inner turns minPower g s₁ links' s') :
    Chain inner turns minPower g s (links ++ links') s' := by
  induction h with
  | nil => exact h'
  | cons hop ht hu _ ih => exact .cons hop ht hu (ih h')

/-- A chain of stronger operators behind a first operand is a chain of weaker ones. -/
theorem weaken (h : Chain inner turns p g.operand s links s') (hp : minPower ≤ p) :
    Chain inner turns minPower g s links s' := by
  induction h with
  | nil => exact .nil
  | cons hop ht hu _ ih =>
      rw [infixOperator?_operand, infixOperator?_eq_some_iff] at hop
      rw [operand_operand] at hu
      exact .cons (infixOperator?_eq_some_iff.mpr ⟨hop.1, Nat.le_trans hp hop.2.1, hop.2.2⟩)
        ht hu ih

theorem power_le (h : Chain inner turns minPower g s links s') :
    ∀ link ∈ links, minPower ≤ link.1.power := by
  induction h with
  | nil => exact nofun
  | cons hop _ _ _ ih =>
      exact List.forall_mem_cons.mpr ⟨(infixOperator?_eq_some_iff.mp hop).2.1, ih⟩

end Chain

/-- A run that has built a balanced tree so far goes on to a balanced tree.  It needs that the
tree holds at least as strongly as the operator at hand, whose left child it becomes. -/
theorem binary_chain (l : OperatorTree) (hl : l.Balanced) (hmin : l.Holds minPower)
    (hnext : ∀ op, infixOperator? minPower g s.current.kind = some op → l.Holds op.power)
    (h : (binary inner turns fuel l.build minPower g).run s = .ok e s') :
    ∃ links, ∃ t : OperatorTree, Chain inner turns minPower g s links s' ∧
      infixOperator? minPower g s'.current.kind = none ∧ t.build = e ∧
      t.word = l.word ++ linksWord links ∧
      t.Balanced ∧ t.Holds minPower := by
  induction fuel generalizing l minPower g s e s' with
  | zero => cases h
  | succ fuel ih =>
      unfold binary infixOperator at h
      rw [bind_assoc] at h
      obtain ⟨k, s₀, hk, h⟩ := run_bind_ok.mp h
      cases hk
      rw [pure_bind] at h
      cases hop : infixOperator? minPower g s.current.kind with
      | none =>
          rw [hop] at h
          cases h
          exact ⟨[], l, .nil, hop, rfl, by simp, hl, hmin⟩
      | some op =>
          rw [hop] at h
          obtain ⟨t, s₁, ht, h⟩ := run_bind_ok.mp h
          obtain ⟨operand, s₂, hu, h⟩ := run_bind_ok.mp h
          obtain ⟨right, s₃, hr, h⟩ := run_bind_ok.mp h
          -- the right child reads the operators that are stronger than this one
          obtain ⟨links, r, hchain, hstop, rfl, hword, hbr, hhr⟩ :=
            ih (.operand operand) trivial trivial (fun _ _ => trivial) hr
          have hpower := (infixOperator?_eq_some_iff.mp hop).2.1
          -- so that the next one is not stronger, and takes this node as its left child
          have hnext' : ∀ op', infixOperator? minPower g s₃.current.kind = some op' →
              op'.power ≤ op.power := by
            refine fun op' hop' => Nat.le_of_not_lt fun hlt => ?_
            obtain ⟨hk, -, hin⟩ := infixOperator?_eq_some_iff.mp hop'
            have hread : infixOperator? op.rightPower g s₃.current.kind = some op' :=
              infixOperator?_eq_some_iff.mpr ⟨hk, hlt, hin⟩
            rw [infixOperator?_operand, hread] at hstop
            cases hstop
          obtain ⟨links', t', hchain', hstop', hbuild, hword', hb, hh⟩ :=
            ih (.node op l r) ⟨hnext op hop, hhr, hl, hbr⟩ hpower hnext' h
          refine ⟨(op, operand) :: links ++ links', t', ?_, hstop', hbuild, ?_, hb, hh⟩
          · exact (Chain.cons hop ht hu (hchain.weaken (Nat.le_succ_of_le hpower))).append hchain'
          · rw [hword']
            simp [OperatorTree.word, hword]

/-- A run reads the longest chain of operators that are strong enough, and builds the only
balanced tree that reads as the operand and this chain. -/
theorem binary_builds_only_tree
    (h : (binary inner turns fuel left minPower g).run s = .ok e s') :
    ∃ links, Chain inner turns minPower g s links s' ∧
      (∀ link ∈ links, minPower ≤ link.1.power) ∧ EndsChain minPower g s'.current.kind ∧
      ∃ t : OperatorTree, t.build = e ∧ t.word = .inl left :: linksWord links ∧ t.Balanced ∧
        ∀ t' : OperatorTree, t'.word = .inl left :: linksWord links → t'.Balanced → t' = t := by
  obtain ⟨links, t, hchain, hstop, hbuild, hword, hb, -⟩ :=
    binary_chain (.operand left) trivial trivial (fun _ _ => trivial) h
  have hleft : t.word = .inl left :: linksWord links := hword
  exact ⟨links, hchain, hchain.power_le, infixOperator?_eq_none_iff.mp hstop, t, hbuild, hleft,
    hb, fun t' hword' hb' => hb'.eq_of_word_eq hb (hword'.trans hleft.symm)⟩

/-- The operators behind the first operand of a difference with a product in its middle. -/
theorem binary_builds_only_tree_difference : ∃ s e s',
    s = finalState ((do let _ ← take; take).run (ParserState.ofText "a - b * c - d".toList)) ∧
      (binary (rule 20 4) 20 20 (.identifier "a".toList) 0 .normal).run s = .ok e s' ∧
      ∃ links, Chain (rule 20 4) 20 0 .normal s links s' ∧
        (∀ link ∈ links, 0 ≤ link.1.power) ∧ EndsChain 0 .normal s'.current.kind ∧
        ∃ t : OperatorTree, t.build = e ∧
          t.word = .inl (.identifier "a".toList) :: linksWord links ∧ t.Balanced ∧
          ∀ t' : OperatorTree, t'.word = .inl (.identifier "a".toList) :: linksWord links →
            t'.Balanced → t' = t := by
  have hok : (outcome ((binary (rule 20 4) 20 20 (.identifier "a".toList) 0 .normal).run
      (finalState ((do let _ ← take; take).run
        (ParserState.ofText "a - b * c - d".toList))))).isOk := by decide +kernel
  cases h : (binary (rule 20 4) 20 20 (.identifier "a".toList) 0 .normal).run
      (finalState ((do let _ ← take; take).run (ParserState.ofText "a - b * c - d".toList))) with
  | ok e s' => exact ⟨_, e, s', rfl, h, binary_builds_only_tree h⟩
  | error f s' =>
      rw [h] at hok
      cases hok

end Runs

end Parser
end EcmaSyntax
