import EcmaSyntax.Proofs.Grammar.Builds
import EcmaSyntax.Proofs.Printing.Printable
import EcmaSyntax.Proofs.Reading

/-!
# Alternatives belong to the nearest choice

**Open statements.**  A statement is open if it ends in a choice without an alternative, which could
take an alternative behind the statement as its own.  `Statement.openChoices` lists these choices.

**Derivations.**  A choice goes without an alternative only in front of a token that is no `else`.
So whatever ends in an open statement stops there, through all the statements that end where their
last part ends, and behind semicolons of either kind.

**Results.**
* `Derives.no_else_behind`: no derivation ends with an open statement in front of an `else`.
* `Builds.settled`: in the trees that are built no `else` passes over an open choice.
* `Parser.settled_program`: the same of the program that a run yields, from any state.
* `else_belongs_to_nearest`: the same of each program that the runs on a source yield.
-/

namespace EcmaSyntax

/-! ## Open choices -/

/-- The choices that could take an alternative behind a statement, the nearest first. -/
def Statement.openChoices : Statement → List Statement
  | .ifElse test consequent none => consequent.openChoices ++ [.ifElse test consequent none]
  | .ifElse _ _ (some alternate) => alternate.openChoices
  | .whileDo _ body => body.openChoices
  | .forLoop _ _ _ body => body.openChoices
  | .forIn _ _ body => body.openChoices
  | .withObject _ body => body.openChoices
  | .labelled _ body => body.openChoices
  | _ => []

/-- A statement is open if there are such choices. -/
theorem Statement.endsOpen_iff (s : Statement) : s.endsOpen ↔ s.openChoices ≠ [] := by
  fun_induction Statement.openChoices s with
  | case1 => simp [endsOpen]
  | case2 _ _ _ ih => rwa [endsOpen]
  | case3 _ _ ih => rwa [endsOpen]
  | case4 _ _ _ _ ih => rwa [endsOpen]
  | case5 _ _ _ ih => rwa [endsOpen]
  | case6 _ _ ih => rwa [endsOpen]
  | case7 _ _ ih => rwa [endsOpen]
  | case8 s => cases s <;> simp_all [endsOpen]

/-- Behind a consequent that is not open only one choice is left for an alternative to go to. -/
theorem Statement.openChoices_of_closed {test : Expression} {consequent : Statement}
    (h : consequent.endsOpen = false) :
    (Statement.ifElse test consequent none).openChoices = [.ifElse test consequent none] := by
  have hnone : consequent.openChoices = [] := by
    refine Classical.not_not.mp fun hne => ?_
    rw [consequent.endsOpen_iff.mpr hne] at h
    cases h
  rw [openChoices, hnone, List.nil_append]

/-- If a node is a choice with an alternative, its consequent is not open, so that the choice itself
is the nearest one that the alternative could go to. -/
def Node.ElseIsNearest : Node → Prop
  | .statement (.ifElse test consequent (some _)) =>
      consequent.endsOpen = false ∧
        (Statement.ifElse test consequent none).openChoices.head? =
          some (.ifElse test consequent none)
  | _ => True

/-- Each node of a tree is such. -/
def Node.Settled (n : Node) : Prop := n.Everywhere ElseIsNearest

theorem Node.settled_of {n : Node} (h : n.ElseIsNearest)
    (hs : ∀ child ∈ n.children, child.Settled) :
    n.Settled :=
  .node h hs

namespace Parser

/-! ## What follows an open statement -/

/-- Parts of the grammar that yield a statement yield no open one in front of an `else`. -/
def Nonterminal.NoElseBehind (last : TokenKind) : (n : Nonterminal) → n.Tree → List Item → Prop
  | .rule .statement, s, r => s.endsOpen → peek last r ≠ .kwElse
  | .body .statement, s, r => s.endsOpen → peek last r ≠ .kwElse
  | .forHeader, s, r => s.endsOpen → peek last r ≠ .kwElse
  | .forRest _, s, r => s.endsOpen → peek last r ≠ .kwElse
  | .forInRest _, s, r => s.endsOpen → peek last r ≠ .kwElse
  | _, _, _ => True

theorem endsOpen_jumpTo (k : TokenKind) (label : Option Text) :
    (jumpTo k label).endsOpen = false := by
  unfold jumpTo
  split <;> rfl

/-- An open statement is never derived in front of an `else`. -/
theorem Derives.no_else_behind {last : TokenKind} {room : Nat} {n : Nonterminal} {i r : List Item}
    {tree : n.Tree} (h : Derives last room n i tree r) : n.NoElseBehind last tree r := by
  induction h with
  | @nested _ rule _ _ _ _ ih => cases rule <;> exact ih
  -- here the grammar looks at the token behind the choice
  | ifThen _ _ hk => exact fun _ => hk
  -- these end where their last part ends, and they are open if it is
  | labelled _ _ _ ih => exact ih
  | ifElse _ _ _ _ _ ih => exact ih
  | whileDo _ _ _ ih => exact ih
  | forLoop _ ih => exact ih
  | forNothing _ _ ih => exact ih
  | forVariables _ _ _ _ ih => exact ih
  | forInVariable _ _ _ ih => exact ih
  | forPrefixed _ _ _ _ _ _ ih => exact ih
  | forExpression _ _ _ _ _ _ _ _ _ _ _ ih => exact ih
  | forInExpression _ _ _ _ _ _ ih => exact ih
  | forRest _ _ _ _ _ ih => exact ih
  | forInRest _ _ _ ih => exact ih
  | withObject _ _ _ ih => exact ih
  | jumpBare | jumpLabel => exact fun ho => absurd ho (by simp [endsOpen_jumpTo])
  -- other statements are not open, whatever they end in
  | _ => first | exact True.intro | exact nofun

/-! ## Trees -/

/-- What is built is settled if all nodes in it are. -/
def Built.Settled : Built → Prop
  | .nodes ns => ∀ n ∈ ns, n.Settled
  | .list _ ss => ∀ s ∈ ss, (Node.statement s).Settled
  | .body ss => ∀ s ∈ ss, (Node.statement s).Settled

theorem elseIsNearest_of_not_isFullChoice {n : Node} (h : n.isFullChoice = false) :
    n.ElseIsNearest := by
  unfold Node.ElseIsNearest
  split
  · cases h
  · trivial

theorem settled_comment (c : Comment) : (Node.statement (.comment c)).Settled :=
  .node trivial nofun

/-- From settled nodes settled nodes are built: no `else` passes over an open choice. -/
theorem Builds.settled {last : TokenKind} {lead : List Node} {b : Built} {i r : List Item}
    (h : Builds last lead i b r) : (∀ n ∈ lead, n.Settled) → b.Settled := by
  induction h with
  | here => exact id
  | token _ _ ih => exact ih
  | trans _ _ ih₁ ih₂ => exact fun hlead => ih₂ (ih₁ hlead)
  | append _ _ ih₁ ih₂ =>
      exact fun hlead => List.forall_mem_append.mpr ⟨ih₁ hlead, ih₂ (List.forall_mem_nil _)⟩
  | node hn _ ih =>
      have hnearest := elseIsNearest_of_not_isFullChoice (Node.isPlain_iff.mp hn).2.2
      exact fun hlead => List.forall_mem_singleton.mpr (Node.settled_of hnearest (ih hlead))
  | choice hc _ ih =>
      -- an `else` follows the consequent, which is therefore not open
      have hclosed := Bool.eq_false_iff.mpr fun ho => hc.no_else_behind ho rfl
      refine fun hlead => List.forall_mem_singleton.mpr (Node.settled_of ⟨hclosed, ?_⟩ (ih hlead))
      rw [Statement.openChoices_of_closed hclosed, List.head?_cons]
  | stop _ => exact fun _ => List.forall_mem_map.mpr fun c _ => settled_comment c
  | more _ _ _ _ _ ih₁ ih₂ =>
      have hs := List.forall_mem_singleton.mp (ih₁ (List.forall_mem_nil _))
      have hss := ih₂ (List.forall_mem_nil _)
      exact fun _ => List.forall_mem_append.mpr
        ⟨List.forall_mem_map.mpr fun c _ => settled_comment c, List.forall_mem_cons.mpr ⟨hs, hss⟩⟩
  | braces _ ih => exact ih
  | params _ _ _ ih => exact ih
  | owner hn hparts _ ih =>
      have hnearest := elseIsNearest_of_not_isFullChoice (Node.not_of_body? hn).2
      refine fun hlead => List.forall_mem_singleton.mpr (Node.settled_of hnearest ?_)
      rw [hparts]
      exact List.forall_mem_map.mpr (ih hlead)
  | clause _ _ ih₁ ih₂ =>
      refine fun _ => List.forall_mem_singleton.mpr (Node.settled_of trivial ?_)
      exact List.forall_mem_append.mpr
        ⟨ih₁ (List.forall_mem_nil _), List.forall_mem_map.mpr (ih₂ (List.forall_mem_nil _))⟩

end Parser

/-- A run that succeeds yields a settled program, whatever state it starts in. -/
theorem Parser.settled_program {limit : Nat} {s s' : ParserState} {P : Program}
    (h : (program limit).run s = .ok P s') : (Node.program P).Settled := by
  rw [run_program] at h
  split at h
  case h_2 => cases h
  case h_1 s₁ _ =>
    split at h
    case h_2 => cases h
    case h_1 body s₂ helements =>
      cases h
      -- nothing is known of what follows the elements, so the token behind them may be any
      have hfollows : Follows s₂.current.kind (limit - s.depth)
          (rule (turnsFor s) (limit - s.depth)) := yields_rule _ _
      obtain ⟨its, -, hderives⟩ :=
        yields_elements hfollows [.endOfInput] _ s₁ body s₂ helements [] rfl
      exact Node.settled_of trivial
        (List.forall_mem_map.mpr (hderives.builds.settled (List.forall_mem_nil _)))

theorem settled_of_mem_runs {limit n : Nat} {s : ParserState} {P : Program}
    (h : .ok P ∈ runs limit n s) : (Node.program P).Settled := by
  induction n generalizing s with
  | zero => cases h
  | succ n ih =>
      rw [runs] at h
      obtain hfirst | hlater := List.mem_cons.mp h
      · cases hrun : Parser.program limit s with
        | ok Q s' =>
            rw [hrun] at hfirst
            cases hfirst
            exact Parser.settled_program hrun
        | error f s' =>
            rw [hrun] at hfirst
            cases hfirst
      · exact ih hlater

/-- In each program that a parser yields, in its first run on a source or in a later one, an
`else` belongs to the nearest choice that could take it: the consequent before it is not open. -/
theorem else_belongs_to_nearest {limit n : Nat} {source : Text} {P : Program}
    (h : .ok P ∈ runs limit n (ParserState.ofText source)) :
    (Node.program P).Everywhere Node.ElseIsNearest :=
  settled_of_mem_runs h

/-- Here a label, two loops and inserted semicolons stand between the choices and their `else`. -/
theorem else_belongs_to_nearest_chain : ∃ P,
    .ok P ∈ runs 256 1 (ParserState.ofText
        "if (a) l: while (b) if (c) for (;;) d\nelse with (o) e\nelse f".toList) ∧
      (Node.program P).Everywhere Node.ElseIsNearest := by
  obtain ⟨P, s, h⟩ := exists_run 256
    "if (a) l: while (b) if (c) for (;;) d\nelse with (o) e\nelse f".toList (by decide +kernel)
  have hmem : .ok P ∈ runs 256 1 (ParserState.ofText _) :=
    List.mem_singleton.mpr (parse_eq_ok_iff.mpr ⟨s, h⟩).symm
  exact ⟨P, hmem, else_belongs_to_nearest hmem⟩

end EcmaSyntax
