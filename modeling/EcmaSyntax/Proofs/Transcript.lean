import EcmaSyntax.Proofs.Run

/-!
# Transcripts of a run

**Items.**  A run of the parser changes its state in few ways: it takes a token, takes a
point with the name after it, reads a slash again as a literal, ends a statement, or
claims comments.  An item records one such change without its place in the source.

**Moves.**  `Moves s input s' rest` says that a parser gets from `s` to `s'` by the items
at the head of `input`, and that `rest` is what follows them.  How many rules are open in
the two states does not matter.

**Results.**
* `Moves.trans`: moves compose.
* `Moves.peek_eq`: the first item of the input shows the kind of the token at hand.
-/

namespace EcmaSyntax
namespace Parser

/-- A change of the state of a parser. -/
inductive Item where
  /-- A token was taken. -/
  | taken (kind : TokenKind) (text : Text)
  /-- A point was taken, and the name after it. -/
  | member (kind : TokenKind) (text : Text)
  /-- A slash was read again, and the regular expression was taken. -/
  | literal (opener : TokenKind) (text : Text)
  /-- A semicolon that stood at hand ended a statement. -/
  | ended (kind : TokenKind)
  /-- A semicolon was inserted on request before a token, and ended a statement. -/
  | inserted (before : TokenKind)
  /-- The comments before the token at hand were claimed. -/
  | comments (cs : List Comment)
deriving DecidableEq

/-- The kind of the token at hand before some items, if there is `last` at hand after them. -/
def peek (last : TokenKind) : List Item → TokenKind
  | [] => last
  | .taken kind _ :: _ => kind
  | .member _ _ :: _ => .dot
  | .literal opener _ :: _ => opener
  | .ended kind :: _ => kind
  | .inserted before :: _ => before
  | .comments _ :: its => peek last its

section Peek

variable (last : TokenKind) (its : List Item)

@[simp] theorem peek_nil : peek last [] = last := rfl

@[simp] theorem peek_taken (k : TokenKind) (t : Text) :
    peek last (.taken k t :: its) = k := rfl

@[simp] theorem peek_member (k : TokenKind) (t : Text) :
    peek last (.member k t :: its) = .dot := rfl

@[simp] theorem peek_literal (k : TokenKind) (t : Text) :
    peek last (.literal k t :: its) = k := rfl

@[simp] theorem peek_ended (k : TokenKind) : peek last (.ended k :: its) = k := rfl

@[simp] theorem peek_inserted (k : TokenKind) : peek last (.inserted k :: its) = k := rfl

@[simp] theorem peek_comments (cs : List Comment) :
    peek last (.comments cs :: its) = peek last its := rfl

end Peek

/-- Kinds of tokens that the grammar takes one by one. -/
def isPlain (k : TokenKind) : Bool :=
  k ≠ .dot && k ≠ .insertedSemicolon && k ≠ .endOfInput

/-- Kinds of tokens that may open a regular expression. -/
def opensRegex (k : TokenKind) : Bool :=
  k = .slash || k = .slashEquals

theorem isPlain_of_propertyKey? {k : TokenKind} {text : Text} {key : PropertyKey}
    (h : propertyKey? k text = some key) : isPlain k := by
  cases k <;> first | rfl | cases h

theorem isPlain_of_prefixOperator? {k : TokenKind} {op : UnaryOperator}
    (h : k.prefixOperator? = some op) : isPlain k := by
  cases k <;> first | rfl | cases h

theorem isPlain_of_postfixOperator? {k : TokenKind} {op : UnaryOperator}
    (h : k.postfixOperator? = some op) : isPlain k := by
  cases k <;> first | rfl | cases h

theorem isPlain_of_assignOperator? {k : TokenKind} {op : AssignOperator}
    (h : k.assignOperator? = some op) : isPlain k := by
  cases k <;> first | rfl | cases h

theorem infixOperator?_eq_some_iff {p : Nat} {g : Grammar} {k : TokenKind} {op : InfixOperator} :
    infixOperator? p g k = some op ↔
      k.infixOperator? = some op ∧ p ≤ op.power ∧ ¬(k = .kwIn ∧ g = .noIn) := by
  unfold infixOperator?
  split
  · rename_i h
    simp [h]
  · rename_i h
    simp [h, Option.filter_eq_some_iff]

theorem isPlain_of_infixOperator? {p : Nat} {g : Grammar} {k : TokenKind} {op : InfixOperator}
    (h : infixOperator? p g k = some op) : isPlain k := by
  have hk := (infixOperator?_eq_some_iff.mp h).1
  cases k <;> first | rfl | cases hk

/-- A parser gets from one state to another by the items that the first list has before
the second. -/
inductive Moves : ParserState → List Item → ParserState → List Item → Prop
  | here {s : ParserState} {its : List Item} (n : Nat) :
      Moves s its (atDepth s n) its
  | taken {s s₁ s' : ParserState} {t : Token} {k : TokenKind} {text : Text}
      {its rest : List Item} :
      take.run s = .ok t s₁ → s.current.kind = k → s.current.text = text → isPlain k →
      Moves s₁ its s' rest → Moves s (.taken k text :: its) s' rest
  | member {s s₁ s₂ s' : ParserState} {t t₁ : Token} {k : TokenKind} {text : Text}
      {its rest : List Item} :
      take.run s = .ok t s₁ → s.current.kind = .dot → take.run s₁ = .ok t₁ s₂ →
      s₁.current.kind = k → s₁.current.text = text → k.isIdentifierName →
      Moves s₂ its s' rest → Moves s (.member k text :: its) s' rest
  | literal {s s₁ s₂ s' : ParserState} {r t : Token} {k : TokenKind} {text : Text}
      {its rest : List Item} :
      (step (TokenStream.rescan s.current)).run s = .ok r s₁ → s.current.kind = k →
      opensRegex k → r.text = text → take.run { s₁ with current := r } = .ok t s₂ →
      Moves s₂ its s' rest → Moves s (.literal k text :: its) s' rest
  | ended {s s₁ s' : ParserState} {k : TokenKind} {its rest : List Item} :
      endStatement.run s = .ok () s₁ → s.current.kind = k → isSemicolon k →
      Moves s₁ its s' rest → Moves s (.ended k :: its) s' rest
  | inserted {s s₁ s' : ParserState} {k : TokenKind} {its rest : List Item} :
      endStatement.run s = .ok () s₁ → s.current.kind = k → isSemicolon k = false →
      Moves s₁ its s' rest → Moves s (.inserted k :: its) s' rest
  | comments {s s₁ s' : ParserState} {cs : List Comment} {its rest : List Item} :
      pendingComments.run s = .ok (cs.map .comment) s₁ →
      Moves s₁ its s' rest → Moves s (.comments cs :: its) s' rest

namespace Moves

variable {s s₁ s' : ParserState} {its mid rest : List Item}

theorem refl : Moves s its s its := here s.depth

/-- The same moves lead on from the same state at another depth. -/
theorem withDepth (h : Moves s its s' rest) (m n : Nat) :
    Moves (atDepth s m) its (atDepth s' n) rest := by
  induction h with
  | here k => exact here n
  | taken ht hk htext hp _ ih => exact taken (run_take_atDepth ht m) hk htext hp ih
  | member ht hk ht₁ hk₁ htext hname _ ih =>
      exact member (run_take_atDepth ht m) hk (run_take_atDepth ht₁ m) hk₁ htext hname ih
  | literal hs hk ho htext ht _ ih =>
      exact literal (run_step_atDepth hs m) hk ho htext (run_take_atDepth ht m) ih
  | ended he hk hs _ ih => exact ended (run_endStatement_atDepth he m) hk hs ih
  | inserted he hk hs _ ih => exact inserted (run_endStatement_atDepth he m) hk hs ih
  | comments hc _ ih => exact comments (run_pendingComments_atDepth hc m) ih

theorem trans (h : Moves s its s₁ mid) (h' : Moves s₁ mid s' rest) : Moves s its s' rest := by
  induction h with
  | @here s its n =>
      have := h'.withDepth s.depth s'.depth
      simpa using this
  | taken ht hk htext hp _ ih => exact taken ht hk htext hp (ih h')
  | member ht hk ht₁ hk₁ htext hname _ ih => exact member ht hk ht₁ hk₁ htext hname (ih h')
  | literal hs hk ho htext ht _ ih => exact literal hs hk ho htext ht (ih h')
  | ended he hk hs _ ih => exact ended he hk hs (ih h')
  | inserted he hk hs _ ih => exact inserted he hk hs (ih h')
  | comments hc _ ih => exact comments hc (ih h')

/-- The same moves lead on if items are added at the end. -/
theorem append (h : Moves s its s' rest) (more : List Item) :
    Moves s (its ++ more) s' (rest ++ more) := by
  induction h with
  | here n => exact here n
  | taken ht hk htext hp _ ih => exact taken ht hk htext hp ih
  | member ht hk ht₁ hk₁ htext hname _ ih => exact member ht hk ht₁ hk₁ htext hname ih
  | literal hs hk ho htext ht _ ih => exact literal hs hk ho htext ht ih
  | ended he hk hs _ ih => exact ended he hk hs ih
  | inserted he hk hs _ ih => exact inserted he hk hs ih
  | comments hc _ ih => exact comments hc ih

/-- Moves one after the other. -/
theorem seq {more : List Item} (h : Moves s its s₁ []) (h' : Moves s₁ more s' []) :
    Moves s (its ++ more) s' [] :=
  (h.append more).trans h'

/-- Moves over an item and others. -/
theorem uncons {it : Item} (h : Moves s (it :: its) s' []) :
    ∃ s₁, Moves s [it] s₁ [] ∧ Moves s₁ its s' [] := by
  cases h with
  | taken ht hk htext hp h => exact ⟨_, .taken ht hk htext hp .refl, h⟩
  | member ht hk ht₁ hk₁ htext hname h => exact ⟨_, .member ht hk ht₁ hk₁ htext hname .refl, h⟩
  | literal hs hk ho htext ht h => exact ⟨_, .literal hs hk ho htext ht .refl, h⟩
  | ended he hk hs h => exact ⟨_, .ended he hk hs .refl, h⟩
  | inserted he hk hs h => exact ⟨_, .inserted he hk hs .refl, h⟩
  | comments hc h => exact ⟨_, .comments hc .refl, h⟩

/-- The first item shows the kind of the token at hand. -/
theorem peek_eq {last : TokenKind} (h : Moves s its s' rest)
    (hr : peek last rest = s'.current.kind) : peek last its = s.current.kind := by
  induction h with
  | here n => exact hr
  | taken _ hk _ _ _ _ => exact hk.symm
  | member _ hk _ _ _ _ _ _ => exact hk.symm
  | literal _ hk _ _ _ _ _ => exact hk.symm
  | ended _ hk _ _ _ => exact hk.symm
  | inserted _ hk _ _ _ => exact hk.symm
  | comments hc _ ih =>
      rw [run_pendingComments] at hc
      injection hc with _ hs
      subst hs
      exact ih hr

theorem length_le (h : Moves s its s' rest) : rest.length ≤ its.length := by
  induction h with
  | here => exact Nat.le_refl _
  | _ => simp only [List.length_cons]; omega

/-- Moves over no items change nothing but the depth. -/
theorem eq_atDepth (h : Moves s its s' its) : ∃ n, s' = atDepth s n := by
  cases h with
  | here n => exact ⟨n, rfl⟩
  | taken _ _ _ _ h => exact absurd h.length_le (by simp)
  | member _ _ _ _ _ _ h => exact absurd h.length_le (by simp)
  | literal _ _ _ _ _ h => exact absurd h.length_le (by simp)
  | ended _ _ _ h => exact absurd h.length_le (by simp)
  | inserted _ _ _ h => exact absurd h.length_le (by simp)
  | comments _ h => exact absurd h.length_le (by simp)

/-- Moves over one token end at the end of this token. -/
theorem lastEnd_eq {k : TokenKind} {text : Text} (h : Moves s (.taken k text :: its) s' its) :
    s'.lastEnd = s.current.stop := by
  cases h with
  | taken htake hk _ hp h =>
      obtain ⟨n, rfl⟩ := h.eq_atDepth
      obtain ⟨-, following, stream, -, rfl⟩ := run_take_ok.mp htake
      have hne : s.current.kind ≠ .insertedSemicolon := by
        rw [hk]
        rintro rfl
        cases hp
      simp [advance, hne]

end Moves

end Parser
end EcmaSyntax
