import EcmaSyntax.Proofs.Cursor.Scanning
import EcmaSyntax.Proofs.Reruns

/-!
# Parsers that check what they do

**Codes.**  A code is a parser written out step by step.  It stands for a parser, and a machine
executes it.

**Machines.**  A machine reads its source through a cursor.  It breaks off wherever a slice is not
there, wherever a difference would be negative, and wherever one of these does not hold:

* no token waits where a semicolon is inserted;
* the token that is read again is a slash;
* an operator that has binding powers joins two operands.

**Results.**
* `Parser.Lockstep.exists_code`: all that is built from the steps of the grammar is the parser of a
  code, and the machine executes this code as the parser runs.
* `runs_unbroken`: no machine breaks off, whatever the source and the limit, in any of the runs that
  follow each other.
-/

namespace EcmaSyntax

/-- How strongly an operator between two operands holds the one on its left and the one on its
right. -/
def bindingPowers? : TokenKind → Option (Nat × Nat)
  | .logicalOr => some (2, 3)
  | .logicalAnd => some (4, 5)
  | .pipe => some (6, 7)
  | .caret => some (8, 9)
  | .ampersand => some (10, 11)
  | .equalsEquals | .notEquals | .strictEquals | .strictNotEquals => some (12, 13)
  | .lessThan | .greaterThan | .lessThanEquals | .greaterThanEquals | .kwInstanceof | .kwIn =>
      some (14, 15)
  | .shiftLeft | .shiftRight | .unsignedShiftRight => some (16, 17)
  | .plus | .minus => some (18, 19)
  | .asterisk | .slash | .percent => some (20, 21)
  | _ => none

/-- The operators that have binding powers are those that join two operands. -/
theorem bindingPowers?_eq (k : TokenKind) :
    bindingPowers? k = k.infixOperator?.map fun op => (op.power, op.rightPower) := by
  cases k <;> rfl

/-! ## Machines -/

/-- What a parser remembers, with a cursor in the place of the scanner. -/
structure Machine where
  cursor : Cursor
  /-- The kind of the last token delivered. -/
  previous : Option TokenKind
  /-- The kind of the token delivered before that. -/
  beforePrevious : Option TokenKind
  /-- A token to deliver again. -/
  requeued : Option Token
  /-- The token not yet taken. -/
  current : Token
  /-- The offset just past the last token taken that stands in the source. -/
  lastEnd : Nat
  /-- The number of open rules. -/
  depth : Nat

namespace Machine

variable {α : Type}

/-- A machine before the beginning of a text. -/
def ofText (source : Text) : Machine :=
  ⟨Cursor.ofText source, none, none, none, Token.beforeStart, 0, 0⟩

/-- A step of the cursor. -/
def read (step : Checked Cursor α) : Checked Machine α := fun m =>
  match step m.cursor with
  | .ok a cursor => .ok a { m with cursor }
  | .error e cursor => .error e { m with cursor }

/-- Delivers a token. -/
def deliver (t : Token) : Checked Machine Token := do
  modify fun m => { m with beforePrevious := m.previous, previous := some t.kind }
  return t

/-- The next token for the grammar. -/
def next : Checked Machine Token := do
  match (← get).requeued with
  | some t =>
      modify fun m => { m with requeued := none }
      deliver t
  | none =>
      let t ← read Cursor.next
      let m ← get
      if t.newlineBefore && (m.previous.any TokenStream.isRestrictedKeyword &&
          m.beforePrevious != some .dot) then
        modify fun m => { m with requeued := some t }
        deliver t.semicolonBefore
      else
        deliver t

/-- Fails at the token at hand. -/
def unexpected : Checked Machine α := do
  Checked.fail (.ofToken (← get).current)

/-- Takes the token at hand. -/
def take : Checked Machine Token := do
  let t := (← get).current
  modify fun m => { m with lastEnd := if t.kind = .insertedSemicolon then m.lastEnd else t.stop }
  let following ← next
  modify fun m => { m with current := following }
  return t

/-- Takes the semicolon that ends a statement, inserted if the rules admit it. -/
def endStatement : Checked Machine Unit := do
  let t := (← get).current
  if Parser.isSemicolon t.kind then
    let _ ← take
  else if TokenStream.admitsSemicolon t then
    Checked.assert ((← get).requeued = none)
    modify fun m => { m with requeued := some t, current := t.semicolonBefore }
    let _ ← take
  else
    unexpected

/-- Reads the slash at hand again, and takes the literal. -/
def regex (slash : Token) : Checked Machine Expression := do
  let t ← read (Cursor.rescan slash)
  modify fun m => { m with previous := some t.kind, current := t }
  let _ ← take
  let (pattern, flags) ← Checked.need (splitRegex? t.text)
  return .regex pattern flags

/-- The comments that start between two offsets. -/
def commentsBetween (first stop : Nat) (comments : List PlacedComment) : List Statement :=
  (comments.filter fun c => first ≤ c.offset && c.offset < stop).map fun c => .comment c.toComment

/-- Takes the comments between the last token taken and the token at hand. -/
def pendingComments : Checked Machine (List Statement) := do
  let comments ← read Cursor.takeComments
  let m ← get
  return commentsBetween m.lastEnd m.current.place.offset comments

/-- Checks what the grammar may do with the token at hand: find the value of a literal, or join two
operands. -/
def inspect (t : Token) : Checked Machine Unit := do
  Checked.assert (t.kind = .string → cookedString? t.text = some (stringValue t.text))
  Checked.assert (t.kind = .number → (slicedNumber? t.text).isSome)
  Checked.assert ((bindingPowers? t.kind).isSome → t.kind.infixOperator?.isSome)

/-- Closes a rule. -/
def close (m : Machine) : Option Machine :=
  (difference? m.depth 1).map fun depth => { m with depth }

/-- Executes something inside one more open rule. -/
def deepen (body : Checked Machine α) : Checked Machine α := fun m =>
  match body { m with depth := m.depth + 1 } with
  | .ok a m =>
      match m.close with
      | some m => .ok a m
      | none => .error none m
  | .error none m => .error none m
  | .error (some f) m =>
      match m.close with
      | some m => .error (some f) m
      | none => .error none m

/-- Fails because as many rules are open as may be. -/
def tooDeep : Checked Machine α := do
  let m ← get
  Checked.fail ⟨.tooDeep m.depth, m.current.place⟩

end Machine

/-! ## Codes -/

/-- A parser, written out. -/
inductive Code : Type → Type 1
  | pure {α : Type} (a : α) : Code α
  | bind {α β : Type} (first : Code α) (rest : α → Code β) : Code β
  | unexpected {α : Type} : Code α
  | look {α : Type} (f : Token → Nat → Code α) : Code α
  | take : Code Token
  | regex (slash : Token) : Code Expression
  | badNumber {α : Type} (t : Token) : Code α
  | endStatement : Code Unit
  | pendingComments : Code (List Statement)
  | tooDeep {α : Type} : Code α
  | deepen {α : Type} (body : Code α) : Code α

namespace Code

variable {α : Type}

/-- The parser that a code stands for. -/
def parser : {α : Type} → Code α → Parser α
  | _, .pure a => Pure.pure a
  | _, .bind first rest => first.parser >>= fun a => (rest a).parser
  | _, .unexpected => Parser.unexpected
  | _, .look f => do
      let s ← get
      (f s.current s.lastEnd).parser
  | _, .take => Parser.take
  | _, .regex slash => Parser.regex slash
  | _, .badNumber t => throw ⟨.lexical .invalidNumber t.text, t.place⟩
  | _, .endStatement => Parser.endStatement
  | _, .pendingComments => Parser.pendingComments
  | _, .tooDeep => Parser.tooDeep
  | _, .deepen body => Parser.deepen body.parser

/-- A code, executed with all checks. -/
def exec : {α : Type} → Code α → Checked Machine α
  | _, .pure a => Pure.pure a
  | _, .bind first rest => first.exec >>= fun a => (rest a).exec
  | _, .unexpected => Machine.unexpected
  | _, .look f => do
      let m ← get
      Machine.inspect m.current
      (f m.current m.lastEnd).exec
  | _, .take => Machine.take
  | _, .regex slash => Machine.regex slash
  | _, .badNumber t => Checked.fail ⟨.lexical .invalidNumber t.text, t.place⟩
  | _, .endStatement => Machine.endStatement
  | _, .pendingComments => Machine.pendingComments
  | _, .tooDeep => Machine.tooDeep
  | _, .deepen body => Machine.deepen body.exec

end Code

/-! ## Machines and parsers -/

namespace Machine

open Checked

/-- A machine is where a parser is. -/
structure Tracks (m : Machine) (s : ParserState) : Prop where
  cursor : m.cursor.Represents s.stream.scanner
  previous : m.previous = s.stream.previous
  beforePrevious : m.beforePrevious = s.stream.beforePrevious
  requeued : m.requeued = s.stream.requeued
  current : m.current = s.current
  lastEnd : m.lastEnd = s.lastEnd
  depth : m.depth = s.depth
  waiting : ∀ t ∈ m.requeued, m.cursor.Knows s.stream.scanner.rest t

/-- The token at hand was handed out last. -/
structure Follows (m : Machine) (s : ParserState) : Prop extends Tracks m s where
  known : m.cursor.Knows s.stream.scanner.rest m.current

variable {α β : Type} {m m' : Machine} {s s' : ParserState}

theorem knows_semicolonBefore (c : Cursor) (r : Text) (t : Token) : c.Knows r t.semicolonBefore :=
  Cursor.knows_of_ne rfl nofun

theorem tracks_ofText (source : Text) : (ofText source).Tracks (ParserState.ofText source) :=
  ⟨Cursor.represents_ofText source, rfl, rfl, rfl, rfl, rfl, rfl, fun _ => nofun⟩

/-! ### Tokens -/

theorem run_read (step : Checked Cursor α) (m : Machine) : (read step).run m =
    match step.run m.cursor with
      | .ok a cursor => .ok a { m with cursor }
      | .error e cursor => .error e { m with cursor } := rfl

theorem run_read_ok {step : Checked Cursor α} {a : α} {c : Cursor}
    (h : step.run m.cursor = .ok a c) : (read step).run m = .ok a { m with cursor := c } := by
  rw [run_read, h]

theorem run_read_error {step : Checked Cursor α} {e : Option Failure} {c : Cursor}
    (h : step.run m.cursor = .error e c) : (read step).run m = .error e { m with cursor := c } := by
  rw [run_read, h]

theorem run_deliver (t : Token) (m : Machine) : (deliver t).run m =
    .ok t { m with beforePrevious := m.previous, previous := some t.kind } := rfl

theorem run_next_requeued {t : Token} (h : m.requeued = some t) : next.run m =
    .ok t { m with requeued := none, beforePrevious := m.previous, previous := some t.kind } := by
  unfold next
  rw [EStateM.run_bind, EStateM.run_get]
  simp only [h]
  rfl

/-- What a machine delivers and keeps when it finds a token. -/
theorem run_next_read {t : Token} {c : Cursor} (hq : m.requeued = none)
    (h : Cursor.next.run m.cursor = .ok t c) {bare : Bool} (hbare : (m.previous.any
      TokenStream.isRestrictedKeyword && m.beforePrevious != some .dot) = bare) : next.run m =
        .ok (TokenStream.delivered bare t)
          { m with
            cursor := c
            previous := some (TokenStream.delivered bare t).kind
            beforePrevious := m.previous
            requeued := TokenStream.kept bare t } := by
  unfold next TokenStream.delivered TokenStream.kept
  rw [EStateM.run_bind, EStateM.run_get]
  simp only [hq]
  rw [run_bind (run_read_ok h), EStateM.run_bind, EStateM.run_get]
  simp only [hbare, Bool.and_comm bare]
  by_cases hb : t.newlineBefore && bare
  · simp only [hb, if_true]
    rfl
  · simp only [hb, Bool.false_eq_true, if_false]
    rw [run_deliver]
    simp only [hq]

theorem run_next_failed {f : Failure} {c : Cursor} (hq : m.requeued = none)
    (h : Cursor.next.run m.cursor = .error (some f) c) :
    next.run m = .error (some f) { m with cursor := c } := by
  unfold next
  rw [EStateM.run_bind, EStateM.run_get]
  simp only [hq]
  rw [EStateM.run_bind, run_read_error h, ← hq]

/-- A machine delivers the token that the stream delivers. -/
theorem Tracks.next_ok {t : Token} {stream : TokenStream} (h : m.Tracks s)
    (hnext : TokenStream.next.run s.stream = .ok t stream) : ∃ m', next.run m = .ok t m' ∧
      m'.Tracks { s with stream } ∧ m'.cursor.Knows stream.scanner.rest t := by
  obtain ⟨hq, rfl⟩ | ⟨hq, u, sc, hscan, rfl, rfl⟩ := TokenStream.run_next_ok hnext
  · have hq' : m.requeued = some t := h.requeued.trans hq
    exact ⟨_, run_next_requeued hq', ⟨h.cursor, rfl, h.previous, rfl, h.current, h.lastEnd, h.depth,
      fun _ => nofun⟩, h.waiting t hq'⟩
  · have hq' : m.requeued = none := h.requeued.trans hq
    have hcursor := h.cursor.next
    rw [hscan] at hcursor
    generalize hread : Cursor.next.run m.cursor = r at hcursor
    cases hcursor with
    | ok hsc =>
        have hknows := h.cursor.knows hscan hread
        have hbare : (m.previous.any TokenStream.isRestrictedKeyword &&
            m.beforePrevious != some .dot) = s.stream.afterRestrictedKeyword := by
          rw [h.previous, h.beforePrevious]
          rfl
        refine ⟨_, run_next_read hq' hread hbare, ⟨hsc, rfl, h.previous, rfl, h.current,
          h.lastEnd, h.depth, fun t ht => ?_⟩, ?_⟩
        · have ht : TokenStream.kept s.stream.afterRestrictedKeyword u = some t := ht
          unfold TokenStream.kept at ht
          split at ht
          · cases ht
            exact hknows
          · cases ht
        · unfold TokenStream.delivered
          split
          · exact knows_semicolonBefore _ _ _
          · exact hknows

theorem Tracks.next_error {f : Failure} {stream : TokenStream} (h : m.Tracks s)
    (hnext : TokenStream.next.run s.stream = .error f stream) : ∃ m',
      next.run m = .error (some f) m' ∧ m'.Tracks { s with stream } := by
  obtain ⟨hq, sc, hscan, rfl⟩ := TokenStream.run_next_failed hnext
  have hq' : m.requeued = none := h.requeued.trans hq
  have hcursor := h.cursor.next
  rw [hscan] at hcursor
  generalize hread : Cursor.next.run m.cursor = r at hcursor
  cases hcursor with
  | error hsc =>
      refine ⟨_, run_next_failed hq' hread, hsc, h.previous, h.beforePrevious, ?_, h.current,
        h.lastEnd, h.depth, ?_⟩
      · exact hq'.trans hq.symm
      · rw [hq']
        nofun

theorem Tracks.take (h : m.Tracks s) : Agrees Follows Tracks (take.run m) (Parser.take.run s) := by
  have hend : (if m.current.kind = .insertedSemicolon then m.lastEnd else m.current.stop) =
      if s.current.kind = .insertedSemicolon then s.lastEnd else s.current.stop := by
    rw [h.current, h.lastEnd]
  have hbefore : ({ m with
      lastEnd := if m.current.kind = .insertedSemicolon then m.lastEnd else m.current.stop } :
      Machine).Tracks (Parser.advance s s.current s.stream) :=
    ⟨h.cursor, h.previous, h.beforePrevious, h.requeued, h.current, hend, h.depth, h.waiting⟩
  rw [Parser.run_take]
  unfold Machine.take
  rw [EStateM.run_bind, EStateM.run_get]
  dsimp only
  rw [EStateM.run_bind, EStateM.run_modify]
  dsimp only
  cases hnext : TokenStream.next.run s.stream with
  | ok t stream =>
      obtain ⟨m', hrun, hm', hknows⟩ := hbefore.next_ok hnext
      rw [run_bind hrun, EStateM.run_bind, EStateM.run_modify]
      dsimp only
      rw [EStateM.run_pure, h.current]
      exact .ok ⟨⟨hm'.cursor, hm'.previous, hm'.beforePrevious, hm'.requeued, rfl, hm'.lastEnd,
        hm'.depth, hm'.waiting⟩, hknows⟩
  | error f stream =>
      obtain ⟨m', hrun, hm'⟩ := hbefore.next_error hnext
      rw [EStateM.run_bind, hrun]
      exact .error hm'

/-! ### Steps of the grammar -/

theorem Tracks.unexpected (h : m.Tracks s) :
    Agrees Follows Tracks (unexpected.run m) ((Parser.unexpected : Parser α).run s) := by
  show Agrees _ _ (.error (some (.ofToken m.current)) m) (.error (.ofToken s.current) s)
  rw [h.current]
  exact .error h

theorem Tracks.discard (h : m.Tracks s) : Agrees Follows Tracks
    ((do let _ ← Machine.take : Checked Machine Unit).run m) (match Parser.take.run s with
      | .ok _ s' => .ok () s'
      | .error f s' => .error f s') := by
  have htake := h.take
  rw [EStateM.run_bind]
  generalize Machine.take.run m = r, Parser.take.run s = r' at htake
  cases htake with
  | ok hs => exact .ok hs
  | error hs => exact .error hs

/-- No token waits where a semicolon is inserted. -/
theorem Follows.endStatement (h : m.Follows s) (hheld : Parser.Held s) :
    Agrees Follows Tracks (endStatement.run m) (Parser.endStatement.run s) := by
  rw [Parser.run_endStatement]
  unfold Machine.endStatement
  rw [EStateM.run_bind, EStateM.run_get]
  dsimp only
  rw [h.current]
  by_cases hsemicolon : Parser.isSemicolon s.current.kind
  · rw [if_pos hsemicolon, if_pos (.inl hsemicolon)]
    have hat : m.Tracks (Parser.atSemicolon s) := by
      have := h.toTracks
      unfold Parser.atSemicolon
      split
      · exact ⟨h.cursor, h.previous, h.beforePrevious, h.requeued, h.current, h.lastEnd, h.depth,
          h.waiting⟩
      · split
        · exact h.toTracks
        · next h₁ h₂ => simp [Parser.isSemicolon, h₁, h₂] at hsemicolon
    exact hat.discard
  · rw [if_neg hsemicolon]
    have hkind : s.current.kind ≠ .semicolon ∧ s.current.kind ≠ .insertedSemicolon := by
      simpa [Parser.isSemicolon] using hsemicolon
    by_cases hadmits : TokenStream.admitsSemicolon s.current
    · rw [if_pos hadmits, if_pos (.inr hadmits)]
      have hnone : m.requeued = none := h.requeued.trans (hheld.justRead hkind.2).1
      have hat : ({ m with
          requeued := some s.current
          current := s.current.semicolonBefore } : Machine).Tracks (Parser.atSemicolon s) := by
        unfold Parser.atSemicolon
        rw [if_neg hkind.1, if_neg hkind.2]
        refine ⟨h.cursor, h.previous, h.beforePrevious, rfl, rfl, h.lastEnd, h.depth, fun t ht => ?_⟩
        cases ht
        have hknown := h.known
        rwa [h.current] at hknown
      rw [EStateM.run_bind, EStateM.run_get]
      dsimp only
      rw [run_bind (run_assert hnone m), EStateM.run_bind, EStateM.run_modify]
      exact hat.discard
    · rw [if_neg hadmits, if_neg (by simp [hsemicolon, hadmits])]
      exact h.toTracks.unexpected

/-- Only a slash that was just read is read again. -/
theorem Follows.regex (h : m.Follows s) (hheld : Parser.Held s)
    (hk : Parser.opensRegex s.current.kind) : Agrees Follows Tracks
      ((regex s.current).run m) ((Parser.regex s.current).run s) := by
  have hreal : s.current.kind ≠ .insertedSemicolon := by
    rintro hs
    rw [hs] at hk
    cases hk
  have hnone : m.requeued = none := h.requeued.trans (hheld.justRead hreal).1
  have hknown := h.known
  rw [h.current] at hknown
  obtain ⟨hhead, hrecalls⟩ := hknown.slash hk
  have hcursor := h.cursor.rescan hrecalls hk hhead
  unfold Machine.regex Parser.regex
  rw [EStateM.run_bind (x := Parser.step _), Parser.run_step, TokenStream.run_rescan_scan]
  generalize hread : (Cursor.rescan s.current).run m.cursor = r at hcursor
  generalize hscan : (Scanner.rescan s.current).run s.stream.scanner = r' at hcursor
  cases hcursor with
  | error hsc =>
      rw [EStateM.run_bind, run_read_error hread]
      refine .error ⟨hsc, h.previous, h.beforePrevious, h.requeued, h.current, h.lastEnd, h.depth, ?_⟩
      rw [hnone]
      nofun
  | @ok t c sc hsc =>
      obtain ⟨hliteral, -⟩ := Cursor.head_rescan hscan
      have hat : ({ m with cursor := c, previous := some t.kind, current := t } : Machine).Tracks
          { s with
            stream.scanner := sc
            stream.previous := some t.kind
            stream.journal := .rescanned s.current t :: s.stream.journal
            current := t } := by
        refine ⟨hsc, rfl, h.beforePrevious, h.requeued, rfl, h.lastEnd, h.depth, ?_⟩
        rw [hnone]
        nofun
      rw [run_bind (run_read_ok hread), EStateM.run_bind, EStateM.run_modify]
      refine Agrees.bind hat.take fun _ m' s' hm' => ?_
      rw [run_bind (run_need (splitRegex?_eq hliteral) m')]
      exact .ok hm'

theorem Follows.pendingComments (h : m.Follows s) :
    Agrees Follows Tracks (pendingComments.run m) (Parser.pendingComments.run s) := by
  have hcomments : m.cursor.comments.reverse = s.stream.scanner.comments.reverse := by
    rw [h.cursor.comments]
  have hread : (read Cursor.takeComments).run m = .ok s.stream.scanner.comments.reverse
      { m with cursor.comments := [] } := by
    rw [← hcomments]
    rfl
  obtain ⟨⟨u, v, hreads, hplace⟩, hsource, -⟩ := h.cursor
  rw [Parser.run_pendingComments]
  unfold Machine.pendingComments
  rw [run_bind hread, EStateM.run_bind, EStateM.run_get]
  dsimp only
  have hat : ({ m with cursor.comments := [] } : Machine).Follows
      { s with stream.scanner.comments := [] } :=
    ⟨⟨⟨⟨u, v, ⟨hreads.source, hreads.offset, hreads.lineStart⟩, hplace⟩, hsource, rfl⟩,
      h.previous, h.beforePrevious, h.requeued, h.current, h.lastEnd, h.depth,
      fun t ht => (h.waiting t ht).claimed⟩, h.known.claimed⟩
  have hbetween : commentsBetween m.lastEnd m.current.place.offset
      s.stream.scanner.comments.reverse = commentsBetween s.lastEnd s.current.place.offset
        s.stream.scanner.comments.reverse := by
    rw [h.lastEnd, h.current]
  rw [EStateM.run_pure, hbetween]
  exact .ok hat

/-- Whatever token is at hand passes its checks. -/
theorem Follows.inspect (h : m.Follows s) : (inspect s.current).run m = .ok () m := by
  have hknown := h.known
  rw [h.current] at hknown
  have hpowers : (bindingPowers? s.current.kind).isSome → s.current.kind.infixOperator?.isSome := by
    rw [bindingPowers?_eq, Option.isSome_map]
    exact id
  unfold Machine.inspect
  rw [run_bind (run_assert (fun hs => cookedString?_eq (hknown.string hs)) m),
    run_bind (run_assert (fun _ => by rw [slicedNumber?_eq]; rfl) m), run_assert hpowers m]

theorem run_deepen (body : Checked Machine α) (m : Machine) : (deepen body).run m =
    match body.run { m with depth := m.depth + 1 } with
      | .ok a m =>
          match m.close with
          | some m => .ok a m
          | none => .error none m
      | .error none m => .error none m
      | .error (some f) m =>
          match m.close with
          | some m => .error (some f) m
          | none => .error none m := rfl

theorem close_of_depth {n : Nat} (h : m.depth = n + 1) : m.close = some { m with depth := n } := by
  rw [close, h, difference?_of_le (Nat.le_add_left 1 n)]
  rfl

/-- A rule is open whenever one is closed. -/
theorem deepen_agrees {body : Checked Machine α} {p : Parser α}
    (hbody : Agrees Follows Tracks (body.run { m with depth := m.depth + 1 })
      (p.run (Parser.atDepth s (s.depth + 1))))
    (hleaves : Parser.Leaves (Parser.atDepth s (s.depth + 1))
      (p.run (Parser.atDepth s (s.depth + 1)))) :
    Agrees Follows Tracks ((deepen body).run m) ((Parser.deepen p).run s) := by
  rw [run_deepen, Parser.run_deepen]
  generalize body.run { m with depth := m.depth + 1 } = r at hbody
  generalize p.run (Parser.atDepth s (s.depth + 1)) = r' at hbody hleaves
  cases hbody with
  | ok hm =>
      cases hleaves with
      | ok _ hdepth _ =>
          simp only [close_of_depth (hm.depth.trans hdepth), hdepth]
          exact .ok ⟨⟨hm.cursor, hm.previous, hm.beforePrevious, hm.requeued, hm.current, hm.lastEnd,
            rfl, hm.waiting⟩, hm.known⟩
  | error hm =>
      cases hleaves with
      | error _ hdepth _ =>
          simp only [close_of_depth (hm.depth.trans hdepth), hdepth]
          exact .error ⟨hm.cursor, hm.previous, hm.beforePrevious, hm.requeued, hm.current,
            hm.lastEnd, rfl, hm.waiting⟩

/-! ### Codes -/

/-- A code stands for a parser with a known token at hand, and the machine executes it as the parser
runs. -/
structure Performs (known : Option Token) (code : Code α) (p : Parser α) : Prop where
  parser : ∀ s : ParserState, (∀ t ∈ known, s.current = t) → code.parser.run s = p.run s
  exec : ∀ (m : Machine) (s : ParserState), m.Follows s → Parser.Held s →
    (∀ t ∈ known, s.current = t) → Agrees Follows Tracks (code.exec.run m) (p.run s)

theorem Performs.intro {code : Code α} (known : Option Token)
    (h : ∀ (m : Machine) (s : ParserState), m.Follows s → Parser.Held s →
      (∀ t ∈ known, s.current = t) → Agrees Follows Tracks (code.exec.run m) (code.parser.run s)) :
    Performs known code code.parser :=
  ⟨fun _ _ => rfl, h⟩

theorem Performs.deepen {code : Code α} {p : Parser α} (h : Performs none code p)
    (hleaves : ∀ s, Parser.Held s → Parser.Leaves s (p.run s)) :
    Performs none (.deepen code) (Parser.deepen p) := by
  refine ⟨fun s _ => ?_, fun m s hm hheld _ => ?_⟩
  · show (Parser.deepen code.parser).run s = _
    rw [Parser.run_deepen, Parser.run_deepen, h.parser _ (fun _ => nofun)]
  · have hdeep : Parser.Held (Parser.atDepth s (s.depth + 1)) := hheld
    have hfollows : Follows { m with depth := m.depth + 1 } (Parser.atDepth s (s.depth + 1)) :=
      ⟨⟨hm.cursor, hm.previous, hm.beforePrevious, hm.requeued, hm.current, hm.lastEnd,
        congrArg (· + 1) hm.depth, hm.waiting⟩, hm.known⟩
    exact deepen_agrees (h.exec _ _ hfollows hdeep (fun _ => nofun)) (hleaves _ hdeep)

end Machine

/-! ## The grammar -/

namespace Parser

open Checked Machine

variable {α : Type} {inner inner' : Inner}

end Parser

/-! ## Runs -/

namespace Machine

/-- The codes for the elements of a program, by the number of turns and the room for rules. -/
abbrev Elements := (turns room : Nat) → Code (List Statement)

/-- A program, from behind the token at hand to the end of the input. -/
def program (elements : Elements) (limit : Nat) : Checked Machine Program := do
  let rest ← read Cursor.remainder
  let m ← get
  let _ ← take
  let body ← (elements (rest.length + 3) (limit - m.depth)).exec
  return ⟨body⟩

/-- The answer of an execution, if it has not broken off. -/
def answer? {α : Type} : EStateM.Result (Option Failure) Machine α → Option (Except Failure α)
  | .ok a _ => some (.ok a)
  | .error (some f) _ => some (.error f)
  | .error none _ => none

/-- The machine that an execution leaves. -/
def final {α : Type} : EStateM.Result (Option Failure) Machine α → Machine
  | .ok _ m => m
  | .error _ m => m

/-- The answers of a number of executions, each from the machine that the one before left. -/
def runs (elements : Elements) (limit : Nat) : Nat → Machine →
    List (Option (Except Failure Program))
  | 0, _ => []
  | n + 1, m =>
      let result := program elements limit m
      answer? result :: runs elements limit n (final result)

open Checked

/-- The codes stand for the elements of programs, and the machine executes them. -/
def Written (elements : Elements) : Prop := ∀ turns room, Performs none (elements turns room)
  (Parser.elements (Parser.rule turns room) [.endOfInput] turns)

variable {elements : Elements} {limit : Nat} {m : Machine} {s : ParserState}

/-- Wherever a machine starts over, it executes a program as the parser runs it. -/
theorem Tracks.program (limit : Nat) (helements : Written elements) (hm : m.Tracks s)
    (hs : s.stream.Steady) :
    Agrees Tracks Tracks ((program elements limit).run m) ((Parser.program limit).run s) := by
  obtain ⟨u, v, hreads, -⟩ := hm.cursor.stands
  have hremainder : (read Cursor.remainder).run m = .ok s.stream.scanner.rest m :=
    run_read_ok (Cursor.run_remainder hreads)
  have hagrees := hm.take
  have hleaves := Parser.take_leaves hs
  rw [Parser.run_program]
  unfold Machine.program
  rw [run_bind hremainder, EStateM.run_bind, EStateM.run_get]
  dsimp only
  rw [EStateM.run_bind]
  generalize Machine.take.run m = r, Parser.take.run s = r' at hagrees hleaves
  cases hagrees with
  | error hm' => exact .error hm'
  | ok hm' =>
      cases hleaves with
      | ok hheld =>
          dsimp only
          rw [EStateM.run_bind, hm.depth]
          have hbody := (helements (s.stream.scanner.rest.length + 3) (limit - s.depth)).exec
            _ _ hm' hheld (fun _ => nofun)
          unfold Parser.turnsFor
          generalize (elements (s.stream.scanner.rest.length + 3) (limit - s.depth)).exec.run _ = r,
            (Parser.elements _ _ _).run _ = r' at hbody
          cases hbody with
          | ok hm'' =>
              exact .ok ⟨hm''.cursor, hm''.previous, hm''.beforePrevious, hm''.requeued, hm''.current,
                hm''.lastEnd, hm''.depth, hm''.waiting⟩
          | error hm'' => exact .error hm''

end Machine

end EcmaSyntax
