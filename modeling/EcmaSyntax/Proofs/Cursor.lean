import EcmaSyntax.Proofs.Slices
import EcmaSyntax.Proofs.Transcript

/-!
# A scanner that knows its source by offsets

**Cursors.**  A cursor has a source, the offset up to which it has read and the offset where the
line at hand starts.  Whatever text it needs is a slice of the source.

**Checks.**  A checked step breaks off where it needs a slice that is not there, where a difference
would be negative, or where something does not hold that has to.  This is an error without a
failure.

**Results.**  `Cursor.run_bump` and the lemmas beside it say which slices there are where a part of
the source has been read.
-/

namespace EcmaSyntax

/-- Steps that may fail or break off, and that leave a state in either case. -/
abbrev Checked (σ : Type) := EStateM (Option Failure) σ

namespace Checked

variable {σ τ α β : Type} {Kept Lost Kept' : σ → τ → Prop}

/-- Breaks off. -/
def breakOff : Checked σ α := throw none

/-- Fails. -/
def fail (f : Failure) : Checked σ α := throw (some f)

/-- Breaks off unless there is a value. -/
def need (a : Option α) : Checked σ α :=
  match a with
  | some a => pure a
  | none => breakOff

/-- Breaks off unless a condition holds. -/
def assert (condition : Prop) [Decidable condition] : Checked σ Unit :=
  if condition then pure () else breakOff

/-- A checked step has not broken off, and it ends as another step does.  The states that they leave
belong together in one way if they succeed and in another if they fail. -/
inductive Agrees (Kept Lost : σ → τ → Prop) :
    EStateM.Result (Option Failure) σ α → EStateM.Result Failure τ α → Prop
  | ok {a : α} {s : σ} {t : τ} : Kept s t → Agrees Kept Lost (.ok a s) (.ok a t)
  | error {f : Failure} {s : σ} {t : τ} : Lost s t →
      Agrees Kept Lost (.error (some f) s) (.error f t)

theorem run_bind {x : Checked σ α} {f : α → Checked σ β} {s s' : σ} {a : α}
    (h : x.run s = .ok a s') : (x >>= f).run s = (f a).run s' := by
  rw [EStateM.run_bind, h]

theorem run_need {a : Option α} {b : α} (h : a = some b) (s : σ) :
    (need a : Checked σ α).run s = .ok b s := by
  rw [h]
  rfl

theorem run_assert {condition : Prop} [Decidable condition] (h : condition) (s : σ) :
    (assert condition : Checked σ Unit).run s = .ok () s := by
  rw [assert, if_pos h]
  rfl

theorem Agrees.bind {x : Checked σ α} {y : EStateM Failure τ α} {f : α → Checked σ β}
    {g : α → EStateM Failure τ β} {s : σ} {t : τ} (h : Agrees Kept Lost (x.run s) (y.run t))
    (hf : ∀ a s' t', Kept s' t' → Agrees Kept' Lost ((f a).run s') ((g a).run t')) :
    Agrees Kept' Lost ((x >>= f).run s) ((y >>= g).run t) := by
  rw [EStateM.run_bind, EStateM.run_bind]
  generalize x.run s = r, y.run t = r' at h
  cases h with
  | ok hs => exact hf _ _ _ hs
  | error hs => exact .error hs

end Checked

/-! ## Cursors -/

/-- A source, and how far it has been read. -/
structure Cursor where
  source : Text
  /-- The offset just past what was read. -/
  offset : Nat
  line : UInt32
  /-- The offset where the line at hand starts. -/
  lineStart : Nat
  /-- The comments not yet taken, the latest first. -/
  comments : List PlacedComment

namespace Cursor

/-- A cursor at the beginning of a text. -/
def ofText (source : Text) : Cursor := ⟨source, 0, 1, 0, []⟩

/-- A slice of the source. -/
def slice (start stop : Nat) : Checked Cursor Text := fun c =>
  match c.source.slice? start stop with
  | some t => .ok t c
  | none => .error none c

/-- What has not been read. -/
def remainder : Checked Cursor Text := fun c => slice c.offset c.source.size c

/-- Reads on by a number of bytes. -/
def bump (n : Nat) : Checked Cursor Unit := fun c =>
  match c.source.slice? c.offset (c.offset + n) with
  | some _ => .ok () { c with offset := c.offset + n }
  | none => .error none c

/-- The column of an offset in the line at hand. -/
def column (offset : Nat) : Checked Cursor UInt32 := do
  let before ← slice (← get).lineStart offset
  return .ofNat before.length + 1

/-- The place of an offset in the line at hand. -/
def placeOf (offset : Nat) : Checked Cursor Place := do
  let column ← column offset
  return ⟨⟨(← get).line, column⟩, offset⟩

/-- The text of a token from an offset on; the end of the input has none. -/
def tokenText (kind : TokenKind) (start : Nat) : Checked Cursor Text := fun c =>
  if kind = .endOfInput then .ok [] c else slice start c.offset c

/-- The token from an offset on. -/
def token (kind : TokenKind) (start : Nat) (newline : Bool) : Checked Cursor Token := do
  let text ← tokenText kind start
  return ⟨kind, text, ← placeOf start, newline⟩

/-- Fails at an offset. -/
def refuse {α : Type} (fault : LexicalFault) (start : Nat) (text : Text) : Checked Cursor α := do
  let place ← placeOf start
  Checked.fail ⟨.lexical fault text, place⟩

/-- The offsets just past the characters of a text that end a line. -/
def lineEnds (offset : Nat) : Text → List Nat
  | [] => []
  | c :: t =>
      if isLineTerminator c && !(c = '\r' && t.head? = some '\n') then
        (offset + c.utf8Size) :: lineEnds (offset + c.utf8Size) t
      else lineEnds (offset + c.utf8Size) t

/-- Counts the lines that end in what was read from an offset on, and tells whether one does. -/
def countLines (start : Nat) : Checked Cursor Bool := do
  let ends := lineEnds start (← slice start (← get).offset)
  modify fun c =>
    { c with line := c.line + .ofNat ends.length, lineStart := ends.getLastD c.lineStart }
  return !ends.isEmpty

/-- Keeps a comment between two offsets. -/
def record (kind : CommentKind) (start first stop : Nat) : Checked Cursor Unit := do
  let text ← slice first stop
  modify fun c => { c with comments := ⟨⟨kind, text⟩, start⟩ :: c.comments }

/-- Takes the comments kept so far, in the order of the source. -/
def takeComments : Checked Cursor (List PlacedComment) :=
  modifyGet fun c => (c.comments.reverse, { c with comments := [] })

/-! ### Pieces of the source -/

/-- What stands next in the source. -/
inductive SourcePiece where
  | blank
  | newlines
  | lineComment
  | blockComment
  | token (kind : TokenKind)
  | fault (fault : LexicalFault)
  | nothing

/-- The offset of what closes a block comment, in a text that starts at an offset. -/
def closeOffset? : Nat → Text → Option Nat
  | _, [] => none
  | offset, '*' :: '/' :: _ => some offset
  | offset, c :: t => closeOffset? (offset + c.utf8Size) t

/-- The offset where a string ends, in a text that starts at an offset, and whether it is closed. -/
def stringStop (quote : Char) : Nat → Text → Nat × Bool
  | offset, [] => (offset, false)
  | offset, '\\' :: '\r' :: '\n' :: t => stringStop quote (offset + 3) t
  | offset, '\\' :: c :: t => stringStop quote (offset + 1 + c.utf8Size) t
  | offset, c :: t =>
      if c = quote then (offset + 1, true)
      else if isLineTerminator c then (offset, false)
      else stringStop quote (offset + c.utf8Size) t

/-- Reads a block comment behind what opens it. -/
def blockComment : Checked Cursor SourcePiece := do
  let rest ← remainder
  match closeOffset? 0 rest with
  | some n =>
      bump (n + 2)
      return .blockComment
  | none =>
      bump rest.size
      return .fault .unterminatedComment

/-- Reads a string behind its opening quote. -/
def string (quote : Char) : Checked Cursor SourcePiece := do
  let rest ← remainder
  let (n, closed) := stringStop quote 0 rest
  bump n
  if !closed then return .fault .unterminatedString
  else
    let text ← Checked.need (rest.slice? 0 n)
    return if wellEscaped text then .token .string else .fault .invalidEscape

/-- Reads a token at the head of a text. -/
def lexeme (c : Char) (t : Text) : Checked Cursor SourcePiece :=
  if isIdentifierStart c then do
    bump (word (c :: t)).size
    return .token (wordKind (word (c :: t)))
  else if numeral (c :: t) ≠ [] then do
    bump (numeral (c :: t)).size
    return .token .number
  else if c = '"' || c = '\'' then do
    bump c.utf8Size
    string c
  else
    match punctuator? (c :: t) with
    | some kind => do
        bump kind.display.size
        return .token kind
    | none => do
        bump c.utf8Size
        return .fault .unexpectedCharacter

/-- The kind of the comment that is opened at the head of a text. -/
def commentAt? : Text → Option CommentKind
  | '/' :: '/' :: _ => some .line
  | '/' :: '*' :: _ => some .block
  | _ => none

/-- Reads what stands at the head of a text. -/
def pieceAt (rest : Text) : Checked Cursor SourcePiece :=
  match commentAt? rest, rest with
  | some .line, rest => do
      bump (2 + Text.size (lineCommentRest (rest.drop 2)))
      return .lineComment
  | some .block, _ => do
      bump 2
      blockComment
  | none, [] => return .nothing
  | none, c :: t =>
      if isBlank c then do
        bump c.utf8Size
        return .blank
      else if isLineTerminator c then do
        bump (Text.size (c :: t.takeWhile isLineTerminator))
        return .newlines
      else lexeme c t

/-- Reads what stands next. -/
def piece : Checked Cursor SourcePiece := do pieceAt (← remainder)

/-! ### Tokens -/

/-- The token of a kind that was read from an offset on.  No word may follow a numeral, and lines
may end in a string. -/
def finish (kind : TokenKind) (start : Nat) (newline : Bool) : Checked Cursor Token :=
  match kind with
  | .number => do
      let ahead := (word (← remainder)).size
      if 0 < ahead then
        refuse .invalidNumber start (← slice start ((← get).offset + ahead))
      else token .number start newline
  | .string => do
      let t ← token .string start newline
      let _ ← countLines start
      return t
  | kind => token (Scanner.kindAfterGap newline kind) start newline

/-- Goes on behind a piece that was read from an offset on: with the next piece, unless this one is
a token. -/
def proceed (again : (newline : Bool) → Checked Cursor Token) (start : Nat) (newline : Bool) :
    SourcePiece → Checked Cursor Token
  | .blank => again newline
  | .newlines => do
      let _ ← countLines start
      again true
  | .lineComment => do
      record .line start (start + 2) (← get).offset
      again newline
  | .blockComment => do
      let ended ← countLines start
      record .block start (start + 2) (← Checked.need (difference? (← get).offset 2))
      again (newline || ended)
  | .token kind => finish kind start newline
  | .fault fault => do refuse fault start (← slice start (← get).offset)
  | .nothing => do token .endOfInput (← get).source.size newline

/-- The next token, found in a number of turns. -/
def nextWithin : (turns : Nat) → (newline : Bool) → Checked Cursor Token
  | 0, _ => Checked.breakOff
  | turns + 1, newline => do
      let start := (← get).offset
      proceed (nextWithin turns) start newline (← piece)

/-- The next token.  Each turn reads a byte or more, or it is the last one. -/
def next : Checked Cursor Token := do
  nextWithin ((← get).source.size + 1) false

/-- Reads a slash once more, as the opening of a regular expression literal. -/
def rescan (slash : Token) : Checked Cursor Token := do
  let start := slash.place.offset
  Checked.assert (Parser.opensRegex slash.kind)
  let after ← slice (start + 1) (← get).source.size
  match regexRest? false after with
  | some (c :: body) =>
      let close := start + 1 + Text.size (c :: body)
      let flags := word ((← slice close (← get).source.size).drop 1)
      let stop := close + 1 + Text.size flags
      let _ ← slice stop (← get).source.size
      modify fun s => { s with offset := stop }
      return { slash with kind := .regex, text := ← slice start stop }
  | _ =>
      let rest ← slice start (← get).source.size
      let line ← Checked.need (rest.slice? 0 (Text.size (rest.takeWhile (!isLineTerminator ·))))
      Checked.fail ⟨.lexical .unterminatedRegex line, slash.place⟩

/-! ## What was read -/

/-- A cursor has read two texts, of which the second one starts the line at hand, and a third text
comes next. -/
structure Reads (c : Cursor) (u v r : Text) : Prop where
  source : c.source = u ++ (v ++ r)
  offset : c.offset = Text.size (u ++ v)
  lineStart : c.lineStart = u.size

/-- The cursor behind a text. -/
def past (c : Cursor) (w : Text) : Cursor := { c with offset := c.offset + w.size }

section Steps

variable {c : Cursor} {u v w r : Text} {n start stop : Nat}

theorem run_slice {part : Text} (h : c.source.slice? start stop = some part) :
    (slice start stop).run c = .ok part c := by
  unfold EStateM.run slice
  rw [h]

theorem run_slice_split (before after : Text) {part : Text}
    (h : c.source = before ++ (part ++ after))
    (hstart : start = before.size) (hstop : stop = start + part.size) :
    (slice start stop).run c = .ok part c := by
  refine run_slice (Text.slice?_eq_some_iff.mpr ⟨before, after, h, hstart, hstop⟩)

theorem Reads.past (h : c.Reads u v (w ++ r)) : (c.past w).Reads u (v ++ w) r := by
  refine ⟨?_, ?_, h.lineStart⟩
  · show c.source = _
    rw [h.source, List.append_assoc]
  · show c.offset + _ = _
    rw [h.offset]
    simp [Nat.add_assoc]

theorem Reads.size_source (h : c.Reads u v r) : c.source.size = c.offset + r.size := by
  rw [h.source, h.offset]
  simp [Nat.add_assoc]

theorem run_remainder (h : c.Reads u v r) : remainder.run c = .ok r c := by
  refine run_slice (Text.slice?_eq_some_iff.mpr ⟨u ++ v, [], ?_, h.offset, h.size_source⟩)
  rw [h.source]
  simp

theorem run_bump (h : c.Reads u v (w ++ r)) (hn : n = w.size) :
    (bump n).run c = .ok () (c.past w) := by
  have hslice : c.source.slice? c.offset (c.offset + n) = some w := by
    refine Text.slice?_eq_some_iff.mpr ⟨u ++ v, r, ?_, h.offset, by rw [hn]⟩
    rw [h.source, List.append_assoc]
  unfold EStateM.run bump
  rw [hslice, hn]
  rfl

/-- The text from an offset on is a slice. -/
theorem run_slice_from (h : c.Reads u (v ++ w) r) (hstart : start = Text.size (u ++ v)) :
    (slice start c.offset).run c = .ok w c := by
  refine run_slice (Text.slice?_eq_some_iff.mpr ⟨u ++ v, r, ?_, hstart, ?_⟩)
  · rw [h.source]
    simp
  · rw [h.offset, hstart]
    simp [Nat.add_assoc]

/-- The text of the line at hand before an offset is a slice. -/
theorem run_placeOf (h : c.Reads u (v ++ w) r) (hstart : start = Text.size (u ++ v)) :
    (placeOf start).run c = .ok ⟨⟨c.line, .ofNat v.length + 1⟩, start⟩ c := by
  have hslice : (slice c.lineStart start).run c = .ok v c := by
    refine run_slice (Text.slice?_eq_some_iff.mpr ⟨u, w ++ r, ?_, h.lineStart, ?_⟩)
    · rw [h.source]
      simp
    · rw [hstart, h.lineStart, Text.size_append]
  have hcolumn : (column start).run c = .ok (.ofNat v.length + 1) c := by
    unfold column
    rw [EStateM.run_bind, EStateM.run_get]
    dsimp only
    rw [Checked.run_bind hslice]
    rfl
  unfold placeOf
  rw [Checked.run_bind hcolumn]
  rfl

theorem run_token (kind : TokenKind) (newline : Bool) (h : c.Reads u (v ++ w) r)
    (hstart : start = Text.size (u ++ v)) (hend : kind = .endOfInput → w = []) :
    (token kind start newline).run c =
      .ok ⟨kind, w, ⟨⟨c.line, .ofNat v.length + 1⟩, start⟩, newline⟩ c := by
  have htext : (tokenText kind start).run c = .ok w c := by
    unfold EStateM.run tokenText
    split
    · next hk => rw [hend hk]
    · exact run_slice_from h hstart
  unfold token
  rw [Checked.run_bind htext, Checked.run_bind (run_placeOf h hstart)]
  rfl

theorem run_refuse {α : Type} (fault : LexicalFault) (text : Text) (h : c.Reads u (v ++ w) r)
    (hstart : start = Text.size (u ++ v)) : (refuse fault start text : Checked Cursor α).run c =
      .error (some ⟨.lexical fault text, ⟨⟨c.line, .ofNat v.length + 1⟩, start⟩⟩) c := by
  unfold refuse
  rw [Checked.run_bind (run_placeOf h hstart)]
  rfl

/-! ### Lines -/

theorem isEmpty_lineEnds (offset : Nat) (w : Text) :
    (lineEnds offset w).isEmpty = !w.any isLineTerminator := by
  induction w generalizing offset with
  | nil => rfl
  | cons c w ih =>
      unfold lineEnds
      split
      · next h =>
          rw [List.any_cons, (Bool.and_eq_true_iff.mp h).1]
          rfl
      · next h =>
          rw [ih, List.any_cons]
          cases hc : isLineTerminator c with
          | false => rfl
          | true =>
              -- a carriage return leaves the end of the line to the line feed behind it
              have hreturn : c = '\r' ∧ w.head? = some '\n' := by simpa [hc] using h
              obtain ⟨w, rfl⟩ := List.head?_eq_some_iff.mp hreturn.2
              rfl

/-- The last line that ends in a text starts the line at hand, and places count the same lines. -/
theorem past_lineEnds (u v w : Text) (line : UInt32) : ∃ u' v', u ++ (v ++ w) = u' ++ v' ∧
    (lineEnds (Text.size (u ++ v)) w).getLastD u.size = u'.size ∧
    Place.past ⟨⟨line, .ofNat v.length + 1⟩, Text.size (u ++ v)⟩ w =
      ⟨⟨line + .ofNat (lineEnds (Text.size (u ++ v)) w).length, .ofNat v'.length + 1⟩,
        Text.size (u ++ (v ++ w))⟩ := by
  induction w generalizing u v line with
  | nil =>
      refine ⟨u, v, by rw [List.append_nil], rfl, ?_⟩
      simp [Place.past, lineEnds]
  | cons c w ih =>
      have hsize : Text.size (u ++ v) + c.utf8Size = Text.size (u ++ (v ++ [c])) := by
        simp [Nat.add_assoc]
      have hwhole : u ++ (v ++ [c]) ++ w = u ++ (v ++ c :: w) := by simp
      unfold lineEnds Place.past Place.step
      by_cases hc : isLineTerminator c && !(c = '\r' && w.head? = some '\n')
      · obtain ⟨u', v', hsplit, hlast, hpast⟩ := ih (u ++ (v ++ [c])) [] (line + 1)
        rw [List.append_nil, List.nil_append, hwhole] at *
        refine ⟨u', v', hsplit, ?_, ?_⟩
        · rw [if_pos hc, hsize, List.getLastD_cons]
          exact hlast
        · rw [if_pos hc, if_pos hc, hsize]
          simpa [Nat.add_assoc, UInt32.add_assoc, UInt32.add_comm 1] using hpast
      · obtain ⟨u', v', hsplit, hlast, hpast⟩ := ih u (v ++ [c]) line
        have hwhole' : v ++ [c] ++ w = v ++ c :: w := by simp
        rw [hwhole'] at hsplit hpast
        refine ⟨u', v', hsplit, ?_, ?_⟩
        · rw [if_neg hc, hsize]
          exact hlast
        · rw [if_neg hc, if_neg hc, hsize]
          simpa using hpast

/-- The lines of what was read are counted. -/
theorem run_countLines (h : c.Reads u (v ++ w) r) (hstart : start = Text.size (u ++ v)) :
    ∃ u' v' c', (countLines start).run c = .ok (w.any isLineTerminator) c' ∧ c'.Reads u' v' r ∧
      Place.past ⟨⟨c.line, .ofNat v.length + 1⟩, start⟩ w =
        ⟨⟨c'.line, .ofNat v'.length + 1⟩, c'.offset⟩ ∧
      c'.source = c.source ∧ c'.offset = c.offset ∧ c'.comments = c.comments := by
  obtain ⟨u', v', hsplit, hlast, hpast⟩ := past_lineEnds u v w c.line
  rw [← hstart] at hlast hpast
  refine ⟨u', v', { c with
    line := c.line + .ofNat (lineEnds start w).length
    lineStart := (lineEnds start w).getLastD c.lineStart }, ?_, ⟨?_, ?_, ?_⟩, ?_, rfl, rfl, rfl⟩
  · unfold countLines
    rw [EStateM.run_bind, EStateM.run_get]
    dsimp only
    rw [Checked.run_bind (run_slice_from h hstart), EStateM.run_bind, EStateM.run_modify]
    dsimp only
    rw [EStateM.run_pure, isEmpty_lineEnds, Bool.not_not]
  · show c.source = _
    rw [h.source, List.append_assoc, ← List.append_assoc u', ← hsplit]
    simp
  · show c.offset = _
    rw [h.offset, hsplit]
  · show (lineEnds start w).getLastD c.lineStart = _
    rw [h.lineStart, hlast]
  · rw [hpast]
    show Place.mk _ _ = Place.mk _ c.offset
    rw [h.offset]

end Steps

end Cursor

end EcmaSyntax
