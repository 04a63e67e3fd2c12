import EcmaSyntax.Lexeme

/-!
# The scanner

**State.**  A scanner holds its whole source, the part of it not yet read, the place
where that part starts, and the comments read since they were last taken.

**Algorithm.**  `Scanner.next` skips a gap of blanks, line terminators and comments and
returns the lexeme after it; line terminators and comments reach the grammar only
through the flag `newlineBefore`.  A failed step leaves the scanner after the part of
the offending text that it read.

**Regular expressions.**  A slash is always read as an operator first.
`Scanner.rescan` reads it once more, as the opening of a literal, and goes on after
the literal.
-/

namespace EcmaSyntax

/-- A source with the place up to which it has been read. -/
structure Scanner where
  source : Text
  /-- The part of the source not yet read. -/
  rest : Text
  /-- The place of `rest` in the source. -/
  place : Place
  /-- The comments not yet taken, the latest first. -/
  comments : List PlacedComment
  /-- Whether iteration has come to an end. -/
  finished : Bool
deriving DecidableEq, Repr

/-- Steps that may fail, and that leave a scanner in either case. -/
abbrev Scan := EStateM Failure Scanner

namespace Scanner

/-- A scanner at the beginning of a text. -/
def ofText (source : Text) : Scanner :=
  ⟨source, source, Place.start, [], false⟩

/-- Takes a text off the head of the rest, without counting lines in it. -/
def skipAlong (s : Scanner) (t : Text) : Scanner :=
  { s with rest := s.rest.drop t.length, place := s.place.along t }

/-- Takes a text off the head of the rest and counts the lines that end in it. -/
def skipPast (s : Scanner) (t : Text) : Scanner :=
  { s with rest := s.rest.drop t.length, place := s.place.past t }

/-- Keeps a comment that starts where the scanner is. -/
def record (s : Scanner) (kind : CommentKind) (text : Text) : Scanner :=
  { s with comments := ⟨⟨kind, text⟩, s.place.offset⟩ :: s.comments }

@[simp] theorem rest_skipAlong (s : Scanner) (t : Text) :
    (s.skipAlong t).rest = s.rest.drop t.length := rfl

@[simp] theorem rest_skipPast (s : Scanner) (t : Text) :
    (s.skipPast t).rest = s.rest.drop t.length := rfl

@[simp] theorem rest_record (s : Scanner) (kind : CommentKind) (t : Text) :
    (s.record kind t).rest = s.rest := rfl

/-- Skips blanks, line terminators and comments.  The result is true if a line ends among
them, or if `newline` holds already. -/
def skipGap (newline : Bool) (s : Scanner) : EStateM.Result Failure Scanner Bool :=
  match _h : s.rest with
  | [] => .ok newline s
  | '/' :: '/' :: t =>
      let body := lineCommentRest t
      skipGap newline ((s.record .line body).skipAlong ('/' :: '/' :: body))
  | '/' :: '*' :: t =>
      match blockCommentRest? t with
      | none => .error ⟨.lexical .unterminatedComment s.rest, s.place⟩ (s.skipAlong s.rest)
      | some body =>
          skipGap (newline || body.any isLineTerminator)
            ((s.record .block body).skipPast ('/' :: '*' :: body ++ ['*', '/']))
  | c :: t =>
      if isBlank c then skipGap newline (s.skipAlong [c])
      else if isLineTerminator c then
        skipGap true (s.skipPast (c :: t.takeWhile isLineTerminator))
      else .ok newline s
termination_by s.rest.length
decreasing_by
  all_goals simp only [rest_skipAlong, rest_skipPast, rest_record, _h, List.length_drop,
    List.length_cons, List.length_append]
  all_goals omega

/-- The kind of a punctuator after a gap: an increment that opens a line is marked. -/
def kindAfterGap (newline : Bool) : TokenKind → TokenKind
  | .increment => if newline then .restrictedIncrement else .increment
  | .decrement => if newline then .restrictedDecrement else .decrement
  | kind => kind

/-- Reads the token at the head of the rest. -/
def readToken (newline : Bool) (s : Scanner) : EStateM.Result Failure Scanner Token :=
  match lexeme? s.rest with
  | none => .ok ⟨.endOfInput, [], s.place, newline⟩ s
  | some (.token kind text) =>
      .ok ⟨kindAfterGap newline kind, text, s.place, newline⟩ (s.skipPast text)
  | some (.faulty fault read ahead) =>
      .error ⟨.lexical fault (read ++ ahead), s.place⟩ (s.skipAlong read)

/-- The next token; at the end of the input, the token for it. -/
def next : Scan Token := do
  let newline ← skipGap false
  readToken newline

/-- Reads a slash once more, as the opening of a regular expression literal. -/
def rescan (slash : Token) : Scan Token := fun s =>
  let after := s.source.dropBytes (slash.place.offset + 1)
  match regexLiteral? after with
  | some text =>
      let place := slash.place.along text
      .ok { slash with kind := .regex, text := text }
        { s with
          rest := after.drop (text.length - 1)
          place := { place with line := s.place.line } }
  | none =>
      let text := (s.source.dropBytes slash.place.offset).takeWhile (!isLineTerminator ·)
      .error ⟨.lexical .unterminatedRegex text, slash.place⟩ s

/-- Takes the comments read so far, in the order of the source. -/
def takeComments : Scan (List PlacedComment) :=
  modifyGet fun s => (s.comments.reverse, { s with comments := [] })

/-! ## Iteration -/

/-- One turn of iteration: nothing at the end of the input, and nothing more after a failure. -/
def iterate (s : Scanner) : Option (Except Failure Token) × Scanner :=
  if s.finished then (none, s)
  else
    match next s with
    | .ok t s =>
        if t.kind = .endOfInput then (none, { s with finished := true }) else (some (.ok t), s)
    | .error f s => (some (.error f), { s with finished := true })

/-- At most `turns` turns of iteration. -/
def iterateFor : Nat → Scanner → List Token × Option Failure × Scanner
  | 0, s => ([], none, s)
  | turns + 1, s =>
      match s.iterate with
      | (none, s) => ([], none, s)
      | (some (.error f), s) => ([], some f, s)
      | (some (.ok t), s) =>
          let (tokens, failure, s) := iterateFor turns s
          (t :: tokens, failure, s)

/-- Iterates to the end.  Each turn but the last reads a character, so there are at most one
more turns than characters. -/
def iterateAll (s : Scanner) : List Token × Option Failure × Scanner :=
  iterateFor (s.rest.length + 1) s

end Scanner

end EcmaSyntax
