import EcmaSyntax.Scanner

/-!
# The token stream and automatic semicolons

**State.**  A token stream reads from a scanner and remembers the kinds of the last
two tokens it delivered, and a token that has to be delivered again.

**Rules.**  A semicolon is inserted

* after `continue`, `break`, `return` or `throw` when a line ends after it, because
  these statements cannot go on in the next line;
* on request, when the grammar wants a semicolon and the token at hand is a closing brace, the
  end of the input, or the first one of its line.

In both cases the token at hand is put back and delivered after the semicolon.

**Journal.**  The stream keeps what happened in a run: each token scanned, each slash read
again, each semicolon inserted, each semicolon of the source that ended a statement.
-/

namespace EcmaSyntax

/-- What happens in a run. -/
inductive Event where
  /-- A token was scanned. -/
  | scanned (token : Token)
  /-- A slash was read again as the opening of a regular expression. -/
  | rescanned (slash literal : Token)
  /-- A semicolon was inserted after a keyword, before the first token of the next line. -/
  | insertedAfterKeyword (following : Token)
  /-- A semicolon was inserted on request, before the token at hand. -/
  | insertedBefore (offending : Token)
  /-- A statement ended with a semicolon of the source. -/
  | ended (semicolon : Token)
  /-- A whole program was parsed. -/
  | parsed (elements : Nat)
deriving DecidableEq, Repr

/-- A scanner with the memory that semicolon insertion needs. -/
structure TokenStream where
  scanner : Scanner
  /-- The kind of the last token delivered. -/
  previous : Option TokenKind
  /-- The kind of the token delivered before that. -/
  beforePrevious : Option TokenKind
  /-- A token to deliver again. -/
  requeued : Option Token
  /-- What happened so far, the latest first. -/
  journal : List Event
deriving DecidableEq, Repr

/-- Steps that may fail, and that leave a token stream in either case. -/
abbrev Stream := EStateM Failure TokenStream

namespace TokenStream

/-- A token stream at the beginning of a text. -/
def ofText (source : Text) : TokenStream :=
  ⟨Scanner.ofText source, none, none, none, []⟩

/-- A step of the scanner as a step of the stream. -/
def scan {α : Type} (step : Scan α) : Stream α := fun s =>
  match step s.scanner with
  | .ok a scanner => .ok a { s with scanner }
  | .error f scanner => .error f { s with scanner }

/-- Notes an event. -/
def note (event : Event) : Stream Unit :=
  modify fun s => { s with journal := event :: s.journal }

/-- Puts a token back, to be delivered next. -/
def requeue (t : Token) : Stream Unit :=
  modify fun s => { s with requeued := some t }

/-- Delivers a token. -/
def deliver (t : Token) : Stream Token := do
  modify fun s => { s with beforePrevious := s.previous, previous := some t.kind }
  return t

/-- Keywords whose statement cannot go on in the next line. -/
def isRestrictedKeyword : TokenKind → Bool
  | .kwContinue | .kwBreak | .kwReturn | .kwThrow => true
  | _ => false

/-- Whether the last token delivered is a restricted keyword and not a property name. -/
def afterRestrictedKeyword (s : TokenStream) : Bool :=
  s.previous.any isRestrictedKeyword && s.beforePrevious != some .dot

/-- The next token for the grammar. -/
def next : Stream Token := do
  match (← get).requeued with
  | some t =>
      modify fun s => { s with requeued := none }
      deliver t
  | none =>
      let t ← scan Scanner.next
      note (.scanned t)
      if t.newlineBefore && afterRestrictedKeyword (← get) then
        note (.insertedAfterKeyword t)
        requeue t
        deliver t.semicolonBefore
      else
        deliver t

/-- Whether a semicolon may be inserted before a token. -/
def admitsSemicolon (offending : Token) : Bool :=
  offending.newlineBefore || offending.kind = .closeBrace || offending.kind = .endOfInput

/-- Inserts a semicolon before the token at hand, if the rules admit one there. -/
def insertSemicolon (offending : Token) : Stream (Option Token) := do
  if admitsSemicolon offending then
    note (.insertedBefore offending)
    requeue offending
    return some offending.semicolonBefore
  else
    return none

/-- Reads the slash at hand again, as the opening of a regular expression literal. -/
def rescan (slash : Token) : Stream Token := do
  let t ← scan (Scanner.rescan slash)
  note (.rescanned slash t)
  modify fun s => { s with previous := some t.kind }
  return t

/-- Takes the comments read so far. -/
def takeComments : Stream (List PlacedComment) := scan Scanner.takeComments

end TokenStream

end EcmaSyntax
