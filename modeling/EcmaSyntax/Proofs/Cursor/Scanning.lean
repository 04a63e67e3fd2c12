import EcmaSyntax.Proofs.Cursor
import EcmaSyntax.Proofs.Standing

/-!
# Cursors and scanners

**Cursors.**  A cursor represents a scanner if both have read the same and count the same lines.
The column of the scanner then counts the characters behind the offset where the line at hand
starts.

**Slashes.**  A slash can be read again as long as it stands in the line at hand, right before what
has not been read.

**Results.**
* `Cursor.Represents.next`, `Cursor.Represents.rescan`: a cursor that represents a scanner does not
  break off, yields what the scanner yields and represents it again.
* `Cursor.Represents.knows`: a slash that was just read can be read again, and a string that was
  just read stands between its quotes.
-/

namespace EcmaSyntax
namespace Cursor

/-! ## Cursors and scanners -/

/-- A cursor represents a scanner if both have read the same, and if the column of the scanner
counts the characters behind the start of the line at hand. -/
structure Represents (c : Cursor) (s : Scanner) : Prop where
  stands : ∃ u v, c.Reads u v s.rest ∧ s.place = ⟨⟨c.line, .ofNat v.length + 1⟩, c.offset⟩
  source : c.source = s.source
  comments : c.comments = s.comments

theorem represents_ofText (source : Text) : (ofText source).Represents (Scanner.ofText source) :=
  ⟨⟨[], [], ⟨rfl, rfl, rfl⟩, by simp [Scanner.ofText, Place.start, ofText]⟩, rfl, rfl⟩

open Checked

section Scanning

variable {c : Cursor} {s : Scanner} {u v w r : Text} {start : Nat} {newline : Bool}

/-- Columns go on with the characters of a text. -/
theorem column_append (v w : Text) :
    UInt32.ofNat (v ++ w).length + 1 = .ofNat v.length + 1 + .ofNat w.length := by
  rw [List.length_append, UInt32.ofNat_add]
  ac_rfl

/-- No line was counted. -/
theorem Represents.along (h : c.Represents s) (hs : s.rest = w ++ r) :
    (c.past w).Represents (s.skipAlong w) := by
  obtain ⟨⟨u, v, hreads, hplace⟩, hsource, hcomments⟩ := h
  rw [hs] at hreads
  refine ⟨⟨u, v ++ w, ?_, ?_⟩, hsource, hcomments⟩
  · rw [Scanner.rest_skipAlong, hs, List.drop_left]
    exact hreads.past
  · show s.place.along w = _
    rw [hplace, column_append]
    rfl

theorem skipPast_of_oneLine (hw : OneLine w) : s.skipPast w = s.skipAlong w := by
  unfold Scanner.skipPast Scanner.skipAlong
  rw [Place.along_eq_past _ hw]

/-- A token starts where the scanner stands. -/
theorem Represents.run_token_past (h : c.Represents s) (hs : s.rest = w ++ r) {kind : TokenKind}
    (hk : kind ≠ .endOfInput) : (token kind c.offset newline).run (c.past w) =
      .ok ⟨kind, w, s.place, newline⟩ (c.past w) := by
  obtain ⟨⟨u, v, hreads, hplace⟩, -, -⟩ := h
  rw [hs] at hreads
  rw [run_token kind newline hreads.past hreads.offset fun hend => absurd hend hk, hplace]
  rfl

/-- A token within a line ends where the scanner stands. -/
theorem Represents.token (h : c.Represents s) (hs : s.rest = w ++ r) (hw : OneLine w)
    {kind : TokenKind} (hk : kind ≠ .endOfInput) : Agrees Represents Represents
      ((token kind c.offset newline).run (c.past w))
      (.ok ⟨kind, w, s.place, newline⟩ (s.skipPast w)) := by
  rw [h.run_token_past hs hk, skipPast_of_oneLine hw]
  exact .ok (h.along hs)

/-- The text at fault starts where the scanner stood. -/
theorem Represents.refuse (h : c.Represents s) (hs : s.rest = w ++ r) (fault : LexicalFault)
    (text : Text) : Agrees Represents Represents
      ((refuse fault c.offset text : Checked Cursor Token).run (c.past w))
      (.error ⟨.lexical fault text, s.place⟩ (s.skipAlong w)) := by
  have hbehind := h.along hs
  obtain ⟨⟨u, v, hreads, hplace⟩, -, -⟩ := h
  rw [hs] at hreads
  have hrun := run_refuse (α := Token) fault text hreads.past hreads.offset
  rw [hrun, hplace]
  exact .error hbehind

/-! ### Gaps -/

theorem closeOffset?_eq (offset : Nat) (t : Text) :
    closeOffset? offset t = (blockCommentRest? t).map fun body => offset + body.size := by
  fun_induction blockCommentRest? t generalizing offset with
  | case1 => rfl
  | case2 => rfl
  | case3 c t hne ih =>
      rw [closeOffset?.eq_3 _ _ _ hne, ih, Option.map_map]
      congr
      funext body
      simp [Nat.add_assoc]

/-- The piece that trivia are. -/
def SourcePiece.ofTrivia : Trivia → SourcePiece
  | .blank _ => .blank
  | .newlines _ _ => .newlines
  | .line _ => .lineComment
  | .block _ => .blockComment

theorem run_piece (h : c.Reads u v r) : piece.run c = (pieceAt r).run c := by
  unfold piece
  rw [run_bind (run_remainder h)]

theorem commentAt?_of_ne {d : Char} (hd : d ≠ '/') (t : Text) : commentAt? (d :: t) = none := by
  unfold commentAt?
  split
  · next heq => exact absurd (List.cons.inj heq).1 hd
  · next heq => exact absurd (List.cons.inj heq).1 hd
  · rfl

theorem run_piece_trivia {p : Trivia} (h : c.Reads u v (p.text ++ r)) (hp : p.Fits r) :
    piece.run c = .ok (SourcePiece.ofTrivia p) (c.past p.text) := by
  rw [run_piece h]
  cases p with
  | blank d =>
      have hblank : isBlank d := hp
      have hne : d ≠ '/' := by
        rintro rfl
        exact absurd hblank (by decide)
      have hbump : (bump d.utf8Size).run c = .ok () (c.past [d]) := run_bump h rfl
      show (pieceAt (d :: r)).run c = _
      unfold pieceAt
      rw [commentAt?_of_ne hne]
      dsimp only
      rw [if_pos hblank, run_bind hbump]
      rfl
  | newlines d more =>
      obtain ⟨hd, hmore, hr⟩ := hp
      have hne : d ≠ '/' := by
        rintro rfl
        exact absurd hd (by decide)
      have hbump : (bump (Text.size (d :: more))).run c = .ok () (c.past (d :: more)) :=
        run_bump h rfl
      have hblank : ¬isBlank d := by
        rw [isBlank_of_isLineTerminator hd]
        exact Bool.false_ne_true
      show (pieceAt (d :: (more ++ r))).run c = _
      unfold pieceAt
      rw [commentAt?_of_ne hne]
      dsimp only
      rw [if_neg hblank, if_pos hd, takeWhile_append_eq hmore hr, run_bind hbump]
      rfl
  | line body =>
      have hbody : lineCommentRest (('/' :: '/' :: (body ++ r)).drop 2) = body :=
        takeWhile_append_eq (by simpa using hp.1) (by simpa using hp.2)
      have hbump : (bump (2 + Text.size body)).run c = .ok () (c.past ('/' :: '/' :: body)) :=
        run_bump h (by simp [← Nat.add_assoc]; rfl)
      have hcomment : commentAt? ('/' :: '/' :: (body ++ r)) = some .line := rfl
      show (pieceAt ('/' :: '/' :: (body ++ r))).run c = _
      unfold pieceAt
      rw [hcomment]
      dsimp only
      rw [hbody, run_bind hbump]
      rfl
  | block body =>
      have htext : (Trivia.block body).text ++ r = ['/', '*'] ++ (body ++ ['*', '/'] ++ r) := by
        simp [Trivia.text]
      have hclose : closeOffset? 0 (body ++ ['*', '/'] ++ r) = some (Text.size body) := by
        rw [closeOffset?_eq, blockCommentRest?_append hp r]
        exact congrArg some (Nat.zero_add _)
      rw [htext] at h ⊢
      have hopen : (bump 2).run c = .ok () (c.past ['/', '*']) := run_bump h rfl
      have hbump : (bump (Text.size body + 2)).run (c.past ['/', '*']) =
          .ok () ((c.past ['/', '*']).past (body ++ ['*', '/'])) :=
        run_bump h.past (by rw [Text.size_append]; rfl)
      have hcomment : commentAt? ('/' :: '*' :: (body ++ ['*', '/'] ++ r)) = some .block := rfl
      show (pieceAt ('/' :: '*' :: (body ++ ['*', '/'] ++ r))).run c = _
      unfold pieceAt
      rw [hcomment]
      dsimp only
      rw [run_bind hopen, blockComment, run_bind (run_remainder h.past), hclose]
      dsimp only
      rw [run_bind hbump, EStateM.run_pure]
      congr 1
      simp [past, Trivia.text, Nat.add_assoc]

theorem run_record {kind : CommentKind} {first stop : Nat} {text : Text}
    (h : c.source.slice? first stop = some text) : (record kind start first stop).run c =
      .ok () { c with comments := ⟨⟨kind, text⟩, start⟩ :: c.comments } := by
  unfold record
  rw [run_bind (run_slice h)]
  rfl

theorem oneLine_trivia {p : Trivia} (hp : p.Fits r) (hends : p.endsLine = false) :
    OneLine p.text := by
  intro d hd
  rw [hp.endsLine_eq, List.any_eq_false] at hends
  simpa using hends d hd

/-- The cursor goes on behind one piece of a gap. -/
theorem Represents.trivia (newline : Bool) {p : Trivia} (h : c.Represents s)
    (hs : s.rest = p.text ++ r) (hp : p.Fits r) (again : Bool → Checked Cursor Token) :
    ∃ c', c'.Represents (s.behind [p] r) ∧ c'.source = c.source ∧
      (proceed again c.offset newline (SourcePiece.ofTrivia p)).run (c.past p.text) =
        (again (newline || p.endsLine)).run c' := by
  have hbehind := h.along hs
  have hany := hp.endsLine_eq
  obtain ⟨⟨u, v, hreads, hplace⟩, hsource, hcomments⟩ := h
  rw [hs] at hreads
  have hpast := hreads.past
  have htext : Gap.text [p] = p.text := List.append_nil _
  cases p with
  | blank d =>
      refine ⟨c.past [d], ⟨⟨u, v ++ [d], hpast, ?_⟩, hsource, hcomments⟩, rfl, ?_⟩
      · show s.place.past (Gap.text [.blank d]) = _
        rw [htext, ← Place.along_eq_past _ (oneLine_trivia hp rfl), hplace, column_append]
        rfl
      · rw [Trivia.endsLine, Bool.or_false]
        rfl
  | newlines d more =>
      obtain ⟨u', v', c', hcount, hreads', hplace', hsource', hoffset', hcomments'⟩ :=
        run_countLines hpast hreads.offset
      refine ⟨c', ⟨⟨u', v', hreads', ?_⟩, hsource'.trans hsource, hcomments'.trans hcomments⟩,
        hsource', ?_⟩
      · show s.place.past (Gap.text [.newlines d more]) = _
        rw [htext, hplace]
        exact hplace'
      · rw [Trivia.endsLine, Bool.or_true]
        show (countLines c.offset >>= fun _ => again true).run _ = _
        rw [run_bind hcount]
  | line body =>
      have hslice : c.source.slice? (c.offset + 2) (c.past (Trivia.line body).text).offset =
          some body := by
        refine Text.slice?_eq_some_iff.mpr ⟨u ++ (v ++ ['/', '/']), r, ?_, ?_, ?_⟩
        · rw [hreads.source]
          simp [Trivia.text]
        · rw [hreads.offset]
          simp [Nat.add_assoc]
          rfl
        · simp [past, Trivia.text, ← Nat.add_assoc]
          rfl
      refine ⟨{ c.past (Trivia.line body).text with
        comments := ⟨⟨.line, body⟩, c.offset⟩ :: c.comments },
        ⟨⟨u, v ++ (Trivia.line body).text, ⟨hpast.source, hpast.offset, hpast.lineStart⟩, ?_⟩,
          hsource, ?_⟩, rfl, ?_⟩
      · show s.place.past (Gap.text [.line body]) = _
        rw [htext, ← Place.along_eq_past _ (oneLine_trivia hp rfl), hplace, column_append]
        rfl
      · show _ = (Gap.placed s.place.offset [.line body]).reverse ++ s.comments
        rw [hcomments, hplace]
        rfl
      · rw [Trivia.endsLine, Bool.or_false]
        unfold proceed SourcePiece.ofTrivia
        dsimp only
        rw [EStateM.run_bind, EStateM.run_get]
        dsimp only
        rw [run_bind (run_record (c := c.past (Trivia.line body).text) hslice)]
        rfl
  | block body =>
      obtain ⟨u', v', c', hcount, hreads', hplace', hsource', hoffset', hcomments'⟩ :=
        run_countLines hpast hreads.offset
      rw [← hany] at hcount
      have hdiff : difference? c'.offset 2 = some (c.offset + 2 + Text.size body) := by
        have hsize : c'.offset = c.offset + 2 + Text.size body + 2 := by
          rw [hoffset']
          simp [past, Trivia.text, ← Nat.add_assoc]
          rfl
        rw [difference?_of_le (by omega), hsize, Nat.add_sub_cancel]
      have hslice : c'.source.slice? (c.offset + 2) (c.offset + 2 + Text.size body) =
          some body := by
        refine Text.slice?_eq_some_iff.mpr ⟨u ++ (v ++ ['/', '*']), '*' :: '/' :: r, ?_, ?_, rfl⟩
        · rw [hsource']
          show c.source = _
          rw [hreads.source]
          simp [Trivia.text]
        · rw [hreads.offset]
          simp [Nat.add_assoc]
          rfl
      refine ⟨{ c' with comments := ⟨⟨.block, body⟩, c.offset⟩ :: c'.comments },
        ⟨⟨u', v', ⟨hreads'.source, hreads'.offset, hreads'.lineStart⟩, ?_⟩,
          hsource'.trans hsource, ?_⟩, hsource', ?_⟩
      · show s.place.past (Gap.text [.block body]) = _
        rw [htext, hplace]
        exact hplace'
      · show _ = (Gap.placed s.place.offset [.block body]).reverse ++ s.comments
        rw [hcomments', ← hcomments, hplace]
        rfl
      · unfold proceed SourcePiece.ofTrivia
        dsimp only
        rw [run_bind hcount, EStateM.run_bind, EStateM.run_get]
        dsimp only
        rw [run_bind (run_need hdiff c'), run_bind (run_record hslice)]

theorem run_nextWithin {c' : Cursor} {p : SourcePiece} (turns : Nat) (h : piece.run c = .ok p c') :
    (nextWithin (turns + 1) newline).run c =
      (proceed (nextWithin turns) c.offset newline p).run c' := by
  rw [nextWithin, EStateM.run_bind, EStateM.run_get]
  dsimp only
  rw [run_bind h]

/-- The cursor goes on behind a gap, after a turn for each piece of it. -/
theorem Represents.gap (newline : Bool) {g : Gap} (h : c.Represents s)
    (hs : s.rest = g.text ++ r) (hg : g.Fits r) (turns : Nat) :
    ∃ c', c'.Represents (s.behind g r) ∧ c'.source = c.source ∧
      (nextWithin (turns + g.length) newline).run c =
        (nextWithin turns (newline || g.endsLine)).run c' := by
  induction g generalizing c s newline with
  | nil =>
      obtain rfl : s.rest = r := hs
      exact ⟨c, h, rfl, by rw [Gap.endsLine_nil, Bool.or_false]; rfl⟩
  | cons p g ih =>
      rw [Gap.text_cons, List.append_assoc] at hs
      obtain ⟨c₁, h₁, hsource₁, hrun₁⟩ :=
        h.trivia newline hs hg.1 (nextWithin (turns + g.length))
      obtain ⟨c₂, h₂, hsource₂, hrun₂⟩ := ih (newline || p.endsLine) h₁ rfl hg.2
      rw [Scanner.behind_cons s hg.1] at h₂
      refine ⟨c₂, h₂, hsource₂.trans hsource₁, ?_⟩
      obtain ⟨u, v, hreads, -⟩ := h.stands
      rw [hs] at hreads
      rw [List.length_cons, ← Nat.add_assoc, run_nextWithin _ (run_piece_trivia hreads hg.1), hrun₁,
        hrun₂, Gap.endsLine_cons, Bool.or_assoc]

/-! ### Lexemes -/

theorem finish_of_lexical {kind : TokenKind} (hn : kind ≠ .number) (hs : kind ≠ .string) :
    finish kind start newline = token (Scanner.kindAfterGap newline kind) start newline := by
  unfold finish
  split
  · exact absurd rfl hn
  · exact absurd rfl hs
  · rfl

theorem kindAfterGap_ne_endOfInput {kind : TokenKind} (hk : isLexical kind) (newline : Bool) :
    Scanner.kindAfterGap newline kind ≠ .endOfInput := by
  intro hend
  have hkind : kind = .endOfInput := by
    cases newline <;> cases kind <;> first | rfl | cases hend
  rw [hkind] at hk
  cases hk

/-- A token of one line that no text ahead can spoil. -/
theorem Represents.simple (h : c.Represents s) (hs : s.rest = w ++ r) {kind : TokenKind}
    (hlexeme : lexeme? s.rest = some (.token kind w)) (hw : OneLine w) (hn : kind ≠ .number)
    (hstring : kind ≠ .string) (again : Bool → Checked Cursor Token) :
    Agrees Represents Represents
      ((proceed again c.offset newline (.token kind)).run (c.past w)) (s.readToken newline) := by
  obtain ⟨r', -, htoken⟩ := exists_tokenAt hlexeme
  show Agrees _ _ ((finish kind c.offset newline).run _) _
  unfold Scanner.readToken
  rw [hlexeme, finish_of_lexical hn hstring]
  exact h.token hs hw (kindAfterGap_ne_endOfInput htoken.isLexical newline)

theorem Represents.word (h : c.Represents s) {d : Char} {t : Text} (hs : s.rest = d :: t)
    (hd : isIdentifierStart d) (again : Bool → Checked Cursor Token) :
    Agrees Represents Represents
      ((lexeme d t >>= proceed again c.offset newline).run c) (s.readToken newline) := by
  have hlexeme : lexeme? s.rest = some (.token (wordKind (EcmaSyntax.word (d :: t)))
      (EcmaSyntax.word (d :: t))) := by
    rw [hs]
    simp only [lexeme?, hd, if_true]
  have hrest : s.rest = EcmaSyntax.word (d :: t) ++ (d :: t).dropWhile isIdentifierPart := by
    rw [EcmaSyntax.word, List.takeWhile_append_dropWhile, hs]
  have hkind : wordKind (EcmaSyntax.word (d :: t)) ≠ .number ∧
      wordKind (EcmaSyntax.word (d :: t)) ≠ .string := by
    obtain hk | ⟨hk, -⟩ := wordKind_cases (EcmaSyntax.word (d :: t))
    · rw [hk]
      decide
    · exact ⟨fun hn => absurd (hn ▸ hk) (by decide), fun hn => absurd (hn ▸ hk) (by decide)⟩
  obtain ⟨u, v, hreads, -⟩ := h.stands
  rw [hrest] at hreads
  simp only [lexeme, hd, if_true, bind_assoc, pure_bind]
  rw [run_bind (run_bump hreads rfl)]
  exact h.simple hrest hlexeme (oneLine_of_isIdentifierPart fun c hc => of_mem_takeWhile hc)
    hkind.1 hkind.2 again

theorem Represents.punctuator (h : c.Represents s) {d : Char} {t : Text} (hs : s.rest = d :: t)
    (hd : isIdentifierStart d = false) (hnumeral : numeral (d :: t) = [])
    (hquote : (d = '"' || d = '\'') = false) (again : Bool → Checked Cursor Token) :
    Agrees Represents Represents
      ((lexeme d t >>= proceed again c.offset newline).run c) (s.readToken newline) := by
  obtain ⟨u, v, hreads, -⟩ := h.stands
  cases hp : punctuator? (d :: t) with
  | some kind =>
      have hlexeme : lexeme? s.rest = some (.token kind kind.display) := by
        rw [hs]
        simp only [lexeme?, hd, Bool.false_eq_true, if_false, hnumeral, ne_eq, not_true_eq_false,
          hquote, hp]
      obtain ⟨hmem, ⟨r, hr⟩, -⟩ := punctuator?_eq_some_iff.mp hp
      have hrest : s.rest = kind.display ++ r := hs.trans hr.symm
      have hone : OneLine kind.display := fun c hc => by
        simpa using List.all_eq_true.mp (punctuators_oneLine kind hmem) c hc
      rw [hrest] at hreads
      simp only [lexeme, hd, Bool.false_eq_true, if_false, hnumeral, ne_eq, not_true_eq_false,
        hquote, hp, bind_assoc, pure_bind]
      rw [run_bind (run_bump hreads rfl)]
      exact h.simple hrest hlexeme hone (fun hn => absurd (hn ▸ hmem) (by decide))
        (fun hn => absurd (hn ▸ hmem) (by decide)) again
  | none =>
      have hread : s.readToken newline =
          .error ⟨.lexical .unexpectedCharacter [d], s.place⟩ (s.skipAlong [d]) := by
        unfold Scanner.readToken
        rw [hs]
        simp [lexeme?, hd, hnumeral, hquote, hp]
      rw [hs] at hreads
      have hbump : (bump d.utf8Size).run c = .ok () (c.past [d]) :=
        run_bump (w := [d]) hreads rfl
      have hpast : (c.past [d]).Reads u (v ++ [d]) t := Reads.past (w := [d]) hreads
      simp only [lexeme, hd, Bool.false_eq_true, if_false, hnumeral, ne_eq, not_true_eq_false,
        hquote, hp, bind_assoc, pure_bind]
      rw [run_bind hbump, hread]
      unfold proceed
      dsimp only
      rw [EStateM.run_bind, EStateM.run_get]
      dsimp only
      rw [run_bind (run_slice_from hpast hreads.offset)]
      exact h.refuse (w := [d]) hs .unexpectedCharacter [d]

theorem past_past (c : Cursor) (w w' : Text) : (c.past w).past w' = c.past (w ++ w') := by
  simp [past, Nat.add_assoc]

/-- A text at fault is a slice. -/
theorem Represents.fault (h : c.Represents s) (hs : s.rest = w ++ r) (fault : LexicalFault)
    (again : Bool → Checked Cursor Token) : Agrees Represents Represents
      ((proceed again c.offset newline (.fault fault)).run (c.past w))
      (.error ⟨.lexical fault w, s.place⟩ (s.skipAlong w)) := by
  obtain ⟨u, v, hreads, -⟩ := h.stands
  rw [hs] at hreads
  show Agrees _ _ ((do Cursor.refuse fault c.offset (← slice c.offset (← get).offset) :
    Checked Cursor Token).run _) _
  rw [EStateM.run_bind, EStateM.run_get]
  dsimp only
  rw [run_bind (run_slice_from hreads.past hreads.offset)]
  exact h.refuse hs fault w

theorem Represents.numeral (h : c.Represents s) {d : Char} {t : Text} (hs : s.rest = d :: t)
    (hd : isIdentifierStart d = false) (hne : EcmaSyntax.numeral (d :: t) ≠ [])
    (again : Bool → Checked Cursor Token) : Agrees Represents Represents
      ((lexeme d t >>= proceed again c.offset newline).run c) (s.readToken newline) := by
  obtain ⟨u, v, hreads, hplace⟩ := h.stands
  obtain ⟨r, hr⟩ := numeral_split (d :: t)
  have hone := numeral_oneLine (d :: t)
  have hlexeme : lexeme? (d :: t) = some (numeralLexeme (d :: t)) := by
    simp only [lexeme?, hd, Bool.false_eq_true, if_false, hne, ne_eq, not_false_eq_true, if_true]
  simp only [lexeme, hd, Bool.false_eq_true, if_false, hne, ne_eq, not_false_eq_true, if_true,
    bind_assoc, pure_bind]
  generalize hw : EcmaSyntax.numeral (d :: t) = w at hr hone hlexeme hne ⊢
  have hdrop : (d :: t).drop w.length = r := by
    rw [hr]
    exact List.drop_left
  have hrest : s.rest = w ++ r := hs.trans hr
  rw [hrest] at hreads
  rw [run_bind (run_bump hreads rfl)]
  show Agrees _ _ ((finish .number c.offset newline).run _) _
  unfold finish Scanner.readToken
  dsimp only
  rw [run_bind (run_remainder hreads.past), hs, hlexeme]
  simp only [numeralLexeme, hw, hdrop]
  obtain ⟨r', hr', -⟩ := word_split r
  cases hahead : EcmaSyntax.word r with
  | nil =>
      rw [if_neg (show ¬0 < Text.size [] from Nat.lt_irrefl 0)]
      exact h.token hrest hone (by decide)
  | cons e ahead =>
      rw [hahead] at hr'
      have hpos : 0 < Text.size (e :: ahead) := by
        have := e.utf8Size_pos
        rw [Text.size_cons]
        omega
      have hslice : (slice c.offset ((c.past w).offset + Text.size (e :: ahead))).run (c.past w) =
          .ok (w ++ e :: ahead) (c.past w) := by
        refine run_slice (Text.slice?_eq_some_iff.mpr ⟨u ++ v, r', ?_, hreads.offset, ?_⟩)
        · show c.source = _
          rw [hreads.source, hr']
          simp
        · rw [Text.size_append]
          exact Nat.add_assoc _ _ _
      rw [if_pos hpos, EStateM.run_bind, EStateM.run_get]
      dsimp only
      rw [run_bind hslice]
      exact h.refuse hrest .invalidNumber (w ++ e :: ahead)

/-- A string ends where the offsets say. -/
theorem stringStop_eq {quote : Char} (hquote : quote.utf8Size = 1) (offset : Nat) (t : Text) :
    stringStop quote offset t =
      (offset + (stringRest quote t).1.size, (stringRest quote t).2) := by
  fun_induction stringRest quote t generalizing offset with
  | case1 => rfl
  | case2 t taken closed heq ih =>
      rw [heq] at ih
      have hsize : '\\'.utf8Size = 1 ∧ '\r'.utf8Size = 1 ∧ '\n'.utf8Size = 1 := ⟨rfl, rfl, rfl⟩
      rw [stringStop, ih]
      simp [hsize]
      omega
  | case3 d t hne taken closed heq ih =>
      rw [heq] at ih
      have hsize : '\\'.utf8Size = 1 := rfl
      rw [stringStop.eq_3 _ _ _ _ hne, ih]
      simp [hsize, Nat.add_assoc]
  | case4 t h₁ h₂ =>
      rw [stringStop.eq_4 _ _ _ _ h₁ h₂, if_pos rfl]
      simp [hquote]
  | case5 d t h₁ h₂ hd hl =>
      rw [stringStop.eq_4 _ _ _ _ h₁ h₂, if_neg hd, if_pos hl]
      rfl
  | case6 d t h₁ h₂ hd hl taken closed heq ih =>
      rw [heq] at ih
      rw [stringStop.eq_4 _ _ _ _ h₁ h₂, if_neg hd, if_neg hl, ih]
      simp [Nat.add_assoc]

/-- The lines that end in a string are counted behind it. -/
theorem Represents.finish_string (h : c.Represents s) (hs : s.rest = w ++ r) :
    Agrees Represents Represents ((finish .string c.offset newline).run (c.past w))
      (.ok ⟨.string, w, s.place, newline⟩ (s.skipPast w)) := by
  obtain ⟨⟨u, v, hreads, hplace⟩, hsource, hcomments⟩ := h
  rw [hs] at hreads
  obtain ⟨u', v', c', hcount, hreads', hplace', hsource', -, hcomments'⟩ :=
    run_countLines hreads.past hreads.offset
  have htoken := run_token .string newline hreads.past hreads.offset nofun
  unfold finish
  dsimp only
  rw [run_bind htoken, run_bind hcount, EStateM.run_pure, hplace]
  refine .ok ⟨⟨u', v', ?_, ?_⟩, hsource'.trans hsource, hcomments'.trans hcomments⟩
  · rw [Scanner.rest_skipPast, hs, List.drop_left]
    exact hreads'
  · show s.place.past w = _
    rw [hplace]
    exact hplace'

theorem Represents.string (h : c.Represents s) {d : Char} {t : Text} (hs : s.rest = d :: t)
    (hd : d = '"' ∨ d = '\'') (again : Bool → Checked Cursor Token) :
    Agrees Represents Represents
      ((lexeme d t >>= proceed again c.offset newline).run c) (s.readToken newline) := by
  have hquote : (decide (d = '"') || decide (d = '\'')) = true := by simpa using hd
  have hstart : isIdentifierStart d = false := by obtain rfl | rfl := hd <;> decide
  have hnumeral : EcmaSyntax.numeral (d :: t) = [] :=
    numeral_of_start (by obtain rfl | rfl := hd <;> decide) (by rintro rfl; simp at hd)
  obtain ⟨u, v, hreads, -⟩ := h.stands
  rw [hs] at hreads
  have hbump : (bump d.utf8Size).run c = .ok () (c.past [d]) := run_bump (w := [d]) hreads rfl
  have hopened : (c.past [d]).Reads u (v ++ [d]) t := Reads.past (w := [d]) hreads
  have hstop := stringStop_eq (utf8Size_quote hd) 0 t
  obtain ⟨r, hr⟩ := stringRest_prefix d t
  unfold Scanner.readToken
  rw [hs, lexeme?_of_quote hd]
  simp only [lexeme, hstart, Bool.false_eq_true, if_false, hnumeral, ne_eq, not_true_eq_false,
    hquote, if_true, bind_assoc]
  rw [run_bind hbump]
  unfold Cursor.string stringLexeme
  generalize stringRest d t = rest at hr hstop
  obtain ⟨taken, closed⟩ := rest
  obtain rfl : taken ++ r = t := hr
  have hslice : Text.slice? (taken ++ r) 0 (0 + Text.size taken) = some taken :=
    Text.slice?_append [] taken r rfl rfl
  have hbump' : (bump (0 + Text.size taken)).run (c.past [d]) = .ok () (c.past (d :: taken)) := by
    rw [run_bump hopened (Nat.zero_add _), past_past]
    rfl
  have hrest : s.rest = (d :: taken) ++ r := hs
  rw [bind_assoc, run_bind (run_remainder hopened), hstop]
  dsimp only
  rw [bind_assoc, run_bind hbump']
  cases closed with
  | false =>
      simp only [Bool.not_false, if_true, pure_bind, List.append_nil]
      exact h.fault hrest .unterminatedString again
  | true =>
      simp only [Bool.not_true, Bool.false_eq_true, if_false]
      rw [bind_assoc, run_bind (run_need hslice _)]
      cases hescaped : wellEscaped taken with
      | true =>
          simp only [if_true, pure_bind]
          exact h.finish_string hrest
      | false =>
          simp only [Bool.false_eq_true, if_false, pure_bind, List.append_nil]
          exact h.fault hrest .invalidEscape again

theorem commentAt?_of_isSettled {t : Text} (h : isSettled t) : commentAt? t = none := by
  unfold commentAt?
  split
  · cases h
  · cases h
  · rfl

theorem run_nextWithin_pieceAt (h : c.Reads u v r) (turns : Nat) :
    (nextWithin (turns + 1) newline).run c =
      (pieceAt r >>= proceed (nextWithin turns) c.offset newline).run c := by
  rw [nextWithin, EStateM.run_bind, EStateM.run_get]
  dsimp only
  rw [EStateM.run_bind, EStateM.run_bind, run_piece h]

/-- A lexeme is read where no gap is left. -/
theorem pieceAt_of_isSettled {d : Char} {t : Text} (h : isSettled (d :: t)) :
    pieceAt (d :: t) = lexeme d t := by
  have hnone := commentAt?_of_isSettled h
  simp only [isSettled, Bool.and_eq_true, Bool.not_eq_true'] at h
  unfold pieceAt
  rw [hnone]
  dsimp only
  rw [h.1.2, h.2, if_neg Bool.false_ne_true, if_neg Bool.false_ne_true]

/-- A token, a fault or the end of the input stands behind a gap. -/
theorem Represents.settled (h : c.Represents s) (hsettled : isSettled s.rest) (turns : Nat) :
    Agrees Represents Represents ((nextWithin (turns + 1) newline).run c)
      (s.readToken newline) := by
  obtain ⟨u, v, hreads, hplace⟩ := h.stands
  rw [run_nextWithin_pieceAt hreads]
  cases hrest : s.rest with
  | nil =>
      rw [hrest] at hreads
      have hend : c.source.size = c.offset := hreads.size_source
      have hsize : c.source.size = Text.size (u ++ v) := hend.trans hreads.offset
      have hnothing : c.Reads u (v ++ []) [] := by rwa [List.append_nil]
      have htoken := run_token .endOfInput newline hnothing hsize fun _ => rfl
      have hread : s.readToken newline = .ok ⟨.endOfInput, [], s.place, newline⟩ s := by
        unfold Scanner.readToken
        rw [hrest]
        rfl
      show Agrees _ _ ((pure .nothing >>= proceed (nextWithin turns) c.offset newline).run c) _
      rw [pure_bind, hread, hplace, ← hend]
      show Agrees _ _ ((Cursor.token .endOfInput c.source.size newline).run c) _
      rw [htoken]
      exact .ok h
  | cons d t =>
      rw [pieceAt_of_isSettled (hrest ▸ hsettled)]
      by_cases hd : isIdentifierStart d
      · exact h.word hrest hd _
      · rw [Bool.not_eq_true] at hd
        by_cases hnumeral : EcmaSyntax.numeral (d :: t) = []
        · cases hquote : (decide (d = '"') || decide (d = '\'')) with
          | true => exact h.string hrest (by simpa using hquote) _
          | false => exact h.punctuator hrest hd hnumeral hquote _
        · exact h.numeral hrest hd hnumeral _

/-- A comment that is not closed is at fault up to the end of the source. -/
theorem Represents.unclosed {t : Text} (h : c.Represents s) (hs : s.rest = '/' :: '*' :: t)
    (ht : blockCommentRest? t = none) (turns : Nat) : Agrees Represents Represents
      ((nextWithin (turns + 1) newline).run c)
      (.error ⟨.lexical .unterminatedComment s.rest, s.place⟩ (s.skipAlong s.rest)) := by
  obtain ⟨u, v, hreads, -⟩ := h.stands
  rw [hs] at hreads
  have hclose : closeOffset? 0 t = none := by
    rw [closeOffset?_eq, ht]
    rfl
  have hopen : (bump 2).run c = .ok () (c.past ['/', '*']) := run_bump (w := ['/', '*']) hreads rfl
  have hopened : (c.past ['/', '*']).Reads u (v ++ ['/', '*']) t :=
    Reads.past (w := ['/', '*']) hreads
  have hbump : (bump (Text.size t)).run (c.past ['/', '*']) =
      .ok () ((c.past ['/', '*']).past t) := by
    have hreads' := hopened
    rw [← List.append_nil t] at hreads'
    exact run_bump hreads' rfl
  have hpiece : piece.run c = .ok (.fault .unterminatedComment) (c.past s.rest) := by
    have hcomment : commentAt? ('/' :: '*' :: t) = some .block := rfl
    rw [run_piece hreads]
    unfold pieceAt
    rw [hcomment]
    dsimp only
    rw [run_bind hopen, blockComment, run_bind (run_remainder hopened), hclose]
    dsimp only
    rw [run_bind hbump, EStateM.run_pure, past_past, hs]
    rfl
  rw [run_nextWithin turns hpiece]
  exact h.fault (List.append_nil _).symm .unterminatedComment _

/-- Each piece of a gap takes up a byte or more. -/
theorem length_le_size (g : Gap) : g.length ≤ g.text.size := by
  induction g with
  | nil => exact Nat.le_refl 0
  | cons p g ih =>
      have hpos : 0 < p.text.size := by
        have := Char.utf8Size_pos '/'
        cases p with
        | blank c => exact Nat.lt_of_lt_of_le c.utf8Size_pos (Nat.le_add_right _ _)
        | newlines c => exact Nat.lt_of_lt_of_le c.utf8Size_pos (Nat.le_add_right _ _)
        | line body => exact Nat.lt_of_lt_of_le this (Nat.le_add_right _ _)
        | block body => exact Nat.lt_of_lt_of_le this (Nat.le_add_right _ _)
      rw [Gap.text_cons, Text.size_append, List.length_cons]
      omega

/-- There is a turn left behind a gap. -/
theorem Represents.run_next {g : Gap} {t : Text} (h : c.Represents s) (hs : s.rest = g.text ++ t)
    (hg : g.Fits t) : ∃ turns c', c'.Represents (s.behind g t) ∧
      Cursor.next.run c = (nextWithin (turns + 1) (false || g.endsLine)).run c' := by
  obtain ⟨u, v, hreads, -⟩ := h.stands
  obtain ⟨turns, hturns⟩ : ∃ turns, c.source.size + 1 = turns + 1 + g.length := by
    have hlength := length_le_size g
    have hsize := hreads.size_source
    rw [hs, Text.size_append] at hsize
    exact ⟨c.source.size - g.length, by omega⟩
  obtain ⟨c', h', -, hrun⟩ := h.gap false hs hg (turns + 1)
  refine ⟨turns, c', h', ?_⟩
  rw [← hrun, ← hturns]
  rfl

/-- A cursor yields the next token as the scanner does that it represents. -/
theorem Represents.next (h : c.Represents s) :
    Agrees Represents Represents (Cursor.next.run c) (Scanner.next.run s) := by
  obtain ⟨g, t, hs, hg, ht⟩ := s.exists_cut false
  obtain ⟨turns, c', h', hnext⟩ := h.run_next hs hg
  rw [hnext, Scanner.run_next, Scanner.skipGap_append false hs hg]
  obtain hsettled | ⟨w, hw, hunclosed⟩ := ht
  · rw [Scanner.skipGap_settled _ hsettled]
    exact h'.settled hsettled turns
  · rw [Scanner.skipGap_unclosed _ hw hunclosed]
    exact h'.unclosed hw hunclosed turns

/-! ### Slashes -/

/-- A token that was just read stands in the line at hand. -/
def Recalls (c : Cursor) (t : Token) (r : Text) : Prop :=
  ∃ u v, c.Reads u (v ++ t.text) r ∧ t.place.offset = Text.size (u ++ v) ∧
    t.place.column = .ofNat v.length + 1

/-- The source behind a slash is a slice. -/
theorem run_slice_rest {before after : Text} (hs : c.source = before ++ '/' :: after) :
    (slice (before.size + 1) c.source.size).run c = .ok after c := by
  have hslash : '/'.utf8Size = 1 := rfl
  refine run_slice_split (before ++ ['/']) [] ?_ ?_ ?_
  · rw [hs]
    simp
  · simp [hslash]
  · rw [hs]
    simp [hslash]
    omega

/-- A slash is read again as the literal that stands there. -/
theorem run_rescan_literal {slash : Token} {before w r : Text} {d : Char} {pattern flags : Text}
    (hs : c.source = before ++ (w ++ r)) (hoffset : slash.place.offset = before.size)
    (hk : Parser.opensRegex slash.kind) (hw : w = '/' :: d :: pattern ++ '/' :: flags)
    (hbody : ∀ u, regexRest? false (d :: pattern ++ '/' :: u) = some (d :: pattern))
    (hflags : ∀ e ∈ flags, isIdentifierPart e) (hr : EndsWord r) : (rescan slash).run c =
      .ok { slash with kind := .regex, text := w } { c with offset := before.size + w.size } := by
  have hslash : '/'.utf8Size = 1 := rfl
  have hsize : w.size = 1 + Text.size (d :: pattern) + 1 + Text.size flags := by
    rw [hw]
    simp [hslash]
    omega
  have hafter : c.source = before ++ '/' :: (d :: pattern ++ '/' :: (flags ++ r)) := by
    rw [hs, hw]
    simp
  have hclose : (slice (before.size + 1 + Text.size (d :: pattern)) c.source.size).run c =
      .ok ('/' :: (flags ++ r)) c := by
    refine run_slice_split (before ++ '/' :: d :: pattern) [] ?_ ?_ ?_
    · rw [hafter]
      simp
    · simp [hslash]
      omega
    · rw [hafter]
      simp [hslash]
      omega
  have hword : word (('/' :: (flags ++ r)).drop 1) = flags := takeWhile_append_eq hflags hr
  have hstop : before.size + 1 + Text.size (d :: pattern) + 1 + Text.size flags =
      before.size + w.size := by omega
  have hrest : (slice (before.size + w.size) c.source.size).run c = .ok r c := by
    refine run_slice_split (before ++ w) [] ?_ (Text.size_append _ _).symm ?_
    · rw [hs]
      simp
    · rw [hs]
      simp [Nat.add_assoc]
  have hliteral : (slice before.size (before.size + w.size)).run
      { c with offset := before.size + w.size } = .ok w { c with offset := before.size + w.size } :=
    run_slice_split before r hs rfl rfl
  unfold rescan
  rw [run_bind (run_assert hk c), EStateM.run_bind, EStateM.run_get, hoffset]
  dsimp only
  rw [run_bind (run_slice_rest hafter), hbody]
  dsimp only
  rw [EStateM.run_bind, EStateM.run_get]
  dsimp only
  rw [run_bind hclose, hword, hstop, EStateM.run_bind, EStateM.run_get]
  dsimp only
  rw [run_bind hrest, EStateM.run_bind, EStateM.run_modify]
  dsimp only
  rw [run_bind hliteral, EStateM.run_pure]

/-- The line is at fault if no literal stands there. -/
theorem run_rescan_unterminated {slash : Token} {before after : Text}
    (hs : c.source = before ++ '/' :: after) (hoffset : slash.place.offset = before.size)
    (hk : Parser.opensRegex slash.kind)
    (hrest : ∀ d body, regexRest? false after ≠ some (d :: body)) : (rescan slash).run c =
      .error (some ⟨.lexical .unterminatedRegex (('/' :: after).takeWhile (!isLineTerminator ·)),
        slash.place⟩) c := by
  have hall : (slice before.size c.source.size).run c = .ok ('/' :: after) c := by
    refine run_slice_split before [] ?_ rfl ?_
    · rw [hs, List.append_nil]
    · rw [hs, Text.size_append]
  have hline : Text.slice? ('/' :: after) 0
      (Text.size (('/' :: after).takeWhile (!isLineTerminator ·))) =
        some (('/' :: after).takeWhile (!isLineTerminator ·)) :=
    Text.slice?_eq_some_iff.mpr ⟨[], ('/' :: after).dropWhile (!isLineTerminator ·),
      List.takeWhile_append_dropWhile.symm, rfl, (Nat.zero_add _).symm⟩
  unfold rescan
  rw [run_bind (run_assert hk c), EStateM.run_bind, EStateM.run_get, hoffset]
  dsimp only
  rw [run_bind (run_slice_rest hs)]
  split
  · next d body hbody => exact absurd hbody (hrest d body)
  · rw [EStateM.run_bind, EStateM.run_get]
    dsimp only
    rw [run_bind hall, run_bind (run_need hline c)]
    rfl

/-- A slash that was just read is read again as the scanner does. -/
theorem Represents.rescan {slash : Token} (h : c.Represents s) (hslash : c.Recalls slash s.rest)
    (hk : Parser.opensRegex slash.kind) (hhead : slash.text.head? = some '/') :
    Agrees Represents Represents ((Cursor.rescan slash).run c)
      ((Scanner.rescan slash).run s) := by
  obtain ⟨u, v, hreads, hoffset, hcolumn⟩ := hslash
  obtain ⟨more, hmore⟩ := List.head?_eq_some_iff.mp hhead
  have hsource : c.source = u ++ v ++ '/' :: (more ++ s.rest) := by
    rw [hreads.source, hmore]
    simp
  rw [Scanner.run_rescan (h.source.symm.trans hsource) hoffset]
  generalize more ++ s.rest = after at hsource
  cases hregex : regexLiteral? after with
  | none =>
      have hrest : ∀ d body, regexRest? false after ≠ some (d :: body) := by
        rintro d body hbody
        unfold regexLiteral? at hregex
        rw [hbody] at hregex
        cases hregex
      rw [run_rescan_unterminated hsource hoffset hk hrest]
      exact .error h
  | some w =>
      obtain ⟨d, pattern, flags, r, hw, hr, hbody, hflags, hend⟩ :=
        regexLiteral?_eq_some_iff.mp hregex
      have hsplit : c.source = u ++ v ++ (w ++ r) := by
        rw [hsource, hr, hw]
        simp
      have hdropped : after.drop (w.length - 1) = r := by
        have hafter : after = (d :: pattern ++ '/' :: flags) ++ r := by
          rw [hr]
          simp
        rw [hafter, hw]
        exact List.drop_left' (by simp)
      obtain ⟨u', v', hreads', hplace⟩ := h.stands
      rw [run_rescan_literal hsplit hoffset hk hw hbody hflags hend]
      refine .ok ⟨⟨u, v ++ w, ⟨?_, ?_, hreads.lineStart⟩, ?_⟩, h.source, h.comments⟩
      · show c.source = u ++ (v ++ w ++ after.drop (w.length - 1))
        rw [hdropped, hsplit]
        simp
      · show Text.size (u ++ v) + w.size = _
        simp [Nat.add_assoc]
      · simp only [Place.along, hcolumn, hplace, hoffset, column_append]

/-! ### Tokens at hand -/

/-- What is known of a token with nothing read behind it: a slash can be read again, and a string
stands between its quotes. -/
structure Knows (c : Cursor) (r : Text) (t : Token) : Prop where
  slash : Parser.opensRegex t.kind → t.text.head? = some '/' ∧ c.Recalls t r
  string : t.kind = .string → IsQuoted t.text

/-- Nothing has to be known of other tokens. -/
theorem knows_of_ne {t : Token} (hslash : Parser.opensRegex t.kind = false)
    (hs : t.kind ≠ .string) :
    c.Knows r t :=
  ⟨fun h => absurd (hslash.symm.trans h) Bool.false_ne_true, fun h => absurd h hs⟩

theorem Knows.claimed {t : Token} (h : c.Knows r t) :
    Knows { c with comments := [] } r t := by
  refine ⟨fun hk => ?_, h.string⟩
  obtain ⟨hhead, u, v, hreads, hoffset, hcolumn⟩ := h.slash hk
  exact ⟨hhead, u, v, ⟨hreads.source, hreads.offset, hreads.lineStart⟩, hoffset, hcolumn⟩

theorem isQuoted_of_tokenAt (h : TokenAt .string w r) : IsQuoted w := by
  generalize hk : TokenKind.string = k at h
  cases h with
  | @string quote w r hquote hclosed =>
      have hlast : w.getLast? = some quote := stringRest_getLast? ((hclosed []).trans rfl)
      obtain ⟨body, rfl⟩ := List.getLast?_eq_some_iff.mp hlast
      exact ⟨quote, body, rfl, hquote⟩
  | @word d w =>
      obtain hw | ⟨hw, -⟩ := wordKind_cases (d :: w)
      · rw [hw] at hk
        cases hk
      · rw [← hk] at hw
        exact absurd hw (by decide)
  | number => cases hk
  | punctuator hp =>
      have hmem := (punctuator?_eq_some_iff.mp hp).1
      rw [← hk] at hmem
      exact absurd hmem (by decide)

/-- A slash is read where it stands, and no line is counted. -/
theorem Represents.run_slash {kind : TokenKind} (h : c.Represents s) (hs : s.rest = w ++ r)
    (hw : TokenAt kind w r) (hslash : w.head? = some '/') (hsettled : isSettled (w ++ r))
    (hk : Parser.opensRegex (Scanner.kindAfterGap newline kind)) (turns : Nat) :
    (nextWithin (turns + 1) newline).run c =
      .ok ⟨Scanner.kindAfterGap newline kind, w, s.place, newline⟩ (c.past w) := by
  obtain ⟨u, v, hreads, -⟩ := h.stands
  rw [hs] at hreads
  have hlexical := kindAfterGap_ne_endOfInput hw.isLexical newline
  cases hw with
  | word hstart =>
      rw [Option.some.inj hslash] at hstart
      exact absurd hstart (by decide)
  | number => cases newline <;> cases hk
  | string => cases newline <;> cases hk
  | punctuator hp hn =>
      have hkind : kind ≠ .number ∧ kind ≠ .string := by
        refine ⟨?_, ?_⟩ <;> rintro rfl <;> cases newline <;> cases hk
      have hstart : isIdentifierStart '/' = false := by decide
      have hquote : (decide ('/' = '"') || decide ('/' = '\'')) = false := by decide
      obtain ⟨more, hmore⟩ := List.head?_eq_some_iff.mp hslash
      rw [run_nextWithin_pieceAt hreads]
      rw [hmore, List.cons_append] at hp hn hsettled ⊢
      rw [pieceAt_of_isSettled hsettled]
      simp only [lexeme, hstart, Bool.false_eq_true, if_false, hn, ne_eq, not_true_eq_false, hquote,
        hp, bind_assoc, pure_bind]
      rw [run_bind (run_bump hreads rfl), ← hmore]
      show (finish kind c.offset newline).run _ = _
      rw [finish_of_lexical hkind.1 hkind.2]
      exact h.run_token_past hs hlexical

theorem Represents.knows {c' : Cursor} {s' : Scanner} {t : Token} (h : c.Represents s)
    (hnext : Scanner.next.run s = .ok t s') (hread : Cursor.next.run c = .ok t c') :
    c'.Knows s'.rest t := by
  obtain ⟨p, hp, hall⟩ := Scanner.exists_site hnext
  rw [Scanner.next_of_valid hp hall.symm] at hnext
  injection hnext with ht hs'
  subst ht hs'
  refine ⟨fun hk => ?_, fun hk => ?_⟩
  · obtain ⟨hhead, -⟩ := hp.slash hk
    have htoken : TokenAt p.kind p.text p.rest := by
      obtain ⟨-, hnil, -⟩ | htoken := hp.token
      · rw [hnil] at hhead
        cases hhead
      · exact htoken
    obtain ⟨turns, c₁, h₁, hrun⟩ := h.run_next hall.symm hp.fits
    have hrest := Scanner.rest_behind s p.gap (p.text ++ p.rest)
    have hslash : (nextWithin (turns + 1) p.newline).run c₁ = _ :=
      h₁.run_slash hrest htoken hhead hp.settled hk turns
    rw [hrun, Bool.false_or] at hread
    cases hslash.symm.trans hread
    obtain ⟨u, v, hreads, hplace⟩ := h₁.stands
    rw [hrest] at hreads
    have hplace : s.place.past p.gap.text = _ := hplace
    refine ⟨hhead, u, v, hreads.past, ?_, ?_⟩
    · show (s.place.past p.gap.text).offset = _
      rw [hplace]
      exact hreads.offset
    · show (s.place.past p.gap.text).column = _
      rw [hplace]
  · have hkind : p.kind = .string := by
      have hhere : p.kindHere = .string := hk
      unfold Site.kindHere at hhere
      generalize p.kind = k, p.newline = newline at hhere
      cases newline <;> cases k <;> first | rfl | cases hhere
    obtain ⟨hend, -⟩ | htoken := hp.token
    · rw [hkind] at hend
      cases hend
    · rw [hkind] at htoken
      exact isQuoted_of_tokenAt htoken

/-- A literal that was just read again is known. -/
theorem head_rescan {slash t : Token} {s' : Scanner}
    (h : (Scanner.rescan slash).run s = .ok t s') : t.text.head? = some '/' ∧ t.kind = .regex := by
  unfold EStateM.run Scanner.rescan at h
  dsimp only at h
  split at h
  · next w hw =>
      cases h
      obtain ⟨body, -, rfl, -⟩ := regexLiteral?_split hw
      exact ⟨rfl, rfl⟩
  · cases h

end Scanning

end Cursor

end EcmaSyntax
