import EcmaSyntax.Scanner

/-!
# What stands between tokens

**Gaps.**  A gap is a list of blanks, runs of line terminators and comments.  It fits before a
text if each piece of it ends where the scanner takes it to end, and the text is settled if no
further piece starts there.

**Results.**
* `Scanner.skipGap_of_fits`: the scanner skips a gap that fits before a settled text, and
  this settles what it finds out about line ends and comments.
* `Scanner.exists_gap`: whatever the scanner skips is such a gap.
-/

namespace EcmaSyntax

/-- A piece of the text between two tokens. -/
inductive Trivia where
  | blank (c : Char)
  | newlines (c : Char) (more : Text)
  | line (body : Text)
  | block (body : Text)
deriving DecidableEq

namespace Trivia

/-- The written form of a piece. -/
def text : Trivia → Text
  | blank c => [c]
  | newlines c more => c :: more
  | line body => '/' :: '/' :: body
  | block body => '/' :: '*' :: body ++ ['*', '/']

/-- Whether a line ends within a piece. -/
def endsLine : Trivia → Bool
  | blank _ => false
  | newlines _ _ => true
  | line _ => false
  | block body => body.any isLineTerminator

/-- The comment that a piece is, if it is one. -/
def comment? : Trivia → Option Comment
  | blank _ => none
  | newlines _ _ => none
  | line body => some ⟨.line, body⟩
  | block body => some ⟨.block, body⟩

/-- A piece ends where it does if a text follows it. -/
def Fits (rest : Text) : Trivia → Prop
  | blank c => isBlank c
  | newlines c more => isLineTerminator c ∧ (∀ d ∈ more, isLineTerminator d) ∧
      ∀ d ∈ rest.head?, isLineTerminator d = false
  | line body => (∀ d ∈ body, isLineTerminator d = false) ∧ ∀ d ∈ rest.head?, isLineTerminator d
  | block body => blockCommentRest? (body ++ ['*', '/']) = some body

end Trivia

/-- The pieces between two tokens. -/
abbrev Gap := List Trivia

namespace Gap

/-- The written form of a gap. -/
def text (g : Gap) : Text := g.flatMap Trivia.text

/-- Whether a line ends within a gap. -/
def endsLine (g : Gap) : Bool := g.any Trivia.endsLine

/-- The comments of a gap. -/
def comments (g : Gap) : List Comment := g.filterMap Trivia.comment?

/-- The comments of a gap that starts at an offset, with their offsets. -/
def placed (offset : Nat) : Gap → List PlacedComment
  | [] => []
  | t :: g =>
      (t.comment?.map fun c => ⟨c, offset⟩).toList ++ placed (offset + t.text.size) g

/-- Each piece of a gap ends where it does if a text follows the gap. -/
def Fits (rest : Text) : Gap → Prop
  | [] => True
  | t :: g => t.Fits (text g ++ rest) ∧ Fits rest g

@[simp] theorem text_nil : text [] = [] := rfl

@[simp] theorem text_cons (t : Trivia) (g : Gap) : text (t :: g) = t.text ++ text g := rfl

@[simp] theorem endsLine_nil : endsLine [] = false := rfl

@[simp] theorem endsLine_cons (t : Trivia) (g : Gap) :
    endsLine (t :: g) = (t.endsLine || endsLine g) := rfl

theorem text_append (g g' : Gap) : text (g ++ g') = text g ++ text g' :=
  List.flatMap_append

theorem text_eq_nil_iff {g : Gap} : text g = [] ↔ g = [] := by
  cases g with
  | nil => simp
  | cons t g => cases t <;> simp [Trivia.text]

theorem endsLine_append (g g' : Gap) : endsLine (g ++ g') = (endsLine g || endsLine g') :=
  List.any_append

theorem comments_cons (t : Trivia) (g : Gap) :
    comments (t :: g) = t.comment?.toList ++ comments g := by
  unfold comments
  rw [List.filterMap_cons]
  cases t.comment? <;> rfl

theorem placed_comments (g : Gap) (offset : Nat) :
    (g.placed offset).map (·.toComment) = g.comments := by
  induction g generalizing offset with
  | nil => rfl
  | cons t g ih =>
      rw [placed, List.map_append, ih, comments_cons]
      cases t.comment? <;> rfl

/-- The comments of a gap start within it. -/
theorem placed_bounds {g : Gap} {offset : Nat} {c : PlacedComment} (hc : c ∈ g.placed offset) :
    offset ≤ c.offset ∧ c.offset < offset + (text g).size := by
  induction g generalizing offset with
  | nil => cases hc
  | cons t g ih =>
      rw [placed, List.mem_append] at hc
      rw [text_cons, Text.size_append]
      obtain hc | hc := hc
      · have hpos : t.comment? ≠ none → 0 < t.text.size := by
          have := Char.utf8Size_pos '/'
          cases t <;> simp [Trivia.comment?, Trivia.text]
          all_goals omega
        cases ht : t.comment? with
        | none => simp [ht] at hc
        | some k =>
            have := hpos (by simp [ht])
            simp only [ht, Option.map_some, Option.toList_some, List.mem_singleton] at hc
            subst hc
            exact ⟨Nat.le_refl _, by simp only; omega⟩
      · have := ih hc
        omega

end Gap

/-- Neither a blank, nor a line terminator, nor a comment starts here. -/
def isSettled : Text → Bool
  | [] => true
  | c :: t =>
      !(c = '/' && (t.head? = some '/' || t.head? = some '*')) && !isBlank c
        && !isLineTerminator c

theorem isBlank_slash : isBlank '/' = false := by decide

theorem isLineTerminator_slash : isLineTerminator '/' = false := by decide

theorem isBlank_of_isLineTerminator {c : Char} (hc : isLineTerminator c) : isBlank c = false := by
  simp only [isLineTerminator, Bool.or_eq_true, decide_eq_true_eq] at hc
  obtain ((rfl | rfl) | rfl) | rfl := hc <;> decide

theorem isLineTerminator_of_isBlank {c : Char} (hc : isBlank c) : isLineTerminator c = false := by
  rw [Bool.eq_false_iff]
  intro h
  rw [isBlank_of_isLineTerminator h] at hc
  cases hc

theorem takeWhile_append_eq {p : Char → Bool} {s t : Text} (hs : ∀ c ∈ s, p c)
    (ht : ∀ c ∈ t.head?, p c = false) : (s ++ t).takeWhile p = s := by
  rw [List.takeWhile_append_of_pos hs]
  cases t with
  | nil => simp
  | cons c t => simp [ht c rfl]

/-! ## Block comments -/

theorem blockCommentRest?_append {t body : Text} (h : blockCommentRest? t = some body)
    (r : Text) : blockCommentRest? (t ++ r) = some body := by
  fun_induction blockCommentRest? t generalizing body with
  | case1 => cases h
  | case2 => exact h
  | case3 c t hne ih =>
      obtain ⟨body, hbody, rfl⟩ := Option.map_eq_some_iff.mp h
      rw [List.cons_append, blockCommentRest?, ih hbody]
      · rfl
      · rintro u rfl hu
        cases t with
        | nil => cases hbody
        | cons d t => exact hne t rfl (by rw [(List.cons.inj hu).1])

theorem blockCommentRest?_split {t body : Text} (h : blockCommentRest? t = some body) :
    ∃ r, t = body ++ '*' :: '/' :: r ∧ blockCommentRest? (body ++ ['*', '/']) = some body := by
  fun_induction blockCommentRest? t generalizing body with
  | case1 => cases h
  | case2 r =>
      cases h
      exact ⟨r, rfl, rfl⟩
  | case3 c t hne ih =>
      obtain ⟨body, hbody, rfl⟩ := Option.map_eq_some_iff.mp h
      obtain ⟨r, rfl, hb⟩ := ih hbody
      refine ⟨r, rfl, ?_⟩
      rw [List.cons_append, blockCommentRest?, hb]
      · rfl
      · rintro u rfl hu
        cases body with
        | nil => exact absurd (List.cons.inj hu).1 (by decide)
        | cons d body => exact hne _ rfl (by rw [List.cons_append, (List.cons.inj hu).1])

theorem drop_takeWhile (p : Char → Bool) (t : Text) :
    t.drop (t.takeWhile p).length = t.dropWhile p := by
  have h := congrArg (List.drop (t.takeWhile p).length)
    (List.takeWhile_append_dropWhile (p := p) (l := t))
  rw [List.drop_left] at h
  exact h.symm

theorem of_mem_takeWhile {p : Char → Bool} {t : Text} {c : Char} (hc : c ∈ t.takeWhile p) :
    p c :=
  List.all_eq_true.mp List.all_takeWhile c hc

/-- A comment is opened here that is closed nowhere. -/
def IsUnclosed (t : Text) : Prop := ∃ u, t = '/' :: '*' :: u ∧ blockCommentRest? u = none

/-! ## Places along a gap -/

namespace Place

theorem along_eq_past (p : Place) {t : Text} (ht : ∀ c ∈ t, isLineTerminator c = false) :
    p.along t = p.past t := by
  induction t generalizing p with
  | nil => exact p.along_nil
  | cons c t ih =>
      have hc : isLineTerminator c = false := ht c (by simp)
      rw [past, ← ih _ fun d hd => ht d (by simp [hd]), step, hc, Bool.false_and,
        if_neg Bool.false_ne_true]
      exact p.along_append [c] t

/-- A line end is cut in two between two texts. -/
def CutsLineEnd (s t : Text) : Prop := s.getLast? = some '\r' ∧ t.head? = some '\n'

theorem not_cutsLineEnd_of_append {s t u : Text} (h : ¬CutsLineEnd s (t ++ u)) :
    ¬CutsLineEnd s t := by
  rintro ⟨hs, ht⟩
  refine h ⟨hs, ?_⟩
  rw [List.head?_append, ht, Option.some_or]

theorem not_cutsLineEnd_append {s t u : Text} (h : ¬CutsLineEnd s (t ++ u))
    (ht : ¬CutsLineEnd t u) : ¬CutsLineEnd (s ++ t) u := by
  rintro ⟨hlast, hu⟩
  rw [List.getLast?_append] at hlast
  cases hlast' : t.getLast? with
  | some c =>
      rw [hlast', Option.some_or] at hlast
      exact ht ⟨hlast'.trans hlast, hu⟩
  | none =>
      rw [hlast', Option.none_or] at hlast
      rw [List.getLast?_eq_none_iff.mp hlast', List.nil_append] at h
      exact h ⟨hlast, hu⟩

theorem past_append (p : Place) {s t : Text} (h : ¬CutsLineEnd s t) :
    p.past (s ++ t) = (p.past s).past t := by
  induction s generalizing p with
  | nil => rfl
  | cons c s ih =>
      rw [List.cons_append, past, past]
      cases s with
      | cons d s =>
          refine ih _ fun hcut => h ?_
          simpa [CutsLineEnd, List.getLast?_cons_cons] using hcut
      | nil =>
          have hstep : p.step c t.head? = p.step c none := by
            have hc : ¬(c = '\r' ∧ t.head? = some '\n') := by
              rintro ⟨rfl, ht⟩
              exact h ⟨rfl, ht⟩
            have hcut : (decide (c = '\r') && decide (t.head? = some '\n')) = false := by
              simpa using hc
            rw [step, step, hcut]
            simp
          rw [List.nil_append, hstep]
          rfl

end Place

/-- Whether a line ends in a piece of a gap shows in its text. -/
theorem Trivia.Fits.endsLine_eq {piece : Trivia} {r : Text} (h : piece.Fits r) :
    piece.endsLine = piece.text.any isLineTerminator := by
  cases piece with
  | blank c =>
      have hc : isLineTerminator c = false := isLineTerminator_of_isBlank h
      simp [Trivia.endsLine, Trivia.text, hc]
  | newlines c more =>
      have hc : isLineTerminator c = true := h.1
      simp [Trivia.endsLine, Trivia.text, hc]
  | line body =>
      have hbody : body.any isLineTerminator = false := by
        simpa using h.1
      simp [Trivia.endsLine, Trivia.text, hbody, isLineTerminator_slash]
  | block body =>
      have hstar : isLineTerminator '*' = false := by decide
      simp [Trivia.endsLine, Trivia.text, isLineTerminator_slash, hstar]

theorem Gap.Fits.endsLine_eq {g : Gap} {r : Text} (h : g.Fits r) :
    g.endsLine = (Gap.text g).any isLineTerminator := by
  induction g with
  | nil => rfl
  | cons piece g ih =>
      rw [Gap.endsLine_cons, Gap.text_cons, List.any_append, h.1.endsLine_eq, ih h.2]

/-- No piece of a gap ends between a carriage return and its line feed. -/
theorem Trivia.Fits.not_cutsLineEnd {piece : Trivia} {t : Text} (h : piece.Fits t) :
    ¬Place.CutsLineEnd piece.text t := by
  rintro ⟨hlast, hhead⟩
  cases piece with
  | blank c =>
      obtain rfl : c = '\r' := by simpa [text] using hlast
      exact absurd (show isBlank '\r' from h) (by decide)
  | newlines c more => exact absurd (h.2.2 '\n' hhead) (by decide)
  | line body =>
      have hmem : '\r' ∈ '/' :: '/' :: body := List.mem_of_getLast? hlast
      have hbody : '\r' ∈ body := by simpa using hmem
      exact absurd (h.1 '\r' hbody) (by decide)
  | block body =>
      have htext : (block body).text = ('/' :: '*' :: body ++ ['*']) ++ ['/'] := by simp [text]
      rw [htext, List.getLast?_concat] at hlast
      exact absurd hlast (by decide)

/-- No gap ends there. -/
theorem Gap.Fits.not_cutsLineEnd {g : Gap} {t : Text} (h : g.Fits t) :
    ¬Place.CutsLineEnd g.text t := by
  induction g with
  | nil => exact fun h => nomatch h.1
  | cons piece g ih =>
      rw [text_cons]
      exact Place.not_cutsLineEnd_append h.1.not_cutsLineEnd (ih h.2)

namespace Scanner

variable {s : Scanner} {c : Char} {t : Text}

/-! ## Skipping one piece -/

theorem skipGap_settled (newline : Bool) (h : isSettled s.rest) :
    skipGap newline s = .ok newline s := by
  rw [skipGap]
  split
  · rfl
  · next hr => simp [hr, isSettled] at h
  · next hr => simp [hr, isSettled] at h
  · next hr =>
      simp only [hr, isSettled, Bool.and_eq_true, Bool.not_eq_true'] at h
      simp only [h.1.2, h.2, Bool.false_eq_true, if_false]

theorem skipGap_cons (newline : Bool) (hr : s.rest = c :: t) (hc : c ≠ '/') : skipGap newline s =
    if isBlank c then skipGap newline (s.skipAlong [c])
    else if isLineTerminator c then
      skipGap true (s.skipPast (c :: t.takeWhile isLineTerminator))
    else .ok newline s := by
  rw [skipGap]
  split
  · next h => exact absurd (hr.symm.trans h) (List.cons_ne_nil _ _)
  · next h => exact absurd (List.cons.inj (hr.symm.trans h)).1 hc
  · next h => exact absurd (List.cons.inj (hr.symm.trans h)).1 hc
  · next h =>
      obtain ⟨rfl, rfl⟩ := List.cons.inj (hr.symm.trans h)
      rfl

theorem skipGap_slashes (newline : Bool) (hr : s.rest = '/' :: '/' :: t) :
    skipGap newline s = skipGap newline
      ((s.record .line (lineCommentRest t)).skipAlong ('/' :: '/' :: lineCommentRest t)) := by
  rw [skipGap]
  split
  · next h => exact absurd (hr.symm.trans h) (List.cons_ne_nil _ _)
  · next h =>
      obtain ⟨-, h⟩ := List.cons.inj (hr.symm.trans h)
      obtain ⟨-, rfl⟩ := List.cons.inj h
      rfl
  · next h =>
      obtain ⟨-, h⟩ := List.cons.inj (hr.symm.trans h)
      exact absurd (List.cons.inj h).1 (by decide)
  · next hne _ h =>
      obtain ⟨rfl, rfl⟩ := List.cons.inj (hr.symm.trans h)
      exact absurd rfl (hne _ rfl)

theorem skipGap_slashStar (newline : Bool) (hr : s.rest = '/' :: '*' :: t) : skipGap newline s =
    match blockCommentRest? t with
    | none => .error ⟨.lexical .unterminatedComment s.rest, s.place⟩ (s.skipAlong s.rest)
    | some body => skipGap (newline || body.any isLineTerminator)
        ((s.record .block body).skipPast ('/' :: '*' :: body ++ ['*', '/'])) := by
  rw [skipGap]
  split
  · next h => exact absurd (hr.symm.trans h) (List.cons_ne_nil _ _)
  · next h =>
      obtain ⟨-, h⟩ := List.cons.inj (hr.symm.trans h)
      exact absurd (List.cons.inj h).1 (by decide)
  · next h =>
      obtain ⟨-, h⟩ := List.cons.inj (hr.symm.trans h)
      obtain ⟨-, rfl⟩ := List.cons.inj h
      rfl
  · next hne h =>
      obtain ⟨rfl, rfl⟩ := List.cons.inj (hr.symm.trans h)
      exact absurd rfl (hne _ rfl)

theorem skipGap_blank (newline : Bool) (hr : s.rest = c :: t) (hc : isBlank c) :
    skipGap newline s = skipGap newline (s.skipAlong [c]) := by
  have hne : c ≠ '/' := by
    rintro rfl
    rw [isBlank_slash] at hc
    cases hc
  rw [skipGap_cons newline hr hne, if_pos hc]

theorem skipGap_newlines {more : Text} (newline : Bool) (hr : s.rest = c :: (more ++ t))
    (hc : isLineTerminator c) (hmore : ∀ d ∈ more, isLineTerminator d)
    (ht : ∀ d ∈ t.head?, isLineTerminator d = false) :
    skipGap newline s = skipGap true (s.skipPast (c :: more)) := by
  have hne : c ≠ '/' := by
    rintro rfl
    rw [isLineTerminator_slash] at hc
    cases hc
  rw [skipGap_cons newline hr hne, isBlank_of_isLineTerminator hc, if_neg Bool.false_ne_true,
    if_pos hc, takeWhile_append_eq hmore ht]

theorem skipGap_line {body : Text} (newline : Bool) (hr : s.rest = '/' :: '/' :: (body ++ t))
    (hbody : ∀ d ∈ body, isLineTerminator d = false) (ht : ∀ d ∈ t.head?, isLineTerminator d) :
    skipGap newline s =
      skipGap newline ((s.record .line body).skipAlong ('/' :: '/' :: body)) := by
  have hrun : lineCommentRest (body ++ t) = body :=
    takeWhile_append_eq (by simpa using hbody) (by simpa using ht)
  rw [skipGap_slashes newline hr, hrun]

theorem skipGap_block {body : Text} (newline : Bool)
    (hr : s.rest = '/' :: '*' :: (body ++ '*' :: '/' :: t))
    (hbody : blockCommentRest? (body ++ '*' :: '/' :: t) = some body) :
    skipGap newline s = skipGap (newline || body.any isLineTerminator)
      ((s.record .block body).skipPast ('/' :: '*' :: body ++ ['*', '/'])) := by
  rw [skipGap_slashStar newline hr, hbody]

/-! ## Skipping a gap -/

/-- The scanner behind a gap, with a text before it. -/
def behind (s : Scanner) (g : Gap) (t : Text) : Scanner :=
  { s with
    rest := t
    place := s.place.past g.text
    comments := (g.placed s.place.offset).reverse ++ s.comments }

@[simp] theorem source_behind (s : Scanner) (g : Gap) (t : Text) :
    (s.behind g t).source = s.source := rfl

@[simp] theorem rest_behind (s : Scanner) (g : Gap) (t : Text) : (s.behind g t).rest = t := rfl

@[simp] theorem offset_behind (s : Scanner) (g : Gap) (t : Text) :
    (s.behind g t).place.offset = s.place.offset + g.text.size :=
  Place.offset_past _ _

theorem behind_nil (s : Scanner) : s.behind [] s.rest = s := rfl

/-- A gap is skipped piece by piece. -/
theorem behind_cons (s : Scanner) {piece : Trivia} {g : Gap} (hp : piece.Fits (g.text ++ t)) :
    (s.behind [piece] (g.text ++ t)).behind g t = s.behind (piece :: g) t := by
  have hcut : ¬Place.CutsLineEnd piece.text g.text :=
    Place.not_cutsLineEnd_of_append hp.not_cutsLineEnd
  simp [behind, Gap.placed, Place.past_append _ hcut]

theorem skipGap_piece {piece : Trivia} (newline : Bool) (hr : s.rest = piece.text ++ t)
    (hp : piece.Fits t) :
    skipGap newline s = skipGap (newline || piece.endsLine) (s.behind [piece] t) := by
  cases piece with
  | blank c =>
      have hplace : s.place.along [c] = s.place.past [c] := by
        refine Place.along_eq_past _ fun d hd => ?_
        rw [List.mem_singleton.mp hd]
        exact isLineTerminator_of_isBlank hp
      have hskip : s.skipAlong [c] = s.behind [.blank c] t := by
        simp [skipAlong, behind, hplace, hr, Trivia.text, Trivia.comment?, Gap.placed]
      rw [skipGap_blank newline hr hp, hskip, Trivia.endsLine, Bool.or_false]
  | newlines c more =>
      have hskip : s.skipPast (c :: more) = s.behind [.newlines c more] t := by
        simp [skipPast, behind, hr, Trivia.text, Trivia.comment?, Gap.placed]
      rw [skipGap_newlines newline hr hp.1 hp.2.1 hp.2.2, hskip, Trivia.endsLine, Bool.or_true]
  | line body =>
      have hplace : s.place.along ('/' :: '/' :: body) = s.place.past ('/' :: '/' :: body) := by
        refine Place.along_eq_past _ fun d hd => ?_
        simp only [List.mem_cons] at hd
        obtain rfl | rfl | hd := hd
        · exact isLineTerminator_slash
        · exact isLineTerminator_slash
        · exact hp.1 d hd
      have hskip : (s.record .line body).skipAlong ('/' :: '/' :: body) =
          s.behind [.line body] t := by
        simp [skipAlong, record, behind, hplace, hr, Trivia.text, Trivia.comment?, Gap.placed]
      rw [skipGap_line newline hr hp.1 hp.2, hskip, Trivia.endsLine, Bool.or_false]
  | block body =>
      have hr' : s.rest = '/' :: '*' :: (body ++ '*' :: '/' :: t) := by
        simpa [Trivia.text] using hr
      have hb : blockCommentRest? (body ++ '*' :: '/' :: t) = some body := by
        have := blockCommentRest?_append hp t
        simpa using this
      have hskip : (s.record .block body).skipPast ('/' :: '*' :: body ++ ['*', '/']) =
          s.behind [.block body] t := by
        simp [skipPast, record, behind, hr', Trivia.text, Trivia.comment?, Gap.placed]
      rw [skipGap_block newline hr' hb, hskip, Trivia.endsLine]

/-- The scanner skips a gap that fits before a text, and goes on with the text. -/
theorem skipGap_append {g : Gap} (newline : Bool) (hr : s.rest = g.text ++ t) (hg : g.Fits t) :
    skipGap newline s = skipGap (newline || g.endsLine) (s.behind g t) := by
  induction g generalizing s newline with
  | nil =>
      obtain rfl : s.rest = t := hr
      rw [Gap.endsLine_nil, Bool.or_false, behind_nil]
  | cons piece g ih =>
      rw [Gap.text_cons, List.append_assoc] at hr
      rw [skipGap_piece newline hr hg.1, ih _ rfl hg.2, behind_cons s hg.1, Gap.endsLine_cons,
        Bool.or_assoc]

/-- The scanner skips a gap that fits before a settled text. -/
theorem skipGap_of_fits {g : Gap} (newline : Bool) (hr : s.rest = g.text ++ t)
    (hg : g.Fits t) (ht : isSettled t) :
    skipGap newline s = .ok (newline || g.endsLine) (s.behind g t) := by
  rw [skipGap_append newline hr hg, skipGap_settled _ ht]

/-- The scanner fails at a comment that is not closed. -/
theorem skipGap_unclosed (newline : Bool) (hr : s.rest = '/' :: '*' :: t)
    (ht : blockCommentRest? t = none) : skipGap newline s =
      .error ⟨.lexical .unterminatedComment s.rest, s.place⟩ (s.skipAlong s.rest) := by
  rw [skipGap_slashStar newline hr, ht]

theorem gap_cons (piece : Trivia) {u : Text} (hp : piece.Fits u)
    (h : ∃ (g : Gap) (t : Text), u = g.text ++ t ∧ g.Fits t ∧ (isSettled t ∨ IsUnclosed t)) :
    ∃ (g : Gap) (t : Text), piece.text ++ u = g.text ++ t ∧ g.Fits t ∧
      (isSettled t ∨ IsUnclosed t) := by
  obtain ⟨g, t, rfl, hg, ht⟩ := h
  refine ⟨piece :: g, t, ?_, ⟨hp, hg⟩, ht⟩
  rw [Gap.text_cons, List.append_assoc]

/-- A text starts with a gap that fits before a settled text or before a comment that is not
closed. -/
theorem exists_cut (newline : Bool) (s : Scanner) : ∃ (g : Gap) (t : Text),
    s.rest = g.text ++ t ∧ g.Fits t ∧ (isSettled t ∨ IsUnclosed t) := by
  fun_induction skipGap newline s with
  | case1 newline s hr => exact ⟨[], [], hr, trivial, .inl rfl⟩
  | case2 newline s t hr body ih =>
      have htake : body ++ t.dropWhile (!isLineTerminator ·) = t :=
        List.takeWhile_append_dropWhile
      have hrest : ((s.record .line body).skipAlong ('/' :: '/' :: body)).rest =
          t.dropWhile (!isLineTerminator ·) := by
        simp only [rest_skipAlong, rest_record, hr, List.length_cons, List.drop_succ_cons]
        exact drop_takeWhile _ t
      rw [hr, ← htake]
      refine gap_cons (.line body) ⟨?_, ?_⟩ (hrest ▸ ih)
      · intro d hd
        simpa using of_mem_takeWhile hd
      · intro d hd
        have := List.head?_dropWhile_not (fun c => !isLineTerminator c) t
        rw [hd] at this
        simpa using this
  | case3 newline s t hr ht => exact ⟨[], s.rest, rfl, trivial, .inr ⟨t, hr, ht⟩⟩
  | case4 newline s t hr body hbody ih =>
      obtain ⟨r, rfl, hb⟩ := blockCommentRest?_split hbody
      have hrest : ((s.record .block body).skipPast ('/' :: '*' :: body ++ ['*', '/'])).rest =
          r := by
        simp [hr]
      have htext : '/' :: '*' :: (body ++ '*' :: '/' :: r) = (Trivia.block body).text ++ r := by
        simp [Trivia.text]
      rw [hr, htext]
      exact gap_cons (.block body) hb (hrest ▸ ih)
  | case5 newline s c t _ _ hr hc ih =>
      have hrest : (s.skipAlong [c]).rest = t := by simp [hr]
      rw [hr]
      exact gap_cons (.blank c) hc (hrest ▸ ih)
  | case6 newline s c t _ _ hr hb hc ih =>
      have htake : t.takeWhile isLineTerminator ++ t.dropWhile isLineTerminator = t :=
        List.takeWhile_append_dropWhile
      have hrest : (s.skipPast (c :: t.takeWhile isLineTerminator)).rest =
          t.dropWhile isLineTerminator := by
        simp only [rest_skipPast, hr, List.length_cons, List.drop_succ_cons]
        exact drop_takeWhile _ t
      have htext : c :: t =
          (Trivia.newlines c (t.takeWhile isLineTerminator)).text ++
            t.dropWhile isLineTerminator := by
        rw [Trivia.text, List.cons_append, htake]
      rw [hr, htext]
      refine gap_cons _ ⟨hc, fun d hd => of_mem_takeWhile hd, fun d hd => ?_⟩ (hrest ▸ ih)
      have := List.head?_dropWhile_not isLineTerminator t
      rw [hd] at this
      simpa using this
  | case7 newline s c t h₁ h₂ hr hb hc =>
      refine ⟨[], s.rest, rfl, trivial, .inl ?_⟩
      rw [hr]
      have hslash : (c = '/' && (t.head? = some '/' || t.head? = some '*')) = false := by
        rw [Bool.eq_false_iff]
        intro hs
        simp only [Bool.and_eq_true, Bool.or_eq_true, decide_eq_true_eq] at hs
        obtain ⟨hs, ht | ht⟩ := hs
        · obtain ⟨u, rfl⟩ := List.head?_eq_some_iff.mp ht
          exact h₁ u hs rfl
        · obtain ⟨u, rfl⟩ := List.head?_eq_some_iff.mp ht
          exact h₂ u hs rfl
      simp [isSettled, hslash, hb, hc]

/-- Whatever the scanner skips is a gap that fits before a settled text. -/
theorem exists_gap {newline b : Bool} {s s' : Scanner} (h : skipGap newline s = .ok b s') :
    ∃ (g : Gap) (t : Text), s.rest = g.text ++ t ∧ g.Fits t ∧ isSettled t := by
  obtain ⟨g, t, hr, hg, ht | ⟨u, rfl, hu⟩⟩ := exists_cut newline s
  · exact ⟨g, t, hr, hg, ht⟩
  · rw [skipGap_append newline hr hg, skipGap_unclosed _ (rest_behind ..) hu] at h
    cases h

end Scanner

end EcmaSyntax
