import EcmaSyntax.Proofs.Increments
import EcmaSyntax.Proofs.Layout
import EcmaSyntax.Proofs.WrittenSemicolons

/-!
# Where a line may end

**Input.**  A source, what happened in a successful run on it, and a token that the run has taken.

**Results.**
* `countP_consumed`: a run takes as many increments as there are in its program.
* `lineBreak_transparent`: a line may end in front of the token, unless the token before it is a
  keyword at which no line may end, or the token itself is an increment after its operand.
* `lineBreak_transparent_fails_for_keys`: a keyword that names a property is such a keyword too,
  unless a point stands in front of it.

The keyword is told from the name by the token before it alone.  A name in an object literal follows
a brace, a comma, `get` or `set`, so it is taken for the keyword.
-/

namespace EcmaSyntax

/-- A text in which a line ends at an offset. -/
def breakLine (offset : Nat) (source : Text) : Text :=
  source.takeBytes offset ++ '\n' :: source.dropBytes offset

theorem breakLine_append (before t : Text) :
    breakLine before.size (before ++ t) = before ++ '\n' :: t := by
  rw [breakLine, Text.takeBytes_size, Text.dropBytes_size]

/-- For each increment in a program, in the order of the source, whether it stands after its
operand. -/
def Program.increments (p : Program) : List Bool := (Node.program p).increments

/-- Whether a token is an increment that stands after its operand, given the tokens before it. -/
def Program.postfixAt (p : Program) (earlier : List TokenKind) (kind : TokenKind) : Bool :=
  isIncrement kind && p.increments[earlier.countP isIncrement]? = some true

theorem Program.increments_eq (p : Program) : p.increments = incrementsOf (p.body.map .statement) :=
  Node.increments_eq nofun

/-- The kind of a token, and where it starts. -/
def spotOf (k : TokenKind) (_ : Text) (start : Nat) : TokenKind × Nat := (k, start)

/-- What a token is, and where. -/
def Token.spot (t : Token) : TokenKind × Nat := spotOf t.kind t.text t.place.offset

theorem kinds_spots (tokens : List Token) :
    (tokens.map Token.spot).map Prod.fst = tokens.map (·.kind) := by
  rw [List.map_map]
  rfl

/-! ## Gaps -/

namespace Gap

/-- A gap behind line terminators. -/
def behindLines (c : Char) (more : Text) : Gap → Gap
  | .newlines c' more' :: g => .newlines c (more ++ c' :: more') :: g
  | g => .newlines c more :: g

/-- Two gaps with the end of a line between them. -/
def join : Gap → Gap → Gap
  | [], g' => behindLines '\n' [] g'
  | [.newlines c more], g' => behindLines c (more ++ ['\n']) g'
  | piece :: g, g' => piece :: join g g'

variable {g g' : Gap} {c : Char} {more r : Text}

theorem eq_nil_of_text (h : text g = []) : g = [] := by
  cases g with
  | nil => rfl
  | cons piece g => cases piece <;> cases h

theorem text_behindLines (c : Char) (more : Text) (g : Gap) :
    text (behindLines c more g) = c :: (more ++ text g) := by
  unfold behindLines
  split
  · simp [Trivia.text]
  · rfl

theorem comments_behindLines (c : Char) (more : Text) (g : Gap) :
    (behindLines c more g).comments = g.comments := by
  unfold behindLines
  split <;> rfl

theorem endsLine_behindLines (c : Char) (more : Text) (g : Gap) :
    (behindLines c more g).endsLine = true := by
  unfold behindLines
  split <;> rfl

theorem Fits.behindLines (hg : g.Fits r) (hr : ∀ d ∈ r.head?, isLineTerminator d = false)
    (hc : isLineTerminator c) (hmore : ∀ d ∈ more, isLineTerminator d) :
    (Gap.behindLines c more g).Fits r := by
  unfold Gap.behindLines
  split
  · obtain ⟨⟨hc', hmore', hnext⟩, hg⟩ := hg
    have hchars := List.forall_mem_append.mpr ⟨hmore, List.forall_mem_cons.mpr ⟨hc', hmore'⟩⟩
    exact ⟨⟨hc, hchars, hnext⟩, hg⟩
  · rename_i hne
    refine ⟨⟨hc, hmore, ?_⟩, hg⟩
    cases g with
    | nil => exact hr
    | cons piece g =>
        cases piece with
        | blank d => exact fun d' hd => Option.some.inj hd ▸ isLineTerminator_of_isBlank hg.1
        | newlines d more' => exact absurd rfl (hne d more' g)
        | line => exact fun d hd => Option.some.inj hd ▸ isLineTerminator_slash
        | block => exact fun d hd => Option.some.inj hd ▸ isLineTerminator_slash

theorem text_join (g g' : Gap) : text (join g g') = text g ++ '\n' :: text g' := by
  fun_induction join g g' with
  | case1 => rw [text_behindLines]; rfl
  | case2 => rw [text_behindLines]; simp [Trivia.text]
  | case3 piece g g' hne ih => rw [text_cons, ih, text_cons, List.append_assoc]

theorem comments_join (g g' : Gap) : (join g g').comments = g.comments ++ g'.comments := by
  fun_induction join g g' with
  | case1 => exact comments_behindLines _ _ _
  | case2 => exact comments_behindLines _ _ _
  | case3 piece g g' hne ih => rw [comments_cons, ih, comments_cons, List.append_assoc]

theorem endsLine_join (g g' : Gap) : (join g g').endsLine = true := by
  fun_induction join g g' with
  | case1 => exact endsLine_behindLines _ _ _
  | case2 => exact endsLine_behindLines _ _ _
  | case3 piece g g' hne ih => rw [endsLine_cons, ih, Bool.or_true]

/-- A gap fits at the end of the input if it fits before some text. -/
theorem Fits.atEnd (h : g.Fits r) : g.Fits [] := by
  induction g with
  | nil => trivial
  | cons piece g ih =>
      refine ⟨?_, ih h.2⟩
      cases hg : Gap.text g with
      | cons => exact h.1.congr (by rw [hg]; rfl)
      | nil =>
          cases piece with
          | blank => exact h.1
          | newlines => exact ⟨h.1.1, h.1.2.1, fun _ => nofun⟩
          | line => exact ⟨h.1.1, fun _ => nofun⟩
          | block => exact h.1

theorem Fits.join (hg : g.Fits []) (hg' : g'.Fits r)
    (hr : ∀ d ∈ r.head?, isLineTerminator d = false) : (Gap.join g g').Fits r := by
  have hbreak : isLineTerminator '\n' := by decide
  fun_induction Gap.join g g' with
  | case1 => exact hg'.behindLines hr hbreak (fun _ => nofun)
  | case2 c more =>
      obtain ⟨⟨hc, hmore, -⟩, -⟩ := hg
      exact hg'.behindLines hr hc
        (List.forall_mem_append.mpr ⟨hmore, List.forall_mem_singleton.mpr hbreak⟩)
  | case3 piece g g' hne ih =>
      refine ⟨?_, ih hg.2 hg'⟩
      rw [text_join]
      cases hg₀ : Gap.text g with
      | cons c t =>
          refine hg.1.congr ?_
          rw [hg₀]
          rfl
      | nil =>
          -- the piece is the last one and no run of line terminators
          obtain rfl := eq_nil_of_text hg₀
          cases piece with
          | blank => exact hg.1
          | newlines c more => exact absurd rfl (hne c more rfl)
          | line => exact ⟨hg.1.1, fun d hd => by cases hd; exact hbreak⟩
          | block => exact hg.1

/-- A gap at whose end a line ends. -/
def endLine : Gap → Gap
  | [] => [.newlines '\n' []]
  | [.newlines c more] => [.newlines c (more ++ ['\n'])]
  | piece :: g => piece :: endLine g

theorem join_nil (g : Gap) : join g [] = endLine g := by
  fun_induction endLine g with
  | case1 => rfl
  | case2 => rfl
  | case3 piece g hne ih => rw [join.eq_3 _ _ _ hne, ih]

theorem text_endLine (g : Gap) : text (endLine g) = text g ++ ['\n'] := by
  rw [← join_nil, text_join, text_nil]

theorem endsLine_endLine (g : Gap) : (endLine g).endsLine = true := by
  rw [← join_nil, endsLine_join]

theorem Fits.endLine (h : g.Fits r) (hr : ∀ d ∈ r.head?, isLineTerminator d = false) :
    (Gap.endLine g).Fits r := by
  rw [← join_nil]
  exact h.atEnd.join trivial hr

theorem comments_endLine (g : Gap) : (endLine g).comments = g.comments := by
  rw [← join_nil, comments_join]
  exact List.append_nil _

end Gap

/-! ## Sites -/

namespace Site

/-- A site where a line ends in front of the token. -/
def broken (p : Site) : Site := p.withGap p.gap.endLine

variable {p : Site}

theorem all_broken (p : Site) : p.broken.all = p.gap.text ++ '\n' :: (p.text ++ p.rest) := by
  show Gap.text p.gap.endLine ++ (p.text ++ p.rest) = _
  rw [Gap.text_endLine, List.append_assoc]
  rfl

theorem newline_broken (p : Site) : p.broken.newline = true := Gap.endsLine_endLine p.gap

theorem kindHere_broken (p : Site) :
    p.broken.kindHere = Scanner.kindAfterGap true p.kindHere := by
  rw [kindHere, newline_broken, kindHere]
  show Scanner.kindAfterGap true p.kind = _
  cases p.newline <;> cases p.kind <;> rfl

/-- A token that is no increment is the same on a new line. -/
theorem kindHere_broken_eq (h : isIncrement p.kindHere = false) :
    p.broken.kindHere = p.kindHere := by
  rw [kindHere_broken]
  generalize p.kindHere = k at h
  cases k <;> first | rfl | cases h

/-- No token starts with a line terminator. -/
theorem Valid.head (hp : p.Valid) : ∀ d ∈ (p.text ++ p.rest).head?, isLineTerminator d = false := by
  intro d hd
  have hsettled := hp.settled
  obtain ⟨t, ht⟩ := List.head?_eq_some_iff.mp hd
  rw [ht, isSettled] at hsettled
  simpa using (Bool.and_eq_true_iff.mp hsettled).2

theorem Valid.broken (hp : p.Valid) : p.broken.Valid :=
  ⟨hp.fits.endLine hp.head, hp.settled, hp.token⟩

theorem startsLike_broken (p : Site) : StartsLike p.all p.broken.all := by
  rw [all_broken]
  cases hg : Gap.text p.gap with
  | nil => exact .inr (.inr (.inr rfl))
  | cons c t =>
      refine .inl ?_
      rw [Site.all, hg]
      rfl

theorem breakLine_broken (before : Text) (p : Site) :
    breakLine (p.start before.size) (before ++ p.all) = before ++ p.broken.all := by
  have h := breakLine_append (before ++ p.gap.text) (p.text ++ p.rest)
  rwa [Text.size_append, List.append_assoc, List.append_assoc, ← all_broken] at h

end Site

namespace Parser

open TokenStream (isRestrictedKeyword)

/-- What a source spells does not depend on where it stands. -/
theorem Spells.shift {o : Nat} {bare claimed : Bool} {p : Site} {its : List Item}
    {marks : List Mark} (h : Spells o bare claimed p its marks) (o' : Nat) :
    ∃ marks', Spells o' bare claimed p its marks' := by
  induction h generalizing o' with
  | stop hp hb hk => exact ⟨_, .stop hp hb hk⟩
  | taken hp hb hk hall _ ih => exact ⟨_, .taken hp hb hk hall (ih _).choose_spec⟩
  | member hp hb hk hall hq hname halln _ ih =>
      exact ⟨_, .member hp hb hk hall hq hname halln (ih _).choose_spec⟩
  | literal hp hb hk htext hbody hall _ ih =>
      exact ⟨_, .literal hp hb hk htext hbody hall (ih _).choose_spec⟩
  | ended hp hb hk hall _ ih => exact ⟨_, .ended hp hb hk hall (ih _).choose_spec⟩
  | early hb _ ih => exact ⟨_, .early hb (ih _).choose_spec⟩
  | inserted hb hk ha _ ih => exact ⟨_, .inserted hb hk ha (ih _).choose_spec⟩
  | comments _ ih => exact ⟨_, .comments (ih _).choose_spec⟩

/-! ## One break -/

theorem isIncrement_of_isIdentifierName {k : TokenKind} (h : k.isIdentifierName) :
    isIncrement k = false := by
  cases k <;> first | rfl | cases h

theorem kindAfterGap_false (k : TokenKind) : Scanner.kindAfterGap false k = k := by
  cases k <;> rfl

/-- The marks of some items start with that of the first one, if it is an increment. -/
theorem Breaks.exists_cons {marks : List Bool} {it : Item} {its : List Item}
    (h : marks.length = (it :: its).countP Item.isIncrement) : ∃ own rest,
      marks = own ++ rest ∧ own.length = [it].countP Item.isIncrement ∧
        rest.length = its.countP Item.isIncrement ∧
        ∀ its', Breaks rest its its' → Breaks marks (it :: its) (it :: its') := by
  by_cases hit : it.isIncrement
  · rw [List.countP_cons_of_pos hit] at h
    obtain ⟨b, rest, rfl⟩ := List.exists_cons_of_length_eq_add_one h
    refine ⟨[b], rest, rfl, by simp [hit], Nat.succ.inj h, fun its' hits => ?_⟩
    cases it with
    | taken k t =>
        have hbreak : Breaks (b :: rest) (.taken k t :: its)
            (.taken (Scanner.kindAfterGap false k) t :: its') := .increment false hit nofun hits
        rwa [kindAfterGap_false] at hbreak
    | _ => cases hit
  · rw [List.countP_cons_of_neg hit] at h
    exact ⟨[], marks, rfl, by simp [hit], h, fun its' => .kept (Bool.eq_false_iff.mpr hit)⟩

/-- Lines need not end anywhere. -/
theorem Breaks.refl {marks : List Bool} {its : List Item}
    (h : marks.length = its.countP Item.isIncrement) : Breaks marks its its := by
  induction its generalizing marks with
  | nil =>
      rw [List.eq_nil_of_length_eq_zero h]
      exact .nil
  | cons it its ih =>
      obtain ⟨own, rest, -, -, hrest, hcons⟩ := Breaks.exists_cons h
      exact hcons its (ih hrest)

/-- A line ends in front of one token of some items, unless the token is an increment that stands
after its operand.  It has some kind, and a number of increments come before it. -/
def BreaksBefore (k : TokenKind) (n : Nat) (its its' : List Item) : Prop :=
  ∀ marks : List Bool, marks.length = its.countP Item.isIncrement →
    (isIncrement k → marks[n]? ≠ some true) → Breaks marks its its'

namespace BreaksBefore

variable {k : TokenKind} {n : Nat} {its its' : List Item}

theorem refl : BreaksBefore k n its its := fun _ h _ => .refl h

theorem first (k : TokenKind) (t : Text) (its : List Item) :
    BreaksBefore k 0 (.taken k t :: its) (.taken (Scanner.kindAfterGap true k) t :: its) := by
  intro marks hmarks hk
  by_cases hinc : isIncrement k
  · have hit : (Item.taken k t).isIncrement := hinc
    rw [List.countP_cons_of_pos hit] at hmarks
    obtain ⟨b, rest, rfl⟩ := List.exists_cons_of_length_eq_add_one hmarks
    refine .increment true hinc (fun _ => ?_) (.refl (Nat.succ.inj hmarks))
    simpa using hk hinc
  · have hsame : Scanner.kindAfterGap true k = k := by
      cases k <;> first | rfl | exact absurd rfl hinc
    rw [hsame]
    exact .refl hmarks

theorem cons (it : Item) (h : BreaksBefore k n its its') :
    BreaksBefore k ([it].countP Item.isIncrement + n) (it :: its) (it :: its') := by
  intro marks hmarks hk
  obtain ⟨own, rest, rfl, hown, hrest, hcons⟩ := Breaks.exists_cons hmarks
  refine hcons its' (h rest hrest fun hinc => ?_)
  have hrest := hk hinc
  rwa [← hown, List.getElem?_append_right (Nat.le_add_right _ _), Nat.add_sub_cancel_left] at hrest

theorem kept {it : Item} (hit : it.isIncrement = false) (h : BreaksBefore k n its its') :
    BreaksBefore k n (it :: its) (it :: its') := by
  have hcons := h.cons it
  rwa [List.countP_singleton, hit, if_neg Bool.false_ne_true, Nat.zero_add] at hcons

end BreaksBefore

/-! ## Tokens of a step -/

/-- The kinds of some tokens and their offsets, given where the first one starts and where the last
one ends. -/
def Item.spots (start stop : Nat) : Item → List (TokenKind × Nat)
  | .taken k _ => [(k, start)]
  | .member k t => [(.dot, start), (k, stop - t.size)]
  | .literal _ _ => [(.regex, start)]
  | .ended k => [(k, start)]
  | .inserted _ => []
  | .comments _ => []

namespace Passes

variable {o o₁ : Nat} {bare bare₁ : Bool} {p p₁ : Site} {it : Item} {ms : List Mark} {w : Text}

/-- The tokens of a step are those that its marks add. -/
theorem spots (h : Passes o bare p it ms w o₁ bare₁ p₁) (ts : List (TokenKind × Nat)) :
    ms.foldl (Mark.consumeWith spotOf) (ts ++ [(p.kindHere, p.start o)]) =
      ts ++ it.spots (p.start o) o₁ := by
  cases h with
  | taken => rfl
  | member hp hb hk hall hq hname halln =>
      rename_i q
      have hstart : q.stop (p.stop o) - q.text.size = q.start (p.stop o) := Nat.add_sub_cancel _ _
      rw [Site.marks_consume, List.append_assoc, hk, Item.spots, hstart]
      rfl
  | literal =>
      show (ts ++ [(p.kindHere, p.start o)]).dropLast ++ _ = _
      rw [List.dropLast_concat]
      rfl
  | ended _ _ hk =>
      rw [hk]
      rfl

theorem countP_spots (h : Passes o bare p it ms w o₁ bare₁ p₁) (a b : Nat) :
    ((it.spots a b).map Prod.fst).countP isIncrement = [it].countP Item.isIncrement := by
  cases h with
  | taken => rfl
  | member _ _ _ _ _ hname =>
      simp [Item.spots, isIncrement_of_isIdentifierName hname, Item.isIncrement]
      rfl
  | literal => rfl
  | ended => rfl

/-- Where a line may not end after a step, its last token is a keyword that says so. -/
theorem restricted (h : Passes o bare p it ms w o₁ bare₁ p₁) {seen : List TokenKind}
    (hseen : seen.getLast? ≠ some .dot) (a b : Nat) (hbare : bare₁) :
    endsRestricted (seen ++ (it.spots a b).map Prod.fst) := by
  cases h with
  | taken =>
      rw [Item.spots, List.map_singleton, endsRestricted_concat]
      simpa using ⟨hbare, hseen⟩
  | _ => cases hbare

theorem no_point (h : Passes o bare p it ms w o₁ bare₁ p₁) (seen : List TokenKind) (a b : Nat) :
    (seen ++ (it.spots a b).map Prod.fst).getLast? ≠ some .dot := by
  cases h with
  | taken _ _ hk =>
      simp only [Item.spots, List.map_singleton, List.getLast?_concat]
      intro hdot
      rw [Option.some.inj hdot] at hk
      cases hk
  | member hp hb hk hall hq hname halln =>
      rename_i q
      show (seen ++ ([TokenKind.dot] ++ [q.kindHere])).getLast? ≠ some .dot
      rw [← List.append_assoc, List.getLast?_concat]
      intro hdot
      rw [Option.some.inj hdot] at hname
      cases hname
  | literal => simp [Item.spots]
  | ended => simp [Item.spots]

end Passes

/-- A line ends in front of a token of a text.  What the text spells from a site on, it spells from
another site on then. -/
structure LineEnds (o : Nat) (bare claimed : Bool) (p : Site) (its : List Item)
    (earlier : List TokenKind) (u : TokenKind × Nat) (q : Site) (its' : List Item) : Prop where
  kind : q.kind = p.kind
  gap : q.gap = p.gap ∨ earlier = [] ∧ q.gap = p.gap.endLine
  starts : StartsLike p.all q.all
  text : ∀ before : Text, before.size = o → breakLine u.2 (before ++ p.all) = before ++ q.all
  breaks : BreaksBefore u.1 (earlier.countP isIncrement) its its'
  spells : ∀ o', ∃ ms, Spells o' bare claimed q its' ms

namespace LineEnds

variable {o : Nat} {bare claimed : Bool} {p q : Site} {its its' : List Item}
  {earlier : List TokenKind} {u : TokenKind × Nat}

/-- A line ends in front of the first token. -/
theorem first {k : TokenKind} (hbreaks : BreaksBefore k 0 its its')
    (hspells : ∀ o', ∃ ms, Spells o' bare claimed p.broken its' ms) :
    LineEnds o bare claimed p its [] (k, p.start o) p.broken its' := by
  refine ⟨rfl, .inr ⟨rfl, rfl⟩, p.startsLike_broken, ?_, hbreaks, hspells⟩
  rintro before rfl
  exact Site.breakLine_broken before p

theorem comments_eq (h : LineEnds o bare claimed p its earlier u q its') :
    q.gap.comments = p.gap.comments := by
  obtain hgap | ⟨-, hgap⟩ := h.gap
  · rw [hgap]
  · rw [hgap, Gap.comments_endLine]

theorem newline (h : LineEnds o bare claimed p its earlier u q its') (hp : p.newline) :
    q.newline := by
  obtain hgap | ⟨-, hgap⟩ := h.gap
  · rw [Site.newline, hgap]
    exact hp
  · rw [Site.newline, hgap, Gap.endsLine_endLine]

/-- A token in front of which a semicolon may be inserted is the same on a new line. -/
theorem kindHere_eq (h : LineEnds o bare claimed p its earlier u q its') (ha : p.admits) :
    q.kindHere = p.kindHere := by
  obtain hgap | ⟨-, hgap⟩ := h.gap
  · rw [Site.kindHere, Site.newline, hgap, h.kind]
    rfl
  · have hbroken : q.kindHere = Scanner.kindAfterGap true p.kindHere := by
      rw [← Site.kindHere_broken, Site.kindHere, Site.newline, hgap, h.kind]
      rfl
    rw [hbroken]
    simp only [Site.admits, Bool.or_eq_true, decide_eq_true_eq] at ha
    obtain (hnewline | hk) | hk := ha
    · rw [Site.kindHere, hnewline]
      cases p.kind <;> rfl
    · rw [hk]
      rfl
    · rw [hk]
      rfl

theorem admits (h : LineEnds o bare claimed p its earlier u q its') (ha : p.admits) :
    q.admits := by
  have hkind := h.kindHere_eq ha
  simp only [Site.admits, Bool.or_eq_true, decide_eq_true_eq] at ha ⊢
  rw [hkind]
  exact ha.imp_left fun ha => ha.imp_left h.newline

/-- No semicolon is demanded in front of the other site either. -/
theorem not_early (h : LineEnds o false claimed p its earlier u q its')
    (hfirst : earlier = [] → bare = false) (hb : (bare && p.newline) = false) :
    (bare && q.newline) = false := by
  obtain hgap | ⟨hnil, -⟩ := h.gap
  · rw [Site.newline, hgap]
    exact hb
  · rw [hfirst hnil]
    rfl

end LineEnds

theorem singleton_eq_append {α : Type} {x y : α} {xs ys : List α} (h : [x] = xs ++ y :: ys) :
    xs = [] ∧ y = x := by
  cases xs with
  | nil => exact ⟨rfl, (List.cons.inj h).1.symm⟩
  | cons _ xs => simp at h

/-- A line ends in front of a token of a step. -/
theorem Passes.lineEnds {o o₁ : Nat} {bare bare₁ : Bool} {p p₁ : Site} {it : Item}
    {ms marks : List Mark} {w : Text} {its : List Item} {earlier later : List (TokenKind × Nat)}
    {u : TokenKind × Nat} (h : Passes o bare p it ms w o₁ bare₁ p₁)
    (hs : Spells o₁ bare₁ false p₁ its marks) (hu : it.spots (p.start o) o₁ = earlier ++ u :: later)
    (hfirst : earlier = [] → bare = false) (claimed : Bool) :
    ∃ q its', LineEnds o bare claimed p (it :: its) (earlier.map Prod.fst) u q its' := by
  cases h with
  | taken hp hb hk hall =>
      obtain ⟨rfl, rfl⟩ := singleton_eq_append hu
      obtain rfl := hfirst rfl
      have hplain : isPlain p.broken.kindHere := by
        rw [p.kindHere_broken]
        generalize p.kindHere = k at hk
        cases k <;> exact hk
      have hrestricted :
          isRestrictedKeyword p.broken.kindHere = isRestrictedKeyword p.kindHere := by
        rw [p.kindHere_broken]
        cases p.kindHere <;> rfl
      refine ⟨_, _, .first (.first p.kindHere p.text its) fun o' => ?_⟩
      obtain ⟨ms, hs⟩ := hs.shift (p.broken.stop o')
      rw [← hrestricted] at hs
      rw [← p.kindHere_broken]
      exact ⟨_, .taken hp.broken rfl hplain hall hs⟩
  | ended hp hb hk hall =>
      obtain ⟨rfl, rfl⟩ := singleton_eq_append hu
      obtain rfl := hfirst rfl
      have hbroken : p.broken.kindHere = p.kindHere := p.kindHere_broken_eq (by rw [hk]; rfl)
      refine ⟨_, _, .first .refl fun o' => ?_⟩
      exact ⟨_, .ended hp.broken rfl (hbroken.trans hk) hall (hs.shift _).choose_spec⟩
  | literal hp hb hk htext hbody hall =>
      obtain ⟨rfl, rfl⟩ := singleton_eq_append hu
      obtain rfl := hfirst rfl
      have hbroken : p.broken.kindHere = p.kindHere := p.kindHere_broken_eq <| by
        generalize p.kindHere = k at hk
        cases k <;> first | rfl | cases hk
      refine ⟨_, _, .first .refl fun o' => ?_⟩
      obtain ⟨ms, hs⟩ := hs.shift (p.broken.start o' + Text.size _)
      rw [← hbroken] at hk ⊢
      exact ⟨_, .literal hp.broken rfl hk htext hbody hall hs⟩
  | member hp hb hk hall hq hname halln =>
      rename_i q
      have hbrokenq : q.broken.kindHere = q.kindHere :=
        q.kindHere_broken_eq (isIncrement_of_isIdentifierName hname)
      cases earlier with
      | nil =>
          obtain ⟨rfl, -⟩ := List.cons.inj hu
          obtain rfl := hfirst rfl
          have hbroken : p.broken.kindHere = p.kindHere := p.kindHere_broken_eq (by rw [hk]; rfl)
          refine ⟨_, _, .first .refl fun o' => ?_⟩
          exact ⟨_, .member hp.broken rfl (hbroken.trans hk) hall hq hname halln
            (hs.shift _).choose_spec⟩
      | cons x earlier =>
          obtain ⟨rfl, hname'⟩ := List.cons.inj hu
          obtain ⟨rfl, rfl⟩ := singleton_eq_append hname'
          have hend : p.kindHere ≠ .endOfInput := by
            rw [hk]
            exact nofun
          have hstarts : StartsLike p.rest q.broken.all := hall ▸ q.startsLike_broken
          refine ⟨p.withRest q.broken.all, _, rfl, .inl rfl, Site.startsLike_withRest hstarts, ?_,
            .refl, fun o' => ?_⟩
          · rintro before rfl
            have hq' := q.breakLine_broken (before ++ (p.gap.text ++ p.text))
            have hstart : q.stop (p.stop before.size) - q.text.size =
              q.start (p.stop before.size) := Nat.add_sub_cancel _ _
            rw [Site.size_past, hall, List.append_assoc, List.append_assoc] at hq'
            rw [Site.all_withRest]
            show breakLine (q.stop _ - q.text.size)
              (before ++ (p.gap.text ++ (p.text ++ p.rest))) = _
            rw [hstart, hq']
            simp only [List.append_assoc]
          · have hs' : Spells o' bare claimed (p.withRest q.broken.all) _ _ :=
              .member (hp.withRest hend hstarts) hb hk rfl hq.broken (hbrokenq ▸ hname) halln
                (hs.shift _).choose_spec
            rw [hbrokenq] at hs'
            exact ⟨_, hs'⟩

theorem append_eq_append_cons {α : Type} {as bs cs ds : List α} {x : α}
    (h : as ++ bs = cs ++ x :: ds) :
    (∃ t, as = cs ++ x :: t) ∨ ∃ t, cs = as ++ t ∧ bs = t ++ x :: ds := by
  obtain ⟨t, hcs, hbs⟩ | ⟨t, has, hds⟩ := List.append_eq_append_iff.mp h
  · exact .inr ⟨t, hcs, hbs⟩
  · cases t with
    | nil => exact .inr ⟨[], by simp [has], hds.symm⟩
    | cons y t =>
        obtain ⟨rfl, -⟩ := List.cons.inj hds
        exact .inl ⟨t, has⟩

/-- A line may end in front of any of some tokens, given those that come before them, unless the
token before it is a keyword at which no line may end. -/
def Breakable (o : Nat) (bare claimed : Bool) (p : Site) (its : List Item)
    (us : List (TokenKind × Nat)) : Prop :=
  ∀ (seen : List TokenKind) (earlier later : List (TokenKind × Nat)) (u : TokenKind × Nat),
    (bare → endsRestricted seen) → seen.getLast? ≠ some .dot → us = earlier ++ u :: later →
    endsRestricted (seen ++ earlier.map Prod.fst) = false →
    ∃ q its', LineEnds o bare claimed p its (earlier.map Prod.fst) u q its'

namespace Breakable

variable {o : Nat} {bare claimed : Bool} {p : Site} {its : List Item} {marks : List Mark}
  {us : List (TokenKind × Nat)}

/-- At the first token no line is kept from ending. -/
theorem not_bare {seen : List TokenKind} {earlier : List (TokenKind × Nat)}
    (hseen : bare → endsRestricted seen)
    (hkeyword : endsRestricted (seen ++ earlier.map Prod.fst) = false) :
    earlier.map Prod.fst = [] → bare = false := by
  intro hnil
  rw [hnil, List.append_nil] at hkeyword
  refine Bool.eq_false_iff.mpr fun hbare => ?_
  rw [hseen hbare] at hkeyword
  cases hkeyword

theorem stop (hp : p.Valid) (hk : p.kindHere = .endOfInput) :
    Breakable o bare claimed p [] [(.endOfInput, p.start o)] := by
  intro seen earlier later u hseen _ hu hkeyword
  obtain ⟨rfl, rfl⟩ := singleton_eq_append hu
  obtain rfl := not_bare hseen hkeyword rfl
  have hbroken : p.broken.kindHere = .endOfInput := by
    rw [p.kindHere_broken_eq (by rw [hk]; rfl), hk]
  exact ⟨_, _, .first .refl fun o' => ⟨_, .stop hp.broken rfl hbroken⟩⟩

theorem pass {o₁ : Nat} {bare₁ : Bool} {p₁ : Site} {it : Item} {ms : List Mark} {w : Text}
    (hp : Passes o bare p it ms w o₁ bare₁ p₁) (hs : Spells o₁ bare₁ false p₁ its marks)
    (h : Breakable o₁ bare₁ false p₁ its us) :
    Breakable o bare claimed p (it :: its) (it.spots (p.start o) o₁ ++ us) := by
  intro seen earlier later u hseen hdot hu hkeyword
  obtain ⟨later, hown⟩ | ⟨earlier, rfl, hrest⟩ := append_eq_append_cons hu
  · refine hp.lineEnds hs hown (fun hnil => ?_) claimed
    exact not_bare hseen hkeyword (by rw [hnil]; rfl)
  · rw [List.map_append, ← List.append_assoc] at hkeyword
    obtain ⟨q₁, its', hq⟩ :=
      h _ earlier later u (hp.restricted hdot _ _) (hp.no_point seen _ _) hrest hkeyword
    obtain ⟨rest, hall, hrespell⟩ := hp.respell hq.starts
    refine ⟨p.withRest rest, it :: its', rfl, .inl rfl, ?_, ?_, ?_, fun o' => ?_⟩
    · rw [hp.all_eq, hall]
      exact hq.starts.append w
    · intro before hbefore
      rw [hp.all_eq, hall, ← List.append_assoc, ← List.append_assoc]
      exact hq.text _ (hp.size_eq hbefore)
    · rw [List.map_append, List.countP_append, hp.countP_spots]
      exact hq.breaks.cons it
    · obtain ⟨ms', o₁', hp'⟩ := hrespell o'
      exact ⟨_, hp'.spells (hq.spells o₁').choose_spec claimed⟩

theorem early (hb : (bare && p.newline) = true) (h : Breakable o false claimed p its us) :
    Breakable o bare claimed p (.ended .insertedSemicolon :: its) us := by
  intro seen earlier later u hseen hdot hu hkeyword
  obtain ⟨q, its', hq⟩ := h seen earlier later u nofun hdot hu hkeyword
  refine ⟨q, _, hq.kind, hq.gap, hq.starts, hq.text, hq.breaks.kept rfl, fun o' => ?_⟩
  obtain ⟨hbare, hnewline⟩ := Bool.and_eq_true_iff.mp hb
  have hb' : (bare && q.newline) = true := by rw [hbare, hq.newline hnewline]; rfl
  exact ⟨_, .early hb' (hq.spells o').choose_spec⟩

theorem inserted (hb : (bare && p.newline) = false) (hk : p.kindHere ≠ .semicolon)
    (ha : p.admits) (h : Breakable o false claimed p its us) :
    Breakable o bare claimed p (.inserted p.kindHere :: its) us := by
  intro seen earlier later u hseen hdot hu hkeyword
  obtain ⟨q, its', hq⟩ := h seen earlier later u nofun hdot hu hkeyword
  have hb' : (bare && q.newline) = false := hq.not_early (not_bare hseen hkeyword) hb
  rw [← hq.kindHere_eq ha] at hk ⊢
  refine ⟨q, _, hq.kind, hq.gap, hq.starts, hq.text, hq.breaks.kept rfl, fun o' => ?_⟩
  exact ⟨_, .inserted hb' hk (hq.admits ha) (hq.spells o').choose_spec⟩

theorem comments (h : Breakable o bare true p its us) :
    Breakable o bare claimed p (.comments (if claimed then [] else p.gap.comments) :: its) us := by
  intro seen earlier later u hseen hdot hu hkeyword
  obtain ⟨q, its', hq⟩ := h seen earlier later u hseen hdot hu hkeyword
  rw [← hq.comments_eq]
  refine ⟨q, _, hq.kind, hq.gap, hq.starts, hq.text, hq.breaks.kept rfl, fun o' => ?_⟩
  exact ⟨_, .comments (hq.spells o').choose_spec⟩

end Breakable

/-- Lines may end in front of the tokens of what a source spells, and its increments are those of
the items. -/
theorem Spells.breakable {o : Nat} {bare claimed : Bool} {p : Site} {its : List Item}
    {marks : List Mark} (h : Spells o bare claimed p its marks) : ∃ us,
      (∀ ts, marks.foldl (Mark.consumeWith spotOf) (ts ++ [(p.kindHere, p.start o)]) = ts ++ us) ∧
        (us.map Prod.fst).countP isIncrement = its.countP Item.isIncrement ∧
        Breakable o bare claimed p its us := by
  induction h using Spells.steps with
  | stop hp hb hk => exact ⟨_, fun ts => by rw [hk]; rfl, rfl, .stop hp hk⟩
  | @pass o o₁ bare bare₁ claimed p q it w its ms marks hp h ih =>
      obtain ⟨us, hfold, hcount, hus⟩ := ih
      refine ⟨_, fun ts => ?_, ?_, hus.pass hp h⟩
      · rw [List.foldl_append, hp.spots, List.foldl_append, Site.marks_consume, spotOf, hfold,
          List.append_assoc]
      · rw [List.map_append, List.countP_append, hp.countP_spots, hcount, ← List.countP_append]
        rfl
  | early hb h ih =>
      obtain ⟨us, hfold, hcount, hus⟩ := ih
      exact ⟨us, hfold, hcount, hus.early hb⟩
  | inserted hb hk ha h ih =>
      obtain ⟨us, hfold, hcount, hus⟩ := ih
      exact ⟨us, hfold, hcount, hus.inserted hb hk ha⟩
  | comments h ih =>
      obtain ⟨us, hfold, hcount, hus⟩ := ih
      exact ⟨us, hfold, hcount, hus.comments⟩

end Parser

/-! ## Runs -/

section Runs

variable {limit : Nat} {source : Text} {P : Program} {s : ParserState}

/-- What a successful run has read, with lines that may end in front of its tokens. -/
theorem exists_breakable (h : run limit source = .ok P s) : ∃ (p : Site) (its : List Parser.Item),
    p.all = source ∧
      Parser.Derives .endOfInput limit (.elements [.endOfInput]) its P.body [] ∧
      ((consumed (history (run limit source))).map (·.kind)).countP isIncrement =
        its.countP Parser.Item.isIncrement ∧
      Parser.Breakable 0 false false p its
        ((consumed (history (run limit source))).map Token.spot) := by
  obtain ⟨its, ⟨p, ms, rfl, hspells, hmarks⟩, hderives⟩ := Parser.run_ok_iff.mp ⟨s, h, rfl⟩
  obtain ⟨us, hfold, hcount, hus⟩ := hspells.breakable
  have htokens : (consumed (history (run limit p.all))).map Token.spot = us := by
    refine (consumed_marksWith spotOf _).trans ?_
    rw [h]
    show s.stream.marks.foldl (Mark.consumeWith spotOf) [] = us
    rw [hmarks, List.foldl_append, Site.marks_consume]
    exact hfold []
  rw [← htokens, kinds_spots] at hcount
  exact ⟨p, its, rfl, hderives, hcount, htokens ▸ hus⟩

/-- A run takes as many increments as there are in its program. -/
theorem countP_consumed (h : run limit source = .ok P s) :
    ((consumed (history (run limit source))).map (·.kind)).countP isIncrement =
      P.increments.length := by
  obtain ⟨p, its, -, hderives, hcount, -⟩ := exists_breakable h
  rw [hcount, hderives.broken.1, P.increments_eq]

/-- A line may end in front of a token that a successful run has taken, and the program stays the
same, comments included.  No line may end there if the token before it is a keyword at which no line
may end and that stands behind no point, or if the token is an increment after its operand. -/
theorem lineBreak_transparent (h : run limit source = .ok P s) {earlier later : List Token}
    {t : Token} (htokens : consumed (history (run limit source)) = earlier ++ t :: later)
    (hkeyword : endsRestricted (earlier.map (·.kind)) = false)
    (hoperand : P.postfixAt (earlier.map (·.kind)) t.kind = false) :
    parse limit (breakLine t.place.offset source) = .ok P := by
  obtain ⟨p, its, rfl, hderives, -, hus⟩ := exists_breakable h
  rw [htokens, List.map_append, List.map_cons] at hus
  obtain ⟨q, its', hq⟩ := hus [] _ _ _ nofun nofun rfl (by rwa [kinds_spots])
  rw [kinds_spots] at hq
  obtain ⟨hcount, hbroken⟩ := hderives.broken
  have hbreaks : Parser.Breaks (incrementsOf (P.body.map .statement)) its its' := by
    refine hq.breaks _ hcount.symm fun hk htrue => ?_
    have hat : P.postfixAt (earlier.map (·.kind)) t.kind = true := by
      rw [Program.postfixAt, P.increments_eq, htrue, show isIncrement t.kind = true from hk]
      rfl
    rw [hat] at hoperand
    cases hoperand
  obtain ⟨ms, hspells⟩ := hq.spells 0
  have htext : breakLine t.place.offset p.all = q.all := hq.text [] rfl
  obtain ⟨s', h', -⟩ := Parser.run_ok_iff.mpr
    ⟨its', ⟨q, ms, rfl, hspells, rfl⟩, hbroken its' hbreaks⟩
  rw [htext, parse, h']
  rfl

/-- In this source a line ends behind a name that would be a keyword if it stood behind no point. -/
theorem lineBreak_transparent_member : ∃ P,
    parse 256 "a.return(b);".toList = .ok P ∧ parse 256 "a.return\n(b);".toList = .ok P := by
  obtain ⟨P, s, h⟩ := exists_run 256 "a.return(b);".toList (by decide +kernel)
  have htokens : consumed (history (run 256 "a.return(b);".toList)) =
      [⟨.identifier, ['a'], ⟨⟨1, 1⟩, 0⟩, false⟩, ⟨.dot, ['.'], ⟨⟨1, 2⟩, 1⟩, false⟩,
        ⟨.kwReturn, "return".toList, ⟨⟨1, 3⟩, 2⟩, false⟩] ++
      ⟨.openParen, ['('], ⟨⟨1, 9⟩, 8⟩, false⟩ ::
      [⟨.identifier, ['b'], ⟨⟨1, 10⟩, 9⟩, false⟩, ⟨.closeParen, [')'], ⟨⟨1, 11⟩, 10⟩, false⟩,
        ⟨.semicolon, [';'], ⟨⟨1, 12⟩, 11⟩, false⟩, ⟨.endOfInput, [], ⟨⟨1, 13⟩, 12⟩, false⟩] := by
    decide +kernel
  have hbroken : breakLine 8 "a.return(b);".toList = "a.return\n(b);".toList := by decide
  have hline := lineBreak_transparent h htokens (by decide) (by rfl)
  rw [hbroken] at hline
  refine ⟨P, ?_, hline⟩
  rw [parse, h]
  rfl

/-- A name in an object literal stands behind no point.  It is taken for the keyword, so that no
line may end behind it although no statement begins there. -/
theorem lineBreak_transparent_fails_for_keys : ∃ P s,
    run 256 "(\x7breturn: 1\x7d);".toList = .ok P s ∧
      (∀ e ∈ history (run 256 "(\x7breturn: 1\x7d);".toList), e.isInsertion = false) ∧
      parse 256 (breakLine 8 "(\x7breturn: 1\x7d);".toList) ≠ .ok P := by
  obtain ⟨P, s, h⟩ := exists_run 256 "(\x7breturn: 1\x7d);".toList (by decide +kernel)
  refine ⟨P, s, h, by decide +kernel, fun hbroken => ?_⟩
  have hfails : (parse 256 (breakLine 8 "(\x7breturn: 1\x7d);".toList)).isOk = false := by
    decide +kernel
  rw [hbroken] at hfails
  cases hfails

end Runs

end EcmaSyntax
