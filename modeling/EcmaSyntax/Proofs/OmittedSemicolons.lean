import EcmaSyntax.Proofs.Respelling
import EcmaSyntax.Proofs.Uncommented

/-!
# Written semicolons may be left out

**Input.**  A source, a successful run on it, and a semicolon of the source that ended a
statement.

**Results.**
* `omitted_semicolon`: the source with a space for the semicolon has the same program, up to
  comments, if the token after it closes a block or the input, or is on a new line and goes on
  with neither an expression nor a list of variables.

Only the attribution of comments differs: the gaps before and after the semicolon become one.
-/

namespace EcmaSyntax

/-- A text with a space for the character at an offset. -/
def blankOut (offset : Nat) (source : Text) : Text :=
  source.takeBytes offset ++ ' ' :: (source.dropBytes offset).drop 1

/-- The first token that was scanned among some events. -/
def nextToken? : List Event → Option Token
  | [] => none
  | .scanned t :: _ => some t
  | _ :: events => nextToken? events

/-- Kinds of tokens that go on with neither an expression nor a list of variables when they open a
line, as increments do that are restricted for it. -/
def startsAnew : TokenKind → Bool
  | .identifier | .number | .string | .openBrace | .logicalNot | .tilde | .restrictedIncrement
  | .restrictedDecrement => true
  | k => k.isKeyword && k ≠ .kwIn && k ≠ .kwInstanceof

/-- Whether a semicolon may be left out before a token, given its kind and whether it opens a
line. -/
def mayFollow (k : TokenKind) (newline : Bool) : Bool :=
  k = .closeBrace || k = .endOfInput || newline && startsAnew k

theorem blankOut_append (u v : Text) : blankOut u.size (u ++ ';' :: v) = u ++ ' ' :: v := by
  rw [blankOut, Text.takeBytes_size, Text.dropBytes_size]
  rfl

theorem closes_of_startsAnew {k : TokenKind} (h : startsAnew k) : Parser.closes k := by
  cases k <;> first | rfl | cases h

theorem closes_of_mayFollow {k : TokenKind} {newline : Bool} (h : mayFollow k newline) :
    Parser.closes k := by
  simp only [mayFollow, Bool.or_eq_true, Bool.and_eq_true, decide_eq_true_eq] at h
  obtain (rfl | rfl) | ⟨-, h⟩ := h
  · rfl
  · rfl
  · exact closes_of_startsAnew h

/-- Where no line ends, a semicolon may be left out only at the end of a block or of the input. -/
theorem mayFollow_false {k : TokenKind} (h : mayFollow k false) :
    k = .closeBrace ∨ k = .endOfInput := by
  simpa [mayFollow] using h

theorem mayFollow_semicolon (newline : Bool) : mayFollow .semicolon newline = false := by
  cases newline <;> rfl

/-! ## Marks -/

theorem exists_nextToken {events : List Event} {k : TokenKind} {t : Text} {start : Nat}
    {newline : Bool} {ms : List Mark}
    (h : marksOf events = .token k t start newline :: ms) :
    ∃ next, nextToken? events = some next ∧ next.kind = k ∧ next.newlineBefore = newline := by
  induction events with
  | nil => cases h
  | cons e events ih =>
      cases e with
      | scanned next =>
          simp only [marksOf, List.filterMap_cons, Event.mark?, List.cons.injEq,
            Mark.token.injEq] at h
          exact ⟨next, rfl, h.1.1, h.1.2.2.2⟩
      | parsed n => exact ih h
      | _ => cases h

theorem exists_append_of_not_mem {α : Type} {x : α} {pre l as bs : List α} (hx : x ∉ pre)
    (h : pre ++ l = as ++ x :: bs) : ∃ as', l = as' ++ x :: bs := by
  obtain ⟨as', -, hl⟩ | ⟨cs, rfl, hcs⟩ := List.append_eq_append_iff.mp h
  · exact ⟨as', hl⟩
  · cases cs with
    | nil => exact ⟨[], hcs.symm⟩
    | cons c cs =>
        obtain ⟨rfl, -⟩ := List.cons.inj hcs
        simp at hx

theorem Site.ended_not_mem_marks (p : Site) (o : Nat) (bare : Bool) (start : Nat) :
    .ended start ∉ p.marks o bare := by
  unfold Site.marks
  cases bare && p.newline <;> simp

namespace Site

/-- The site of a token after a space in the place of a semicolon. -/
def joined (p q : Site) : Site := ⟨p.gap ++ .blank ' ' :: q.gap, q.kind, q.text, q.rest⟩

variable {p q : Site}

theorem all_joined (p q : Site) : (p.joined q).all = p.gap.text ++ ' ' :: q.all := by
  simp [joined, all, Gap.text_append, Trivia.text]

theorem newline_joined (p q : Site) : (p.joined q).newline = (p.newline || q.newline) := by
  simp [joined, newline, Gap.endsLine_append, Trivia.endsLine]

theorem start_joined (hp : p.Valid) (hk : p.kindHere = .semicolon) (o : Nat) :
    (p.joined q).start o = q.start (p.stop o) := by
  have ht := hp.text_eq (by rw [hk]; decide) (by rw [hk]; rfl)
  have hsize : p.text.size = Text.size [' '] := by
    rw [ht, hk]
    rfl
  simp [start, stop, joined, Gap.text_append, Trivia.text, hsize, Nat.add_assoc]

theorem joined_valid (hp : p.Valid) (hk : p.kindHere = .semicolon) (hq : q.Valid) :
    (p.joined q).Valid := by
  have ht := hp.text_eq (by rw [hk]; decide) (by rw [hk]; rfl)
  have hfits : p.gap.Fits (';' :: p.rest) := by
    have := hp.fits
    rw [ht, hk] at this
    exact this
  exact ⟨hfits.blank hq.fits, hq.settled, hq.token⟩

/-- A token before which a semicolon may be left out is of the same kind without it. -/
theorem kindHere_joined (h : mayFollow q.kindHere q.newline) :
    (p.joined q).kindHere = q.kindHere := by
  cases hn : q.newline with
  | true =>
      show Scanner.kindAfterGap (p.joined q).newline q.kind = Scanner.kindAfterGap q.newline q.kind
      rw [newline_joined, hn, Bool.or_true]
  | false =>
      rw [hn] at h
      have hkind := mayFollow_false h
      unfold kindHere at hkind ⊢
      rw [hn] at hkind ⊢
      show Scanner.kindAfterGap _ q.kind = _
      generalize q.kind = k at hkind
      cases k <;> first | rfl | simp [Scanner.kindAfterGap] at hkind

theorem admits_joined (h : mayFollow q.kindHere q.newline) : (p.joined q).admits := by
  rw [admits, kindHere_joined h, newline_joined]
  cases hn : q.newline with
  | true => simp
  | false =>
      rw [hn] at h
      obtain hk | hk := mayFollow_false h <;> simp [hk]

end Site

namespace Parser

open TokenStream (isRestrictedKeyword)

/-- What a source spells after a semicolon it spells after another gap as well, up to comments. -/
theorem Spells.regap {o o' : Nat} {claimed : Bool} {q n : Site} {its : List Item}
    {marks : List Mark} (h : Spells o false claimed q its marks) (hn : n.Valid)
    (hk : n.kindHere = q.kindHere) (htext : n.text = q.text) (hrest : n.rest = q.rest)
    (hadmits : q.admits → n.admits) (hstart : n.start o' = q.start o) (claimed' : Bool) :
    ∃ its' ms, Recommented its its' ∧ Spells o' false claimed' n its' ms := by
  have hstop : n.stop o' = q.stop o := by rw [Site.stop, Site.stop, hstart, htext]
  generalize hbare : false = bare at h
  induction h generalizing claimed' with
  | @stop o bare claimed q hq hb hend =>
      subst hbare
      exact ⟨[], [], .nil, .stop hn rfl (hk.trans hend)⟩
  | @taken o bare claimed q r its marks hq hb hplain hall h ih =>
      subst hbare
      rw [← hk, ← htext]
      rw [← hk, ← hstop] at h
      exact ⟨_, _, .refl _, .taken hn rfl (hk ▸ hplain) (hall.trans hrest.symm) h⟩
  | @member o bare claimed q r m its marks hq hb hdot hall hr hname hallm h ih =>
      subst hbare
      rw [← hstop] at h
      exact ⟨_, _, .refl _, .member hn rfl (hk.trans hdot) (hall.trans hrest.symm) hr hname hallm h⟩
  | @literal o bare claimed q r after body its marks hq hb ho ht hbody hall h ih =>
      subst hbare
      rw [← hk]
      rw [← hstart] at h
      rw [← htext, ← hrest] at ht
      exact ⟨_, _, .refl _, .literal hn rfl (hk ▸ ho) ht hbody hall h⟩
  | @ended o bare claimed q r its marks hq hb hsemi hall h ih =>
      subst hbare
      rw [← hstop] at h
      exact ⟨_, _, .refl _, .ended hn rfl (hk.trans hsemi) (hall.trans hrest.symm) h⟩
  | @early o bare claimed q its marks hb h ih =>
      subst hbare
      cases hb
  | @inserted o bare claimed q its marks hb hsemi ha h ih =>
      subst hbare
      obtain ⟨its', ms, hits, hspells⟩ := ih hk htext hrest hadmits hstart claimed' hstop rfl
      rw [← hk] at hsemi ⊢
      exact ⟨_, _, .cons _ hits, .inserted rfl hsemi (hadmits ha) hspells⟩
  | @comments o bare claimed q its marks h ih =>
      subst hbare
      obtain ⟨its', ms, hits, hspells⟩ := ih hk htext hrest hadmits hstart true hstop rfl
      exact ⟨_, _, .comments _ _ hits, .comments hspells⟩

/-- The text from a site on is written again with a space in the place of a semicolon, as that from
another site on.  The site is the same unless it is that of the semicolon. -/
structure Omits (a b : Bool) (o : Nat) (bare claimed : Bool) (before : Text) (u v : Text)
    (p : Site) (its : List Item) (q : Site) : Prop where
  same : b = false → q.gap = p.gap ∧ q.kind = p.kind
  starts : StartsLike p.all q.all
  text : before ++ q.all = u ++ ' ' :: v
  spells : ∃ mid its' ms, Alike a its mid ∧ Recommented mid its' ∧ Spells o bare claimed q its' ms

/-- A semicolon that ends a statement stands where it was noted, and it may be left out in front of
some tokens. -/
def Omissible (a b : Bool) (o : Nat) (bare claimed : Bool) (before : Text) (p : Site)
    (its : List Item) (offset : Nat) (later : List Mark) : Prop :=
  ∃ k t start newline ms u v, later = .token k t start newline :: ms ∧ u.size = offset ∧
    before ++ p.all = u ++ ';' :: v ∧
    (mayFollow k newline → ∃ q, Omits a b o bare claimed before u v p its q)

/-- A token is kept in front of other items. -/
theorem Passes.alike {o o₁ : Nat} {bare bare₁ : Bool} {p p₁ : Site} {it : Item} {ms : List Mark}
    {w : Text} (h : Passes o bare p it ms w o₁ bare₁ p₁) {a : Bool} {its its' : List Item}
    (hits : Alike bare₁ its its') : Alike a (it :: its) (it :: its') := by
  cases h with
  | taken => exact .taken hits
  | member => exact .member hits
  | literal => exact .literal hits
  | ended => exact .kept rfl hits

/-- The end of a statement is noted at its semicolon or later. -/
theorem Passes.ended_cases {o o₁ : Nat} {bare bare₁ : Bool} {p p₁ : Site} {it : Item}
    {ms l earlier later : List Mark} {w : Text} {offset : Nat}
    (h : Passes o bare p it ms w o₁ bare₁ p₁) (hm : ms ++ l = earlier ++ .ended offset :: later) :
    (∃ earlier', l = earlier' ++ .ended offset :: later) ∨
      it = .ended .semicolon ∧ p.kindHere = .semicolon ∧ p₁.all = p.rest ∧ offset = p.start o ∧
        later = l ∧ o₁ = p.stop o ∧ bare₁ = false := by
  cases h with
  | taken => exact .inl ⟨earlier, hm⟩
  | member => exact .inl (exists_append_of_not_mem (Site.ended_not_mem_marks _ _ _ _) hm)
  | literal => exact .inl (exists_append_of_not_mem (by simp) hm)
  | ended _ _ hk hall =>
      cases earlier with
      | nil =>
          obtain ⟨hoffset, hl⟩ := List.cons.inj hm
          exact .inr ⟨rfl, hk, hall, (Mark.ended.inj hoffset).symm, hl.symm, rfl, rfl⟩
      | cons m earlier => exact .inl ⟨earlier, (List.cons.inj hm).2⟩

namespace Omissible

variable {a b bare claimed : Bool} {o : Nat} {before : Text} {p : Site} {its : List Item}
  {offset : Nat} {later : List Mark}

/-- The semicolon stands behind a token that is kept. -/
theorem pass {it : Item} {w : Text} {o₁ : Nat} {b₁ bare₁ : Bool} {p₁ : Site} {ms : List Mark}
    (hp : Passes o bare p it ms w o₁ bare₁ p₁) (ho : before.size = o)
    (h : Omissible bare₁ b₁ o₁ bare₁ false (before ++ w) p₁ its offset later) :
    Omissible a b o bare claimed before p (it :: its) offset later := by
  obtain ⟨k, t, start, newline, ms, u, v, hlater, hu, hall, hq⟩ := h
  refine ⟨k, t, start, newline, ms, u, v, hlater, hu, ?_, fun hk => ?_⟩
  · rw [hp.all_eq, ← List.append_assoc, hall]
  · obtain ⟨q₁, -, hstarts, htext, mid, its', ms₁, hmid, hits, hs⟩ := hq hk
    obtain ⟨rest, hqall, hrespell⟩ := hp.respell hstarts
    obtain ⟨ms', o₁', hp'⟩ := hrespell o
    obtain rfl : o₁ = o₁' := (hp.size_eq ho).symm.trans (hp'.size_eq ho)
    refine ⟨p.withRest rest, fun _ => ⟨rfl, rfl⟩, ?_, ?_, it :: mid, it :: its', _,
      hp.alike hmid, .cons it hits, hp'.spells hs claimed⟩
    · rw [hp.all_eq, hqall]
      exact hstarts.append w
    · rw [hqall, ← List.append_assoc, htext]

/-- The semicolon is that of a site.  Without it a semicolon is inserted in front of the next token:
at once if a keyword comes before it that has left its line, on request otherwise. -/
theorem here {q : Site} {marks : List Mark} (hp : p.Valid) (hb : (bare && p.newline) = false)
    (hk : p.kindHere = .semicolon) (hall : q.all = p.rest)
    (h : Spells (p.stop o) false false q its marks) (ha : a = bare) :
    Omissible a true o bare claimed before p (.ended .semicolon :: its) (p.start before.size)
      (q.marks (p.stop o) false ++ marks) := by
  have ht := hp.text_eq (by rw [hk]; decide) (by rw [hk]; rfl)
  rw [hk] at ht
  have hpall : p.all = p.gap.text ++ ';' :: p.rest := by
    rw [Site.all, ht]
    rfl
  refine ⟨q.kindHere, q.text, _, q.newline, _, before ++ p.gap.text, p.rest, rfl, ?_, ?_,
    fun hnext => ⟨p.joined q, fun hb => absurd hb.symm Bool.false_ne_true, ?_, ?_, ?_⟩⟩
  · rw [Text.size_append]
    rfl
  · rw [hpall, List.append_assoc]
  · rw [hpall, Site.all_joined]
    exact StartsLike.append p.gap.text (.inr (.inr (.inr rfl)))
  · rw [Site.all_joined, hall, List.append_assoc]
  · obtain ⟨its', ms, hits, hspells⟩ := h.regap (Site.joined_valid hp hk h.valid)
      (Site.kindHere_joined hnext) rfl rfl (fun _ => Site.admits_joined hnext)
      (Site.start_joined hp hk o) claimed
    subst ha
    cases hearly : a && (p.joined q).newline with
    | true => exact ⟨_, _, _, .ending rfl (.ended rfl fun _ => rfl) (.refl false its),
        .cons _ hits, .early hearly hspells⟩
    | false =>
        have hcloses := closes_of_mayFollow hnext
        rw [← Site.kindHere_joined (p := p) hnext] at hcloses
        refine ⟨_, _, _, .ending rfl (.inserted hcloses fun ha => ?_) (.refl false its),
          .cons _ hits, .inserted hearly ?_ (Site.admits_joined hnext) hspells⟩
        · rw [ha, Bool.true_and, Site.newline_joined, Bool.or_eq_false_iff] at hearly
          rw [Site.kindHere_joined hnext]
          rw [hearly.2] at hnext
          obtain hq | hq := mayFollow_false hnext
          · rw [hq]
            rfl
          · rw [hq]
            rfl
        · intro hsemi
          rw [Site.kindHere_joined hnext] at hsemi
          rw [hsemi, mayFollow_semicolon] at hnext
          cases hnext

/-- The semicolon stands behind one that the rules demand. -/
theorem early (hb : (bare && p.newline) = true)
    (h : Omissible false false o false claimed before p its offset later) :
    Omissible a b o bare claimed before p (.ended .insertedSemicolon :: its) offset later := by
  obtain ⟨k, t, start, newline, ms, u, v, hlater, hu, hall, hq⟩ := h
  refine ⟨k, t, start, newline, ms, u, v, hlater, hu, hall, fun hk => ?_⟩
  obtain ⟨q, hsame, hstarts, htext, mid, its', ms₁, hmid, hits, hs⟩ := hq hk
  have hnewline : q.newline = p.newline := by rw [Site.newline, (hsame rfl).1]; rfl
  exact ⟨q, fun _ => hsame rfl, hstarts, htext, _, _, _, .kept rfl hmid, .cons _ hits,
    .early (hnewline ▸ hb) hs⟩

/-- The semicolon stands behind one that is inserted on request. -/
theorem inserted (hb : (bare && p.newline) = false) (hsemi : p.kindHere ≠ .semicolon)
    (ha : p.admits) (h : Omissible false false o false claimed before p its offset later) :
    Omissible a b o bare claimed before p (.inserted p.kindHere :: its) offset later := by
  obtain ⟨k, t, start, newline, ms, u, v, hlater, hu, hall, hq⟩ := h
  refine ⟨k, t, start, newline, ms, u, v, hlater, hu, hall, fun hk => ?_⟩
  obtain ⟨q, hsame, hstarts, htext, mid, its', ms₁, hmid, hits, hs⟩ := hq hk
  have hnewline : q.newline = p.newline := by rw [Site.newline, (hsame rfl).1]; rfl
  have hkind : q.kindHere = p.kindHere := by
    rw [Site.kindHere, hnewline, (hsame rfl).2]
    rfl
  rw [← hkind] at hsemi ⊢
  rw [Site.admits, ← hkind, ← hnewline] at ha
  exact ⟨q, fun _ => hsame rfl, hstarts, htext, _, _, _, .kept rfl hmid, .cons _ hits,
    .inserted (hnewline ▸ hb) hsemi ha hs⟩

/-- The semicolon stands behind comments that are claimed. -/
theorem comments (cs : List Comment)
    (h : Omissible false false o bare true before p its offset later) :
    Omissible a b o bare claimed before p (.comments cs :: its) offset later := by
  obtain ⟨k, t, start, newline, ms, u, v, hlater, hu, hall, hq⟩ := h
  refine ⟨k, t, start, newline, ms, u, v, hlater, hu, hall, fun hk => ?_⟩
  obtain ⟨q, hsame, hstarts, htext, mid, its', ms₁, hmid, hits, hs⟩ := hq hk
  exact ⟨q, fun _ => hsame rfl, hstarts, htext, _, _, _, .comments hmid, .comments _ _ hits,
    .comments hs⟩

end Omissible

/-- Each semicolon of a source that ends a statement may be left out in front of some tokens. -/
theorem Spells.omissible {o : Nat} {bare claimed : Bool} {p : Site} {its : List Item}
    {marks : List Mark} (h : Spells o bare claimed p its marks) {a b : Bool}
    (ho : Orderly b its) (hb : b → a = bare) {before : Text}
    (hbefore : before.size = o) {earlier later : List Mark} {offset : Nat}
    (hm : marks = earlier ++ .ended offset :: later) :
    Omissible a b o bare claimed before p its offset later := by
  induction h using Spells.steps generalizing a b before earlier with
  | stop => simp at hm
  | @pass o o₁ bare bare₁ claimed p q it w its ms marks hpass h ih =>
      obtain ⟨earlier', hm'⟩ | ⟨rfl, hk, hall, rfl, rfl, rfl, rfl⟩ := hpass.ended_cases hm
      · obtain ⟨earlier'', hm''⟩ := exists_append_of_not_mem (q.ended_not_mem_marks _ _ _) hm'
        exact (ih ho.2 (fun _ => rfl) (hpass.size_eq hbefore) hm'').pass hpass hbefore
      · obtain ⟨rfl, -⟩ := Orderly.ended.mp ho
        subst hbefore
        exact .here hpass.valid hpass.not_early hk hall h (hb rfl)
  | early hearly h ih =>
      exact (ih (Orderly.ended.mp ho).2 nofun hbefore hm).early hearly
  | inserted hearly hk ha h ih =>
      have hinserted : Mark.ended offset ∉ [Mark.inserted] := by simp
      obtain ⟨earlier', hm'⟩ := exists_append_of_not_mem hinserted hm
      exact (ih (Orderly.inserted.mp ho).2 nofun hbefore hm').inserted hearly hk ha
  | comments h ih => exact (ih (Orderly.comments.mp ho) nofun hbefore hm).comments _

end Parser

/-- A source with a space for a semicolon that ended a statement has the same program up to
comments, if the next token closes a block or the input, or if it is on a new line and goes on with
neither an expression nor a list of variables. -/
theorem omitted_semicolon {limit : Nat} {source : Text} {P : Program} {s : ParserState}
    (h : run limit source = .ok P s) {earlier later : List Event} {t : Token}
    (hh : history (run limit source) = earlier ++ .ended t :: later) : ∃ next,
      nextToken? later = some next ∧ (mayFollow next.kind next.newlineBefore → ∃ P',
        parse limit (blankOut t.place.offset source) = .ok P' ∧
          P'.uncommented = P.uncommented) := by
  obtain ⟨its, ⟨p, ms, rfl, hspells, hmarks⟩, hderives⟩ := Parser.run_ok_iff.mp ⟨s, h, rfl⟩
  have horderly : Parser.Orderly false its := hderives.orderly Parser.Orderly.nil
  have hms : p.marks 0 false ++ ms =
      marksOf earlier ++ .ended t.place.offset :: marksOf later := by
    rw [← hmarks]
    show marksOf s.stream.journal.reverse = _
    have hhistory : s.stream.journal.reverse = earlier ++ .ended t :: later := by
      rw [← hh, h]
      rfl
    rw [hhistory, marksOf, List.filterMap_append]
    rfl
  obtain ⟨earlier', hm⟩ := exists_append_of_not_mem (p.ended_not_mem_marks _ _ _) hms
  obtain ⟨k, text, start, newline, ms', u, v, hlater, hu, hall, hq⟩ :=
    hspells.omissible horderly (fun _ => rfl) (rfl : Text.size [] = 0) hm
  obtain ⟨next, hnext, rfl, rfl⟩ := exists_nextToken hlater
  refine ⟨next, hnext, fun hk => ?_⟩
  obtain ⟨q, -, -, htext, mid, its', ms'', halike, hits, hspells'⟩ := hq hk
  obtain ⟨_, r, hr, hderives'⟩ := hderives.transfer Parser.Orderly.nil halike
  cases hr
  obtain ⟨body, r', hr', hbody, hderives''⟩ := hderives'.redone its' hits
  cases hr'
  obtain ⟨s', h', -⟩ := Parser.run_ok_iff.mpr
    ⟨its', ⟨q, ms'', rfl, hspells', rfl⟩, (hderives'' : Parser.Derives .endOfInput limit
      (.elements [.endOfInput]) its' (Program.mk body).body [])⟩
  refine ⟨⟨body⟩, ?_, congrArg Program.mk hbody⟩
  have hsource : blankOut t.place.offset p.all = q.all := by
    have hp : p.all = u ++ ';' :: v := hall
    have hqall : q.all = u ++ ' ' :: v := htext
    rw [hp, hqall, ← hu, blankOut_append]
  rw [hsource, parse, h']
  rfl

/-- Without its semicolon this jump still ends at its line. -/
theorem omitted_semicolon_jump : ∃ P P',
    parse 256 "while (a) \x7b continue; // b\nc \x7d".toList = .ok P ∧
      parse 256 "while (a) \x7b continue  // b\nc \x7d".toList = .ok P' ∧
      P'.uncommented = P.uncommented := by
  obtain ⟨P, s, h⟩ :=
    exists_run 256 "while (a) \x7b continue; // b\nc \x7d".toList (by decide +kernel)
  have hh : history (run 256 "while (a) \x7b continue; // b\nc \x7d".toList) =
      (history (run 256 "while (a) \x7b continue; // b\nc \x7d".toList)).take 7 ++
        .ended ⟨.semicolon, [';'], ⟨⟨1, 21⟩, 20⟩, false⟩ ::
          (history (run 256 "while (a) \x7b continue; // b\nc \x7d".toList)).drop 8 := by
    decide +kernel
  obtain ⟨next, hnext, hP⟩ := omitted_semicolon h hh
  have hfollows : (nextToken?
      ((history (run 256 "while (a) \x7b continue; // b\nc \x7d".toList)).drop 8)).any
        fun t => mayFollow t.kind t.newlineBefore := by decide +kernel
  rw [hnext] at hfollows
  obtain ⟨P', h', hP'⟩ := hP hfollows
  have hsource : blankOut 20 "while (a) \x7b continue; // b\nc \x7d".toList =
      "while (a) \x7b continue  // b\nc \x7d".toList := by decide +kernel
  rw [hsource] at h'
  exact ⟨P, P', by rw [parse, h]; rfl, h', hP'⟩

end EcmaSyntax
