import Mathlib.Data.List.Forall2
import EcmaSyntax.Proofs.Conservation
import EcmaSyntax.Proofs.Respelling
import EcmaSyntax.Proofs.Uncommented

/-!
# Layout and comments are transparent

**Layout.**  The tokens that a run has taken cut its source into pieces: each token, with what
stands in front of it.  The token for the end of the input is among them, so nothing is left over.

**Respacing.**  A piece is respaced if other trivia stand in front of the same token.  They are
white space and comments, they start with white space, and a line ends in them if and only if one
ended in the trivia before.

**Results.**
* `layout_transparent`: the pieces of a source make it up, and a source of respaced pieces has the
  same program, up to comments.

The grammar sees of a gap whether a line ends in it, and its comments.  The flag stays, so the items
that a source spells are the same up to comments.
-/

namespace EcmaSyntax

/-! ## Pieces of a source -/

/-- Where a token starts, and its text. -/
def spanOf (_ : TokenKind) (text : Text) (start : Nat) : Nat × Text := (start, text)

/-- Where a token stands in its source. -/
def Token.span (t : Token) : Nat × Text := spanOf t.kind t.text t.place.offset

/-- The texts of some tokens of a source, each with what stands in front of it; before the first
one this is what stands between an offset and the token. -/
def spaced (source : Text) : Nat → List (Nat × Text) → List (Text × Text)
  | _, [] => []
  | o, (start, t) :: spans =>
      ((source.dropBytes o).takeBytes (start - o), t) :: spaced source (start + t.size) spans

/-- The text that some pieces make up. -/
def woven (pieces : List (Text × Text)) : Text := pieces.flatMap fun x => x.1 ++ x.2

/-- One piece has the token of another one, with the same trivia in front of it or with trivia that
start with white space and in which a line ends if one did before. -/
def Respaced (old new : Text × Text) : Prop :=
  new.2 = old.2 ∧ (new.1 = old.1 ∨ ∃ g : Gap, g.text = new.1 ∧ g.Fits old.2 ∧
    new.1.head?.any isSpacing ∧ new.1.any isLineTerminator = old.1.any isLineTerminator)

@[simp] theorem woven_cons (x : Text × Text) (pieces : List (Text × Text)) :
    woven (x :: pieces) = x.1 ++ x.2 ++ woven pieces := rfl

/-! ## Respaced sites -/

theorem StartsLike.trans {r r' r'' : Text} (h : StartsLike r r') (h' : StartsLike r' r'') :
    StartsLike r r'' := by
  obtain h' | h' := h'
  · unfold StartsLike at h ⊢
    rwa [h']
  · exact .inr h'

theorem head?_append_of_ne_nil {w r : Text} (h : w ≠ []) : (w ++ r).head? = w.head? := by
  rw [head?_append_congr (r := []) fun hw => absurd hw h, List.append_nil]

namespace Site

/-- A site with another gap. -/
def withGap (p : Site) (g : Gap) : Site := { p with gap := g }

variable {p q : Site} {t r : Text} {x : Text × Text}

/-- The scanner finds the same token after a gap that is respaced. -/
theorem Valid.respaced (hp : p.Valid) (ht : (p.text ++ p.rest).head? = t.head?)
    (hx : Respaced (p.gap.text, t) x) : ∃ g : Gap, x = (g.text, t) ∧ (p.withGap g).Valid ∧
      (p.withGap g).newline = p.newline ∧ StartsLike p.all (p.withGap g).all := by
  obtain ⟨new, t'⟩ := x
  obtain ⟨rfl, hnew | ⟨g, rfl, hg, hhead, hline⟩⟩ := hx
  · exact ⟨p.gap, congrArg (·, t') hnew, hp, rfl, .refl _⟩
  · have hfits : g.Fits (p.text ++ p.rest) := hg.congr (congrArg _ ht)
    refine ⟨g, rfl, ⟨hfits, hp.settled, hp.token⟩, ?_, .inr (.inr (.inr ?_))⟩
    · show g.endsLine = p.gap.endsLine
      rw [hg.endsLine_eq, hp.fits.endsLine_eq]
      exact hline
    · have hne : Gap.text g ≠ [] := by
        intro hnil
        rw [hnil] at hhead
        cases hhead
      show ((Gap.text g ++ (p.text ++ p.rest)).head?).any isSpacing = true
      rwa [head?_append_of_ne_nil hne]

/-- The token of a site stands behind another gap and in front of another text. -/
structure Relaid (p : Site) (g : Gap) (r : Text) (q : Site) : Prop where
  valid : q.Valid
  kind : q.kind = p.kind
  newline : q.newline = p.newline
  starts : StartsLike p.all q.all
  text : q.text = p.text
  rest : q.rest = r

theorem Relaid.kindHere {g : Gap} (h : Relaid p g r q) : q.kindHere = p.kindHere := by
  rw [Site.kindHere, Site.kindHere, h.kind, h.newline]

/-- A respaced token is found in front of any text that starts like what came after it. -/
theorem Valid.relaid (hp : p.Valid) (hk : p.kindHere ≠ .endOfInput) (hr : StartsLike p.rest r)
    (hx : Respaced (p.gap.text, p.text) x) :
    ∃ g : Gap, x = (g.text, p.text) ∧ Relaid p g r ((p.withRest r).withGap g) := by
  have hhead : ((p.withRest r).text ++ (p.withRest r).rest).head? = p.text.head? :=
    head?_append_of_ne_nil (hp.text_ne_nil hk)
  obtain ⟨g, hg, hvalid, hnewline, hstarts⟩ := (hp.withRest hk hr).respaced hhead hx
  exact ⟨g, hg, hvalid, rfl, hnewline, (startsLike_withRest hr).trans hstarts, rfl, rfl⟩

/-- What a site contributes to the pieces of its source. -/
theorem spaced_cons {source before : Text} (hsource : source = before ++ p.all) (t : Text)
    (spans : List (Nat × Text)) :
    spaced source before.size ((p.start before.size, t) :: spans) =
      (p.gap.text, t) :: spaced source (p.start before.size + t.size) spans := by
  have hdrop : source.dropBytes before.size = p.all := by
    rw [hsource, Text.dropBytes_size]
  have htake : p.all.takeBytes p.gap.text.size = p.gap.text := Text.takeBytes_size _ _
  rw [spaced, hdrop, Site.start, Nat.add_sub_cancel_left, htake]

end Site

namespace Parser

open TokenStream (isRestrictedKeyword)

/-- What a source spells from a site on, up to comments. -/
def Respells (bare : Bool) (its : List Item) (o : Nat) (claimed : Bool) (p : Site) : Prop :=
  ∃ its' ms, Recommented its its' ∧ Spells o bare claimed p its' ms

/-- The text from a site on is laid out again as that from another site on, which has some
property. -/
structure Relays (motive : Nat → Bool → Site → Prop) (p : Site) (relaid : List (Text × Text))
    (q : Site) : Prop where
  kind : q.kind = p.kind
  newline : q.newline = p.newline
  starts : StartsLike p.all q.all
  text : q.all = woven relaid
  holds : ∀ o claimed, motive o claimed q

theorem Relays.kindHere {motive : Nat → Bool → Site → Prop} {p q : Site}
    {relaid : List (Text × Text)} (h : Relays motive p relaid q) : q.kindHere = p.kindHere := by
  rw [Site.kindHere, Site.kindHere, h.kind, h.newline]

/-- The pieces of a source from a site on make up its text, and respaced ones that from a site with
some property. -/
structure LaidOut (motive : Nat → Bool → Site → Prop) (source : Text) (o : Nat) (p : Site)
    (spans : List (Nat × Text)) : Prop where
  text : woven (spaced source o spans) = p.all
  relays : ∀ relaid, List.Forall₂ Respaced (spaced source o spans) relaid →
    ∃ q, Relays motive p relaid q

section Steps

variable {source before : Text} {p q : Site} {spans : List (Nat × Text)}
  {motive motive₁ : Nat → Bool → Site → Prop}

theorem LaidOut.imp {o : Nat} (h : LaidOut motive₁ source o p spans)
    (himp : ∀ relaid q, Relays motive₁ p relaid q → ∀ o claimed, motive o claimed q) :
    LaidOut motive source o p spans := by
  refine ⟨h.text, fun relaid hr => ?_⟩
  obtain ⟨q, hq⟩ := h.relays relaid hr
  exact ⟨q, hq.kind, hq.newline, hq.starts, hq.text, himp relaid q hq⟩

/-- The end of the input is laid out. -/
theorem LaidOut.stop (hsource : source = before ++ p.all) (hp : p.Valid)
    (hk : p.kindHere = .endOfInput)
    (hstop : ∀ q : Site, q.Valid → q.newline = p.newline → q.kindHere = .endOfInput →
      ∀ o claimed, motive o claimed q) :
    LaidOut motive source before.size p [(p.start before.size, p.text)] := by
  obtain ⟨htext, hrest⟩ := hp.rest_nil hk
  have hpieces : spaced source before.size [(p.start before.size, p.text)] =
      [(p.gap.text, p.text)] := Site.spaced_cons hsource p.text []
  refine ⟨?_, fun relaid hr => ?_⟩
  · rw [hpieces, woven_cons, Site.all, hrest, List.append_assoc]
    rfl
  · rw [hpieces] at hr
    obtain ⟨x, relaid, hx, htail, rfl⟩ := List.forall₂_cons_left_iff.mp hr
    obtain rfl := List.forall₂_nil_left_iff.mp htail
    have hhead : (p.text ++ p.rest).head? = p.text.head? := by rw [hrest, List.append_nil]
    obtain ⟨g, rfl, hvalid, hnewline, hstarts⟩ := hp.respaced hhead hx
    refine ⟨p.withGap g, rfl, hnewline, hstarts, ?_, hstop _ hvalid hnewline ?_⟩
    · show Gap.text g ++ (p.text ++ p.rest) = _
      rw [hrest, woven_cons, List.append_assoc]
      rfl
    · rw [← hk, Site.kindHere, Site.kindHere, hnewline]
      rfl

/-- A token is laid out with what comes after it. -/
theorem LaidOut.token (hsource : source = before ++ p.all) (hp : p.Valid)
    (hk : p.kindHere ≠ .endOfInput) (hall : q.all = p.rest)
    (h : LaidOut motive₁ source (p.stop before.size) q spans)
    (hstep : ∀ g p' q', Site.Relaid p g q'.all p' → (∀ o, motive₁ o false q') →
      ∀ o claimed, motive o claimed p') :
    LaidOut motive source before.size p ((p.start before.size, p.text) :: spans) := by
  have hpieces : spaced source before.size ((p.start before.size, p.text) :: spans) =
      (p.gap.text, p.text) :: spaced source (p.stop before.size) spans :=
    Site.spaced_cons hsource p.text spans
  refine ⟨?_, fun relaid hr => ?_⟩
  · rw [hpieces, woven_cons, h.text, hall, Site.all, List.append_assoc]
  · rw [hpieces] at hr
    obtain ⟨x, relaid, hx, htail, rfl⟩ := List.forall₂_cons_left_iff.mp hr
    obtain ⟨q', hq'⟩ := h.relays relaid htail
    obtain ⟨g, rfl, hrelaid⟩ := hp.relaid hk (hall ▸ hq'.starts) hx
    refine ⟨_, hrelaid.kind, hrelaid.newline, hrelaid.starts, ?_,
      hstep g _ q' hrelaid fun o => hq'.holds o false⟩
    rw [woven_cons, ← hq'.text, List.append_assoc]
    rfl

/-- A regular expression is laid out with what comes after it. -/
theorem LaidOut.literal {after body : Text} (hsource : source = before ++ p.all) (hp : p.Valid)
    (hk : opensRegex p.kindHere) (htext : p.text ++ p.rest = '/' :: after)
    (hbody : regexLiteral? after = some ('/' :: body)) (hall : after = body ++ q.all)
    (h : LaidOut motive₁ source (p.start before.size + Text.size ('/' :: body)) q spans)
    (hstep : ∀ p' q', p'.Valid → p'.kind = p.kind → p'.newline = p.newline →
      p'.text ++ p'.rest = '/' :: (body ++ q'.all) →
      regexLiteral? (body ++ q'.all) = some ('/' :: body) → (∀ o, motive₁ o false q') →
      ∀ o claimed, motive o claimed p') :
    LaidOut motive source before.size p ((p.start before.size, '/' :: body) :: spans) := by
  have hpieces : spaced source before.size ((p.start before.size, '/' :: body) :: spans) =
      (p.gap.text, '/' :: body)
        :: spaced source (p.start before.size + Text.size ('/' :: body)) spans :=
    Site.spaced_cons hsource ('/' :: body) spans
  refine ⟨?_, fun relaid hr => ?_⟩
  · rw [hpieces, woven_cons, h.text, show p.all = p.gap.text ++ (p.text ++ p.rest) from rfl,
      htext, hall]
    simp
  · rw [hpieces] at hr
    obtain ⟨x, relaid, hx, htail, rfl⟩ := List.forall₂_cons_left_iff.mp hr
    obtain ⟨q', hq'⟩ := h.relays relaid htail
    obtain ⟨rest, htext', hp', hrest, hbody'⟩ := hp.withLiteral hk htext hbody hall hq'.starts
    have hhead : ((p.withRest rest).text ++ (p.withRest rest).rest).head? =
        ('/' :: body : Text).head? := (congrArg List.head? htext').trans rfl
    obtain ⟨g, rfl, hvalid, hnewline, hstarts⟩ := hp'.respaced hhead hx
    refine ⟨(p.withRest rest).withGap g, rfl, hnewline,
      (Site.startsLike_withRest hrest).trans hstarts, ?_,
      hstep _ q' hvalid rfl hnewline htext' hbody' fun o => hq'.holds o false⟩
    rw [woven_cons, ← hq'.text, List.append_assoc]
    exact congrArg (Gap.text g ++ ·) htext'

end Steps

/-- What a source spells in another layout. -/
theorem Spells.laidOut {o : Nat} {bare claimed : Bool} {p : Site} {its : List Item}
    {marks : List Mark} (h : Spells o bare claimed p its marks) {source before : Text}
    (hbefore : before.size = o) (hsource : source = before ++ p.all) (ts : List (Nat × Text)) :
    ∃ spans, marks.foldl (Mark.consumeWith spanOf) (ts ++ [(p.start o, p.text)]) = ts ++ spans ∧
      LaidOut (Respells bare its) source o p spans := by
  induction h generalizing before ts with
  | @stop o bare claimed p hp hb hk =>
      subst hbefore
      refine ⟨_, rfl, .stop hsource hp hk fun q hq hnewline hend o claimed => ?_⟩
      exact ⟨[], [], .nil, .stop hq (by rwa [hnewline]) hend⟩
  | @taken o bare claimed p q its marks hp hb hk hall h ih =>
      subst hbefore
      obtain ⟨spans, hfold, hlaid⟩ := ih (Site.size_past before p)
        (by rw [hsource, Site.all_eq hall, ← List.append_assoc])
        (ts ++ [(p.start before.size, p.text)])
      refine ⟨(p.start before.size, p.text) :: spans, ?_, .token hsource hp ?_ hall hlaid ?_⟩
      · rw [List.foldl_append, Site.marks_consume, spanOf, hfold, List.append_assoc]
        rfl
      · intro hend
        rw [hend] at hk
        cases hk
      · intro g p' q' hp' hq' o claimed
        obtain ⟨its', ms, hits, hs⟩ := hq' (p'.stop o)
        rw [← hp'.kindHere] at hk hs
        have hspells : Spells o bare claimed p' _ _ :=
          .taken hp'.valid (by rwa [hp'.newline]) hk hp'.rest.symm hs
        rw [hp'.kindHere, hp'.text] at hspells
        exact ⟨_, _, .cons _ hits, hspells⟩
  | @member o bare claimed p q n its marks hp hb hk hall hq hname halln h ih =>
      subst hbefore
      have hsource' : source = before ++ (p.gap.text ++ p.text) ++ q.all := by
        rw [hsource, Site.all_eq hall, ← List.append_assoc]
      have hsize : Text.size (before ++ (p.gap.text ++ p.text) ++ (q.gap.text ++ q.text)) =
          q.stop (p.stop before.size) := by
        rw [Site.size_past, Site.size_past]
      obtain ⟨spans, hfold, hlaid⟩ := ih hsize
        (by rw [hsource', Site.all_eq halln, ← List.append_assoc])
        (ts ++ [(p.start before.size, p.text)] ++ [(q.start (p.stop before.size), q.text)])
      rw [← Site.size_past before p] at hlaid hfold ⊢
      -- the name after the point is laid out first
      have hnamed : LaidOut (fun o _ q' => q'.Valid ∧ q'.kindHere = q.kindHere ∧
          q'.text = q.text ∧ ∃ n' : Site, n'.all = q'.rest ∧ ∀ o, Respells false its o false n')
          source _ q _ :=
        .token hsource' hq (by rintro hend; rw [hend] at hname; cases hname) halln hlaid
          fun g q' n' hq' hn' o claimed =>
            ⟨hq'.valid, hq'.kindHere, hq'.text, n', hq'.rest.symm, hn'⟩
      rw [Site.size_past] at hnamed hfold ⊢
      refine ⟨_, ?_, .token hsource hp (by rw [hk]; decide) hall hnamed ?_⟩
      · rw [List.foldl_append, List.foldl_append, Site.marks_consume, Site.marks_consume, spanOf,
          spanOf, hfold, List.append_assoc, List.append_assoc]
        rfl
      · intro g p' q' hp' hq' o claimed
        obtain ⟨hvalid, hkind, htext, n', halln', hn'⟩ := hq' 0
        obtain ⟨its', ms, hits, hs⟩ := hn' (q'.stop (p'.stop o))
        rw [← hkind] at hname
        have hspells : Spells o bare claimed p' _ _ :=
          .member hp'.valid (by rwa [hp'.newline]) (by rwa [hp'.kindHere]) hp'.rest.symm hvalid
            hname halln' hs
        rw [hkind, htext] at hspells
        exact ⟨_, _, .cons _ hits, hspells⟩
  | @literal o bare claimed p q after body its marks hp hb hk htext hbody hall h ih =>
      subst hbefore
      obtain ⟨spans, hfold, hlaid⟩ := ih (Site.size_pastLiteral before body p)
        (by rw [hsource, Site.all_eq_literal htext hall, ← List.append_assoc])
        (ts ++ [(p.start before.size, '/' :: body)])
      refine ⟨(p.start before.size, '/' :: body) :: spans, ?_,
        .literal hsource hp hk htext hbody hall hlaid ?_⟩
      · rw [List.foldl_cons, List.foldl_append, Mark.consumeWith.eq_2, List.dropLast_concat,
          Site.marks_consume, spanOf, spanOf, hfold, List.append_assoc]
        rfl
      · intro p' q' hp' hkind hnewline htext' hbody' hq' o claimed
        obtain ⟨its', ms, hits, hs⟩ := hq' (p'.start o + Text.size ('/' :: body))
        have hhere : p'.kindHere = p.kindHere := by
          rw [Site.kindHere, Site.kindHere, hkind, hnewline]
        rw [← hhere] at hk ⊢
        exact ⟨_, _, .cons _ hits, .literal hp' (by rwa [hnewline]) hk htext' hbody' rfl hs⟩
  | @ended o bare claimed p q its marks hp hb hk hall h ih =>
      subst hbefore
      obtain ⟨spans, hfold, hlaid⟩ := ih (Site.size_past before p)
        (by rw [hsource, Site.all_eq hall, ← List.append_assoc])
        (ts ++ [(p.start before.size, p.text)])
      refine ⟨(p.start before.size, p.text) :: spans, ?_,
        .token hsource hp (by rw [hk]; decide) hall hlaid ?_⟩
      · show (q.marks (p.stop before.size) false ++ marks).foldl (Mark.consumeWith spanOf)
          (ts ++ [(p.start before.size, p.text)]) = _
        rw [List.foldl_append, Site.marks_consume, spanOf, hfold, List.append_assoc]
        rfl
      · intro g p' q' hp' hq' o claimed
        obtain ⟨its', ms, hits, hs⟩ := hq' (p'.stop o)
        exact ⟨_, _, .cons _ hits, .ended hp'.valid (by rwa [hp'.newline])
          (by rwa [hp'.kindHere]) hp'.rest.symm hs⟩
  | @early o bare claimed p its marks hb h ih =>
      obtain ⟨spans, hfold, hlaid⟩ := ih hbefore hsource ts
      refine ⟨spans, hfold, hlaid.imp fun relaid q hq o claimed => ?_⟩
      obtain ⟨its', ms, hits, hs⟩ := hq.holds o claimed
      exact ⟨_, _, .cons _ hits, .early (by rwa [hq.newline]) hs⟩
  | @inserted o bare claimed p its marks hb hk ha h ih =>
      obtain ⟨spans, hfold, hlaid⟩ := ih hbefore hsource ts
      refine ⟨spans, hfold, hlaid.imp fun relaid q hq o claimed => ?_⟩
      obtain ⟨its', ms, hits, hs⟩ := hq.holds o claimed
      have ha' : q.admits := by rwa [Site.admits, hq.kindHere, hq.newline]
      rw [← hq.kindHere] at hk ⊢
      exact ⟨_, _, .cons _ hits, .inserted (by rwa [hq.newline]) hk ha' hs⟩
  | @comments o bare claimed p its marks h ih =>
      obtain ⟨spans, hfold, hlaid⟩ := ih hbefore hsource ts
      refine ⟨spans, hfold, hlaid.imp fun relaid q hq o claimed' => ?_⟩
      obtain ⟨its', ms, hits, hs⟩ := hq.holds o true
      exact ⟨_, _, .comments _ _ hits, .comments hs⟩

end Parser

/-! ## Runs -/

section Runs

variable {limit : Nat} {source : Text} {P : Program} {s : ParserState}

theorem span_consumed (events : List Event) :
    (consumed events).map Token.span = (marksOf events).foldl (Mark.consumeWith spanOf) [] :=
  consumed_marksWith spanOf events

/-- A source for which a run succeeds is laid out in the tokens that the run has taken. -/
theorem exists_laidOut (h : run limit source = .ok P s) : ∃ (p : Site) (its : List Parser.Item),
    p.all = source ∧ Parser.LaidOut (Parser.Respells false its) source 0 p
        ((consumed (history (run limit source))).map Token.span) ∧
      Parser.Derives .endOfInput limit (.elements [.endOfInput]) its P.body [] := by
  obtain ⟨its, ⟨p, ms, rfl, hspells, hmarks⟩, hderives⟩ := Parser.run_ok_iff.mp ⟨s, h, rfl⟩
  obtain ⟨spans, hfold, hlaid⟩ := hspells.laidOut (rfl : Text.size [] = 0) rfl []
  have hspans : (consumed (history (run limit p.all))).map Token.span = spans := by
    rw [span_consumed, h]
    show s.stream.marks.foldl (Mark.consumeWith spanOf) [] = spans
    rw [hmarks, List.foldl_append, Site.marks_consume]
    exact hfold
  exact ⟨p, its, rfl, hspans ▸ hlaid, hderives⟩

/-- The tokens that a successful run has taken make up its source, with what stands in front of each
of them.  Behind other trivia they have the same program up to comments, if the trivia start with
white space and a line ends in them where one did before. -/
theorem layout_transparent (h : run limit source = .ok P s) :
    woven (spaced source 0 ((consumed (history (run limit source))).map Token.span)) = source ∧
      ∀ relaid : List (Text × Text), List.Forall₂ Respaced
        (spaced source 0 ((consumed (history (run limit source))).map Token.span)) relaid →
        ∃ P', parse limit (woven relaid) = .ok P' ∧ P'.uncommented = P.uncommented := by
  obtain ⟨p, its, hall, hlaid, hderives⟩ := exists_laidOut h
  refine ⟨hlaid.text.trans hall, fun relaid hr => ?_⟩
  obtain ⟨q, hq⟩ := hlaid.relays relaid hr
  obtain ⟨its', ms, hits, hspells⟩ := hq.holds 0 false
  obtain ⟨body, _, hr', hbody, hderives'⟩ := hderives.redone its' hits
  cases hr'
  obtain ⟨s', h', -⟩ := Parser.run_ok_iff.mpr
    ⟨its', ⟨q, ms, rfl, hspells, rfl⟩, (hderives' : Parser.Derives .endOfInput limit
      (.elements [.endOfInput]) its' (Program.mk body).body [])⟩
  refine ⟨⟨body⟩, ?_, congrArg Program.mk hbody⟩
  rw [← hq.text, parse, h']
  rfl

end Runs

/-- A piece with the same trivia is respaced. -/
theorem Respaced.refl (x : Text × Text) : Respaced x x := ⟨rfl, .inl rfl⟩

/-- In this source comments are added in front of the first token, at the end of a line and at the
end of the input. -/
theorem layout_transparent_comments : ∃ P P',
    parse 256 "x = /a/g\n++y".toList = .ok P ∧
      parse 256 " /* b */x = /a/g // c\n++y // d".toList = .ok P' ∧
      P'.uncommented = P.uncommented := by
  obtain ⟨P, s, h⟩ := exists_run 256 "x = /a/g\n++y".toList (by decide +kernel)
  have hspaced : spaced "x = /a/g\n++y".toList 0
      ((consumed (history (run 256 "x = /a/g\n++y".toList))).map Token.span) =
        [([], ['x']), ([' '], ['=']), ([' '], "/a/g".toList), (['\n'], ['+', '+']), ([], ['y']),
          ([], [])] := by decide +kernel
  have hrelaid := (layout_transparent h).2
    [(" /* b */".toList, ['x']), ([' '], ['=']), ([' '], "/a/g".toList),
      (" // c\n".toList, ['+', '+']), ([], ['y']), (" // d".toList, [])]
  rw [hspaced] at hrelaid
  have hfirst : Respaced ([], ['x']) (" /* b */".toList, ['x']) :=
    ⟨rfl, .inr ⟨[.blank ' ', .block " b ".toList], rfl, ⟨rfl, rfl, trivial⟩, rfl, rfl⟩⟩
  have hbody : ∀ c, isLineTerminator c = false → ∀ d ∈ [' ', c], isLineTerminator d = false :=
    fun c hc => List.forall_mem_cons.mpr ⟨rfl, List.forall_mem_singleton.mpr hc⟩
  have hline : Respaced (['\n'], ['+', '+']) (" // c\n".toList, ['+', '+']) :=
    ⟨rfl, .inr ⟨[.blank ' ', .line " c".toList, .newlines '\n' []], rfl,
      ⟨rfl, ⟨hbody 'c' rfl, fun d hd => Option.some.inj hd ▸ rfl⟩,
        ⟨rfl, fun _ => nofun, fun d hd => Option.some.inj hd ▸ rfl⟩, trivial⟩, rfl, rfl⟩⟩
  have hend : Respaced ([], []) (" // d".toList, []) :=
    ⟨rfl, .inr ⟨[.blank ' ', .line " d".toList], rfl, ⟨rfl, ⟨hbody 'd' rfl, fun _ => nofun⟩, trivial⟩,
      rfl, rfl⟩⟩
  obtain ⟨P', h', hP'⟩ := hrelaid (.cons hfirst (.cons (.refl _) (.cons (.refl _) (.cons hline
    (.cons (.refl _) (.cons hend .nil))))))
  refine ⟨P, P', ?_, h', hP'⟩
  rw [parse, h]
  rfl

end EcmaSyntax
