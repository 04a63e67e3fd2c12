import EcmaSyntax.Proofs.Pacing
import EcmaSyntax.Proofs.Roles

/-!
# Restricted productions and inserted semicolons

**Input.**  A source and a run on it.

**Lines.**  `SameLine` says of two tokens of the source that no line ends between them, neither in
white space nor in a comment.

**Parts.**  `Plays` casts the tokens that the grammar was offered in the roles of a tree, one after
the other.  A token that can play a role has the next one, so an inserted semicolon has one, too.
`Role.Fits` says what the role demands: an increment stands in the line of the operand in front of
it, what a jump goes on with stands in the line of its keyword, and only the end of a statement may
be an inserted semicolon.

**Results.**
* `Spells.presents`: the tokens that a source is read as play the roles of the items.
* `restricted_productions`: the tokens that a successful run was offered play the roles of its
  program.  In any run at most one semicolon is inserted in front of a token, and the requests for
  tokens are at most twice as many as the bytes of the source, and two more.
-/

namespace EcmaSyntax

open TokenStream (isRestrictedKeyword)

/-! ## Parts -/

/-- Two tokens of a source stand in one line: no line ends in what the source has between them. -/
def SameLine (source : Text) (a b : Token) : Prop :=
  a.isInserted = false ∧ b.isInserted = false ∧ ∃ before gap rest : Text,
    source = before ++ (gap ++ rest) ∧ before.size = a.stop ∧
      Text.size (before ++ gap) = b.place.offset ∧ gap.any isLineTerminator = false

/-- A token can play a role between the tokens in front of it and behind it. -/
def Role.Fits (source : Text) (prev : Option Token) (t : Token) (next : Option Token) :
    Role → Prop
  | prefixed op => isIncrement t.kind ∧ t.kind.prefixOperator? = some op
  | postfixed op => t.kind.postfixOperator? = some op ∧ ∃ a ∈ prev, SameLine source a t
  | name => isRestrictedKeyword t.kind
  | jump keyword goesOn => t.kind = keyword ∧ isRestrictedKeyword keyword ∧
      (goesOn → ∃ b ∈ next, SameLine source t b)
  | empty => t.kind = .semicolon
  | separator => t.kind = .semicolon
  | ending => t.kind = .semicolon ∨ t.kind = .insertedSemicolon

/-- Behind a token, some others play some roles, each the next one if it can play any. -/
inductive Plays (source : Text) : Option Token → List Token → List Role → Prop
  | nil {prev : Option Token} : Plays source prev [] []
  | other {prev : Option Token} {t : Token} {ts : List Token} {roles : List Role} :
      t.kind.hasRole = false → Plays source (some t) ts roles → Plays source prev (t :: ts) roles
  | role {prev : Option Token} {t : Token} {ts : List Token} {r : Role} {roles : List Role} :
      r.Fits source prev t ts.head? → Plays source (some t) ts roles →
      Plays source prev (t :: ts) (r :: roles)

/-! ## Sketches -/

/-- A token of which its kind, its text and its offset are known. -/
def Token.sketch (k : TokenKind) (text : Text) (start : Nat) : Token :=
  ⟨k, text, ⟨⟨1, 1⟩, start⟩, false⟩

/-- What a mark tells of a token. -/
def Token.sketched (t : Token) : Token := .sketch t.kind t.text t.place.offset

section Sketched

variable {source : Text} {prev next : Option Token} {t : Token} {ts : List Token} {r : Role}
  {roles : List Role}

theorem Role.Fits.of_sketched
    (h : r.Fits source (prev.map Token.sketched) t.sketched (next.map Token.sketched)) :
    r.Fits source prev t next := by
  cases r with
  | postfixed op =>
      obtain ⟨hop, a, ha, hline⟩ := h
      obtain ⟨a', ha', rfl⟩ := Option.map_eq_some_iff.mp ha
      exact ⟨hop, a', ha', hline⟩
  | jump keyword goesOn =>
      obtain ⟨hk, hrestricted, hnext⟩ := h
      refine ⟨hk, hrestricted, fun hgoes => ?_⟩
      obtain ⟨b, hb, hline⟩ := hnext hgoes
      obtain ⟨b', hb', rfl⟩ := Option.map_eq_some_iff.mp hb
      exact ⟨b', hb', hline⟩
  | _ => exact h

/-- Nothing but the kinds, the texts and the offsets of tokens matters. -/
theorem Plays.of_sketched
    (h : Plays source (prev.map Token.sketched) (ts.map Token.sketched) roles) :
    Plays source prev ts roles := by
  induction ts generalizing prev roles with
  | nil =>
      cases h
      exact .nil
  | cons t ts ih =>
      cases h with
      | other hk h => exact .other hk (ih h)
      | role hr h =>
          rw [List.head?_map] at hr
          exact .role hr.of_sketched (ih h)

end Sketched

theorem map_withSemicolon (ts : List Token) :
    (withSemicolon ts).map Token.sketched = withSemicolon (ts.map Token.sketched) := by
  obtain rfl | ⟨ts, t, rfl⟩ := List.eq_nil_or_concat ts
  · rfl
  · rw [List.concat_eq_append, withSemicolon_concat, List.map_append, List.map_append,
      List.map_singleton, withSemicolon_concat]
    rfl

/-- Adds what a mark offers to the offers before it. -/
def Mark.offer (tokens : List Token) : Mark → List Token
  | .token k t start _ => tokens ++ [.sketch k t start]
  | .literal k t start => tokens.dropLast ++ [.sketch k t start]
  | .inserted => withSemicolon tokens
  | .ended _ => tokens

theorem offered_marks (events : List Event) :
    (offered events).map Token.sketched = (marksOf events).foldl Mark.offer [] := by
  rw [marksOf, List.foldl_filterMap]
  refine (List.foldl_hom _ fun tokens e => ?_).symm
  cases e <;> simp [Event.mark?, offer, Mark.offer, map_withSemicolon, Token.sketched]

/-! ## Sites -/

namespace Site

variable {p : Site} {o : Nat}

/-- The token of a site, given the offset of its gap. -/
def offer (p : Site) (o : Nat) : Token := .sketch p.kindHere p.text (p.start o)

/-- What the grammar is offered at a site: the token, behind a semicolon if the rules demand one. -/
def offers (p : Site) (o : Nat) (bare : Bool) : List Token :=
  (if bare && p.newline then [(p.offer o).semicolonBefore] else []) ++ [p.offer o]

theorem marks_offer (p : Site) (o : Nat) (bare : Bool) (ts : List Token) :
    (p.marks o bare).foldl Mark.offer ts = ts ++ p.offers o bare := by
  unfold marks offers
  split
  · exact withSemicolon_concat ts _
  · rfl

theorem offers_of_not_early {bare : Bool} (h : (bare && p.newline) = false) :
    p.offers o bare = [p.offer o] := by
  rw [offers, h]
  rfl

theorem offers_of_early {bare : Bool} (h : (bare && p.newline) = true) :
    p.offers o bare = [(p.offer o).semicolonBefore, p.offer o] := by
  rw [offers, h]
  rfl

theorem Valid.isInserted_offer (hp : p.Valid) : (p.offer o).isInserted = false :=
  decide_eq_false hp.kindHere_ne

/-- No line ends in front of a token that stands in the line of the token before it. -/
theorem Valid.sameLine {source before : Text} {a b : Token} (hp : p.Valid)
    (hnewline : p.newline = false) (hsource : source = before ++ p.all)
    (ha : a.isInserted = false) (hstop : a.stop = before.size) (hb : b.isInserted = false)
    (hstart : b.place.offset = p.start before.size) : SameLine source a b := by
  refine ⟨ha, hb, before, p.gap.text, p.text ++ p.rest, hsource, hstop.symm, ?_, ?_⟩
  · rw [hstart, Text.size_append]
    rfl
  · rw [← hp.fits.endsLine_eq]
    exact hnewline

theorem newline_of_postfixOperator? (h : p.kindHere.postfixOperator?.isSome) :
    p.newline = false := by
  unfold kindHere at h
  generalize p.kind = k at h
  cases hnewline : p.newline with
  | false => rfl
  | true =>
      rw [hnewline] at h
      cases k <;> cases h

/-- The kind of a word is that of its text. -/
theorem Valid.wordKind_eq (hp : p.Valid) (hname : p.kindHere.isIdentifierName) :
    wordKind p.text = p.kindHere := by
  have hkind : ∀ newline k, (Scanner.kindAfterGap newline k).isIdentifierName →
      Scanner.kindAfterGap newline k = k := by
    intro newline k h
    cases newline <;> cases k <;> first | rfl | cases h
  have heq : p.kindHere = p.kind := hkind _ _ hname
  rw [heq] at hname ⊢
  obtain ⟨hk, -⟩ | ht := hp.token
  · rw [hk] at hname
    cases hname
  · generalize p.kind = k, p.text = t at ht hname
    cases ht with
    | word => rfl
    | number => cases hname
    | string => cases hname
    | punctuator hk =>
        have hmem := (punctuator?_eq_some_iff.mp hk).1
        have : ∀ k ∈ TokenKind.punctuators, k.isIdentifierName = false := by decide
        rw [this _ hmem] at hname
        cases hname

end Site

namespace Parser

/-! ## Items -/

theorem Spells.areNamed {o : Nat} {bare claimed : Bool} {p : Site} {its : List Item}
    {marks : List Mark} (h : Spells o bare claimed p its marks) : AreNamed its := by
  induction h with
  | stop => exact fun _ => nofun
  | taken hp _ _ _ _ ih => exact (areNamed_cons _ _).mpr ⟨hp.wordKind_eq, ih⟩
  | member _ _ _ _ hq hname _ _ ih =>
      exact (areNamed_cons _ _).mpr ⟨⟨hname, hq.wordKind_eq hname⟩, ih⟩
  | literal _ _ _ _ _ _ _ ih => exact (areNamed_cons _ _).mpr ⟨trivial, ih⟩
  | ended _ _ _ _ _ ih => exact (areNamed_cons _ _).mpr ⟨trivial, ih⟩
  | early _ _ ih => exact (areNamed_cons _ _).mpr ⟨trivial, ih⟩
  | inserted _ _ _ _ ih => exact (areNamed_cons _ _).mpr ⟨trivial, ih⟩
  | comments _ ih => exact (areNamed_cons _ _).mpr ⟨trivial, ih⟩

/-- A token of the source ends at an offset. -/
def EndsAt (prev : Option Token) (o : Nat) : Prop := ∃ a ∈ prev, a.isInserted = false ∧ a.stop = o

/-- The tokens that are offered from a site on play the roles of some items.  If these start with a
token, no semicolon comes first. -/
structure Presents (o : Nat) (bare : Bool) (p : Site) (its : List Item) (us : List Token) :
    Prop where
  valid : p.Valid
  starts : StartsWithToken its → (bare && p.newline) = false ∧
    ∃ u ∈ us.head?, u.isInserted = false ∧ u.place.offset = p.start o
  plays : ∀ {source before : Text} {prev : Option Token} {behind : Bool} {roles : List Role},
    source = before ++ p.all → before.size = o → (behind → EndsAt prev o) →
    Casts behind its roles → Plays source prev us roles

/-- The end of a statement plays its role. -/
theorem Casts.exists_ending {b : Bool} {it : Item} {its : List Item} {roles : List Role}
    (h : Casts b (it :: its) roles) (hit : it.isEnding) :
    ∃ roles', roles = .ending :: roles' ∧ Casts false its roles' := by
  have hitem : it.hasRole ∧ it.isToken = false := by
    cases it <;> first | exact ⟨rfl, rfl⟩ | cases hit
  cases h with
  | other hrole =>
      rw [hitem.1] at hrole
      cases hrole
  | role hr h => exact ⟨_, by rw [hr.eq_ending hit], hitem.2 ▸ h⟩

section Fits

variable {source : Text} {prev next : Option Token} {behind : Bool} {k : TokenKind} {t : Text}
  {u : Token} {its : List Item} {r : Role}

theorem Suits.fits_taken (h : Suits behind (.taken k t) its r) (hu : u.kind = k)
    (hprev : k.postfixOperator?.isSome → behind → ∃ a ∈ prev, SameLine source a u)
    (hnext : isRestrictedKeyword k → StartsWithToken its → ∃ b ∈ next, SameLine source u b) :
    r.Fits source prev u next := by
  cases h with
  | prefixed hk hop => exact ⟨hu ▸ hk, hu ▸ hop⟩
  | postfixed hop hbehind => exact ⟨hu ▸ hop, hprev (by rw [hop]; rfl) hbehind⟩
  | name hk => exact show isRestrictedKeyword u.kind by rwa [hu]
  | jump hk hgoes => exact ⟨hu, hk, fun h => hnext hk (hgoes h)⟩
  | empty => exact hu
  | separator => exact hu
  | ending hit => cases hit

theorem Suits.fits_member (h : Suits behind (.member k t) its r) (hu : u.kind = k) :
    r.Fits source prev u next := by
  cases h with
  | member hk => exact show isRestrictedKeyword u.kind by rwa [hu]
  | ending hit => cases hit

end Fits

namespace Presents

variable {o : Nat} {bare : Bool} {p q n : Site} {it : Item} {its : List Item} {us : List Token}

theorem stop (hp : p.Valid) (hb : (bare && p.newline) = false) (hk : p.kindHere = .endOfInput) :
    Presents o bare p [] [p.offer o] := by
  refine ⟨hp, fun _ => ⟨hb, p.offer o, rfl, hp.isInserted_offer, rfl⟩, ?_⟩
  rintro source before prev behind roles - - - hcasts
  cases hcasts
  refine .other ?_ .nil
  show p.kindHere.hasRole = false
  rw [hk]
  rfl

/-- A token plays the role of its item. -/
theorem taken (hp : p.Valid) (hb : (bare && p.newline) = false) (hall : q.all = p.rest)
    (h : Presents (p.stop o) (isRestrictedKeyword p.kindHere) q its us) :
    Presents o bare p (.taken p.kindHere p.text :: its) (p.offer o :: us) := by
  refine ⟨hp, fun _ => ⟨hb, p.offer o, rfl, hp.isInserted_offer, rfl⟩, ?_⟩
  intro source before prev behind roles hsource ho hprev hcasts
  subst ho
  have hsource' : source = before ++ (p.gap.text ++ p.text) ++ q.all := by
    rw [hsource, Site.all_eq hall, ← List.append_assoc]
  have hends : EndsAt (some (p.offer before.size)) (p.stop before.size) :=
    ⟨_, rfl, hp.isInserted_offer, rfl⟩
  have hplays : ∀ {roles}, Casts true its roles →
      Plays source (some (p.offer before.size)) us roles :=
    h.plays hsource' (Site.size_past before p) fun _ => hends
  cases hcasts with
  | other hrole hcasts => exact .other hrole (hplays hcasts)
  | role hr hcasts =>
      refine .role (hr.fits_taken rfl (fun hop hbehind => ?_) fun hk hits => ?_) (hplays hcasts)
      · obtain ⟨a, ha, hinserted, hstop⟩ := hprev hbehind
        exact ⟨a, ha, hp.sameLine (Site.newline_of_postfixOperator? hop) hsource hinserted hstop
          hp.isInserted_offer rfl⟩
      · obtain ⟨hnewline, b, hb, hinserted, hstart⟩ := h.starts hits
        rw [hk, Bool.true_and] at hnewline
        rw [← Site.size_past before p] at hstart
        exact ⟨b, hb, h.valid.sameLine hnewline hsource' hp.isInserted_offer
          (Site.size_past before p).symm hinserted hstart⟩

/-- A name behind a point plays the role of a name, if any. -/
theorem member (hp : p.Valid) (hb : (bare && p.newline) = false) (hk : p.kindHere = .dot)
    (hall : q.all = p.rest) (hq : q.Valid) (halln : n.all = q.rest)
    (h : Presents (q.stop (p.stop o)) false n its us) :
    Presents o bare p (.member q.kindHere q.text :: its)
      (p.offer o :: q.offer (p.stop o) :: us) := by
  refine ⟨hp, fun _ => ⟨hb, p.offer o, rfl, hp.isInserted_offer, rfl⟩, ?_⟩
  intro source before prev behind roles hsource ho hprev hcasts
  subst ho
  have hdot : (p.offer before.size).kind.hasRole = false := by
    show p.kindHere.hasRole = false
    rw [hk]
    rfl
  have hsource' : source =
      before ++ (p.gap.text ++ p.text) ++ (q.gap.text ++ q.text) ++ n.all := by
    rw [hsource, Site.all_eq hall, Site.all_eq halln]
    simp only [List.append_assoc]
  have hplays : ∀ {roles}, Casts true its roles →
      Plays source (some (q.offer (p.stop before.size))) us roles :=
    h.plays hsource' (by rw [Site.size_past, Site.size_past]) fun _ =>
      ⟨_, rfl, hq.isInserted_offer, rfl⟩
  refine .other hdot ?_
  cases hcasts with
  | other hrole hcasts => exact .other hrole (hplays hcasts)
  | role hr hcasts => exact .role (hr.fits_member rfl) (hplays hcasts)

theorem literal {after body : Text} (hp : p.Valid) (hb : (bare && p.newline) = false)
    (htext : p.text ++ p.rest = '/' :: after) (hall : after = body ++ q.all)
    (h : Presents (p.start o + Text.size ('/' :: body)) false q its us) :
    Presents o bare p (.literal p.kindHere ('/' :: body) :: its)
      (.sketch .regex ('/' :: body) (p.start o) :: us) := by
  refine ⟨hp, fun _ => ⟨hb, _, rfl, rfl, rfl⟩, ?_⟩
  intro source before prev behind roles hsource ho hprev hcasts
  subst ho
  have hsource' : source = before ++ (p.gap.text ++ '/' :: body) ++ q.all := by
    rw [hsource, Site.all_eq_literal htext hall, ← List.append_assoc]
  exact .other rfl (h.plays hsource' (Site.size_pastLiteral before body p)
    (fun _ => ⟨_, rfl, rfl, rfl⟩) (Casts.literal_iff.mp hcasts))

theorem ended (hp : p.Valid) (hk : p.kindHere = .semicolon) (hall : q.all = p.rest)
    (h : Presents (p.stop o) false q its us) :
    Presents o bare p (.ended .semicolon :: its) (p.offer o :: us) := by
  refine ⟨hp, fun hits => absurd (hits _ rfl) Bool.false_ne_true, ?_⟩
  intro source before prev behind roles hsource ho hprev hcasts
  subst ho
  have hsource' : source = before ++ (p.gap.text ++ p.text) ++ q.all := by
    rw [hsource, Site.all_eq hall, ← List.append_assoc]
  obtain ⟨roles', rfl, hcasts'⟩ := hcasts.exists_ending rfl
  exact .role (.inl hk) (h.plays hsource' (Site.size_past before p) (absurd · Bool.false_ne_true)
    hcasts')

/-- A semicolon that is inserted in front of a token ends a statement. -/
theorem ending (hit : it.isEnding) (h : Presents o false p its us) :
    Presents o bare p (it :: its) ((p.offer o).semicolonBefore :: us) := by
  refine ⟨h.valid, fun hits => ?_, ?_⟩
  · have htoken : it.isToken := hits it rfl
    cases it <;> simp [Item.isToken, Item.isEnding] at hit htoken
  · intro source before prev behind roles hsource ho hprev hcasts
    obtain ⟨roles', rfl, hcasts'⟩ := hcasts.exists_ending hit
    exact .role (.inr rfl) (h.plays hsource ho (absurd · Bool.false_ne_true) hcasts')

theorem comments {cs : List Comment} (h : Presents o bare p its us) :
    Presents o bare p (.comments cs :: its) us :=
  ⟨h.valid, fun hits => absurd (hits _ rfl) Bool.false_ne_true, fun hsource ho _ hcasts =>
    h.plays hsource ho (absurd · Bool.false_ne_true) (Casts.comments_iff.mp hcasts)⟩

end Presents

/-- What a stream has noted offers the grammar the tokens that play the roles of the items. -/
theorem Spells.presents {o : Nat} {bare claimed : Bool} {p : Site} {its : List Item}
    {marks : List Mark} (h : Spells o bare claimed p its marks) :
    ∃ us, (∀ ts, marks.foldl Mark.offer (ts ++ p.offers o bare) = ts ++ us) ∧
      Presents o bare p its us := by
  induction h with
  | @stop o bare claimed p hp hb hk =>
      exact ⟨_, fun ts => by rw [Site.offers_of_not_early hb]; rfl, .stop hp hb hk⟩
  | @taken o bare claimed p q its marks hp hb hplain hall h ih =>
      obtain ⟨us, hfold, hus⟩ := ih
      refine ⟨_, fun ts => ?_, .taken hp hb hall hus⟩
      rw [Site.offers_of_not_early hb, List.foldl_append, Site.marks_offer, hfold,
        List.append_assoc]
      rfl
  | @member o bare claimed p q n its marks hp hb hk hall hq hname halln h ih =>
      obtain ⟨us, hfold, hus⟩ := ih
      refine ⟨_, fun ts => ?_, .member hp hb hk hall hq halln hus⟩
      rw [Site.offers_of_not_early hb, List.foldl_append, List.foldl_append, Site.marks_offer,
        Site.marks_offer, Site.offers_of_not_early rfl, hfold, List.append_assoc,
        List.append_assoc]
      rfl
  | @literal o bare claimed p q after body its marks hp hb hk htext hbody hall h ih =>
      obtain ⟨us, hfold, hus⟩ := ih
      refine ⟨_, fun ts => ?_, .literal hp hb htext hall hus⟩
      rw [Site.offers_of_not_early hb, List.foldl_cons, List.foldl_append, Mark.offer,
        List.dropLast_concat, Site.marks_offer, hfold, List.append_assoc]
      rfl
  | @ended o bare claimed p q its marks hp hb hk hall h ih =>
      obtain ⟨us, hfold, hus⟩ := ih
      refine ⟨_, fun ts => ?_, .ended hp hk hall hus⟩
      show (q.marks _ _ ++ marks).foldl Mark.offer (ts ++ p.offers o bare) = _
      rw [Site.offers_of_not_early hb, List.foldl_append, Site.marks_offer, hfold,
        List.append_assoc]
      rfl
  | @early o bare claimed p its marks hb h ih =>
      obtain ⟨us, hfold, hus⟩ := ih
      refine ⟨_, fun ts => ?_, hus.ending rfl⟩
      have hts := hfold (ts ++ [(p.offer o).semicolonBefore])
      rw [Site.offers_of_not_early rfl] at hts
      rw [Site.offers_of_early hb, List.append_cons, hts, ← List.append_cons]
  | @inserted o bare claimed p its marks hb hk ha h ih =>
      obtain ⟨us, hfold, hus⟩ := ih
      refine ⟨_, fun ts => ?_, hus.ending rfl⟩
      have hts := hfold (ts ++ [(p.offer o).semicolonBefore])
      rw [Site.offers_of_not_early rfl] at hts
      rw [Site.offers_of_not_early hb, List.foldl_cons, Mark.offer, withSemicolon_concat,
        List.append_cons, hts, ← List.append_cons]
  | comments h ih =>
      obtain ⟨us, hfold, hus⟩ := ih
      exact ⟨us, hfold, hus.comments⟩

end Parser

/-! ## Runs -/

/-- The tokens that a successful run was offered play the roles of its program. -/
theorem plays_offered {limit : Nat} {source : Text} {P : Program} {s : ParserState}
    (h : run limit source = .ok P s) :
    Plays source none (offered (history (run limit source))) P.roles := by
  obtain ⟨its, ⟨p, ms, rfl, hspells, hmarks⟩, hderives⟩ := Parser.run_ok_iff.mp ⟨s, h, rfl⟩
  obtain ⟨us, hfold, hus⟩ := hspells.presents
  have hoffered : (offered (history (run limit p.all))).map Token.sketched = us := by
    rw [offered_marks, h]
    show s.stream.marks.foldl Mark.offer [] = us
    rw [hmarks, List.foldl_append, Site.marks_offer]
    exact hfold []
  have hcasts := Parser.casts_program hderives hspells.areNamed
  have hplays : Plays p.all none us P.roles :=
    hus.plays rfl (rfl : Text.size [] = 0) (absurd · Bool.false_ne_true) hcasts
  rw [← hoffered] at hplays
  exact Plays.of_sketched hplays

/-- The tokens that a successful run was offered play the roles of its program: no line ends between
an operand and an increment behind it, nor between the keyword of a jump and what it goes on with,
and each semicolon that was inserted ends a statement.  Whether it succeeds or not, a run inserts at
most one semicolon in front of each token, and it requests at most twice as many tokens as its
source has bytes, and two more. -/
theorem restricted_productions (limit : Nat) (source : Text) :
    (∀ P s, run limit source = .ok P s →
      Plays source none (offered (history (run limit source))) P.roles) ∧
    Spaced (offered (history (run limit source))) ∧
    (∃ n, TokenStream.Asks (.ofText source) n (finalState (run limit source)).stream) ∧
    ∀ n, TokenStream.Asks (.ofText source) n (finalState (run limit source)).stream →
      n ≤ 2 * (source.size + 1) := by
  have haccounts := Parser.run_accounts limit source
  refine ⟨fun P s h => plays_offered h, haccounts.spaced, haccounts.asks, fun n hn => ?_⟩
  have hn := haccounts.asks_le hn
  have := source.length_le_size
  omega

/-- In this source a line ends in front of an increment, which does not stand behind the name before
it, and behind a keyword. -/
theorem restricted_productions_increments : ∃ P s,
    run 256 "i\n++j; while (k--) break\n;".toList = .ok P s ∧
      Plays "i\n++j; while (k--) break\n;".toList none
        (offered (history (run 256 "i\n++j; while (k--) break\n;".toList))) P.roles ∧
      ∃ n, TokenStream.Asks (.ofText "i\n++j; while (k--) break\n;".toList) n
          (finalState (run 256 "i\n++j; while (k--) break\n;".toList)).stream ∧
        n ≤ 2 * (Text.size "i\n++j; while (k--) break\n;".toList + 1) := by
  obtain ⟨P, s, h⟩ := exists_run 256 "i\n++j; while (k--) break\n;".toList (by decide +kernel)
  obtain ⟨hplays, -, ⟨n, hasks⟩, hle⟩ :=
    restricted_productions 256 "i\n++j; while (k--) break\n;".toList
  exact ⟨P, s, h, hplays P s h, n, hasks, hle n hasks⟩

example : (offered (history (run 256 "i\n++j; while (k--) break\n;".toList))).map (·.kind) =
    [.identifier, .insertedSemicolon, .restrictedIncrement, .identifier, .semicolon, .kwWhile,
      .openParen, .identifier, .decrement, .closeParen, .kwBreak, .insertedSemicolon, .semicolon,
      .endOfInput] := by decide +kernel

end EcmaSyntax
