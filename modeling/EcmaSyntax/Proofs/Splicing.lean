import EcmaSyntax.Proofs.Continuations
import EcmaSyntax.Proofs.LineBreaks

/-!
# Texts cut behind a token

**Spelling.**  `Spelled bare claimed p its` says that a source spells `its` from the site `p` on.
Whether a text is a token depends on the text behind it only through how that one starts, so a
source can be cut behind any of its tokens.

**Splices.**  `Splices bare claimed p its bare' w q` says that `its` are spelled by the text `w`
between the sites `p` and `q`, and that they are spelled by it in front of any other site that
starts like `q`.

**Results.**
* `Spelled.splice`: what a source spells can be cut behind any token.
* `Spelled.onLine`: what is spelled up to the last token of a source may stand in front of a token
  on the next line, with the gap at the end of the source in front of it.
* `Spelled.parses`, `exists_spelled_of_parse`: a program is what the grammar derives from the items
  that its text spells.
-/

namespace EcmaSyntax

/-! ## Tokens on a new line -/

/-- A text starts like one with another line. -/
theorem startsLike_line (t u : Text) : StartsLike t (t ++ '\n' :: u) := by
  cases t with
  | nil => exact .inr (.inr (.inr rfl))
  | cons => exact .inl rfl

namespace Site

/-- The token of a site on a new line behind the gap of another one. -/
def onLineAfter (p q : Site) : Site := q.withGap (p.gap.join q.gap)

variable {p q : Site}

theorem all_onLineAfter (hp : p.Valid) (hk : p.kindHere = .endOfInput) :
    (p.onLineAfter q).all = p.all ++ '\n' :: q.all := by
  obtain ⟨htext, hrest⟩ := hp.rest_nil hk
  show Gap.text (p.gap.join q.gap) ++ (q.text ++ q.rest) = _
  rw [Gap.text_join, Site.all, htext, hrest, Site.all]
  simp

theorem newline_onLineAfter (p q : Site) : (p.onLineAfter q).newline = true :=
  Gap.endsLine_join _ _

theorem kindHere_onLineAfter (p q : Site) :
    (p.onLineAfter q).kindHere = Scanner.kindAfterGap true q.kindHere := by
  rw [kindHere, newline_onLineAfter, kindHere]
  show Scanner.kindAfterGap true q.kind = _
  cases q.newline <;> cases q.kind <;> rfl

theorem Valid.onLineAfter (hp : p.Valid) (hk : p.kindHere = .endOfInput) (hq : q.Valid) :
    (p.onLineAfter q).Valid := by
  obtain ⟨htext, hrest⟩ := hp.rest_nil hk
  have hfits := hp.fits
  rw [htext, hrest] at hfits
  exact ⟨hfits.join hq.fits hq.head, hq.settled, hq.token⟩

end Site

namespace Parser

open TokenStream (isRestrictedKeyword)

/-! ## What a source spells -/

/-- The items that a source spells have kinds that the scanner gives them. -/
theorem Spells.areScanned {o : Nat} {bare claimed : Bool} {p : Site} {its : List Item}
    {marks : List Mark} (h : Spells o bare claimed p its marks) : AreScanned its := by
  induction h with
  | stop => exact fun _ => nofun
  | taken _ _ _ _ _ ih => exact List.forall_mem_cons.mpr ⟨rfl, ih⟩
  | member _ _ _ _ _ hname _ _ ih => exact List.forall_mem_cons.mpr ⟨hname, ih⟩
  | literal _ _ hk _ _ _ _ ih => exact List.forall_mem_cons.mpr ⟨hk, ih⟩
  | ended _ _ _ _ _ ih => exact List.forall_mem_cons.mpr ⟨rfl, ih⟩
  | early _ _ ih => exact List.forall_mem_cons.mpr ⟨rfl, ih⟩
  | inserted _ _ _ _ ih => exact List.forall_mem_cons.mpr ⟨rfl, ih⟩
  | comments _ ih => exact List.forall_mem_cons.mpr ⟨rfl, ih⟩

/-- A source spells some items from a site on, wherever the site stands. -/
def Spelled (bare claimed : Bool) (p : Site) (its : List Item) : Prop :=
  ∃ o ms, Spells o bare claimed p its ms

namespace Spelled

variable {bare bare₁ claimed claimed₁ : Bool} {p q : Site} {it : Item} {its : List Item}

theorem at_zero (h : Spelled bare claimed p its) : ∃ ms, Spells 0 bare claimed p its ms := by
  obtain ⟨o, ms, h⟩ := h
  exact h.shift 0

theorem pass {o o₁ : Nat} {ms : List Mark} {w : Text} (h : Spelled bare₁ false q its)
    (hp : Passes o bare p it ms w o₁ bare₁ q) (claimed : Bool) :
    Spelled bare claimed p (it :: its) := by
  obtain ⟨o', ms', h⟩ := h
  obtain ⟨ms', h⟩ := h.shift o₁
  exact ⟨_, _, hp.spells h claimed⟩

theorem stay {ms : List Mark} (h : Spelled bare₁ claimed₁ p its)
    (hp : Stays bare claimed p it ms bare₁ claimed₁) : Spelled bare claimed p (it :: its) := by
  obtain ⟨o, ms', h⟩ := h
  exact ⟨_, _, hp.spells h⟩

theorem areScanned (h : Spelled bare claimed p its) : AreScanned its := by
  obtain ⟨o, ms, h⟩ := h
  exact h.areScanned

theorem nil_iff : Spelled bare claimed p [] ↔
    p.Valid ∧ (bare && p.newline) = false ∧ p.kindHere = .endOfInput := by
  constructor
  · rintro ⟨o, ms, h⟩
    cases h with
    | stop hp hb hk => exact ⟨hp, hb, hk⟩
  · rintro ⟨hp, hb, hk⟩
    exact ⟨0, _, .stop hp hb hk⟩

theorem comments_iff {cs : List Comment} : Spelled bare claimed p (.comments cs :: its) ↔
    cs = (if claimed then [] else p.gap.comments) ∧ Spelled bare true p its := by
  constructor
  · rintro ⟨o, ms, h⟩
    cases h with
    | comments h => exact ⟨rfl, _, _, h⟩
  · rintro ⟨rfl, o, ms, h⟩
    exact ⟨_, _, .comments h⟩

/-- An item is passed, or no token is. -/
theorem uncons (h : Spelled bare claimed p (it :: its)) :
    (∃ o ms w o₁ bare₁ q, Passes o bare p it ms w o₁ bare₁ q ∧ Spelled bare₁ false q its) ∨
      ∃ ms bare₁ claimed₁, Stays bare claimed p it ms bare₁ claimed₁ ∧
        Spelled bare₁ claimed₁ p its := by
  obtain ⟨o, ms, h⟩ := h
  cases h with
  | taken hp hb hk hall h => exact .inl ⟨o, _, _, _, _, _, .taken hp hb hk hall, _, _, h⟩
  | member hp hb hk hall hq hname halln h =>
      exact .inl ⟨o, _, _, _, _, _, .member hp hb hk hall hq hname halln, _, _, h⟩
  | literal hp hb hk htext hbody hall h =>
      exact .inl ⟨o, _, _, _, _, _, .literal hp hb hk htext hbody hall, _, _, h⟩
  | ended hp hb hk hall h => exact .inl ⟨o, _, _, _, _, _, .ended hp hb hk hall, _, _, h⟩
  | early hb h => exact .inr ⟨_, _, _, .early hb, _, _, h⟩
  | inserted hb hk ha h => exact .inr ⟨_, _, _, .inserted hb hk ha, _, _, h⟩
  | comments h => exact .inr ⟨_, _, _, .comments, _, _, h⟩

end Spelled

/-! ## Cuts -/

/-- Whether no line may end after an item. -/
def Item.restricts : Item → Bool
  | .taken k _ => isRestrictedKeyword k
  | _ => false

theorem Passes.bare_eq {o o₁ : Nat} {bare bare₁ : Bool} {p q : Site} {it : Item}
    {ms : List Mark} {w : Text} (h : Passes o bare p it ms w o₁ bare₁ q) :
    bare₁ = it.restricts := by
  cases h <;> rfl

/-- A list that ends as a statement does ends with a token behind which a line may end, or with a
semicolon that was inserted behind a token. -/
theorem EndsStatement.cases {its : List Item} (h : EndsStatement its []) :
    (∃ its₀ it, its = its₀ ++ [it] ∧ (it.isToken ∨ it = .ended .semicolon) ∧
        it.restricts = false) ∨
      ∃ its₀ it e, its = its₀ ++ [it, e] ∧ it.precedesEnding ∧ e.isEnding ∧
        e ≠ .ended .semicolon := by
  obtain ⟨it, hit, its₀, rfl⟩ | ⟨e, he, it, hit, its₀, rfl⟩ := h
  · refine .inl ⟨its₀, it, rfl, ?_⟩
    cases it with
    | taken k t =>
        have hk : k = .closeBrace ∨ k = .semicolon := by simpa [Item.endsStatement] using hit
        obtain rfl | rfl := hk <;> exact ⟨.inl rfl, rfl⟩
    | _ => cases hit
  · by_cases hsemi : e = .ended .semicolon
    · subst hsemi
      exact .inl ⟨its₀ ++ [it], _, (List.append_cons its₀ it _), .inr rfl, rfl⟩
    · exact .inr ⟨its₀, it, e, rfl, hit, he, hsemi⟩

/-- Items are spelled between two sites, and in front of any site that starts like the second
one. -/
structure Splices (bare claimed : Bool) (p : Site) (its : List Item) (bare' : Bool) (w : Text)
    (q : Site) : Prop where
  text : p.all = w ++ q.all
  respell : ∀ q', StartsLike q.all q'.all → ∃ v, (p.withRest v).all = w ++ q'.all ∧
    StartsLike p.all (p.withRest v).all ∧
    ∀ more, Spelled bare' false q' more → Spelled bare claimed (p.withRest v) (its ++ more)

namespace Splices

variable {bare bare₁ bare' claimed claimed₁ : Bool} {p p₁ q : Site} {it : Item} {its : List Item}
  {w w' : Text}

/-- A token that is passed is spelled up to the next one. -/
theorem single {o o₁ : Nat} {ms : List Mark} (hp : Passes o bare p it ms w o₁ bare' q)
    (claimed : Bool) : Splices bare claimed p [it] bare' w q := by
  refine ⟨hp.all_eq, fun q' hq' => ?_⟩
  obtain ⟨v, hv, hpasses⟩ := hp.respell hq'
  obtain ⟨ms', o₁', hp'⟩ := hpasses 0
  refine ⟨v, hv, ?_, fun more hmore => hmore.pass hp' claimed⟩
  rw [hv, hp.all_eq]
  exact hq'.append w

/-- A token is passed in front of what is spelled. -/
theorem pass {o o₁ : Nat} {ms : List Mark} (h : Splices bare₁ false p₁ its bare' w' q)
    (hp : Passes o bare p it ms w o₁ bare₁ p₁) (claimed : Bool) :
    Splices bare claimed p (it :: its) bare' (w ++ w') q := by
  refine ⟨by rw [hp.all_eq, h.text, List.append_assoc], fun q' hq' => ?_⟩
  obtain ⟨v₁, hv₁, hstarts, hspelled⟩ := h.respell q' hq'
  obtain ⟨v, hv, hpasses⟩ := hp.respell hstarts
  obtain ⟨ms', o₁', hp'⟩ := hpasses 0
  refine ⟨v, by rw [hv, hv₁, List.append_assoc], ?_,
    fun more hmore => (hspelled more hmore).pass hp' claimed⟩
  rw [hv, hp.all_eq]
  exact hstarts.append w

/-- An item that passes no token stands in front of what is spelled. -/
theorem stay {ms : List Mark} (h : Splices bare₁ claimed₁ p its bare' w q)
    (hp : Stays bare claimed p it ms bare₁ claimed₁) :
    Splices bare claimed p (it :: its) bare' w q := by
  refine ⟨h.text, fun q' hq' => ?_⟩
  obtain ⟨v, hv, hstarts, hspelled⟩ := h.respell q' hq'
  exact ⟨v, hv, hstarts, fun more hmore => (hspelled more hmore).stay (hp.withRest v)⟩

/-- What is cut in front of the end of a text may stand in front of a token on the next line. -/
theorem onLine (h : Splices bare claimed p its bare' w q) (hq : q.Valid)
    (hend : q.kindHere = .endOfInput) (next : Site) :
    ∃ p' : Site, p'.all = p.all ++ '\n' :: next.all ∧
      ∀ more, Spelled bare' false (q.onLineAfter next) more →
        Spelled bare claimed p' (its ++ more) := by
  have hall := Site.all_onLineAfter (q := next) hq hend
  obtain ⟨v, hv, -, hspelled⟩ := h.respell _ (hall ▸ startsLike_line q.all next.all)
  refine ⟨_, ?_, hspelled⟩
  rw [hv, hall, h.text, List.append_assoc]

end Splices

/-- What a source spells can be cut behind any token. -/
theorem Spelled.splice {bare claimed : Bool} {p : Site} {its more : List Item} {it : Item}
    (h : Spelled bare claimed p (its ++ it :: more)) (hit : it.isToken ∨ it = .ended .semicolon) :
    ∃ w q, Splices bare claimed p (its ++ [it]) it.restricts w q ∧
      Spelled it.restricts false q more := by
  induction its generalizing bare claimed p with
  | nil =>
      obtain ⟨o, ms, w, o₁, bare₁, q, hp, h⟩ | ⟨ms, bare₁, claimed₁, hp, -⟩ := Spelled.uncons h
      · obtain rfl := hp.bare_eq
        exact ⟨w, q, .single hp claimed, h⟩
      · cases hp <;> simp [Item.isToken] at hit
  | cons first its ih =>
      obtain ⟨o, ms, w, o₁, bare₁, p₁, hp, h⟩ | ⟨ms, bare₁, claimed₁, hp, h⟩ := Spelled.uncons h
      · obtain ⟨w', q, hsplices, hq⟩ := ih h
        exact ⟨w ++ w', q, hsplices.pass hp claimed, hq⟩
      · obtain ⟨w', q, hsplices, hq⟩ := ih h
        exact ⟨w', q, hsplices.stay hp, hq⟩

/-- If only comments come behind a token, then what is spelled up to it may stand in front of a
token on the next line. -/
theorem Spelled.onLine {bare claimed : Bool} {p : Site} {its more : List Item} {it : Item}
    {cs : List Comment} (h : Spelled bare claimed p (its ++ it :: more))
    (hit : it.isToken ∨ it = .ended .semicolon)
    (hlast : ∀ q, Spelled it.restricts false q more → Spelled false false q [.comments cs])
    (next : Site) : ∃ q p' : Site, q.Valid ∧ q.kindHere = .endOfInput ∧ cs = q.gap.comments ∧
      p'.all = p.all ++ '\n' :: next.all ∧
      ∀ more', Spelled it.restricts false (q.onLineAfter next) more' →
        Spelled bare claimed p' (its ++ [it] ++ more') := by
  obtain ⟨w, q, hsplices, hq⟩ := h.splice hit
  obtain ⟨hcs, hnil⟩ := comments_iff.mp (hlast q hq)
  obtain ⟨hvalid, -, hend⟩ := nil_iff.mp hnil
  obtain ⟨p', hall, hspelled⟩ := hsplices.onLine hvalid hend next
  exact ⟨q, p', hvalid, hend, hcs, hall, hspelled⟩

/-! ## Programs -/

theorem Spelled.parses {limit : Nat} {p : Site} {its : List Item} {body : List Statement}
    (h : Spelled false false p its)
    (hd : Derives .endOfInput limit (.elements [.endOfInput]) its body []) :
    parse limit p.all = .ok ⟨body⟩ := by
  obtain ⟨ms, h⟩ := h.at_zero
  exact h.parses hd

/-- A program is derived from what its text spells. -/
theorem exists_spelled_of_parse {limit : Nat} {source : Text} {P : Program}
    (h : parse limit source = .ok P) : ∃ p its, p.all = source ∧ Spelled false false p its ∧
      Derives .endOfInput limit (.elements [.endOfInput]) its P.body [] := by
  obtain ⟨s, hrun⟩ := parse_eq_ok_iff.mp h
  obtain ⟨its, ⟨p, ms, hall, hspells, -⟩, hd⟩ := run_ok_iff.mp ⟨s, hrun, rfl⟩
  exact ⟨p, its, hall, ⟨_, _, hspells⟩, hd⟩

end Parser

end EcmaSyntax
