import EcmaSyntax.Proofs.Coherence
import EcmaSyntax.Proofs.Completion.Statements
import EcmaSyntax.Proofs.Respelling

/-!
# The first token that cannot be right

**Input.**  A text that is no program because of a token that stands where the grammar has no use
for it, and a limit on the number of open rules.

**Results.**
* `Moves.respell`: what a parser moved over is spelled in front of any text that starts alike.
* `Leads.respell`: what a parser took is spelled in front of a space and the words of a
  completion.
* `unexpected_first`: the text up to the last token taken before the failure is the beginning of
  a program, and nothing but a gap stands between it and the failure.

The program needs one more level of room than the run had.
-/

namespace EcmaSyntax
namespace Parser

open TokenStream (isRestrictedKeyword)

section Respell

variable {s s' : ParserState} {before : Text} {bare claimed : Bool} {p : Site}

/-- A parser that takes no token stays where it stands. -/
theorem Stands.idle (hs : Stands s before bare claimed p) (hf : Fresh s) (h : Idle s s') :
    ∃ bare' claimed', Stands s' before bare' claimed' p ∧ Fresh s' := by
  obtain ⟨its, hits, hm⟩ := h
  induction its generalizing s bare claimed with
  | nil =>
      obtain ⟨n, rfl⟩ := hm.eq_atDepth
      exact ⟨bare, claimed, hs.withDepth n, hf.withDepth n⟩
  | cons it its ih =>
      obtain ⟨s₁, hit, hm⟩ := hm.uncons
      obtain ⟨hidle, hits⟩ := List.forall_mem_cons.mp hits
      obtain ⟨w, o₁, bare₁, q, ms, hp, -⟩ | ⟨bare₁, claimed₁, ms, -, hs₁, hf₁, -⟩ := hs.step hf hit
      · obtain h | h := hp.item <;> simp [Item.isReal, h] at hidle
      · exact ih hs₁ hf₁ hits hm

/-- What a parser moved over is spelled in front of any text that starts alike. -/
theorem Moves.respell {its : List Item} (h : Moves s its s' [])
    (hs : Stands s before bare claimed p) (hf : Fresh s) :
    ∃ w bare₁ claimed₁ q, Stands s' (before ++ w) bare₁ claimed₁ q ∧ Fresh s' ∧
      p.all = w ++ q.all ∧ ∀ u its' ms, StartsLike q.all (q.withRest u).all →
        Spells (before ++ w).size bare₁ claimed₁ (q.withRest u) its' ms →
          ∃ v ms', StartsLike p.all (p.withRest v).all ∧
            (p.withRest v).all = w ++ (q.withRest u).all ∧
            Spells before.size bare claimed (p.withRest v) (its ++ its') ms' := by
  induction its generalizing s before bare claimed p with
  | nil =>
      obtain ⟨n, rfl⟩ := h.eq_atDepth
      refine ⟨[], bare, claimed, p, ?_, hf.withDepth n, rfl, fun u its' ms hu hspells => ?_⟩
      · rw [List.append_nil]
        exact hs.withDepth n
      · rw [List.append_nil] at hspells
        exact ⟨u, ms, hu, rfl, hspells⟩
  | cons it its ih =>
      obtain ⟨s₁, hit, hits⟩ := h.uncons
      obtain ⟨w, o₁, bare₁, q, ms, hp, hs₁, hf₁, -⟩ | ⟨bare₁, claimed₁, ms, hp, hs₁, hf₁, -⟩ :=
        hs.step hf hit
      · obtain ⟨w', bare', claimed', q', hs', hf', hq', h⟩ := ih hits hs₁ hf₁
        refine ⟨w ++ w', bare', claimed', q', by rwa [← List.append_assoc], hf',
          by rw [hp.all_eq, hq', List.append_assoc], fun u its' ms' hu hspells => ?_⟩
        rw [← List.append_assoc] at hspells
        obtain ⟨v, ms₁, hv, hall, hspells⟩ := h u its' ms' hu hspells
        obtain ⟨rest, hrest, hpasses⟩ := hp.respell hv
        obtain ⟨ms₂, o₂, hp'⟩ := hpasses before.size
        rw [hp'.size_eq rfl] at hspells
        refine ⟨rest, _, ?_, ?_, hp'.spells hspells claimed⟩
        · rw [hrest, hp.all_eq]
          exact hv.append w
        · rw [hrest, hall, List.append_assoc]
      · obtain ⟨w', bare', claimed', q', hs', hf', hq', h⟩ := ih hits hs₁ hf₁
        refine ⟨w', bare', claimed', q', hs', hf', hq', fun u its' ms' hu hspells => ?_⟩
        obtain ⟨v, ms₁, hv, hall, hspells⟩ := h u its' ms' hu hspells
        exact ⟨v, _, hv, hall, (hp.withRest v).spells hspells⟩

/-- Written items are spelled behind a space. -/
theorem exists_spelled_behind {more : List Item} (h : ∀ it ∈ more, it.IsWritten) (o : Nat)
    (bare : Bool) : ∃ q t ms, q.all = ' ' :: t ∧ Spells o bare false q more ms := by
  obtain ⟨q, ms, -, hq, hspells⟩ := exists_spelled h (.inr rfl) o bare false
  exact ⟨q, _, ms, hq, hspells⟩

theorem startsLike_space (r t : Text) : StartsLike r (' ' :: t) := .inr (.inr (.inr rfl))

theorem isIdentifierName_of_isRestrictedKeyword {k : TokenKind} (h : isRestrictedKeyword k) :
    k.isIdentifierName := by
  cases k <;> first | rfl | cases h

/-- A point is taken, and no name comes after it. -/
theorem Stands.point {t : Token} (hs : Stands s before bare claimed p)
    (hk : s.current.kind = .dot) (ht : Parser.take.run s = .ok t s')
    (hn : s'.current.kind.isIdentifierName = false) :
    ∃ bare' q, Stands s' (before ++ (p.gap.text ++ p.text)) bare' false q ∧ Fresh s' ∧
      q.all = p.rest ∧ (bare && p.newline) = false ∧ p.kindHere = .dot := by
  have hb : (bare && p.newline) = false := hs.not_early (by rw [hk]; decide)
  obtain ⟨q, hq, hall⟩ := (hs.ready hb).exists_site ht
  obtain ⟨s₁, ht₁, hs₁, hprevious, -⟩ := Ready.take (hall ▸ hs.ready hb) hq
  rw [ht] at ht₁
  cases ht₁
  refine ⟨_, q, hs₁, ⟨hprevious, fun hr => ?_⟩, hall, hb, (hs.kind_eq hb).symm.trans hk⟩
  rw [isIdentifierName_of_isRestrictedKeyword hr] at hn
  cases hn

/-- A name may be put after a point. -/
theorem Spells.point {more : List Item} (hmore : ∀ it ∈ more, it.IsWritten) (hp : p.Valid)
    (hb : (bare && p.newline) = false) (hk : p.kindHere = .dot) (o : Nat) (claimed : Bool) :
    ∃ t ms, Spells o bare claimed (p.withRest (' ' :: t)) (Completion.member :: more) ms := by
  let name (rest : Text) : Site := ⟨[.blank ' '], .identifier, ['a'], rest⟩
  obtain ⟨n, t, ms, hn, hspells⟩ :=
    exists_spelled_behind hmore ((name []).stop ((p.withRest []).stop o)) false
  have hname : (name n.all).Valid := by
    refine Site.valid_of_tokenAt (.inr rfl) (tokenAt_name (by decide +kernel)) ?_
    rw [hn]
    exact startsLike_space [] t
  have hend : p.kindHere ≠ .endOfInput := by
    rw [hk]
    decide
  exact ⟨'a' :: n.all, _, .member (q := name n.all)
    (hp.withRest hend (startsLike_space p.rest ('a' :: n.all))) hb hk rfl hname rfl rfl hspells⟩

/-- What a parser took is spelled in front of a space and the words of written items. -/
theorem Leads.respell {done more : List Item} (h : Leads s done s')
    (hs : Stands s before bare claimed p) (hf : Fresh s) (hmore : ∀ it ∈ more, it.IsWritten) :
    ∃ w bare₁ claimed₁ q v t ms, Stands s' (before ++ w) bare₁ claimed₁ q ∧ p.all = w ++ q.all ∧
      (p.withRest v).all = w ++ ' ' :: t ∧
      Spells before.size bare claimed (p.withRest v) (done ++ more) ms := by
  cases h with
  | token hm ht hit hi =>
      obtain ⟨w, bare₁, claimed₁, p₁, hs₁, hf₁, hall, hrespell⟩ := hm.respell hs hf
      obtain ⟨w₁, o₂, bare₂, p₂, ms, hp, hs₂, hf₂, -⟩ | ⟨bare₂, claimed₂, ms, hp, -⟩ :=
        hs₁.step hf₁ ht
      · obtain ⟨bare', claimed', hs', -⟩ := hs₂.idle hf₂ hi
        obtain ⟨q, t, ms₁, hq, hspells⟩ :=
          exists_spelled_behind hmore (Text.size (before ++ w ++ w₁)) bare₂
        have hstarts : StartsLike p₂.all q.all := hq ▸ startsLike_space p₂.all t
        obtain ⟨rest, hrest, hpasses⟩ := hp.respell hstarts
        obtain ⟨ms₂, o₂', hp'⟩ := hpasses (Text.size (before ++ w))
        rw [hp'.size_eq rfl] at hspells
        obtain ⟨v, ms₃, -, hv, hspells⟩ := hrespell rest _ _
          (by rw [hrest, hp.all_eq]; exact hstarts.append w₁) (hp'.spells hspells claimed₁)
        refine ⟨w ++ w₁, bare', claimed', p₂, v, t, ms₃, by rwa [← List.append_assoc],
          by rw [hall, hp.all_eq, List.append_assoc], ?_, ?_⟩
        · rw [hv, hrest, hq, List.append_assoc]
        · rwa [List.append_assoc]
      · cases hp <;> cases hit
  | point hm hk ht hn hi =>
      obtain ⟨w, bare₁, claimed₁, p₁, hs₁, hf₁, hall, hrespell⟩ := hm.respell hs hf
      obtain ⟨bare₂, p₂, hs₂, hf₂, hall₂, hb, hdot⟩ := hs₁.point hk ht hn
      obtain ⟨bare', claimed', hs', -⟩ := hs₂.idle hf₂ hi
      obtain ⟨t, ms, hspells⟩ :=
        Spells.point hmore hs₁.valid hb hdot (Text.size (before ++ w)) claimed₁
      have hstarts : StartsLike p₁.all (p₁.withRest (' ' :: t)).all :=
        Site.startsLike_withRest (startsLike_space p₁.rest t)
      obtain ⟨v, ms₁, -, hv, hspells⟩ := hrespell _ _ _ hstarts hspells
      refine ⟨w ++ (p₁.gap.text ++ p₁.text), bare', claimed', p₂, v, t, ms₁,
        by rwa [← List.append_assoc], ?_, ?_, ?_⟩
      · rw [hall, Site.all, ← hall₂]
        simp only [List.append_assoc]
      · rw [hv, Site.all_withRest]
        simp only [List.append_assoc]
      · rwa [List.append_assoc]

end Respell

/-- The place of the token at hand, whether it is that of the site or a semicolon before it. -/
theorem Stands.offset_current {s : ParserState} {before : Text} {bare claimed : Bool} {p : Site}
    (h : Stands s before bare claimed p) : s.current.place.offset = p.start before.size := by
  obtain ⟨place, hplace, hcurrent, -⟩ := h.token
  rw [hcurrent, TokenStream.delivered, ← hplace]
  split <;> rfl

/-- A run that fails at a token took the first token of the text and some elements. -/
theorem fails_of_run {limit : Nat} {source : Text} {f : Failure} {s : ParserState}
    {k : TokenKind} {text : Text} (h : run limit source = .error f s)
    (hf : f.cause = .unexpected k text) :
    ∃ t s₁, take.run (ParserState.ofText source) = .ok t s₁ ∧
      (elements (rule (source.length + 3) limit) [.endOfInput] (source.length + 3)).run s₁ =
        .error f s := by
  rw [run_eq] at h
  cases ht : take.run (ParserState.ofText source) with
  | error e s₁ =>
      rw [ht] at h
      cases h
      exact ((Fails.not_take ⟨f, k, text, ht, hf⟩)).elim
  | ok t s₁ =>
      rw [ht] at h
      refine ⟨t, s₁, rfl, ?_⟩
      dsimp only at h
      cases hbody : (programElements limit source).run s₁ with
      | ok body s₂ =>
          rw [hbody] at h
          cases h
      | error e s₂ =>
          rw [hbody] at h
          cases h
          exact hbody

end Parser

open EcmaSyntax.Parser

/-- If a run fails at a token, then the text up to the last token taken before it is the beginning
of a program: behind a space it can be completed to one.  There is only a gap between the two. -/
theorem unexpected_first {limit : Nat} {source : Text} {f : Failure} {k : TokenKind} {text : Text}
    (h : parse limit source = .error f) (hf : f.cause = .unexpected k text) :
    ∃ (before rest : Text) (gap : Gap), source = before ++ (gap.text ++ rest) ∧ gap.Fits rest ∧
      before.size = (finalState (run limit source)).lastEnd ∧
      f.place.offset = Text.size (before ++ gap.text) ∧
      ∃ completion, (parse (limit + 1) (before ++ ' ' :: completion)).isOk := by
  obtain ⟨s', hrun⟩ := parse_eq_error_iff.mp h
  rw [hrun]
  obtain ⟨t, s, ht, helements⟩ := fails_of_run hrun hf
  have hcurrent : f = .ofToken s'.current :=
    elements_blames _ _ _ _ helements k text hf
  obtain ⟨p, hp, rfl⟩ := (ready_ofText source).exists_site ht
  obtain ⟨s₁, ht₁, hs, hprevious, hbefore, -⟩ := (ready_ofText p.all).take hp
  rw [ht] at ht₁
  cases ht₁
  have hfresh : Fresh s := ⟨hprevious, fun _ => by rw [hbefore]; exact nofun⟩
  -- wherever the run stands in the end, it is behind a text and in front of a gap
  have hplace {before : Text} {bare claimed : Bool} {q : Site}
      (hs' : Stands s' before bare claimed q) : q.gap.Fits (q.text ++ q.rest) ∧
        before.size = s'.lastEnd ∧ f.place.offset = Text.size (before ++ q.gap.text) := by
    refine ⟨hs'.valid.fits, hs'.lastEnd.symm, ?_⟩
    rw [hcurrent, Text.size_append]
    exact hs'.offset_current
  have hcompletes := completes_elements
    (completes_rule (p.all.length + 3) limit) [.endOfInput] (p.all.length + 3) s
  obtain hidle | hextendable := hcompletes.stops s' (.inr ⟨f, k, text, helements, hf⟩)
  · obtain ⟨bare', claimed', hs', -⟩ := hs.idle hfresh hidle
    obtain ⟨hfits, hlast, hoffset⟩ := hplace hs'
    obtain ⟨hwritten, body, hbody⟩ := hcompletes.whole [] rfl
    obtain ⟨q, t, ms, hq, hspells⟩ := exists_spelled_behind hwritten 0 false
    exact ⟨[], _, p.gap, rfl, hfits, hlast, hoffset, t,
      by rw [List.nil_append, ← hq, hspells.parses hbody]; rfl⟩
  · obtain ⟨done, more, body, hleads, hmore, hbody⟩ := hextendable [] rfl
    obtain ⟨w, bare', claimed', q, v, t, ms, hs', hsource, hall, hspells⟩ :=
      hleads.respell hs hfresh hmore
    obtain ⟨hfits, hlast, hoffset⟩ := hplace hs'
    rw [List.append_nil] at hbody
    exact ⟨w, _, q.gap, hsource, hfits, hlast, hoffset, t,
      by rw [← hall, hspells.parses hbody]; rfl⟩

/-- A bracket is closed that is not open, in the body of an accessor and behind a comment. -/
theorem unexpected_first_accessor :
    ∃ f, parse 40 "a = { get b() { return [1, /* 2 */ ) } }".toList = .error f ∧
      f.cause = .unexpected .closeParen [')'] ∧
      ∃ (before rest : Text) (gap : Gap),
        "a = { get b() { return [1, /* 2 */ ) } }".toList = before ++ (gap.text ++ rest) ∧
          gap.Fits rest ∧
          before.size =
            (finalState (run 40 "a = { get b() { return [1, /* 2 */ ) } }".toList)).lastEnd ∧
          f.place.offset = Text.size (before ++ gap.text) ∧
          ∃ completion, (parse 41 (before ++ ' ' :: completion)).isOk := by
  have hcause : (failure? (parse 40 "a = { get b() { return [1, /* 2 */ ) } }".toList)).map
      (·.cause) = some (.unexpected .closeParen [')']) := by decide +kernel
  obtain ⟨f, h, hf⟩ := exists_failure hcause
  exact ⟨f, h, hf, unexpected_first h hf⟩

end EcmaSyntax
