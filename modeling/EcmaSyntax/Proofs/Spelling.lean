import EcmaSyntax.Proofs.Site

/-!
# How a source spells a transcript

**Spelling.**  `Spells offset bare claimed p its marks` says that the source from the site `p` on
spells the items `its` up to its end.  The gap of the site starts at an offset; the token
before it may be a keyword after which no line may end (`bare`), and the comments of the gap
may have been claimed.  `marks` is what a stream notes on the way.

**Steps.**  `Passes o bare p it ms w o' bare' q` says that the token of the site `p` is spelled by
the item `it` and that the site `q` comes next; `w` is what the source has between the two sites.
`Stays bare claimed p it ms bare' claimed'` says that the item takes no token.

**Results.**
* `Stands.step`: a parser that moves over an item passes a token, or it stays where it stands.
* `Moves.spells`: if a parser moves over items to the end of the input, the source spells them.
* `Spells.moves`: a parser that stands where a source spells some items moves over them.

Together they leave the states of the parser behind: what items a source can be read as is
settled by its sites.
-/

namespace EcmaSyntax

/-- Whether a semicolon may be inserted in front of a site on request. -/
def Site.admits (p : Site) : Bool :=
  p.newline || p.kindHere = .closeBrace || p.kindHere = .endOfInput

/-- What opens a regular expression is written with a slash. -/
theorem Site.Valid.text_slash {p : Site} (hp : p.Valid) (hk : Parser.opensRegex p.kindHere) :
    ∃ after, p.text ++ p.rest = '/' :: after := by
  have hkind : p.kind = .slash ∨ p.kind = .slashEquals := by
    unfold Site.kindHere at hk
    generalize p.kind = k at hk ⊢
    cases k <;> first
      | exact .inl rfl
      | exact .inr rfl
      | cases hk
      | cases hn : p.newline <;> rw [hn] at hk <;> cases hk
  obtain ⟨h, -⟩ | ht := hp.token
  · rw [h] at hkind
    obtain hkind | hkind := hkind <;> cases hkind
  · obtain hkind | hkind := hkind
    · rw [ht.text_eq (by rw [hkind]; rfl), hkind]
      exact ⟨_, rfl⟩
    · rw [ht.text_eq (by rw [hkind]; rfl), hkind]
      exact ⟨_, rfl⟩

namespace Parser

open TokenStream (isRestrictedKeyword)

/-- A source spells some items from a site on. -/
inductive Spells : Nat → Bool → Bool → Site → List Item → List Mark → Prop
  | stop {o : Nat} {bare claimed : Bool} {p : Site} :
      p.Valid → (bare && p.newline) = false → p.kindHere = .endOfInput →
      Spells o bare claimed p [] []
  | taken {o : Nat} {bare claimed : Bool} {p q : Site} {its : List Item} {marks : List Mark} :
      p.Valid → (bare && p.newline) = false → isPlain p.kindHere → q.all = p.rest →
      Spells (p.stop o) (isRestrictedKeyword p.kindHere) false q its marks →
      Spells o bare claimed p (.taken p.kindHere p.text :: its)
        (q.marks (p.stop o) (isRestrictedKeyword p.kindHere) ++ marks)
  | member {o : Nat} {bare claimed : Bool} {p q n : Site} {its : List Item}
      {marks : List Mark} :
      p.Valid → (bare && p.newline) = false → p.kindHere = .dot → q.all = p.rest → q.Valid →
      q.kindHere.isIdentifierName → n.all = q.rest →
      Spells (q.stop (p.stop o)) false false n its marks →
      Spells o bare claimed p (.member q.kindHere q.text :: its)
        (q.marks (p.stop o) false ++ (n.marks (q.stop (p.stop o)) false ++ marks))
  | literal {o : Nat} {bare claimed : Bool} {p q : Site} {after body : Text}
      {its : List Item} {marks : List Mark} :
      p.Valid → (bare && p.newline) = false → opensRegex p.kindHere →
      p.text ++ p.rest = '/' :: after → regexLiteral? after = some ('/' :: body) →
      after = body ++ q.all →
      Spells (p.start o + Text.size ('/' :: body)) false false q its marks →
      Spells o bare claimed p (.literal p.kindHere ('/' :: body) :: its)
        (.literal .regex ('/' :: body) (p.start o)
          :: (q.marks (p.start o + Text.size ('/' :: body)) false ++ marks))
  | ended {o : Nat} {bare claimed : Bool} {p q : Site} {its : List Item} {marks : List Mark} :
      p.Valid → (bare && p.newline) = false → p.kindHere = .semicolon → q.all = p.rest →
      Spells (p.stop o) false false q its marks →
      Spells o bare claimed p (.ended .semicolon :: its)
        (.ended (p.start o) :: (q.marks (p.stop o) false ++ marks))
  | early {o : Nat} {bare claimed : Bool} {p : Site} {its : List Item} {marks : List Mark} :
      (bare && p.newline) = true →
      Spells o false claimed p its marks →
      Spells o bare claimed p (.ended .insertedSemicolon :: its) marks
  | inserted {o : Nat} {bare claimed : Bool} {p : Site} {its : List Item} {marks : List Mark} :
      (bare && p.newline) = false → p.kindHere ≠ .semicolon → p.admits →
      Spells o false claimed p its marks →
      Spells o bare claimed p (.inserted p.kindHere :: its) (.inserted :: marks)
  | comments {o : Nat} {bare claimed : Bool} {p : Site} {its : List Item}
      {marks : List Mark} :
      Spells o bare true p its marks →
      Spells o bare claimed p (.comments (if claimed then [] else p.gap.comments) :: its) marks

namespace Spells

variable {o : Nat} {bare claimed : Bool} {p : Site} {its : List Item} {marks : List Mark}

theorem valid (h : Spells o bare claimed p its marks) : p.Valid := by
  induction h with
  | stop hp => exact hp
  | taken hp => exact hp
  | member hp => exact hp
  | literal hp => exact hp
  | ended hp => exact hp
  | early _ _ ih => exact ih
  | inserted _ _ _ _ ih => exact ih
  | comments _ ih => exact ih

end Spells

namespace Stands

variable {s s₁ : ParserState} {before : Text} {bare claimed : Bool} {p q : Site}

theorem kind_eq (h : Stands s before bare claimed p) (hb : (bare && p.newline) = false) :
    s.current.kind = p.kindHere := by
  obtain ⟨place, -, hcurrent, -⟩ := h.current_eq hb
  rw [hcurrent]
  rfl

theorem text_eq (h : Stands s before bare claimed p) (hb : (bare && p.newline) = false) :
    s.current.text = p.text := by
  obtain ⟨place, -, hcurrent, -⟩ := h.current_eq hb
  rw [hcurrent]
  rfl

/-- A semicolon is at hand where the rules demand one. -/
theorem kind_early (h : Stands s before bare claimed p) (hb : (bare && p.newline) = true) :
    s.current.kind = .insertedSemicolon := by
  obtain ⟨place, -, hcurrent, -⟩ := h.token
  have hb' : (bare && (p.toToken place).newlineBefore) = true := hb
  rw [hcurrent, TokenStream.delivered, hb', if_pos rfl]
  rfl

/-- A token other than an inserted semicolon is that of the site. -/
theorem not_early (h : Stands s before bare claimed p) (hk : s.current.kind ≠ .insertedSemicolon) :
    (bare && p.newline) = false :=
  Bool.eq_false_iff.mpr fun hb => hk (h.kind_early hb)

theorem early_of_kind (h : Stands s before bare claimed p)
    (hk : s.current.kind = .insertedSemicolon) : (bare && p.newline) = true := by
  rw [← Bool.not_eq_false]
  exact fun hb => h.valid.kindHere_ne ((h.kind_eq hb).symm.trans hk)

/-- A token is taken. -/
theorem take (h : Stands s before bare claimed p) (hf : Fresh s)
    (hb : (bare && p.newline) = false) (hk : p.kindHere ≠ .dot) (hq : q.Valid)
    (hall : q.all = p.rest) : ∃ s₁, take.run s = .ok s.current s₁ ∧
      Stands s₁ (before ++ (p.gap.text ++ p.text)) (isRestrictedKeyword p.kindHere) false q ∧
      Fresh s₁ ∧ s₁.stream.marks =
        s.stream.marks ++ q.marks (p.stop before.size) (isRestrictedKeyword p.kindHere) := by
  have hr := h.ready hb
  rw [← hall] at hr
  obtain ⟨s₁, ht, hs, hprevious, hbefore, hmarks⟩ := hr.take hq
  rw [hf.restricted, h.kind_eq hb] at hs hmarks
  refine ⟨s₁, ht, hs, ⟨hprevious, fun _ => ?_⟩, by rw [hmarks, Site.size_past]⟩
  rw [hbefore, hf.previous, h.kind_eq hb]
  exact fun hdot => hk (Option.some.inj hdot)

/-- A point and the name after it are taken. -/
theorem member {n : Site} (h : Stands s before bare claimed p) (hf : Fresh s)
    (hb : (bare && p.newline) = false) (hk : p.kindHere = .dot) (hq : q.Valid)
    (hall : q.all = p.rest) (hname : q.kindHere.isIdentifierName) (hn : n.Valid)
    (hall' : n.all = q.rest) : ∃ s₁ s₂, Parser.take.run s = .ok s.current s₁ ∧
      Parser.take.run s₁ = .ok s₁.current s₂ ∧ s₁.current.kind = q.kindHere ∧
      s₁.current.text = q.text ∧
      Stands s₂ (before ++ (p.gap.text ++ p.text) ++ (q.gap.text ++ q.text)) false false n ∧
      Fresh s₂ ∧ s₂.stream.marks = s.stream.marks ++ (q.marks (p.stop before.size) false ++
        n.marks (q.stop (p.stop before.size)) false) := by
  have hr := h.ready hb
  rw [← hall] at hr
  obtain ⟨s₁, ht, hs, hprevious, hbefore, hmarks⟩ := hr.take hq
  rw [hf.restricted, h.kind_eq hb, hk] at hs hmarks
  have hb₁ : (isRestrictedKeyword .dot && q.newline) = false := rfl
  have hr₁ := hs.ready hb₁
  rw [← hall'] at hr₁
  -- the name stands after a point, so it restricts nothing
  have hfree : s₁.stream.afterRestrictedKeyword = false := by
    unfold TokenStream.afterRestrictedKeyword
    rw [hbefore, hf.previous, h.kind_eq hb, hk]
    exact Bool.and_false _
  obtain ⟨s₂, ht₂, hs₂, hprevious₂, hbefore₂, hmarks₂⟩ := hr₁.take hn
  rw [hfree] at hs₂ hmarks₂
  refine ⟨s₁, s₂, ht, ht₂, hs.kind_eq hb₁, hs.text_eq hb₁, hs₂, ⟨hprevious₂, fun _ => ?_⟩, ?_⟩
  · rw [hbefore₂, hprevious, hs.kind_eq hb₁]
    intro hdot
    rw [Option.some.inj hdot] at hname
    cases hname
  · rw [hmarks₂, hmarks, Site.size_past, Site.size_past, Site.size_past, List.append_assoc]
    rfl

/-- The end of a statement is noted before its semicolon is taken. -/
theorem noted (h : Stands s before bare claimed p) (hk : s.current.kind = .semicolon) :
    Stands (atSemicolon s) before bare claimed p ∧ (Fresh s → Fresh (atSemicolon s)) ∧
      (atSemicolon s).stream.marks = s.stream.marks ++ [.ended s.current.place.offset] := by
  have hat : atSemicolon s =
      { s with stream.journal := .ended s.current :: s.stream.journal } := if_pos hk
  rw [hat]
  exact ⟨⟨h.valid, h.source, h.rest, h.offset, h.lastEnd, h.token, h.comments⟩,
    fun hf => ⟨hf.previous, hf.no_point⟩, TokenStream.marks_cons s.stream (.ended s.current) rfl⟩

/-- A semicolon of the source ends a statement. -/
theorem ended (h : Stands s before bare claimed p) (hf : Fresh s)
    (hb : (bare && p.newline) = false) (hk : p.kindHere = .semicolon) (hq : q.Valid)
    (hall : q.all = p.rest) : ∃ s₁, endStatement.run s = .ok () s₁ ∧
      Stands s₁ (before ++ (p.gap.text ++ p.text)) false false q ∧ Fresh s₁ ∧
      s₁.stream.marks = s.stream.marks ++
        .ended (p.start before.size) :: q.marks (p.stop before.size) false := by
  obtain ⟨place, hplace, hcurrent, -⟩ := h.current_eq hb
  have hkind : s.current.kind = .semicolon := (h.kind_eq hb).trans hk
  obtain ⟨h', hf', hnoted⟩ := h.noted hkind
  obtain ⟨s₁, ht, hs, hfresh, hmarks⟩ := h'.take (hf' hf) hb (by rw [hk]; decide) hq hall
  rw [hk] at hs hmarks
  refine ⟨s₁, run_endStatement_ok.mpr ⟨.inl ?_, _, ht⟩, hs, hfresh, ?_⟩
  · rw [hkind]
    rfl
  · rw [hmarks, hnoted, hcurrent, ← hplace, List.append_assoc]
    rfl

/-- A token that was put back is delivered when the semicolon before it is taken. -/
theorem redelivered {place : Place} (h : Stands s before bare claimed p)
    (hplace : place.offset = p.start before.size) (hkind : s₁.current.kind = .insertedSemicolon)
    (hlastEnd : s₁.lastEnd = s.lastEnd) (hscanner : s₁.stream.scanner = s.stream.scanner)
    (hrequeued : s₁.stream.requeued = some (p.toToken place))
    (hprevious : isRestrictedKeyword p.kindHere → s₁.stream.previous ≠ some .dot) :
    ∃ s₂, Parser.take.run s₁ = .ok s₁.current s₂ ∧ Stands s₂ before false claimed p ∧ Fresh s₂ ∧
      s₂.stream.marks = s₁.stream.marks := by
  obtain ⟨old, hold, hlt⟩ := h.comments
  refine ⟨advance s₁ (p.toToken place) _, run_take_ok.mpr
    ⟨rfl, _, _, TokenStream.run_next_requeued hrequeued, rfl⟩, ⟨h.valid, ?_, ?_, ?_, ?_,
      ⟨place, hplace, rfl, rfl⟩, old, ?_, hlt⟩, ⟨rfl, hprevious⟩, rfl⟩
  · exact hscanner ▸ h.source
  · exact hscanner ▸ h.rest
  · exact hscanner ▸ h.offset
  · simp only [advance, hkind, if_true, hlastEnd]
    exact h.lastEnd
  · exact hscanner ▸ hold

/-- A semicolon that the rules demanded ends a statement, and the token of the site comes next. -/
theorem early (h : Stands s before bare claimed p) (hf : Fresh s)
    (hb : (bare && p.newline) = true) :
    ∃ s₁, endStatement.run s = .ok () s₁ ∧ Stands s₁ before false claimed p ∧ Fresh s₁ ∧
      s₁.stream.marks = s.stream.marks := by
  obtain ⟨place, hplace, -, hrequeued⟩ := h.token
  have hb' : (bare && (p.toToken place).newlineBefore) = true := hb
  have hkind := h.kind_early hb
  rw [TokenStream.kept, hb', if_pos rfl] at hrequeued
  have hat : atSemicolon s = s := by
    rw [atSemicolon, hkind, if_neg (by decide), if_pos rfl]
  obtain ⟨s₁, ht, hs, hfresh, hmarks⟩ := h.redelivered hplace hkind rfl rfl hrequeued <| by
    rw [hf.previous, hkind]
    intro _ hdot
    cases hdot
  refine ⟨s₁, run_endStatement_ok.mpr ⟨.inl ?_, s.current, ?_⟩, hs, hfresh, hmarks⟩
  · rw [hkind]
    rfl
  · rw [hat]
    exact ht

/-- The rules admit a semicolon before the token at hand if they do so before the site. -/
theorem admits_iff (h : Stands s before bare claimed p) (hb : (bare && p.newline) = false) :
    TokenStream.admitsSemicolon s.current ↔ p.admits := by
  obtain ⟨place, -, hcurrent, -⟩ := h.current_eq hb
  rw [hcurrent]
  exact Iff.rfl

/-- A semicolon is inserted on request and ends a statement, and the token of the site comes
next. -/
theorem inserted (h : Stands s before bare claimed p) (hf : Fresh s)
    (hb : (bare && p.newline) = false) (hk : p.kindHere ≠ .semicolon) (ha : p.admits) :
    ∃ s₁, endStatement.run s = .ok () s₁ ∧ Stands s₁ before false claimed p ∧ Fresh s₁ ∧
      s₁.stream.marks = s.stream.marks ++ [.inserted] := by
  obtain ⟨place, hplace, hcurrent, -⟩ := h.current_eq hb
  have hkind := h.kind_eq hb
  have hat : atSemicolon s =
      { s with
        stream.journal := .insertedBefore s.current :: s.stream.journal
        stream.requeued := some s.current
        current := s.current.semicolonBefore } := by
    rw [atSemicolon, hkind, if_neg hk, if_neg h.valid.kindHere_ne]
  have hsemicolon : (atSemicolon s).current.kind = .insertedSemicolon := by
    rw [hat]
    rfl
  obtain ⟨s₁, ht, hs, hfresh, hmarks⟩ := h.redelivered hplace hsemicolon
    (by rw [hat]) (by rw [hat]) (by rw [hat, ← hcurrent]) <| by
      rw [hat]
      show _ → s.stream.previous ≠ _
      rw [hf.previous, hkind]
      intro hr hdot
      rw [Option.some.inj hdot] at hr
      cases hr
  refine ⟨s₁, run_endStatement_ok.mpr ⟨.inr ((h.admits_iff hb).mpr ha), _, ht⟩, hs, hfresh, ?_⟩
  rw [hmarks, hat]
  exact TokenStream.marks_cons s.stream (.insertedBefore s.current) rfl

/-- The comments of the gap are claimed, unless they were. -/
theorem flush (h : Stands s before bare claimed p) (hf : Fresh s) :
    ∃ s₁, pendingComments.run s =
        .ok ((if claimed then [] else p.gap.comments).map .comment) s₁ ∧
      Stands s₁ before bare true p ∧ Fresh s₁ ∧ s₁.stream.marks = s.stream.marks := by
  obtain ⟨place, hplace, hcurrent, -⟩ := h.token
  obtain ⟨old, hold, hlt⟩ := h.comments
  have hoffset : s.current.place.offset = p.start before.size := by
    rw [hcurrent, TokenStream.delivered, ← hplace]
    split <;> rfl
  have hnone : (old.filter fun c =>
      s.lastEnd ≤ c.offset && c.offset < s.current.place.offset) = [] := by
    refine List.filter_eq_nil_iff.mpr fun c hc => ?_
    have := hlt c hc
    have := h.lastEnd
    simp only [Bool.and_eq_true, decide_eq_true_eq]
    omega
  have hall : ((p.gap.placed before.size).filter fun c =>
      s.lastEnd ≤ c.offset && c.offset < s.current.place.offset) = p.gap.placed before.size := by
    refine List.filter_eq_self.mpr fun c hc => ?_
    have := Gap.placed_bounds hc
    rw [h.lastEnd, hoffset, Site.start]
    simp only [Bool.and_eq_true, decide_eq_true_eq]
    exact this
  refine ⟨{ s with stream.scanner.comments := [] }, ?_, ⟨h.valid, h.source, h.rest, h.offset,
    h.lastEnd, h.token, [], rfl, List.forall_mem_nil _⟩, ⟨hf.previous, hf.no_point⟩, rfl⟩
  rw [run_pendingComments, hold, List.filter_append, hnone, List.nil_append]
  cases claimed with
  | true => rfl
  | false =>
      simp only [Bool.false_eq_true, if_false]
      rw [hall, ← Gap.placed_comments p.gap before.size, List.map_map]
      rfl

/-- What the source has after a slash at hand. -/
theorem dropBytes_eq {after : Text} (h : Stands s before bare claimed p)
    (hb : (bare && p.newline) = false) (htext : p.text ++ p.rest = '/' :: after) :
    s.stream.scanner.source.dropBytes (s.current.place.offset + 1) = after := by
  obtain ⟨place, hplace, hcurrent, -⟩ := h.current_eq hb
  have hsource : s.stream.scanner.source = (before ++ p.gap.text ++ ['/']) ++ after := by
    rw [h.source, Site.all, htext]
    simp
  have hoffset : s.current.place.offset + 1 = Text.size (before ++ p.gap.text ++ ['/']) := by
    rw [hcurrent]
    show place.offset + 1 = _
    rw [hplace, Site.start, Text.size_append, Text.size_append]
    rfl
  rw [hsource, hoffset, Text.dropBytes_size]

/-- A slash is read again, and the regular expression is at hand. -/
theorem rescanned {after body u : Text} (h : Stands s before bare claimed p)
    (hb : (bare && p.newline) = false) (htext : p.text ++ p.rest = '/' :: after)
    (hbody : regexLiteral? after = some ('/' :: body)) (hall : after = body ++ u) : ∃ r s₁,
      (step (TokenStream.rescan s.current)).run s = .ok r s₁ ∧ r.text = '/' :: body ∧
      Ready { s₁ with current := r } (before ++ (p.gap.text ++ '/' :: body)) u ∧
      s₁.stream.previous = some .regex ∧
      s₁.stream.marks =
        s.stream.marks ++ [.literal .regex ('/' :: body) (p.start before.size)] := by
  have hafter := h.dropBytes_eq hb htext
  obtain ⟨place, hplace, hcurrent, hrequeued⟩ := h.current_eq hb
  have hsize := Site.size_pastLiteral before body p
  obtain ⟨stream, hrescan, hkept, hsource, hrest, hoffset, hcomments, hprevious, hmarks⟩ :=
    TokenStream.run_rescan (hafter.symm ▸ hbody)
  rw [hcurrent, show (p.toToken place).place.offset = _ from hplace] at hoffset hmarks
  refine ⟨{ s.current with kind := .regex, text := '/' :: body }, { s with stream },
    by rw [run_step, hrescan], rfl,
    ⟨hkept.trans hrequeued, ?_, ?_, hoffset.trans hsize.symm, fun c hc => ?_,
      show TokenKind.regex ≠ .insertedSemicolon by decide, ?_⟩,
    hprevious, hmarks⟩
  · show stream.scanner.source = _
    rw [hsource, h.source, Site.all, htext, hall]
    simp
  · show stream.scanner.rest = _
    rw [hrest, hafter, hall]
    exact List.drop_left
  · rw [hsize]
    have := h.comment_lt (c := c) (hcomments ▸ hc)
    omega
  · rw [hsize, hcurrent, ← hplace]
    rfl

/-- A slash is read again, and the regular expression is taken. -/
theorem literal {after body : Text} (h : Stands s before bare claimed p)
    (hb : (bare && p.newline) = false) (htext : p.text ++ p.rest = '/' :: after)
    (hbody : regexLiteral? after = some ('/' :: body)) (hq : q.Valid)
    (hall : after = body ++ q.all) : ∃ r s₁ s₂,
      (step (TokenStream.rescan s.current)).run s = .ok r s₁ ∧ r.text = '/' :: body ∧
      Parser.take.run { s₁ with current := r } = .ok r s₂ ∧
      Stands s₂ (before ++ (p.gap.text ++ '/' :: body)) false false q ∧ Fresh s₂ ∧
      s₂.stream.marks = s.stream.marks ++
        .literal .regex ('/' :: body) (p.start before.size)
          :: q.marks (p.start before.size + Text.size ('/' :: body)) false := by
  obtain ⟨r, s₁, hrescan, hr, hready, hprevious, hmarks⟩ := h.rescanned hb htext hbody hall
  obtain ⟨s₂, ht, hs, hprevious₂, hbefore, hmarks₂⟩ := hready.take hq
  have hfree : s₁.stream.afterRestrictedKeyword = false := by
    rw [TokenStream.afterRestrictedKeyword, hprevious]
    rfl
  rw [hfree] at hs hmarks₂
  refine ⟨r, s₁, s₂, hrescan, hr, ht, hs, ⟨hprevious₂, fun _ => ?_⟩, ?_⟩
  · rw [hbefore, hprevious]
    decide
  · rw [hmarks₂, hmarks, List.append_assoc]
    simp [Site.start, Nat.add_assoc]

/-- If a slash was read again and taken, the source has a regular expression there. -/
theorem exists_literal {s₂ : ParserState} {r t : Token} {after : Text}
    (h : Stands s before bare claimed p) (hb : (bare && p.newline) = false)
    (htext : p.text ++ p.rest = '/' :: after)
    (hr : (step (TokenStream.rescan s.current)).run s = .ok r s₁)
    (ht : Parser.take.run { s₁ with current := r } = .ok t s₂) :
    ∃ body, regexLiteral? after = some ('/' :: body) ∧
      ∃ q : Site, q.Valid ∧ after = body ++ q.all := by
  have hlit : ∃ w, regexLiteral? after = some w := by
    rw [run_step] at hr
    cases hstep : (TokenStream.rescan s.current).run s.stream with
    | ok r' stream =>
        obtain ⟨w, hw⟩ := TokenStream.exists_regex hstep
        rw [h.dropBytes_eq hb htext] at hw
        exact ⟨w, hw⟩
    | error f stream =>
        rw [hstep] at hr
        cases hr
  obtain ⟨w, hw⟩ := hlit
  obtain ⟨body, u, rfl, hu⟩ := regexLiteral?_split hw
  obtain ⟨r', s₁', hr', -, hready, -⟩ := h.rescanned hb htext hw hu
  rw [hr] at hr'
  cases hr'
  obtain ⟨q, hq, hall⟩ := hready.exists_site ht
  exact ⟨body, hw, q, hq, by rw [hall, hu]⟩

end Stands

/-! ## Steps -/

/-- A token of the source is passed, with a second one if it is a point. -/
inductive Passes : Nat → Bool → Site → Item → List Mark → Text → Nat → Bool → Site → Prop
  | taken {o : Nat} {bare : Bool} {p q : Site} :
      p.Valid → (bare && p.newline) = false → isPlain p.kindHere → q.all = p.rest →
      Passes o bare p (.taken p.kindHere p.text) [] (p.gap.text ++ p.text) (p.stop o)
        (isRestrictedKeyword p.kindHere) q
  | member {o : Nat} {bare : Bool} {p q n : Site} :
      p.Valid → (bare && p.newline) = false → p.kindHere = .dot → q.all = p.rest → q.Valid →
      q.kindHere.isIdentifierName → n.all = q.rest →
      Passes o bare p (.member q.kindHere q.text) (q.marks (p.stop o) false)
        (p.gap.text ++ p.text ++ (q.gap.text ++ q.text)) (q.stop (p.stop o)) false n
  | literal {o : Nat} {bare : Bool} {p q : Site} {after body : Text} :
      p.Valid → (bare && p.newline) = false → opensRegex p.kindHere →
      p.text ++ p.rest = '/' :: after → regexLiteral? after = some ('/' :: body) →
      after = body ++ q.all →
      Passes o bare p (.literal p.kindHere ('/' :: body))
        [.literal .regex ('/' :: body) (p.start o)]
        (p.gap.text ++ '/' :: body) (p.start o + Text.size ('/' :: body)) false q
  | ended {o : Nat} {bare : Bool} {p q : Site} :
      p.Valid → (bare && p.newline) = false → p.kindHere = .semicolon → q.all = p.rest →
      Passes o bare p (.ended .semicolon) [.ended (p.start o)] (p.gap.text ++ p.text) (p.stop o)
        false q

theorem Passes.spells {o o₁ : Nat} {bare bare₁ : Bool} {p p₁ : Site} {it : Item} {ms : List Mark}
    {w : Text} (h : Passes o bare p it ms w o₁ bare₁ p₁) {its : List Item} {marks : List Mark}
    (hs : Spells o₁ bare₁ false p₁ its marks) (claimed : Bool) :
    Spells o bare claimed p (it :: its) (ms ++ (p₁.marks o₁ bare₁ ++ marks)) := by
  cases h with
  | taken hp hb hk hall => exact .taken hp hb hk hall hs
  | member hp hb hk hall hq hname halln => exact .member hp hb hk hall hq hname halln hs
  | literal hp hb hk htext hbody hall => exact .literal hp hb hk htext hbody hall hs
  | ended hp hb hk hall => exact .ended hp hb hk hall hs

theorem Passes.size_eq {o o₁ : Nat} {bare bare₁ : Bool} {p p₁ : Site} {it : Item} {ms : List Mark}
    {w : Text} (h : Passes o bare p it ms w o₁ bare₁ p₁) {before : Text} (ho : before.size = o) :
    Text.size (before ++ w) = o₁ := by
  subst ho
  cases h with
  | taken => exact Site.size_past _ _
  | member => rw [← List.append_assoc, Site.size_past, Site.size_past]
  | literal => exact Site.size_pastLiteral _ _ _
  | ended => exact Site.size_past _ _

theorem Stands.withDepth {s : ParserState} {before : Text} {bare claimed : Bool} {p : Site}
    (h : Stands s before bare claimed p) (n : Nat) : Stands (atDepth s n) before bare claimed p :=
  ⟨h.valid, h.source, h.rest, h.offset, h.lastEnd, h.token, h.comments⟩

theorem Fresh.withDepth {s : ParserState} (h : Fresh s) (n : Nat) : Fresh (atDepth s n) :=
  ⟨h.previous, h.no_point⟩

/-- A semicolon is inserted at a site, or its comments are claimed, and no token is passed. -/
inductive Stays : Bool → Bool → Site → Item → List Mark → Bool → Bool → Prop
  | early {bare claimed : Bool} {p : Site} :
      (bare && p.newline) = true →
      Stays bare claimed p (.ended .insertedSemicolon) [] false claimed
  | inserted {bare claimed : Bool} {p : Site} :
      (bare && p.newline) = false → p.kindHere ≠ .semicolon → p.admits →
      Stays bare claimed p (.inserted p.kindHere) [.inserted] false claimed
  | comments {bare claimed : Bool} {p : Site} :
      Stays bare claimed p (.comments (if claimed then [] else p.gap.comments)) [] bare true

theorem Stays.spells {bare bare₁ claimed claimed₁ : Bool} {p : Site} {it : Item} {ms : List Mark}
    (h : Stays bare claimed p it ms bare₁ claimed₁) {o : Nat} {its : List Item} {marks : List Mark}
    (hs : Spells o bare₁ claimed₁ p its marks) :
    Spells o bare claimed p (it :: its) (ms ++ marks) := by
  cases h with
  | early hb => exact .early hb hs
  | inserted hb hk ha => exact .inserted hb hk ha hs
  | comments => exact .comments hs

/-- A parser that moves over an item passes a token, or it stays where it stands. -/
theorem Stands.step {s s₁ : ParserState} {it : Item} {before : Text} {bare claimed : Bool}
    {p : Site} (hs : Stands s before bare claimed p) (hf : Fresh s) (h : Moves s [it] s₁ []) :
    (∃ w o₁ bare₁ q ms, Passes before.size bare p it ms w o₁ bare₁ q ∧
      Stands s₁ (before ++ w) bare₁ false q ∧ Fresh s₁ ∧
      s₁.stream.marks = s.stream.marks ++ (ms ++ q.marks o₁ bare₁)) ∨
    ∃ bare₁ claimed₁ ms, Stays bare claimed p it ms bare₁ claimed₁ ∧
      Stands s₁ before bare₁ claimed₁ p ∧ Fresh s₁ ∧
      s₁.stream.marks = s.stream.marks ++ ms := by
  cases h with
  | taken ht hk htext hp h =>
      obtain ⟨n, rfl⟩ := h.eq_atDepth
      have hb : (bare && p.newline) = false := hs.not_early <| by
        rw [hk]
        rintro rfl
        cases hp
      rw [hs.kind_eq hb] at hk
      rw [hs.text_eq hb] at htext
      subst hk htext
      obtain ⟨q, hq, hall⟩ := (hs.ready hb).exists_site ht
      obtain ⟨s', ht', hs', hf', hmarks⟩ :=
        hs.take hf hb (by rintro hdot; rw [hdot] at hp; cases hp) hq hall
      rw [ht] at ht'
      cases ht'
      exact .inl ⟨_, _, _, q, [], .taken hs.valid hb hp hall, hs'.withDepth n, hf'.withDepth n,
        hmarks⟩
  | member ht hk ht₁ hk₁ htext hname h =>
      obtain ⟨n, rfl⟩ := h.eq_atDepth
      have hb : (bare && p.newline) = false := hs.not_early (by rw [hk]; decide)
      rw [hs.kind_eq hb] at hk
      obtain ⟨q, hq, hall⟩ := (hs.ready hb).exists_site ht
      obtain ⟨s', ht', hs₁, -⟩ := Ready.take (hall ▸ hs.ready hb) hq
      rw [ht] at ht'
      cases ht'
      rw [hf.restricted, hs.kind_eq hb, hk] at hs₁
      have hb₁ : (isRestrictedKeyword .dot && q.newline) = false := rfl
      rw [hs₁.kind_eq hb₁] at hk₁
      rw [hs₁.text_eq hb₁] at htext
      subst hk₁ htext
      obtain ⟨r, hr, hallr⟩ := (hs₁.ready hb₁).exists_site ht₁
      obtain ⟨s₁', s₂', ht', ht₁', -, -, hs', hf', hmarks⟩ :=
        hs.member hf hb hk hq hall hname hr hallr
      rw [ht] at ht'
      cases ht'
      rw [ht₁] at ht₁'
      cases ht₁'
      rw [List.append_assoc] at hs'
      exact .inl ⟨_, _, _, r, _, .member hs.valid hb hk hall hq hname hallr, hs'.withDepth n,
        hf'.withDepth n, hmarks⟩
  | literal hr hk ho htext ht h =>
      obtain ⟨n, rfl⟩ := h.eq_atDepth
      have hb : (bare && p.newline) = false := hs.not_early <| by
        rw [hk]
        rintro rfl
        cases ho
      rw [hs.kind_eq hb] at hk
      subst hk
      obtain ⟨after, hafter⟩ := hs.valid.text_slash ho
      obtain ⟨body, hbody, q, hq, hall⟩ := hs.exists_literal hb hafter hr ht
      obtain ⟨r', s₁', s₂', hr', htext', ht', hs', hf', hmarks⟩ :=
        hs.literal hb hafter hbody hq hall
      rw [hr] at hr'
      cases hr'
      rw [ht] at ht'
      cases ht'
      rw [htext'] at htext
      subst htext
      exact .inl ⟨_, _, _, q, _, .literal hs.valid hb ho hafter hbody hall, hs'.withDepth n,
        hf'.withDepth n, hmarks⟩
  | @ended _ _ _ k _ _ he hk hsemi h =>
      obtain ⟨n, rfl⟩ := h.eq_atDepth
      by_cases hkind : k = .insertedSemicolon
      · subst hkind
        obtain ⟨s', he', hs', hf', hmarks⟩ := hs.early hf (hs.early_of_kind hk)
        rw [he] at he'
        cases he'
        exact .inr ⟨_, _, [], .early (hs.early_of_kind hk), hs'.withDepth n, hf'.withDepth n,
          by rw [List.append_nil]; exact hmarks⟩
      · have hb : (bare && p.newline) = false := hs.not_early (by rw [hk]; exact hkind)
        have hk' : k = .semicolon := by simpa [isSemicolon, hkind] using hsemi
        subst hk'
        obtain ⟨-, _, ht⟩ := run_endStatement_ok.mp he
        obtain ⟨q, hq, hall⟩ := ((hs.noted hk).1.ready hb).exists_site ht
        rw [hs.kind_eq hb] at hk
        obtain ⟨s', he', hs', hf', hmarks⟩ := hs.ended hf hb hk hq hall
        rw [he] at he'
        cases he'
        exact .inl ⟨_, _, _, q, _, .ended hs.valid hb hk hall, hs'.withDepth n, hf'.withDepth n,
          hmarks⟩
  | inserted he hk hsemi h =>
      obtain ⟨n, rfl⟩ := h.eq_atDepth
      have hb : (bare && p.newline) = false := hs.not_early <| by
        rw [hk]
        rintro rfl
        cases hsemi
      have hadmits : p.admits := by
        rw [← hs.admits_iff hb]
        refine (run_endStatement_ok.mp he).1.resolve_left ?_
        rw [hk, hsemi]
        exact Bool.false_ne_true
      rw [hs.kind_eq hb] at hk
      subst hk
      have hne : p.kindHere ≠ .semicolon := by
        intro hsemicolon
        rw [hsemicolon] at hsemi
        cases hsemi
      obtain ⟨s', he', hs', hf', hmarks⟩ := hs.inserted hf hb hne hadmits
      rw [he] at he'
      cases he'
      exact .inr ⟨_, _, _, .inserted hb hne hadmits, hs'.withDepth n, hf'.withDepth n, hmarks⟩
  | comments hc h =>
      obtain ⟨n, rfl⟩ := h.eq_atDepth
      obtain ⟨s', hc', hs', hf', hmarks⟩ := hs.flush hf
      rw [hc] at hc'
      injection hc' with hcs hstate
      subst hstate
      obtain rfl := (List.map_inj_right fun _ _ h => Statement.comment.inj h).mp hcs
      exact .inr ⟨_, _, [], .comments, hs'.withDepth n, hf'.withDepth n,
        by rw [List.append_nil]; exact hmarks⟩

/-! ## Both directions -/

/-- What a parser moves over is spelled by the source. -/
theorem Moves.spells {s e : ParserState} {its : List Item} {before : Text} {bare claimed : Bool}
    {p : Site} (h : Moves s its e []) (hend : e.current.kind = .endOfInput)
    (hs : Stands s before bare claimed p) (hf : Fresh s) :
    ∃ marks, Spells before.size bare claimed p its marks ∧
      e.stream.marks = s.stream.marks ++ marks := by
  induction its generalizing s before bare claimed p with
  | nil =>
      obtain ⟨n, rfl⟩ := h.eq_atDepth
      have hend : s.current.kind = .endOfInput := hend
      have hb := hs.not_early (by rw [hend]; decide)
      exact ⟨[], .stop hs.valid hb ((hs.kind_eq hb).symm.trans hend), (List.append_nil _).symm⟩
  | cons it its ih =>
      obtain ⟨s₁, hit, hits⟩ := h.uncons
      obtain ⟨w, o₁, bare₁, q, ms, hp, hs₁, hf₁, hm⟩ | ⟨bare₁, claimed₁, ms, hp, hs₁, hf₁, hm⟩ :=
        hs.step hf hit
      · obtain ⟨marks, hspells, he⟩ := ih hits hs₁ hf₁
        rw [hp.size_eq rfl] at hspells
        exact ⟨_, hp.spells hspells claimed, by rw [he, hm]; simp only [List.append_assoc]⟩
      · obtain ⟨marks, hspells, he⟩ := ih hits hs₁ hf₁
        exact ⟨_, hp.spells hspells, by rw [he, hm, List.append_assoc]⟩

/-- A parser moves over what the source spells. -/
theorem Spells.moves {s : ParserState} {its : List Item} {marks : List Mark} {before : Text}
    {bare claimed : Bool} {p : Site} {o : Nat} (h : Spells o bare claimed p its marks)
    (ho : o = before.size) (hs : Stands s before bare claimed p) (hf : Fresh s) :
    ∃ e, Moves s its e [] ∧ e.current.kind = .endOfInput ∧
      e.stream.marks = s.stream.marks ++ marks := by
  induction h generalizing s before with
  | @stop o bare claimed p hp hb hk =>
      exact ⟨s, .refl, (hs.kind_eq hb).trans hk, (List.append_nil _).symm⟩
  | @taken o bare claimed p q its marks hp hb hplain hall h ih =>
      subst ho
      obtain ⟨s₁, ht, hs₁, hf₁, hmarks⟩ :=
        hs.take hf hb (by rintro hdot; rw [hdot] at hplain; cases hplain) h.valid hall
      obtain ⟨e, hmoves, hend, he⟩ := ih (Site.size_past _ _).symm hs₁ hf₁
      exact ⟨e, .taken ht (hs.kind_eq hb) (hs.text_eq hb) hplain hmoves, hend,
        by rw [he, hmarks, List.append_assoc]⟩
  | @member o bare claimed p q n its marks hp hb hk hall hq hname halln h ih =>
      subst ho
      obtain ⟨s₁, s₂, ht, ht₁, hk₁, htext, hs₂, hf₂, hmarks⟩ :=
        hs.member hf hb hk hq hall hname h.valid halln
      obtain ⟨e, hmoves, hend, he⟩ := ih (by rw [Site.size_past, Site.size_past]) hs₂ hf₂
      exact ⟨e, .member ht ((hs.kind_eq hb).trans hk) ht₁ hk₁ htext hname hmoves, hend,
        by rw [he, hmarks]; simp only [List.append_assoc]⟩
  | @literal o bare claimed p q after body its marks hp hb hk htext hbody hall h ih =>
      subst ho
      obtain ⟨r, s₁, s₂, hr, hrtext, ht, hs₂, hf₂, hmarks⟩ :=
        hs.literal hb htext hbody h.valid hall
      obtain ⟨e, hmoves, hend, he⟩ := ih (Site.size_pastLiteral _ _ _).symm hs₂ hf₂
      exact ⟨e, .literal hr (hs.kind_eq hb) hk hrtext ht hmoves, hend,
        by rw [he, hmarks]; simp only [List.append_assoc, List.cons_append]⟩
  | @ended o bare claimed p q its marks hp hb hk hall h ih =>
      subst ho
      obtain ⟨s₁, ht, hs₁, hf₁, hmarks⟩ := hs.ended hf hb hk h.valid hall
      obtain ⟨e, hmoves, hend, he⟩ := ih (Site.size_past _ _).symm hs₁ hf₁
      exact ⟨e, .ended ht ((hs.kind_eq hb).trans hk) rfl hmoves, hend,
        by rw [he, hmarks]; simp only [List.append_assoc, List.cons_append]⟩
  | @early o bare claimed p its marks hb h ih =>
      obtain ⟨s₁, ht, hs₁, hf₁, hmarks⟩ := hs.early hf hb
      obtain ⟨e, hmoves, hend, he⟩ := ih ho hs₁ hf₁
      exact ⟨e, .ended ht (hs.kind_early hb) rfl hmoves, hend, by rw [he, hmarks]⟩
  | @inserted o bare claimed p its marks hb hk ha h ih =>
      obtain ⟨s₁, ht, hs₁, hf₁, hmarks⟩ := hs.inserted hf hb hk ha
      obtain ⟨e, hmoves, hend, he⟩ := ih ho hs₁ hf₁
      have hsemi : isSemicolon p.kindHere = false := by
        simp [isSemicolon, hk, h.valid.kindHere_ne]
      exact ⟨e, .inserted ht (hs.kind_eq hb) hsemi hmoves, hend,
        by rw [he, hmarks, List.append_assoc]; rfl⟩
  | @comments o bare claimed p its marks h ih =>
      obtain ⟨s₁, hc, hs₁, hf₁, hmarks⟩ := hs.flush hf
      obtain ⟨e, hmoves, hend, he⟩ := ih ho hs₁ hf₁
      exact ⟨e, .comments hc hmoves, hend, by rw [he, hmarks]⟩

end Parser
end EcmaSyntax
