import EcmaSyntax.Proofs.Endings
import EcmaSyntax.Proofs.Reading

/-!
# The same token in front of another text

**Results.**
* `Site.Valid.withRest`: the scanner finds the same gap and the same token if what follows them
  starts alike.
* `Passes.respell`: the same item is spelled in front of any text that starts alike.
* `Spells.steps`: induction over what a source spells, with one case for all tokens.
-/

namespace EcmaSyntax

/-- What follows a text that is not empty does not change how it starts. -/
theorem head?_append_congr {w r r' : Text} (h : w = [] → r'.head? = r.head?) :
    (w ++ r').head? = (w ++ r).head? := by
  cases w with
  | nil => exact h rfl
  | cons => rfl

theorem Trivia.Fits.congr {piece : Trivia} {r r' : Text} (h : piece.Fits r)
    (hr : r'.head?.map isLineTerminator = r.head?.map isLineTerminator) : piece.Fits r' := by
  cases piece with
  | blank => exact h
  | newlines =>
      refine ⟨h.1, h.2.1, fun d hd => ?_⟩
      rw [Option.mem_def.mp hd] at hr
      obtain ⟨d', hd', heq⟩ := Option.map_eq_some_iff.mp hr.symm
      rw [← heq]
      exact h.2.2 d' hd'
  | line =>
      refine ⟨h.1, fun d hd => ?_⟩
      rw [Option.mem_def.mp hd] at hr
      obtain ⟨d', hd', heq⟩ := Option.map_eq_some_iff.mp hr.symm
      rw [← heq]
      exact h.2 d' hd'
  | block => exact h

/-- A gap fits before any text if what starts it ends a line in both or in neither. -/
theorem Gap.Fits.congr {g : Gap} {r r' : Text} (h : g.Fits r)
    (hr : r'.head?.map isLineTerminator = r.head?.map isLineTerminator) : g.Fits r' := by
  induction g with
  | nil => trivial
  | cons piece g ih =>
      refine ⟨h.1.congr ?_, ih h.2⟩
      cases hg : Gap.text g with
      | nil => exact hr
      | cons => rfl

theorem Gap.fits_append {g g' : Gap} {r : Text} (h : g.Fits (g'.text ++ r)) (h' : g'.Fits r) :
    Gap.Fits r (g ++ g') := by
  induction g with
  | nil => exact h'
  | cons piece g ih =>
      refine ⟨?_, ih h.2⟩
      show piece.Fits (Gap.text (g ++ g') ++ r)
      rw [Gap.text_append, List.append_assoc]
      exact h.1

/-- A blank may stand after a gap instead of a semicolon. -/
theorem Gap.Fits.blank {g g' : Gap} {t r : Text} (h : g.Fits (';' :: t)) (h' : g'.Fits r) :
    Gap.Fits r (g ++ .blank ' ' :: g') :=
  Gap.fits_append (h.congr rfl) ⟨rfl, h'⟩

theorem StartsLike.append {r r' : Text} (w : Text) (h : StartsLike r r') :
    StartsLike (w ++ r) (w ++ r') := by
  cases w with
  | nil => exact h
  | cons => exact .inl rfl

namespace Site

/-- A site with another text after its token. -/
def withRest (p : Site) (rest : Text) : Site := { p with rest }

theorem all_withRest (p : Site) (rest : Text) :
    (p.withRest rest).all = p.gap.text ++ (p.text ++ rest) := rfl

theorem marks_withRest (p : Site) (rest : Text) (o : Nat) (bare : Bool) :
    (p.withRest rest).marks o bare = p.marks o bare := rfl

/-- The same gap and the same token are found if what follows starts alike. -/
theorem Valid.withRest {p : Site} {rest : Text} (hp : p.Valid) (hk : p.kindHere ≠ .endOfInput)
    (h : StartsLike p.rest rest) : (p.withRest rest).Valid := by
  have hne := hp.text_ne_nil hk
  have hhead : (p.text ++ rest).head? = (p.text ++ p.rest).head? :=
    head?_append_congr fun h => absurd h hne
  refine ⟨hp.fits.congr (congrArg _ hhead), isSettled_congr hne hp.settled h, .inr ?_⟩
  obtain ⟨-, ht, -⟩ | ht := hp.token
  · exact absurd ht hne
  · exact ht.congr h

theorem startsLike_withRest {p : Site} {rest : Text} (h : StartsLike p.rest rest) :
    StartsLike p.all (p.withRest rest).all :=
  (h.append p.text).append p.gap.text

/-- The same slash is found if what follows the regular expression starts alike. -/
theorem Valid.withLiteral {p q : Site} {after body : Text} (hp : p.Valid)
    (hk : Parser.opensRegex p.kindHere) (htext : p.text ++ p.rest = '/' :: after)
    (hbody : regexLiteral? after = some ('/' :: body)) (hall : after = body ++ q.all)
    {u : Text} (h : StartsLike q.all u) : ∃ rest,
      p.text ++ rest = '/' :: (body ++ u) ∧ (p.withRest rest).Valid ∧ StartsLike p.rest rest ∧
        regexLiteral? (body ++ u) = some ('/' :: body) := by
  have hend : p.kindHere ≠ .endOfInput := by
    intro hend
    rw [hend] at hk
    cases hk
  have hshort : p.text.length ≤ 2 := by
    have hcase : p.kindHere = .slash ∨ p.kindHere = .slashEquals := by
      simpa [Parser.opensRegex] using hk
    rw [hp.text_eq hend (by obtain h | h := hcase <;> rw [h] <;> rfl)]
    obtain h | h := hcase <;> rw [h] <;> decide
  have hlength : 2 ≤ body.length := by
    obtain ⟨c, pattern, flags, _, hw, -⟩ := regexLiteral?_eq_some_iff.mp hbody
    have := congrArg List.length hw
    simp only [List.cons_append, List.length_append, List.length_cons] at this
    omega
  -- the literal is longer than the token that the scanner took its slash for
  obtain ⟨mid, hmid, hrest⟩ : ∃ mid, '/' :: body = p.text ++ mid ∧ p.rest = mid ++ q.all := by
    rw [hall, ← List.cons_append, List.append_eq_append_iff] at htext
    obtain h | ⟨mid, hmid, -⟩ := htext
    · exact h
    · have := congrArg List.length hmid
      simp only [List.length_append, List.length_cons] at this
      omega
  have hs : StartsLike p.rest (mid ++ u) := by
    rw [hrest]
    exact h.append mid
  refine ⟨mid ++ u, ?_, hp.withRest hend hs, hs, ?_⟩
  · rw [← List.append_assoc, ← hmid]
    rfl
  · rw [hall] at hbody
    exact regexLiteral?_congr hbody h

end Site

namespace Parser

open TokenStream (isRestrictedKeyword)

/-- Induction over what a source spells, with one case for all tokens. -/
@[elab_as_elim]
theorem Spells.steps {motive : (o : Nat) → (bare claimed : Bool) → (p : Site) →
      (its : List Item) → (marks : List Mark) → Spells o bare claimed p its marks → Prop}
    (stop : ∀ {o : Nat} {bare claimed : Bool} {p : Site} (hp : p.Valid)
      (hb : (bare && p.newline) = false) (hk : p.kindHere = .endOfInput),
      motive o bare claimed p [] [] (.stop hp hb hk))
    (pass : ∀ {o o₁ : Nat} {bare bare₁ claimed : Bool} {p q : Site} {it : Item} {w : Text}
      {its : List Item} {ms marks : List Mark} (hp : Passes o bare p it ms w o₁ bare₁ q)
      (h : Spells o₁ bare₁ false q its marks), motive o₁ bare₁ false q its marks h →
      motive o bare claimed p (it :: its) (ms ++ (q.marks o₁ bare₁ ++ marks))
        (hp.spells h claimed))
    (early : ∀ {o : Nat} {bare claimed : Bool} {p : Site} {its : List Item} {marks : List Mark}
      (hb : (bare && p.newline) = true) (h : Spells o false claimed p its marks),
      motive o false claimed p its marks h →
      motive o bare claimed p (.ended .insertedSemicolon :: its) marks (.early hb h))
    (inserted : ∀ {o : Nat} {bare claimed : Bool} {p : Site} {its : List Item}
      {marks : List Mark} (hb : (bare && p.newline) = false) (hk : p.kindHere ≠ .semicolon)
      (ha : p.admits) (h : Spells o false claimed p its marks),
      motive o false claimed p its marks h →
      motive o bare claimed p (.inserted p.kindHere :: its) (.inserted :: marks)
        (.inserted hb hk ha h))
    (comments : ∀ {o : Nat} {bare claimed : Bool} {p : Site} {its : List Item}
      {marks : List Mark} (h : Spells o bare true p its marks), motive o bare true p its marks h →
      motive o bare claimed p (.comments (if claimed then [] else p.gap.comments) :: its) marks
        (.comments h))
    {o : Nat} {bare claimed : Bool} {p : Site} {its : List Item} {marks : List Mark}
    (h : Spells o bare claimed p its marks) : motive o bare claimed p its marks h := by
  induction h with
  | stop hp hb hk => exact stop hp hb hk
  | taken hp hb hk hall h ih => exact pass (.taken hp hb hk hall) h ih
  | member hp hb hk hall hq hname halln h ih =>
      exact pass (.member hp hb hk hall hq hname halln) h ih
  | literal hp hb hk htext hbody hall h ih => exact pass (.literal hp hb hk htext hbody hall) h ih
  | ended hp hb hk hall h ih => exact pass (.ended hp hb hk hall) h ih
  | early hb h ih => exact early hb h ih
  | inserted hb hk ha h ih => exact inserted hb hk ha h ih
  | comments h ih => exact comments h ih

namespace Passes

variable {o o₁ : Nat} {bare bare₁ : Bool} {p p₁ : Site} {it : Item} {ms : List Mark} {w : Text}

theorem valid (h : Passes o bare p it ms w o₁ bare₁ p₁) : p.Valid := by
  cases h with
  | taken hp => exact hp
  | member hp => exact hp
  | literal hp => exact hp
  | ended hp => exact hp

theorem not_early (h : Passes o bare p it ms w o₁ bare₁ p₁) : (bare && p.newline) = false := by
  cases h with
  | taken _ hb => exact hb
  | member _ hb => exact hb
  | literal _ hb => exact hb
  | ended _ hb => exact hb

theorem item (h : Passes o bare p it ms w o₁ bare₁ p₁) : it.isToken ∨ it = .ended .semicolon := by
  cases h with
  | taken => exact .inl rfl
  | member => exact .inl rfl
  | literal => exact .inl rfl
  | ended => exact .inr rfl

/-- What stands between two sites. -/
theorem all_eq (h : Passes o bare p it ms w o₁ bare₁ p₁) : p.all = w ++ p₁.all := by
  cases h with
  | taken _ _ _ hall => exact Site.all_eq hall
  | member _ _ _ hall _ _ halln =>
      rw [Site.all_eq hall, Site.all_eq halln]
      simp only [List.append_assoc]
  | literal _ _ _ htext _ hall => exact Site.all_eq_literal htext hall
  | ended _ _ _ hall => exact Site.all_eq hall

/-- No semicolon is inserted at a token. -/
theorem inserted_not_mem (h : Passes o bare p it ms w o₁ bare₁ p₁) : .inserted ∉ ms := by
  cases h <;> simp [Site.marks]

/-- The same item is spelled in front of a text that starts alike. -/
theorem respell (h : Passes o bare p it ms w o₁ bare₁ p₁) {q₁ : Site}
    (hs : StartsLike p₁.all q₁.all) : ∃ rest, (p.withRest rest).all = w ++ q₁.all ∧
      ∀ o', ∃ ms' o₁', Passes o' bare (p.withRest rest) it ms' w o₁' bare₁ q₁ := by
  cases h with
  | taken hp hb hk hall =>
      have hend : p.kindHere ≠ .endOfInput := by
        intro hend
        rw [hend] at hk
        cases hk
      refine ⟨q₁.all, ?_, fun o' => ⟨_, _, .taken (hp.withRest hend (hall ▸ hs)) hb hk rfl⟩⟩
      rw [Site.all_withRest, List.append_assoc]
  | member hp hb hk hall hq hname halln =>
      rename_i q
      have hend : p.kindHere ≠ .endOfInput := by
        rw [hk]
        exact nofun
      have hendq : q.kindHere ≠ .endOfInput := by
        intro hend
        rw [hend] at hname
        cases hname
      have hsq : StartsLike q.rest q₁.all := halln ▸ hs
      have hsp : StartsLike p.rest (q.withRest q₁.all).all := hall ▸ Site.startsLike_withRest hsq
      refine ⟨(q.withRest q₁.all).all, ?_, fun o' => ⟨_, _, .member (q := q.withRest q₁.all)
        (hp.withRest hend hsp) hb hk rfl (hq.withRest hendq hsq) hname rfl⟩⟩
      simp only [Site.all_withRest, List.append_assoc]
  | literal hp hb hk htext hbody hall =>
      obtain ⟨rest, htext', hp', -, hbody'⟩ := hp.withLiteral hk htext hbody hall hs
      refine ⟨rest, ?_, fun o' => ⟨_, _, .literal hp' hb hk htext' hbody' rfl⟩⟩
      rw [Site.all_withRest, htext']
      simp
  | ended hp hb hk hall =>
      have hend : p.kindHere ≠ .endOfInput := by
        rw [hk]
        exact nofun
      refine ⟨q₁.all, ?_, fun o' => ⟨_, _, .ended (hp.withRest hend (hall ▸ hs)) hb hk rfl⟩⟩
      rw [Site.all_withRest, List.append_assoc]

end Passes

/-- Where no token is passed, the same item is spelled in front of another text. -/
theorem Stays.withRest {bare bare₁ claimed claimed₁ : Bool} {p : Site} {it : Item}
    {ms : List Mark} (h : Stays bare claimed p it ms bare₁ claimed₁) (u : Text) :
    Stays bare claimed (p.withRest u) it ms bare₁ claimed₁ := by
  cases h with
  | early hb => exact .early (p := p.withRest u) hb
  | inserted hb hk ha => exact .inserted (p := p.withRest u) hb hk ha
  | comments => exact .comments (p := p.withRest u)

end Parser

end EcmaSyntax
