import EcmaSyntax.Proofs.Printing.Words
import EcmaSyntax.Proofs.Respelling

/-!
# Words with spaces between them

**Input.**  Items that are written by their words.

**Results.**
* `exists_spelled`: the words of the items, with single spaces between them, spell the items.
-/

namespace EcmaSyntax

/-! ## Spaces -/

/-- Nothing, or a single space. -/
def Gap.IsSpace (g : Gap) : Prop := g = [] ∨ g = [.blank ' ']

namespace Gap.IsSpace

variable {g : Gap}

theorem endsLine (h : g.IsSpace) : g.endsLine = false := by
  obtain rfl | rfl := h <;> rfl

theorem comments (h : g.IsSpace) : g.comments = [] := by
  obtain rfl | rfl := h <;> rfl

theorem fits (h : g.IsSpace) (r : Text) : g.Fits r := by
  obtain rfl | rfl := h
  · trivial
  · exact ⟨rfl, trivial⟩

end Gap.IsSpace

/-- Words with single spaces between them. -/
def joined (words : List Text) : Text := [' '].intercalate words

theorem joined_singleton (w : Text) : joined [w] = w := List.intercalate_singleton

theorem joined_cons_cons (w w' : Text) (words : List Text) :
    joined (w :: w' :: words) = w ++ ' ' :: joined (w' :: words) :=
  List.intercalate_cons_cons.trans (List.append_assoc ..)

/-- A space stands before words that come after others. -/
theorem joined_append {ws : List Text} (hws : ws ≠ []) (words : List Text) : ∃ g : Gap, g.IsSpace ∧
    joined (ws ++ words) = joined ws ++ (g.text ++ joined words) ∧
      StartsLike [] (g.text ++ joined words) := by
  cases words with
  | nil => exact ⟨[], .inl rfl, by simp [joined], .inl rfl⟩
  | cons w words =>
      refine ⟨[.blank ' '], .inr rfl, ?_, .inr (.inr (.inr rfl))⟩
      show joined (ws ++ w :: words) = joined ws ++ ' ' :: joined (w :: words)
      induction ws with
      | nil => exact absurd rfl hws
      | cons v ws ih =>
          cases ws with
          | nil => rw [List.singleton_append, joined_cons_cons, joined_singleton]
          | cons v' ws =>
              have := ih (List.cons_ne_nil v' ws)
              rw [List.cons_append, List.cons_append, joined_cons_cons, joined_cons_cons,
                List.append_assoc, List.cons_append, ← this, List.cons_append]

/-! ## Sites -/

theorem kindAfterGap_false (k : TokenKind) : Scanner.kindAfterGap false k = k := by
  cases k <;> rfl

namespace Site

variable {g : Gap} {k : TokenKind} {w r : Text}

/-- A token may stand after a space. -/
theorem valid_of_tokenAt (hg : g.IsSpace) (h : TokenAt k w []) (hr : StartsLike [] r) :
    (⟨g, k, w, r⟩ : Site).Valid := by
  have hsettled := h.settled
  rw [← List.append_nil w] at hsettled
  exact ⟨hg.fits _, isSettled_congr h.ne_nil hsettled hr, .inr (h.congr hr)⟩

theorem newline_of_isSpace (hg : g.IsSpace) : (⟨g, k, w, r⟩ : Site).newline = false := hg.endsLine

theorem not_early (hg : g.IsSpace) (bare : Bool) :
    (bare && (⟨g, k, w, r⟩ : Site).newline) = false := by
  rw [newline_of_isSpace hg, Bool.and_false]

theorem kindHere_of_isSpace (hg : g.IsSpace) : (⟨g, k, w, r⟩ : Site).kindHere = k := by
  rw [kindHere, newline_of_isSpace hg, kindAfterGap_false]

end Site

/-! ## Items -/

namespace Parser

open TokenStream (isRestrictedKeyword)

/-- An item is written by its words. -/
inductive Item.IsWritten : Item → Prop
  | taken {k : TokenKind} {t : Text} : TokenAt k t [] → isPlain k → IsWritten (.taken k t)
  | member {k : TokenKind} {t : Text} :
      TokenAt k t [] → k.isIdentifierName → IsWritten (.member k t)
  | regex {pattern flags : Text} : IsPattern pattern → pattern ≠ [] →
      (∀ c ∈ flags, isIdentifierPart c) → IsWritten (Printer.regex pattern flags)
  | ended : IsWritten Printer.ending
  | comments : IsWritten (.comments [])

theorem Item.IsWritten.words_ne_nil {it : Item} (h : it.IsWritten) (hne : it ≠ .comments []) :
    it.words ≠ [] := by
  cases h with
  | comments => exact absurd rfl hne
  | _ => exact nofun

namespace Passes

variable {o : Nat} {bare : Bool} {g : Gap} {k : TokenKind} {t r : Text} {q : Site}

theorem taken_of_tokenAt (hg : g.IsSpace) (ht : TokenAt k t []) (hk : isPlain k)
    (hr : StartsLike [] r) (hall : q.all = r) :
    Passes o bare ⟨g, k, t, r⟩ (.taken k t) [] (g.text ++ t) (Site.stop ⟨g, k, t, r⟩ o)
      (isRestrictedKeyword k) q := by
  have hkind := Site.kindHere_of_isSpace (k := k) (w := t) (r := r) hg
  have h := Passes.taken (o := o) (Site.valid_of_tokenAt hg ht hr) (Site.not_early hg bare)
    (by rwa [hkind]) hall
  rwa [hkind] at h

theorem ended_of_isSpace (hg : g.IsSpace) (hr : StartsLike [] r) (hall : q.all = r) :
    Passes o bare ⟨g, .semicolon, [';'], r⟩ Printer.ending
      [.ended (Site.start ⟨g, .semicolon, [';'], r⟩ o)] (g.text ++ [';'])
      (Site.stop ⟨g, .semicolon, [';'], r⟩ o) false q :=
  have ht : TokenAt .semicolon [';'] [] := tokenAt_sign (.inr (by decide))
  .ended (Site.valid_of_tokenAt hg ht hr) (Site.not_early hg bare) (Site.kindHere_of_isSpace hg)
    hall

theorem member_of_tokenAt (hg : g.IsSpace) (ht : TokenAt k t []) (hk : k.isIdentifierName)
    (hr : StartsLike [] r) (hall : q.all = r) : ∃ ms,
    Passes o bare ⟨g, .dot, ['.'], ' ' :: (t ++ r)⟩ (.member k t) ms (g.text ++ '.' :: ' ' :: t)
      (Site.stop ⟨[.blank ' '], k, t, r⟩ (Site.stop ⟨g, .dot, ['.'], ' ' :: (t ++ r)⟩ o)) false
      q := by
  have hspace : Gap.IsSpace [.blank ' '] := .inr rfl
  have hkind := Site.kindHere_of_isSpace (k := k) (w := t) (r := r) hspace
  have hdot : TokenAt .dot ['.'] [] := tokenAt_sign (.inr (by decide))
  have h := Passes.member (o := o) (Site.valid_of_tokenAt hg hdot (.inr (.inr (.inr rfl))))
    (Site.not_early hg bare) (Site.kindHere_of_isSpace hg) rfl
    (Site.valid_of_tokenAt hspace ht hr) (by rwa [hkind]) hall
  rw [hkind, List.append_assoc] at h
  exact ⟨_, h⟩

/-- A regular expression is passed, whatever operator the scanner takes its head for. -/
theorem literal_of_isPattern (hg : g.IsSpace) {pattern flags : Text} (hp : IsPattern pattern)
    (hne : pattern ≠ []) (hflags : ∀ c ∈ flags, isIdentifierPart c) (hr : StartsLike [] r) :
    ∃ p : Site, p.gap = g ∧ ∀ q : Site, q.all = r →
      Passes o bare p (Printer.regex pattern flags)
        [.literal .regex ('/' :: pattern ++ '/' :: flags) (p.start o)]
        (g.text ++ ('/' :: pattern ++ '/' :: flags))
        (p.start o + Text.size ('/' :: pattern ++ '/' :: flags)) false q := by
  have hbody := regexLiteral?_printed hp hne hflags (EndsWord.startsLike (r := []) nofun hr)
  obtain ⟨w, r', htext, ht⟩ := tokenAt_regexOpener hne ('/' :: (flags ++ r))
  have hkind := Site.kindHere_of_isSpace (k := Printer.regexOpener pattern) (w := w) (r := r') hg
  have hvalid : (⟨g, Printer.regexOpener pattern, w, r'⟩ : Site).Valid := by
    refine ⟨hg.fits _, ?_, .inr ht⟩
    show isSettled (w ++ r')
    rw [← htext]
    obtain ⟨hslash, hstar⟩ := hp.head
    obtain ⟨c, pattern, rfl⟩ := List.exists_cons_of_ne_nil hne
    simp only [List.head?_cons, ne_eq, Option.some.injEq] at hslash hstar
    simp only [List.cons_append, isSettled, List.head?_cons, Option.some.injEq, hslash, hstar,
      decide_false, Bool.or_self, Bool.and_false, Bool.not_false, Bool.true_and]
    decide
  refine ⟨⟨g, Printer.regexOpener pattern, w, r'⟩, rfl, fun q hall => ?_⟩
  have h := Passes.literal (o := o) (q := q) hvalid (Site.not_early hg bare) ?_ htext.symm hbody ?_
  · rwa [hkind] at h
  · rw [hkind]
    obtain ⟨h, -⟩ | ⟨h, -⟩ := Printer.regexOpener_cases pattern <;> rw [h] <;> rfl
  · simp [hall]

end Passes

/-- A written item is passed if what follows it ends every token. -/
theorem Item.IsWritten.passes {it : Item} (h : it.IsWritten) (hne : it ≠ .comments []) {g : Gap}
    (hg : g.IsSpace) {r : Text} (hr : StartsLike [] r) (o : Nat) (bare : Bool) :
    ∃ p o₁ bare₁, p.gap = g ∧ ∀ q : Site, q.all = r →
      ∃ ms, Passes o bare p it ms (g.text ++ joined it.words) o₁ bare₁ q := by
  cases h with
  | taken ht hk =>
      rw [words, joined_singleton]
      exact ⟨_, _, _, rfl, fun q hall => ⟨_, .taken_of_tokenAt hg ht hk hr hall⟩⟩
  | member ht hk =>
      rw [words, joined_cons_cons, joined_singleton]
      exact ⟨_, _, _, rfl, fun q hall => Passes.member_of_tokenAt hg ht hk hr hall⟩
  | regex hp hpattern hflags =>
      obtain ⟨p, hgap, h⟩ := Passes.literal_of_isPattern hg hp hpattern hflags hr
      rw [Printer.regex, words, joined_singleton]
      exact ⟨p, _, _, hgap, fun q hall => ⟨_, h q hall⟩⟩
  | ended =>
      rw [Printer.ending, words, joined_singleton]
      exact ⟨_, _, _, rfl, fun q hall => ⟨_, .ended_of_isSpace hg hr hall⟩⟩
  | comments => exact absurd rfl hne

/-- The words of items with single spaces between them, after a space or nothing, spell the
items. -/
theorem exists_spelled {its : List Item} (h : ∀ it ∈ its, it.IsWritten) {g : Gap} (hg : g.IsSpace)
    (o : Nat) (bare claimed : Bool) : ∃ p ms, p.gap = g ∧
      p.all = g.text ++ joined (its.flatMap Item.words) ∧ Spells o bare claimed p its ms := by
  induction its generalizing g o bare claimed with
  | nil =>
      refine ⟨⟨g, .endOfInput, [], []⟩, [], rfl, rfl, .stop ?_ ?_ (Site.kindHere_of_isSpace hg)⟩
      · exact ⟨hg.fits _, rfl, .inl ⟨rfl, rfl, rfl⟩⟩
      · rw [Site.newline_of_isSpace hg, Bool.and_false]
  | cons it its ih =>
      obtain ⟨hit, hits⟩ := List.forall_mem_cons.mp h
      rw [List.flatMap_cons]
      by_cases hcomments : it = .comments []
      · subst hcomments
        obtain ⟨p, ms, hgap, hall, hspells⟩ := ih hits hg o bare true
        refine ⟨p, ms, hgap, hall, ?_⟩
        have h : Spells o bare claimed p (.comments (if claimed then [] else p.gap.comments) :: its)
          ms := .comments hspells
        rwa [hgap, hg.comments, ite_self] at h
      · obtain ⟨g', hg', hjoined, hstarts⟩ :=
          joined_append (hit.words_ne_nil hcomments) (its.flatMap Item.words)
        obtain ⟨p, o₁, bare₁, hgap, hpasses⟩ := hit.passes hcomments hg hstarts o bare
        obtain ⟨q, ms, -, hall, hspells⟩ := ih hits hg' o₁ bare₁ false
        obtain ⟨ms', hpasses⟩ := hpasses q hall
        refine ⟨p, _, hgap, ?_, hpasses.spells hspells claimed⟩
        rw [hpasses.all_eq, hall, hjoined, List.append_assoc]

end Parser

end EcmaSyntax
