import EcmaSyntax.Proofs.Printing.Spelled
import EcmaSyntax.Proofs.Splicing

/-!
# Lists of source elements

**Input.**  A source that parses, and the head of a block, of a function or of a handler to put in
front of it.

**The end of a list.**  A program ends with the end of the input and a body with a brace.  A
semicolon that was inserted at the end of the input is inserted in front of a brace on the next line
as well, and its item is another one.  `Alike` says that the grammar does not tell the two apart.

**Results.**
* `exists_enclosed`: what a source spells may stand in front of a brace on the next line, and the
  grammar derives the same source elements from it.
* `SpelledBy.token`: a token may stand in front of what a text spells.
* `elements_parse_alike`: a source between the head and the brace of a block, of a function or of a
  handler is its body, with the comments, and one level of nesting more is all that it takes.
-/

namespace EcmaSyntax
namespace Parser

open TokenStream (isRestrictedKeyword)

/-! ## A brace at the end -/

/-- A closing brace at the end of the input. -/
def closingBrace : Site := ⟨[], .closeBrace, ['}'], []⟩

/-- What a closing brace at the end of the input spells. -/
def closing : List Item := [.taken .closeBrace ['}'], .comments []]

theorem closingBrace_valid : closingBrace.Valid :=
  ⟨trivial, by decide, .inr (.punctuator (by rfl) (by rfl))⟩

/-- Nothing comes at the end of the input. -/
theorem Spelled.end : Spelled false false ⟨[], .endOfInput, [], []⟩ [.comments []] :=
  Spelled.comments_iff.mpr
    ⟨rfl, Spelled.nil_iff.mpr ⟨⟨trivial, rfl, .inl ⟨rfl, rfl, rfl⟩⟩, rfl, rfl⟩⟩

section Closing

variable {p q : Site}

theorem kindHere_closing (q : Site) : (q.onLineAfter closingBrace).kindHere = .closeBrace := by
  rw [Site.kindHere_onLineAfter]
  rfl

theorem comments_closing (q : Site) : (q.onLineAfter closingBrace).gap.comments = q.gap.comments :=
  (Gap.comments_join _ _).trans (List.append_nil _)

/-- A brace is spelled on a line of its own. -/
theorem Spelled.closing (hq : q.Valid) (hend : q.kindHere = .endOfInput) :
    Spelled false false (q.onLineAfter closingBrace)
      (.comments q.gap.comments :: Parser.closing) := by
  refine Spelled.comments_iff.mpr ⟨(comments_closing q).symm, ?_⟩
  have hpass : Passes 0 false (q.onLineAfter closingBrace) _ [] _ _
      (isRestrictedKeyword (q.onLineAfter closingBrace).kindHere) ⟨[], .endOfInput, [], []⟩ :=
    .taken (hq.onLineAfter hend closingBrace_valid) rfl (by rw [kindHere_closing]; rfl) rfl
  rw [kindHere_closing] at hpass
  exact Spelled.end.pass hpass true

/-- In front of a brace on a line of its own a semicolon is inserted. -/
theorem Spelled.exists_ending (hq : q.Valid) (hend : q.kindHere = .endOfInput) (bare : Bool) :
    ∃ e : Item, (∀ a, Ending a e) ∧
      Spelled bare false (q.onLineAfter closingBrace)
        (e :: .comments q.gap.comments :: Parser.closing) := by
  have hnewline := Site.newline_onLineAfter q closingBrace
  cases bare with
  | true =>
      exact ⟨.ended .insertedSemicolon, fun _ => .ended rfl fun _ => rfl,
        (Spelled.closing hq hend).stay (.early hnewline)⟩
  | false =>
      have hkind := kindHere_closing q
      have hstay : Stays false false (q.onLineAfter closingBrace)
          (.inserted (q.onLineAfter closingBrace).kindHere) _ false false :=
        .inserted rfl (by rw [hkind]; exact nofun) (by simp [Site.admits, hnewline])
      rw [hkind] at hstay
      exact ⟨_, fun _ => .inserted rfl fun _ => rfl, (Spelled.closing hq hend).stay hstay⟩

end Closing

/-- A semicolon that was inserted takes no token. -/
theorem Spelled.of_inserted {bare claimed : Bool} {p : Site} {e : Item} {its : List Item}
    (h : Spelled bare claimed p (e :: its)) (he : e.isEnding) (hne : e ≠ .ended .semicolon) :
    Spelled false claimed p its := by
  obtain ⟨o, ms, w, o₁, bare₁, q, hp, -⟩ | ⟨ms, bare₁, claimed₁, hp, h⟩ := h.uncons
  · obtain hit | hit := hp.item
    · cases e <;> first | cases he; done | cases hit
    · exact absurd hit hne
  · cases hp with
    | early => exact h
    | inserted => exact h
    | comments => cases he

/-- Source elements up to the end of the input are taken up to a brace as well. -/
theorem Derives.elements_closing {room : Nat} {its : List Item} {cs : List Comment}
    {body : List Statement}
    (h : Derives .endOfInput room (.elements [.endOfInput]) (its ++ [.comments cs]) body [])
    (hi : AreScanned (its ++ [.comments cs])) :
    Derives .endOfInput room (.elements [.closeBrace]) (its ++ .comments cs :: closing) body
      closing := by
  obtain ⟨its', cs', before, hits, rfl, -, hheads⟩ := h.splits hi
  obtain ⟨rfl, hcs⟩ := List.append_inj' hits rfl
  obtain rfl : cs = cs' := by simpa using hcs
  exact (hheads .endOfInput [.closeBrace] _ _ _ (by decide) rfl (.elementsEnd (by decide))).2

/-- Another semicolon may be inserted at the end of a list of source elements. -/
theorem Derives.elements_ending {room : Nat} {its : List Item} {e e' : Item} {cs : List Comment}
    {body : List Statement}
    (h : Derives .endOfInput room (.elements [.endOfInput]) (its ++ [e, .comments cs]) body [])
    (he : e.isEnding) (hending : ∀ a, Ending a e') :
    Derives .endOfInput room (.elements [.endOfInput]) (its ++ [e', .comments cs]) body [] := by
  have halike : Alike false (its ++ [e, .comments cs]) (its ++ [e', .comments cs]) :=
    Alike.append_left _ (fun a => .ending he (hending a) (.refl false [.comments cs])) false
  obtain ⟨_, r, hr, hd⟩ := h.transfer Orderly.nil halike
  cases hr
  exact hd

/-- The source elements of a text may stand in front of a brace on a line of its own. -/
theorem exists_enclosed {room : Nat} {p : Site} {its : List Item} {body : List Statement}
    (h : Spelled false false p its)
    (hd : Derives .endOfInput room (.elements [.endOfInput]) its body []) :
    ∃ q its', q.all = p.all ++ ['\n', '}'] ∧ Spelled false false q its' ∧
      Derives .endOfInput room (.elements [.closeBrace]) its' body closing := by
  have hscanned := h.areScanned
  obtain ⟨its, cs, -, rfl, -, hends, -⟩ := hd.splits hscanned
  have hclosing := hd.elements_closing hscanned
  obtain rfl | hends := hends
  · obtain ⟨rfl, hnil⟩ := Spelled.comments_iff.mp h
    obtain ⟨hp, -, hend⟩ := Spelled.nil_iff.mp hnil
    exact ⟨_, _, Site.all_onLineAfter hp hend, .closing hp hend, hclosing⟩
  obtain ⟨its, it, rfl, hit, hfree⟩ | ⟨its, it, e, rfl, hit, he, hne⟩ := hends.cases
  · rw [List.append_assoc, List.singleton_append] at h
    obtain ⟨q, p', hvalid, hend, rfl, hall, hspelled⟩ :=
      h.onLine hit (fun _ hq => hfree ▸ hq) closingBrace
    rw [hfree] at hspelled
    exact ⟨p', _, hall, hspelled _ (.closing hvalid hend), hclosing⟩
  · rw [List.append_assoc, List.cons_append, List.singleton_append] at h
    have hreal : it.isToken := by cases it <;> first | rfl | cases hit
    obtain ⟨q, p', hvalid, hend, rfl, hall, hspelled⟩ :=
      h.onLine (.inl hreal) (fun _ hq => hq.of_inserted he hne) closingBrace
    -- another semicolon is inserted in front of the brace
    obtain ⟨e', hending, hq'⟩ := Spelled.exists_ending hvalid hend it.restricts
    have hspelled' := hspelled _ hq'
    have hits : its ++ [it] ++ e' :: .comments q.gap.comments :: closing =
        its ++ [it, e'] ++ .comments q.gap.comments :: closing := by simp
    have hd' : Derives .endOfInput room (.elements [.endOfInput])
        (its ++ [it, e'] ++ [.comments q.gap.comments]) body [] := by
      rw [List.append_cons its it [e'], List.append_assoc]
      refine Derives.elements_ending ?_ he hending
      simpa using hd
    rw [hits] at hspelled'
    have hscanned' := hspelled'.areScanned
    rw [List.append_cons] at hscanned'
    exact ⟨p', _, hall, hspelled', hd'.elements_closing (List.forall_mem_append.mp hscanned').1⟩

/-! ## Texts in front of source elements -/

/-- What stands in front of the body of a block. -/
def blockHead : List Item := [.taken .openBrace ['{']]

/-- What stands in front of the body of a function. -/
def functionHead : List Item :=
  [.taken .kwFunction "function".toList, .taken .identifier ['f'], .taken .openParen ['('],
    .taken .closeParen [')'], .taken .openBrace ['{']]

/-- What stands in front of the body of a handler. -/
def handlerHead : List Item :=
  [.taken .kwTry "try".toList, .taken .openBrace ['{'], .comments [], .taken .closeBrace ['}'],
    .taken .kwCatch "catch".toList, .taken .openParen ['('], .taken .identifier ['e'],
    .taken .closeParen [')'], .taken .openBrace ['{']]

/-- A text spells some items. -/
def SpelledBy (its : List Item) (u : Text) : Prop :=
  ∃ q : Site, q.all = u ∧ Spelled false false q its

/-- A token is put in front of a text, behind a space or behind nothing, and it may come first in a
list of source elements. -/
theorem SpelledBy.token {its : List Item} {u t : Text} {k : TokenKind} {g : Gap}
    (h : SpelledBy its u) (hg : g.IsSpace) (ht : TokenAt k t u) (hs : isSettled (t ++ u))
    (hk : isPlain k && !isRestrictedKeyword k) :
    SpelledBy (.taken k t :: its) (g.text ++ (t ++ u)) ∧
      SpelledBy (.comments [] :: .taken k t :: its) (g.text ++ (t ++ u)) := by
  obtain ⟨q, rfl, h⟩ := h
  obtain ⟨hplain, hfree⟩ := Bool.and_eq_true_iff.mp hk
  have hkind := Site.kindHere_of_isSpace (k := k) (w := t) (r := q.all) hg
  have hpass : Passes 0 false ⟨g, k, t, q.all⟩ _ [] _ _
      (isRestrictedKeyword (Site.kindHere ⟨g, k, t, q.all⟩)) q :=
    .taken ⟨hg.fits _, hs, .inr ht⟩ rfl (by rwa [hkind]) rfl
  rw [hkind, show isRestrictedKeyword k = false by simpa using hfree] at hpass
  refine ⟨⟨_, rfl, h.pass hpass false⟩, ⟨g, k, t, q.all⟩, rfl, ?_⟩
  exact Spelled.comments_iff.mpr ⟨hg.comments.symm, h.pass hpass true⟩

namespace SpelledBy

variable {its : List Item} {u : Text}

theorem openBrace (h : SpelledBy its u) :
    SpelledBy (.taken .openBrace ['{'] :: its) ('{' :: u) ∧
      SpelledBy (.comments [] :: .taken .openBrace ['{'] :: its) ('{' :: u) :=
  h.token (.inl rfl) (.punctuator rfl rfl) rfl rfl

theorem closeBrace (h : SpelledBy its u) :
    SpelledBy (.comments [] :: .taken .closeBrace ['}'] :: its) ('}' :: u) :=
  (h.token (.inl rfl) (.punctuator rfl rfl) rfl rfl).2

theorem openParen (h : SpelledBy its u) : SpelledBy (.taken .openParen ['('] :: its) ('(' :: u) :=
  (h.token (.inl rfl) (.punctuator rfl rfl) rfl rfl).1

theorem closeParen (h : SpelledBy its u) :
    SpelledBy (.taken .closeParen [')'] :: its) (')' :: u) :=
  (h.token (.inl rfl) (.punctuator rfl rfl) rfl rfl).1

/-- A word is put in front of a text that does not go on with it. -/
theorem word {t : Text} {k : TokenKind} {c : Char} {g : Gap} (h : SpelledBy its (c :: u))
    (hg : g.IsSpace) (hname : isIdentifierName t) (hk : wordKind t = k)
    (hc : isIdentifierPart c = false) (hs : isSettled (t ++ c :: u))
    (hplain : isPlain k && !isRestrictedKeyword k) :
    SpelledBy (.taken k t :: its) (g.text ++ (t ++ c :: u)) ∧
      SpelledBy (.comments [] :: .taken k t :: its) (g.text ++ (t ++ c :: u)) :=
  h.token hg (hk ▸ tokenAt_word_before hname fun _ hd => Option.some.inj hd ▸ hc) hs hplain

/-- A source is put in front of the end of a block. -/
theorem block (h : SpelledBy its u) :
    SpelledBy (.comments [] :: (blockHead ++ its)) ("\x7b".toList ++ u) :=
  h.openBrace.2

/-- A source is put in front of the end of a function. -/
theorem function (h : SpelledBy its u) :
    SpelledBy (.comments [] :: (functionHead ++ its)) ("function f()\x7b".toList ++ u) := by
  have hname := (h.openBrace.1.closeParen.openParen.word (t := ['f']) (k := .identifier) (.inr rfl)
    rfl (by decide +kernel) rfl rfl rfl).1
  exact (hname.word (t := "function".toList) (.inl rfl) rfl (by decide +kernel) rfl rfl rfl).2

/-- A source is put in front of the end of a handler. -/
theorem handler (h : SpelledBy its u) :
    SpelledBy (.comments [] :: (handlerHead ++ its)) ("try\x7b\x7dcatch(e)\x7b".toList ++ u) := by
  have hname := (h.openBrace.1.closeParen.word (t := ['e']) (k := .identifier) (.inl rfl)
    rfl (by decide +kernel) rfl rfl rfl).1
  have hcatch := (hname.openParen.word (t := "catch".toList) (k := .kwCatch) (.inl rfl)
    rfl (by decide +kernel) rfl rfl rfl).1
  exact (hcatch.closeBrace.openBrace.1.word (t := "try".toList) (.inl rfl)
    rfl (by decide +kernel) rfl rfl rfl).2

end SpelledBy

/-- A source element that is all of a program. -/
theorem Derives.only {limit : Nat} {it : Item} {its : List Item} {s : Statement}
    (h : Derives .endOfInput limit .element (it :: its) s [.comments []])
    (hit : peek .endOfInput (it :: its) ≠ .endOfInput) :
    Derives .endOfInput limit (.elements [.endOfInput]) (.comments [] :: it :: its) [s] [] :=
  .elementsMore (by simpa using hit) h (.elementsEnd (by decide))

end Parser

open EcmaSyntax.Parser

section Runs

variable {limit : Nat} {source : Text} {P : Program}

/-- What a source says is what it says as the body of a block, of a function or of a handler. -/
theorem elements_parse_alike (h : parse limit source = .ok P) :
    parse (limit + 1) ("\x7b".toList ++ (source ++ "\n\x7d".toList)) = .ok ⟨[.block P.body]⟩ ∧
      parse (limit + 1) ("function f()\x7b".toList ++ (source ++ "\n\x7d".toList)) =
        .ok ⟨[.function ⟨some ['f'], [], P.body⟩]⟩ ∧
      parse (limit + 1) ("try\x7b\x7dcatch(e)\x7b".toList ++ (source ++ "\n\x7d".toList)) =
        .ok ⟨[.tryCatch (.block []) (some ⟨['e'], P.body⟩) none]⟩ := by
  obtain ⟨p, its, rfl, hspelled, hd⟩ := exists_spelled_of_parse h
  obtain ⟨q, its, hq, hspelled, hd⟩ := exists_enclosed hspelled hd
  have hsource : SpelledBy its (p.all ++ "\n\x7d".toList) := ⟨q, hq, hspelled⟩
  have hbody : Derives .endOfInput limit .blockBody (blockHead ++ its) P.body [.comments []] :=
    .blockBody hd
  refine ⟨?block, ?function, ?handler⟩
  case block =>
    obtain ⟨q, hq, h⟩ := hsource.block
    have hblock : Derives .endOfInput (limit + 1) (.rule .statement) (blockHead ++ its)
        (.block P.body) [.comments []] :=
      .nested (.block rfl hbody)
    rw [← hq]
    exact h.parses (Derives.only (.elementStatement nofun hblock) nofun)
  case function =>
    obtain ⟨q, hq, h⟩ := hsource.function
    have hfunction : Derives .endOfInput (limit + 1) (.rule .declaration) (functionHead ++ its)
        (.function ⟨some ['f'], [], P.body⟩) [.comments []] :=
      .nested (.declaration (.functionNamed .parametersNone hbody))
    rw [← hq]
    exact h.parses (Derives.only (.elementFunction rfl hfunction) nofun)
  case handler =>
    obtain ⟨q, hq, h⟩ := hsource.handler
    have htry : Derives .endOfInput (limit + 1) (.rule .statement) (handlerHead ++ its)
        (.tryCatch (.block []) (some ⟨['e'], P.body⟩) none) [.comments []] :=
      .nested (.tryCatch (.blockBody (.elementsEnd (List.mem_singleton_self _)))
        (.handlerPresent hbody) (.finalizerAbsent nofun) (.inl rfl))
    rw [← hq]
    exact h.parses (Derives.only (.elementStatement nofun htry) nofun)

/-- Another semicolon is inserted in front of the brace, and the comment comes in front of it. -/
theorem elements_parse_alike_bare_return : ∃ P,
    parse 256 "a\n++b; return // c".toList = .ok P ∧
      parse 257 "\x7ba\n++b; return // c\n\x7d".toList = .ok ⟨[.block P.body]⟩ ∧
      parse 257 "function f()\x7ba\n++b; return // c\n\x7d".toList =
        .ok ⟨[.function ⟨some ['f'], [], P.body⟩]⟩ ∧
      parse 257 "try\x7b\x7dcatch(e)\x7ba\n++b; return // c\n\x7d".toList =
        .ok ⟨[.tryCatch (.block []) (some ⟨['e'], P.body⟩) none]⟩ := by
  obtain ⟨P, s, h⟩ := exists_run 256 "a\n++b; return // c".toList (by decide +kernel)
  have hparse := parse_eq_ok_iff.mpr ⟨s, h⟩
  have halike := elements_parse_alike hparse
  have hsource : "a\n++b; return // c".toList ++ "\n\x7d".toList =
      "a\n++b; return // c\n\x7d".toList := by decide
  rw [hsource] at halike
  exact ⟨P, hparse, halike⟩

end Runs

end EcmaSyntax
