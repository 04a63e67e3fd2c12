import EcmaSyntax.Proofs.Splicing

/-!
# One text behind another

**Input.**  Two sources that parse, and the tokens that the run on the first one has taken.

**The seam.**  If the last token of the first source is a semicolon, then it ends the last source
element, since an inserted semicolon stands behind a token that is none.  So nothing of the second
source is taken to be part of that element.  The first token of the second source gets a line in
front of it, and at most its kind changes with that, if it is an increment.

**Results.**
* `EndsStatement.semicolon`: a list of source elements whose last token is a semicolon ends with it.
* `Spelled.elements_onLine`: source elements are the same on a line behind another text, and the
  comments at the end of that text come before them.
* `parse_append`: the program of two sources has the source elements of the first one, and then
  those of the second one, the comments at the seam included.
-/

namespace EcmaSyntax

/-- The kind of a token, whatever its text and its place are. -/
def kindOf (k : TokenKind) (_ : Text) (_ : Nat) : TokenKind := k

/-- The kind of the last token that a run has taken before the end of the input. -/
def lastKind (events : List Event) : Option TokenKind :=
  ((consumed events).map (·.kind)).dropLast.getLast?

namespace Parser

open TokenStream (isRestrictedKeyword)

/-! ## Tokens of items -/

/-- The kinds of the tokens that an item takes. -/
def Item.kinds : Item → List TokenKind
  | .taken k _ => [k]
  | .member k _ => [.dot, k]
  | .literal _ _ => [.regex]
  | .ended .semicolon => [.semicolon]
  | _ => []

/-- The kinds of the tokens that a source spells some items with. -/
theorem Spells.kinds {o : Nat} {bare claimed : Bool} {p : Site} {its : List Item}
    {marks : List Mark} (h : Spells o bare claimed p its marks) (ks : List TokenKind) :
    marks.foldl (Mark.consumeWith kindOf) (ks ++ [p.kindHere]) =
      ks ++ (its.flatMap Item.kinds ++ [.endOfInput]) := by
  induction h generalizing ks with
  | stop _ _ hk => rw [hk]; rfl
  | taken _ _ _ _ _ ih =>
      rw [List.foldl_append, Site.marks_consume, kindOf, ih, List.append_assoc]
      rfl
  | member _ _ hk _ _ _ _ _ ih =>
      rw [List.foldl_append, List.foldl_append, Site.marks_consume, Site.marks_consume, kindOf,
        kindOf, ih, hk]
      simp [Item.kinds]
  | literal _ _ _ _ _ _ _ ih =>
      rw [List.foldl_cons, List.foldl_append, Mark.consumeWith.eq_2, List.dropLast_concat,
        Site.marks_consume, kindOf, kindOf, ih, List.append_assoc]
      rfl
  | ended _ _ hk _ _ ih =>
      rw [List.foldl_cons, List.foldl_append]
      show List.foldl _ (List.foldl _ (ks ++ [_]) _) _ = _
      rw [Site.marks_consume, kindOf, ih, hk, List.append_assoc]
      rfl
  | early _ _ ih => exact ih ks
  | inserted _ _ _ _ ih => exact ih ks
  | comments _ ih => exact ih ks

/-- If the last token of a list of source elements is a semicolon, then it ends the list. -/
theorem EndsStatement.semicolon {its : List Item} (h : EndsStatement its []) (hi : AreScanned its)
    (hlast : (its.flatMap Item.kinds).getLast? = some .semicolon) :
    ∃ its₀ it, its = its₀ ++ [it] ∧ (it.isToken ∨ it = .ended .semicolon) ∧
      it.restricts = false := by
  obtain h | ⟨its₀, it, e, rfl, hit, he, hsemi⟩ := h.cases
  · exact h
  · have hkinds : e.kinds = [] := by
      cases e with
      | ended k => cases k <;> first | rfl | exact absurd rfl hsemi
      | inserted => rfl
      | _ => cases he
    have hscanned : it.isScanned := hi it (by simp)
    simp only [List.flatMap_append, List.flatMap_cons, hkinds, List.append_nil,
      List.flatMap_nil] at hlast
    cases it with
    | taken k t =>
        obtain rfl : k = .semicolon := by simpa [Item.kinds] using hlast
        cases hit
    | member k t =>
        obtain rfl : k = .semicolon := by simpa [Item.kinds] using hlast
        cases hscanned
    | literal k t => simp [Item.kinds] at hlast
    | _ => cases hit

/-! ## Increments at the head of a line -/

section Increments

variable {last k k' : TokenKind} {room : Nat} {t : Text} {i r : List Item}

/-- An increment is an operator in front of an operand, and starts no other statement than an
expression. -/
theorem prefixOperator?_of_isIncrement (h : isIncrement k) :
    (k.prefixOperator?).isSome ∧ k ≠ .identifier ∧ opensStatement k = false ∧ k ≠ .kwFunction := by
  cases k <;> first | cases h; done | exact ⟨rfl, nofun, rfl, nofun⟩

/-- An expression that starts with an increment may start with one at the head of a line. -/
theorem Derives.expression_increment {g : Grammar} {e : Expression}
    (h : Derives last room (.expression g) (.taken k t :: i) e r)
    (hk : k.prefixOperator?.isSome) (hop : k'.prefixOperator? = k.prefixOperator?) :
    Derives last room (.expression g) (.taken k' t :: i) e r := by
  cases h with
  | expression hfirst hrest =>
      refine .expression ?_ hrest
      cases hfirst with
      | nested hbody =>
          refine .nested ?_
          cases hbody with
          | assignmentPrefixed _ hoperand hoperators =>
              refine .assignmentPrefixed (hop ▸ hk : k'.prefixOperator?.isSome) ?_ hoperators
              cases hoperand with
              | unaryPrefix hsome h => exact .unaryPrefix (hop.trans hsome) h
              | unaryPostfix hnone =>
                  rw [show k.prefixOperator? = none from hnone] at hk
                  cases hk
          | assignmentPlain hplain =>
              rw [show k.prefixOperator?.isSome = false from hplain] at hk
              cases hk

/-- A source element that starts with an increment may start a line. -/
theorem Derives.element_increment {s : Statement}
    (h : Derives last room .element (.taken k t :: i) s r) (hk : isIncrement k) (newline : Bool) :
    Derives last room .element (.taken (Scanner.kindAfterGap newline k) t :: i) s r := by
  have hop := prefixOperator?_kindAfterGap newline k
  have hk' : isIncrement (Scanner.kindAfterGap newline k) := by
    cases newline <;> cases k <;> first | rfl | cases hk
  generalize Scanner.kindAfterGap newline k = k' at hop hk' ⊢
  obtain ⟨hsome, -, -, hfunction⟩ := prefixOperator?_of_isIncrement hk
  obtain ⟨-, hname', hopens', hfunction'⟩ := prefixOperator?_of_isIncrement hk'
  cases h with
  | elementFunction h => exact absurd h hfunction
  | elementStatement _ h =>
      cases h with
      | nested h =>
          refine .elementStatement hfunction' (.nested ?_)
          cases h with
          | expressionStatement _ he _ hend =>
              exact .expressionStatement hopens' (he.expression_increment hsome hop)
                (fun hname => hname' hname.1) hend
          | block h =>
              obtain rfl : k = .openBrace := h
              cases hk
          | jumpBare h | jumpLabel h => obtain rfl | rfl := h <;> cases hk
          | _ => cases hk

/-- A source element may start a line. -/
theorem Derives.element_onLine {s : Statement}
    (h : Derives last room .element (.taken k t :: i) s r) :
    Derives last room .element (.taken (Scanner.kindAfterGap true k) t :: i) s r := by
  by_cases hk : isIncrement k
  · exact h.element_increment hk true
  · have hsame : Scanner.kindAfterGap true k = k := by
      cases k <;> first | rfl | exact absurd rfl hk
    rwa [hsame]

end Increments

/-! ## On a new line -/

/-- No list of source elements goes on with a statement in front of it. -/
theorem Derives.elements_next {limit : Nat} {its : List Item} {ss : List Statement}
    (h : Derives .endOfInput limit (.elements [.endOfInput]) its ss []) (hi : AreScanned its) :
    goesOn (peek .endOfInput its) = false := by
  cases h with
  | elementsEnd => rfl
  | elementsMore _ hs _ =>
      exact goesOn_of_startsElement (hs.element_starts (List.forall_mem_cons.mp hi).2)

theorem isRestrictedKeyword_kindAfterGap (newline : Bool) (k : TokenKind) :
    isRestrictedKeyword (Scanner.kindAfterGap newline k) = isRestrictedKeyword k := by
  cases newline <;> cases k <;> rfl

theorem isPlain_kindAfterGap (newline : Bool) (k : TokenKind) :
    isPlain (Scanner.kindAfterGap newline k) = isPlain k := by
  cases newline <;> cases k <;> rfl

/-- A source element is spelled on a line behind another text, and it is the same. -/
theorem Spelled.element_onLine {p q : Site} {i : List Item} (h : Spelled false true q i)
    (hp : p.Valid) (hk : p.kindHere = .endOfInput) {last : TokenKind} {room : Nat} {s : Statement}
    {r : List Item} (hs : Derives last room .element i s r) :
    ∃ i', Spelled false true (p.onLineAfter q) i' ∧ Derives last room .element i' s r := by
  obtain ⟨it, i, rfl, hopens⟩ := hs.opens rfl
  obtain ⟨o, ms, w, o₁, bare₁, q₁, hpass, h⟩ | ⟨ms, bare₁, claimed₁, hstay, -⟩ := h.uncons
  · have hkind := Site.kindHere_onLineAfter p q
    cases hpass with
    | taken hq hb hplain hall =>
        refine ⟨_, ?_, hs.element_onLine⟩
        have hpass : Passes o false (p.onLineAfter q) (.taken (p.onLineAfter q).kindHere q.text) []
            _ _ (isRestrictedKeyword (p.onLineAfter q).kindHere) q₁ :=
          .taken (hp.onLineAfter hk hq) rfl (by rw [hkind, isPlain_kindAfterGap]; exact hplain) hall
        rw [hkind, isRestrictedKeyword_kindAfterGap] at hpass
        exact h.pass hpass true
    | literal hq hb hslash htext hbody hall =>
        have hsame : (p.onLineAfter q).kindHere = q.kindHere := by
          rw [hkind]
          generalize q.kindHere = k at hslash
          cases k <;> first | rfl | cases hslash
        refine ⟨_, ?_, hs⟩
        rw [← hsame] at hslash ⊢
        have hpass : Passes o false (p.onLineAfter q)
            (.literal (p.onLineAfter q).kindHere _) _ _ _ _ _ :=
          .literal (hp.onLineAfter hk hq) rfl hslash htext hbody hall
        exact h.pass hpass true
    | _ => cases hopens
  · cases hstay <;> cases hopens

/-- A list of source elements is spelled on a line behind another text, whose last comments come
before it. -/
theorem Spelled.elements_onLine {p q : Site} {its : List Item} (h : Spelled false false q its)
    (hp : p.Valid) (hk : p.kindHere = .endOfInput) {limit : Nat} {ss : List Statement}
    (hss : Derives .endOfInput limit (.elements [.endOfInput]) its ss []) :
    ∃ its', Spelled false false (p.onLineAfter q) its' ∧
      Derives .endOfInput limit (.elements [.endOfInput]) its'
        (p.gap.comments.map .comment ++ ss) [] := by
  have hcomments : (p.onLineAfter q).gap.comments = p.gap.comments ++ q.gap.comments :=
    Gap.comments_join _ _
  cases hss with
  | elementsEnd hstop =>
      obtain ⟨rfl, hnil⟩ := Spelled.comments_iff.mp h
      obtain ⟨hq, -, hend⟩ := Spelled.nil_iff.mp hnil
      have hend' : (p.onLineAfter q).kindHere = .endOfInput := by
        rw [Site.kindHere_onLineAfter, hend]
        rfl
      have hnil' : Spelled false true (p.onLineAfter q) [] :=
        Spelled.nil_iff.mpr ⟨hp.onLineAfter hk hq, rfl, hend'⟩
      refine ⟨_, Spelled.comments_iff.mpr ⟨rfl, hnil'⟩, ?_⟩
      rw [hcomments, ← List.map_append]
      exact .elementsEnd hstop
  | elementsMore hstop hs hss =>
      obtain ⟨rfl, hq⟩ := Spelled.comments_iff.mp h
      obtain ⟨i', hi', hs'⟩ := hq.element_onLine hp hk hs
      refine ⟨_, Spelled.comments_iff.mpr ⟨rfl, hi'⟩, ?_⟩
      rw [hcomments, ← List.append_assoc, ← List.map_append]
      refine .elementsMore (fun hend => ?_) hs' hss
      have hstarts := hs'.element_starts hi'.areScanned
      rw [List.mem_singleton.mp hend] at hstarts
      cases hstarts

end Parser

/-! ## Two sources -/

section Runs

variable {limit : Nat} {source source' : Text} {P P' : Program}

/-- A program is derived from what its text spells, and the tokens taken are those of the items. -/
theorem exists_kinds (h : parse limit source = .ok P) : ∃ (p : Site) (its : List Parser.Item),
    p.all = source ∧ Parser.Spelled false false p its ∧
      Parser.Derives .endOfInput limit (.elements [.endOfInput]) its P.body [] ∧
      (consumed (history (run limit source))).map (·.kind) =
        its.flatMap Parser.Item.kinds ++ [.endOfInput] := by
  obtain ⟨s, hrun⟩ := parse_eq_ok_iff.mp h
  obtain ⟨its, ⟨p, ms, rfl, hspells, hmarks⟩, hd⟩ := Parser.run_ok_iff.mp ⟨s, hrun, rfl⟩
  refine ⟨p, its, rfl, ⟨_, _, hspells⟩, hd, (consumed_marksWith kindOf _).trans ?_⟩
  rw [hrun]
  show s.stream.marks.foldl (Mark.consumeWith kindOf) [] = _
  rw [hmarks, List.foldl_append, Site.marks_consume]
  exact hspells.kinds []

/-- If the last token of a source is a semicolon, then a source on the next line goes on with the
program, and neither source changes what the other one says. -/
theorem parse_append (h : parse limit source = .ok P) (h' : parse limit source' = .ok P')
    (hlast : lastKind (history (run limit source)) = some .semicolon) :
    parse limit (source ++ '\n' :: source') = .ok ⟨P.body ++ P'.body⟩ := by
  obtain ⟨p, its, rfl, hspelled, hd, hkinds⟩ := exists_kinds h
  obtain ⟨p', its', rfl, hspelled', hd'⟩ := Parser.exists_spelled_of_parse h'
  rw [lastKind, hkinds, List.dropLast_concat] at hlast
  obtain ⟨its, cs, before, rfl, hbody, hends, hheads⟩ := hd.splits hspelled.areScanned
  rw [List.flatMap_append, show [Parser.Item.comments cs].flatMap Parser.Item.kinds = [] from rfl,
    List.append_nil] at hlast
  -- the first list ends with the semicolon, and the comments behind it come at the end
  obtain rfl | hends := hends
  · cases hlast
  obtain ⟨its, it, rfl, hit, hfree⟩ := hends.semicolon
    (fun it hit => hspelled.areScanned it (List.mem_append_left _ hit)) hlast
  rw [List.append_assoc, List.singleton_append] at hspelled
  obtain ⟨q, p₁, hvalid, hend, rfl, hall, hspelled⟩ :=
    hspelled.onLine hit (fun _ hq => hfree ▸ hq) p'
  rw [hfree] at hspelled
  obtain ⟨more, hmore, hd'⟩ := hspelled'.elements_onLine hvalid hend hd'
  obtain ⟨-, hderives⟩ := hheads .endOfInput [.endOfInput] more [] _ (by decide)
    (hd'.elements_next hmore.areScanned) hd'
  have hbodies : P.body ++ P'.body = before ++ (q.gap.comments.map .comment ++ P'.body) := by
    rw [hbody, List.append_assoc]
  rw [← hall, hbodies]
  exact (hspelled more hmore).parses hderives

/-- A statement without an alternative, a comment behind its semicolon, and then an increment that
is no longer the first token of the source. -/
theorem parse_append_increment : ∃ P P',
    parse 256 "if (a) b; // c".toList = .ok P ∧ parse 256 "++d".toList = .ok P' ∧
      lastKind (history (run 256 "if (a) b; // c".toList)) = some .semicolon ∧
      parse 256 "if (a) b; // c\n++d".toList = .ok ⟨P.body ++ P'.body⟩ := by
  obtain ⟨P, s, h⟩ := exists_run 256 "if (a) b; // c".toList (by decide +kernel)
  obtain ⟨P', s', h'⟩ := exists_run 256 "++d".toList (by decide +kernel)
  have hfirst := parse_eq_ok_iff.mpr ⟨s, h⟩
  have hsecond := parse_eq_ok_iff.mpr ⟨s', h'⟩
  have hlast : lastKind (history (run 256 "if (a) b; // c".toList)) = some .semicolon := by
    decide +kernel
  have htext : "if (a) b; // c".toList ++ '\n' :: "++d".toList =
      "if (a) b; // c\n++d".toList := by decide
  have hboth := parse_append hfirst hsecond hlast
  rw [htext] at hboth
  exact ⟨P, P', hfirst, hsecond, hlast, hboth⟩

end Runs

end EcmaSyntax
