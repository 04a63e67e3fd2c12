import EcmaSyntax.Proofs.NumberTokens
import EcmaSyntax.Proofs.RegexLiterals
import EcmaSyntax.Proofs.StringPass
import EcmaSyntax.Proofs.WellFormed

/-!
# Literals that the scanner accepts

**Literals.**  A number has a value.  A string is cooked by the parts that the scanner took it in.
A regular expression is split at the slash that closes it.

**Results.**
* `ReadAs.number`, `ReadAs.string`, `ReadAs.regex`: what is known of a literal in front of what is
  left.
* `literals_cooked`: so it is with whatever token the scanner returned last, and no run of the
  grammar looks at a number without a value.
-/

namespace EcmaSyntax

variable {t : Token} {r : Text}

/-- A string literal of some parts.  The scanner took them one by one, with a text behind the
closing quote, and cooking takes them one by one. -/
structure Token.CutInParts (t : Token) (rest : Text) (quote : Char) (parts : List Text) : Prop where
  isQuote : quote = '"' ∨ quote = '\''
  text : t.text = quote :: (parts.flatten ++ [quote])
  scanned : stringLexeme quote (parts.flatten ++ quote :: rest) = .token .string t.text
  taken : takeParts quote (parts.flatten ++ quote :: rest) = (parts, true)
  value : stringValue t.text = assemble (pieces parts.flatten)
  cooked : ∀ {before : List Text} {part : Text} {after : List Text},
    parts = before ++ part :: after → ∃ piece, Cooked part after.flatten piece ∧
      pieces (part ++ after.flatten) = piece :: pieces after.flatten ∧
      part ++ after.flatten ≠ ['\\']

/-- A regular expression is split into its pattern and its flags. -/
structure Token.Splits (t : Token) (pattern flags : Text) : Prop where
  parts : regexParts t.text = (pattern, flags)
  text : t.text = '/' :: pattern ++ '/' :: flags
  body : IsRegexBody pattern
  flags : '/' ∉ flags

/-- The scanner finds no regular expressions by itself. -/
theorem Site.Valid.kindHere_ne_regex {p : Site} (hp : p.Valid) : p.kindHere ≠ .regex := by
  have hk : p.kind = .endOfInput ∨ EcmaSyntax.isLexical p.kind :=
    hp.token.imp (·.1) (·.isLexical)
  unfold Site.kindHere
  intro h
  generalize p.kind = k, p.newline = newline at h hk
  cases newline <;> cases k <;> first
    | exact absurd hk (by decide)
    | cases h

namespace ReadAs

theorem tokenAt (h : ReadAs t r) (hk : t.kind = .number ∨ t.kind = .string) :
    TokenAt t.kind t.text r := by
  cases h with
  | lexeme hp => exact hp.tokenAt hk
  | literal hregex =>
      rw [hregex] at hk
      obtain hk | hk := hk <;> cases hk

theorem number (h : ReadAs t r) (hk : t.kind = .number) : (numberValue? t.text).isSome := by
  have htoken := h.tokenAt (.inl hk)
  rw [hk] at htoken
  exact htoken.numberValue?_isSome

theorem string (h : ReadAs t r) (hk : t.kind = .string) :
    ∃ quote parts, t.CutInParts r quote parts := by
  have htoken := h.tokenAt (.inr hk)
  rw [hk] at htoken
  obtain ⟨quote, parts, hquote, htext, htaken, hcomplete⟩ := htoken.exists_parts
  refine ⟨quote, parts, hquote, htext, ?_, htaken, ?_, ?_⟩
  · rw [stringLexeme_eq hquote, htaken, htext]
    exact if_pos (List.all_eq_true.mpr hcomplete)
  · rw [stringValue, htext, List.drop_one, List.tail_cons, List.dropLast_concat]
  · rintro before part after rfl
    obtain ⟨piece, hpiece⟩ := takeParts_cooked hquote htaken (hcomplete part (by simp))
    exact ⟨piece, hpiece, hpiece.pieces_eq, hpiece.ne_backslash⟩

theorem regex (h : ReadAs t r) (hk : t.kind = .regex) :
    ∃ pattern flags, t.Splits pattern flags := by
  cases h with
  | lexeme hp => exact absurd hk hp.kindHere_ne_regex
  | @literal _ body _ _ htext hregex =>
      obtain ⟨c, pattern, flags, -, hw, -, hu, hflags, -⟩ := regexLiteral?_eq_some_iff.mp hregex
      rw [← htext] at hw
      refine ⟨c :: pattern, flags, ?_, hw, ?_, fun hslash => ?_⟩
      · rw [hw]
        exact regexParts_literal (c :: pattern) hflags
      · exact isRegexBody_iff.mpr ⟨List.cons_ne_nil _ _, patternRest_of_regexRest? (hu [])⟩
      · exact absurd (hflags '/' hslash) (by decide)

end ReadAs

/-- Cooking does not fail on what the scanner returns.  A number has a value; the grammar, written
out once and for all, breaks off in no run that would have to look at one without.  A string is
cooked part by part, as it was taken, and each numeric escape becomes a code unit.  A regular
expression splits into a pattern, which is a body, and flags without slashes. -/
theorem literals_cooked {source : Text} {s : Scanner} (h : Scanner.Reached source (some t) s) :
    (t.kind = .number → (numberValue? t.text).isSome) ∧
    (t.kind = .string → ∃ quote parts, t.CutInParts s.rest quote parts) ∧
    (t.kind = .regex → ∃ pattern flags, t.Splits pattern flags) ∧
    ∃ elements : Machine.Elements,
      (∀ turns room, (elements turns room).parser =
        Parser.elements (Parser.rule turns room) [.endOfInput] turns) ∧
      ∀ limit source n, strictRuns elements limit n (ParserState.ofText source) =
        (runs limit n (ParserState.ofText source)).map some := by
  obtain ⟨-, -, hlast⟩ := h.returned
  have hread := (hlast t rfl).readAs
  obtain ⟨elements, helements⟩ := exists_strictlyWritten
  exact ⟨hread.number, hread.string, hread.regex, elements, helements.parser_eq,
    fun _ source n => strictRuns_eq helements n (valued_ofText source)⟩

/-- A numeric escape is a part of its string.  A slash in a class and a slash behind a backslash are
parts of the pattern. -/
theorem literals_cooked_each :
    (∃ t s, Scanner.Reached "0x1F".toList (some t) s ∧ t.kind = .number ∧
      (numberValue? t.text).isSome) ∧
    (∃ t s, Scanner.Reached "'\\x41b'".toList (some t) s ∧ t.kind = .string ∧
      t.CutInParts s.rest '\'' ["\\x41".toList, "b".toList] ∧ stringValue t.text = "Ab".toList) ∧
    ∃ t s, Scanner.Reached "/[/]\\//gi".toList (some t) s ∧ t.kind = .regex ∧
      t.Splits "[/]\\/".toList "gi".toList := by
  refine ⟨?_, ?_, ?_⟩
  · obtain ⟨s, hrun⟩ : ∃ s, Scanner.next.run (Scanner.ofText "0x1F".toList) =
        .ok ⟨.number, "0x1F".toList, Place.start, false⟩ s := Scanner.exists_run (by decide +kernel)
    have hreached := Scanner.Reached.start.next hrun
    obtain ⟨hvalue, -, -, -⟩ := literals_cooked hreached
    exact ⟨_, s, hreached, rfl, hvalue rfl⟩
  · obtain ⟨s, hrun⟩ : ∃ s, Scanner.next.run (Scanner.ofText "'\\x41b'".toList) =
        .ok ⟨.string, "'\\x41b'".toList, Place.start, false⟩ s :=
      Scanner.exists_run (by decide +kernel)
    have hreached := Scanner.Reached.start.next hrun
    obtain ⟨hsource, -, hlast⟩ := hreached.returned
    have hrest : [] = s.rest := by
      rw [← (hlast _ rfl).rest_eq, hsource]
      decide
    obtain ⟨-, hparts, -, -⟩ := literals_cooked hreached
    obtain ⟨quote, parts, hcut⟩ := hparts rfl
    obtain ⟨rfl, hbody⟩ := List.cons.inj hcut.text
    have hflat : "\\x41b".toList = parts.flatten := List.append_cancel_right hbody
    have htaken := hcut.taken
    rw [← hflat, ← hrest] at htaken
    have hpair : takeParts '\'' "\\x41b'".toList = (["\\x41".toList, "b".toList], true) := by
      decide +kernel
    obtain ⟨rfl, -⟩ := Prod.mk.inj (hpair.symm.trans htaken)
    exact ⟨_, s, hreached, rfl, hcut, hcut.value.trans (by decide +kernel)⟩
  · obtain ⟨s, hrun⟩ : ∃ s, Scanner.next.run (Scanner.ofText "/[/]\\//gi".toList) =
        .ok ⟨.slash, "/".toList, Place.start, false⟩ s := Scanner.exists_run (by decide +kernel)
    have hreached := Scanner.Reached.start.next hrun
    obtain ⟨hsource, -, hlast⟩ := hreached.returned
    obtain ⟨after, hafter, hrescan⟩ := Scanner.rescan_returned (hlast _ rfl) rfl
    obtain rfl : "[/]\\//gi".toList = after := by
      rw [← (hlast _ rfl).source_eq, hsource] at hafter
      exact (List.cons.inj hafter).2
    have hliteral : regexLiteral? "[/]\\//gi".toList = some "/[/]\\//gi".toList := by decide
    rw [hliteral] at hrescan
    have hregex := hreached.rescan rfl hrescan
    obtain ⟨-, -, hsplits, -⟩ := literals_cooked hregex
    obtain ⟨pattern, flags, hsplit⟩ := hsplits rfl
    have hparts : regexParts "/[/]\\//gi".toList = ("[/]\\/".toList, "gi".toList) := by decide
    obtain ⟨rfl, rfl⟩ := Prod.mk.inj (hparts.symm.trans hsplit.parts)
    exact ⟨_, _, hregex, rfl, hsplit⟩

end EcmaSyntax
