import EcmaSyntax.Proofs.Printing.Words
import EcmaSyntax.Proofs.Returned

/-!
# Regular expression literals

**Bodies.**  `IsRegexBody` is the grammar of what stands between the slashes: some parts, each of
them a character that stands for itself, a backslash with a character, or a class in brackets.  A
class is closed, and a slash or an opening bracket within it is free.

**Decompositions.**  A body reads from left to right in two states, within a class or not.  In front
of a slash that is not within a class it cannot go on.  So no body goes on behind the slash that
closes another one, and there is at most one body with a slash behind it.

**Results.**
* `isRegexBody_iff`: the bodies are those that the two states admit.
* `regexLiteral?_iff`: the scanner finds the literal of a body, and none if there is no body.
* `regex_rescanned`: a slash that was returned last is read again as a literal exactly if there is
  one.  Otherwise the rest of its line is at fault.
-/

namespace EcmaSyntax

/-! ## Bodies -/

/-- A part of a class: any character but those that would end it or the line, or a backslash with a
character. -/
inductive IsClassPart : Text → Prop
  | character {c : Char} : isLineTerminator c = false → c ≠ ']' → c ≠ '\\' → IsClassPart [c]
  | escape {c : Char} : isLineTerminator c = false → IsClassPart ['\\', c]

/-- A part of a body. -/
inductive IsBodyPart : Text → Prop
  | character {c : Char} : isLineTerminator c = false → c ≠ '\\' → c ≠ '/' → c ≠ '[' →
      IsBodyPart [c]
  | escape {c : Char} : isLineTerminator c = false → IsBodyPart ['\\', c]
  | group {parts : List Text} : (∀ part ∈ parts, IsClassPart part) →
      IsBodyPart ('[' :: parts.flatten ++ [']'])

/-- The body of a regular expression has one part or more. -/
def IsRegexBody (body : Text) : Prop :=
  ∃ parts : List Text, parts ≠ [] ∧ (∀ part ∈ parts, IsBodyPart part) ∧ body = parts.flatten

theorem PatternRest.of_classParts {parts : List Text} {t : Text}
    (h : ∀ part ∈ parts, IsClassPart part) (ht : PatternRest true t) :
    PatternRest true (parts.flatten ++ t) := by
  induction parts with
  | nil => exact ht
  | cons part parts ih =>
      obtain ⟨hpart, hparts⟩ := List.forall_mem_cons.mp h
      have ih := ih hparts
      rw [List.flatten_cons, List.append_assoc]
      cases hpart with
      | character hc hclose hslash => exact .inside hc hslash hclose ih
      | escape hc => exact .escape hc ih

theorem PatternRest.of_bodyParts {parts : List Text} (h : ∀ part ∈ parts, IsBodyPart part) :
    PatternRest false parts.flatten := by
  induction parts with
  | nil => exact .stop
  | cons part parts ih =>
      obtain ⟨hpart, hparts⟩ := List.forall_mem_cons.mp h
      have ih := ih hparts
      rw [List.flatten_cons]
      cases hpart with
      | character hc hslash hclose hopen => exact .outside hc hslash hopen hclose ih
      | escape hc => exact .escape hc ih
      | group hclass =>
          rw [List.append_assoc]
          exact .openClass (.of_classParts hclass (.closeClass ih))

/-- What a state admits is made up of parts: within a class of those of the class, and then of
others. -/
theorem PatternRest.exists_parts {inClass : Bool} {t : Text} (h : PatternRest inClass t) :
    match inClass with
    | false => ∃ parts : List Text, (∀ part ∈ parts, IsBodyPart part) ∧ t = parts.flatten
    | true => ∃ cs parts : List Text, (∀ part ∈ cs, IsClassPart part) ∧
        (∀ part ∈ parts, IsBodyPart part) ∧ t = cs.flatten ++ ']' :: parts.flatten := by
  induction h with
  | stop => exact ⟨[], nofun, rfl⟩
  | @escape inClass c t hc _ ih =>
      cases inClass with
      | false =>
          obtain ⟨parts, hparts, rfl⟩ := ih
          exact ⟨['\\', c] :: parts, List.forall_mem_cons.mpr ⟨.escape hc, hparts⟩, rfl⟩
      | true =>
          obtain ⟨cs, parts, hcs, hparts, rfl⟩ := ih
          exact ⟨['\\', c] :: cs, parts, List.forall_mem_cons.mpr ⟨.escape hc, hcs⟩, hparts, rfl⟩
  | openClass _ ih =>
      obtain ⟨cs, parts, hcs, hparts, rfl⟩ := ih
      exact ⟨('[' :: cs.flatten ++ [']']) :: parts, List.forall_mem_cons.mpr ⟨.group hcs, hparts⟩,
        by simp⟩
  | closeClass _ ih =>
      obtain ⟨parts, hparts, rfl⟩ := ih
      exact ⟨[], parts, nofun, hparts, rfl⟩
  | @outside c _ hc hslash hopen hclose _ ih =>
      obtain ⟨parts, hparts, rfl⟩ := ih
      exact ⟨[c] :: parts, List.forall_mem_cons.mpr ⟨.character hc hslash hclose hopen, hparts⟩, rfl⟩
  | @inside c _ hc hslash hclose _ ih =>
      obtain ⟨cs, parts, hcs, hparts, rfl⟩ := ih
      exact ⟨[c] :: cs, parts, List.forall_mem_cons.mpr ⟨.character hc hclose hslash, hcs⟩, hparts,
        rfl⟩

theorem IsBodyPart.ne_nil {part : Text} (h : IsBodyPart part) : part ≠ [] := by
  cases h <;> exact List.cons_ne_nil _ _

/-- The bodies are what may stand outside of classes, unless it is nothing. -/
theorem isRegexBody_iff {body : Text} : IsRegexBody body ↔ body ≠ [] ∧ PatternRest false body := by
  constructor
  · rintro ⟨parts, hne, hparts, rfl⟩
    refine ⟨?_, .of_bodyParts hparts⟩
    cases parts with
    | nil => exact absurd rfl hne
    | cons part parts =>
        rw [List.flatten_cons]
        exact List.append_ne_nil_of_left_ne_nil (hparts part List.mem_cons_self).ne_nil _
  · rintro ⟨hne, hbody⟩
    obtain ⟨parts, hparts, rfl⟩ := hbody.exists_parts
    refine ⟨parts, ?_, hparts, rfl⟩
    rintro rfl
    exact hne rfl

/-! ## Decompositions -/

/-- What a state admits does not go on in front of a slash. -/
theorem PatternRest.not_slash {inClass : Bool} {t r : Text} (h : PatternRest inClass t) :
    ¬PatternRest inClass (t ++ '/' :: r) := by
  induction h with
  | stop =>
      intro h
      cases h with
      | outside _ _ _ hslash => exact hslash rfl
  | escape _ _ ih =>
      intro h
      rw [List.cons_append, List.cons_append] at h
      cases h with
      | escape _ h => exact ih h
      | outside _ hslash => exact hslash rfl
      | inside _ hslash => exact hslash rfl
  | openClass _ ih =>
      intro h
      rw [List.cons_append] at h
      generalize _ ++ '/' :: r = u at ih h
      cases h with
      | openClass h => exact ih h
      | outside _ _ hopen => exact hopen rfl
  | closeClass _ ih =>
      intro h
      rw [List.cons_append] at h
      generalize _ ++ '/' :: r = u at ih h
      cases h with
      | closeClass h => exact ih h
      | inside _ _ hclose => exact hclose rfl
  | outside _ hslash hopen _ _ ih =>
      intro h
      rw [List.cons_append] at h
      generalize _ ++ '/' :: r = u at ih h
      cases h with
      | escape => exact hslash rfl
      | openClass => exact hopen rfl
      | outside _ _ _ _ h => exact ih h
  | inside _ hslash hclose _ ih =>
      intro h
      rw [List.cons_append] at h
      generalize _ ++ '/' :: r = u at ih h
      cases h with
      | escape => exact hslash rfl
      | closeClass => exact hclose rfl
      | inside _ _ _ h => exact ih h

/-- A body in front of a slash is the longest one there. -/
theorem IsRegexBody.longest {body body' t r : Text} (h : IsRegexBody body) (h' : IsRegexBody body')
    (ht : t = body ++ '/' :: r) (hstart : body' <+: t) : body' <+: body := by
  obtain hle | ⟨u, rfl⟩ := List.prefix_or_prefix_of_prefix hstart ⟨_, ht.symm⟩
  · exact hle
  · rw [ht, List.prefix_append_right_inj] at hstart
    cases u with
    | nil => exact ⟨[], by simp⟩
    | cons c u =>
        obtain ⟨rfl, -⟩ := List.cons_prefix_cons.mp hstart
        exact absurd (isRegexBody_iff.mp h').2 (isRegexBody_iff.mp h).2.not_slash

/-- There is only one body with a slash behind it. -/
theorem IsRegexBody.unique {body body' t : Text} (h : IsRegexBody body) (h' : IsRegexBody body')
    (ht : body ++ ['/'] <+: t) (ht' : body' ++ ['/'] <+: t) : body' = body := by
  obtain ⟨r, hr⟩ := ht
  obtain ⟨r', hr'⟩ := ht'
  rw [List.append_assoc, List.singleton_append] at hr hr'
  exact (h.longest h' hr.symm ⟨_, hr'⟩).eq_of_length_le
    (h'.longest h hr'.symm ⟨_, hr⟩).length_le

/-! ## The scanner -/

/-- The scanner takes only what the states admit. -/
theorem patternRest_of_regexRest? {inClass : Bool} {t body : Text}
    (h : regexRest? inClass t = some body) : PatternRest inClass body := by
  fun_induction regexRest? inClass t generalizing body with
  | case1 => cases h
  | case2 => cases h
  | case3 => cases h
  | case4 inClass c t hc ih =>
      obtain ⟨body, hbody, rfl⟩ := Option.map_eq_some_iff.mp h
      exact .escape (Bool.eq_false_iff.mpr hc) (ih hbody)
  | case5 => cases h
  | case6 inClass c t _ _ _ hc =>
      cases h
      obtain rfl : inClass = false := by simpa using (Bool.and_eq_true_iff.mp hc).2
      exact .stop
  | case7 inClass c t hlast hescape hl hc ih =>
      obtain ⟨body, hbody, rfl⟩ := Option.map_eq_some_iff.mp h
      have hline := Bool.eq_false_iff.mpr hl
      have hslash : c ≠ '\\' := fun hc => by
        cases t with
        | nil => exact hlast hc rfl
        | cons d t => exact hescape d t hc rfl
      have ih := ih hbody
      cases inClass with
      | false =>
          by_cases hopen : c = '['
          · subst hopen
            exact .openClass ih
          · have hclose : c ≠ '/' := by simpa using hc
            rw [decide_eq_false hopen] at ih
            exact .outside hline hslash hopen hclose ih
      | true =>
          by_cases hclose : c = ']'
          · subst hclose
            exact .closeClass ih
          · have hin : (decide (c = '[') || true && c != ']') = true := by simp [hclose]
            rw [hin] at ih
            exact .inside hline hslash hclose ih

/-- What stands in a source from a token on. -/
def Token.ahead (source : Text) (t : Token) : Text := source.dropBytes t.place.offset

/-- A body stands between a slash at the head of a text and another one. -/
def HasRegex (body t : Text) : Prop := IsRegexBody body ∧ '/' :: body ++ ['/'] <+: t

/-- The literal of a body: it goes on with the identifier characters behind the second slash. -/
def literalOf (body t : Text) : Text :=
  '/' :: body ++ '/' :: (t.drop (body.length + 2)).takeWhile isIdentifierPart

theorem hasRegex_cons {body t : Text} :
    HasRegex body ('/' :: t) ↔ IsRegexBody body ∧ body ++ ['/'] <+: t := by
  rw [HasRegex, List.cons_append, List.cons_prefix_cons, and_iff_right rfl]

theorem literalOf_append (body rest : Text) : literalOf body ('/' :: (body ++ '/' :: rest)) =
    '/' :: body ++ '/' :: rest.takeWhile isIdentifierPart := by
  have hsplit : '/' :: (body ++ '/' :: rest) = ('/' :: body ++ ['/']) ++ rest := by simp
  have hlength : ('/' :: body ++ ['/']).length = body.length + 2 := by simp
  rw [literalOf, hsplit, List.drop_left' hlength]

/-- The scanner finds the literal of a body, and none if there is none. -/
theorem regexLiteral?_iff {t w : Text} : regexLiteral? t = some w ↔
    ∃ body, HasRegex body ('/' :: t) ∧ w = literalOf body ('/' :: t) := by
  simp only [hasRegex_cons]
  rw [regexLiteral?_eq_some_iff]
  constructor
  · rintro ⟨c, pattern, flags, r, rfl, rfl, hu, hflags, hr⟩
    refine ⟨c :: pattern, ⟨isRegexBody_iff.mpr ⟨List.cons_ne_nil _ _, ?_⟩, flags ++ r, ?_⟩, ?_⟩
    · exact patternRest_of_regexRest? (hu [])
    · rw [List.append_assoc, List.singleton_append]
    · rw [literalOf_append, takeWhile_append_eq hflags hr]
  · rintro ⟨body, ⟨hbody, rest, rfl⟩, rfl⟩
    obtain ⟨hne, hpattern⟩ := isRegexBody_iff.mp hbody
    obtain ⟨c, pattern, rfl⟩ := List.exists_cons_of_ne_nil hne
    obtain ⟨r, hr, hflags, hend⟩ := word_split rest
    rw [List.append_assoc, List.singleton_append, literalOf_append]
    refine ⟨c, pattern, word rest, r, rfl, ?_, hpattern.regexRest?, hflags, hend⟩
    rw [← hr]

namespace Scanner

/-- A slash that was returned last is read again as a regular expression exactly if a body stands
between it and another slash.  The body is the only one and the longest, the literal ends with the
longest run of identifier characters behind it, and the scanner goes on there.  Otherwise what is
left of the line is at fault, and the scanner stays as it is. -/
theorem regex_rescanned {source : Text} {slash : Token} {s : Scanner}
    (h : Reached source (some slash) s) (hk : Parser.opensRegex slash.kind) :
    ((∃ t s', (rescan slash).run s = .ok t s') ↔ ∃ body, HasRegex body (slash.ahead source)) ∧
    (∀ body, HasRegex body (slash.ahead source) →
      (∀ other, HasRegex other (slash.ahead source) → other = body) ∧
      (∀ other, IsRegexBody other → '/' :: other <+: slash.ahead source → other <+: body) ∧
      (rescan slash).run s =
        .ok { slash with kind := .regex, text := literalOf body (slash.ahead source) }
          { s with
            rest := source.dropBytes
              (slash.place.offset + (literalOf body (slash.ahead source)).size)
            place := slash.place.along (literalOf body (slash.ahead source)) }) ∧
    ((¬∃ body, HasRegex body (slash.ahead source)) →
      (rescan slash).run s = .error ⟨.lexical .unterminatedRegex
        ((slash.ahead source).takeWhile (!isLineTerminator ·)), slash.place⟩ s) := by
  obtain ⟨rfl, -, hlast⟩ := h.returned
  have hslash := hlast slash rfl
  obtain ⟨after, hafter, hrun⟩ := rescan_returned hslash hk
  have hahead : slash.ahead s.source = '/' :: after := by
    rw [Token.ahead, hslash.source_eq, hafter]
  rw [hahead]
  have hsome : ∀ body, HasRegex body ('/' :: after) → (rescan slash).run s =
      .ok { slash with kind := .regex, text := literalOf body ('/' :: after) }
        { s with
          rest := s.source.dropBytes (slash.place.offset + (literalOf body ('/' :: after)).size)
          place := slash.place.along (literalOf body ('/' :: after)) } := by
    intro body hbody
    rw [regexLiteral?_iff.mpr ⟨body, hbody, rfl⟩] at hrun
    have hrest : s.source.dropBytes
        (slash.place.offset + (literalOf body ('/' :: after)).size) = _ :=
      (returned_rescan hslash hk hrun).2.rest_eq
    rw [hrun, hrest]
  have hnone : (¬∃ body, HasRegex body ('/' :: after)) → (rescan slash).run s =
      .error ⟨.lexical .unterminatedRegex
        (('/' :: after).takeWhile (!isLineTerminator ·)), slash.place⟩ s := by
    intro hbody
    have hregex : regexLiteral? after = none := Option.eq_none_iff_forall_ne_some.mpr fun w hw => by
      obtain ⟨body, h, -⟩ := regexLiteral?_iff.mp hw
      exact hbody ⟨body, h⟩
    rw [hrun, hregex]
  refine ⟨⟨fun ⟨t, s', hok⟩ => ?_, fun ⟨body, hbody⟩ => ⟨_, _, hsome body hbody⟩⟩,
    fun body hbody => ⟨fun other hother => ?_, fun other hother hstart => ?_, hsome body hbody⟩,
    hnone⟩
  · refine Classical.not_not.mp fun hbody => ?_
    rw [hnone hbody] at hok
    cases hok
  · rw [hasRegex_cons] at hbody hother
    exact hbody.1.unique hother.1 hbody.2 hother.2
  · obtain ⟨hregex, rest, rfl⟩ := hasRegex_cons.mp hbody
    have hsplit : body ++ ['/'] ++ rest = body ++ '/' :: rest := List.append_cons .. |>.symm
    exact hregex.longest hother hsplit (List.cons_prefix_cons.mp hstart).2

/-- The first token here is a slash with an equals sign, and both belong to the literal.  There are
slashes in a class and behind a backslash. -/
theorem regex_rescanned_class : ∃ slash s s',
    Reached "/=[/\\]]\\//gi.x".toList (some slash) s ∧ slash.kind = .slashEquals ∧
      (rescan slash).run s =
        .ok { slash with kind := .regex, text := "/=[/\\]]\\//gi".toList } s' ∧
      s'.rest = ".x".toList := by
  obtain ⟨s, hrun⟩ : ∃ s, next.run (ofText "/=[/\\]]\\//gi.x".toList) =
      .ok ⟨.slashEquals, "/=".toList, Place.start, false⟩ s := exists_run (by decide +kernel)
  have hreached := Reached.start.next hrun
  have hparts : ∀ part ∈ ["=".toList, '[' :: ["/".toList, "\\]".toList].flatten ++ [']'],
      "\\/".toList], IsBodyPart part := by
    have hclass : ∀ part ∈ ["/".toList, "\\]".toList], IsClassPart part := by
      simpa using ⟨.character (by decide) (by decide) (by decide), .escape (by decide)⟩
    simpa using ⟨.character (by decide) (by decide) (by decide) (by decide), .group hclass,
      .escape (by decide)⟩
  have hregex : HasRegex "=[/\\]]\\/".toList "/=[/\\]]\\//gi.x".toList :=
    ⟨⟨_, by simp, hparts, rfl⟩, "gi.x".toList, rfl⟩
  obtain ⟨-, hliteral, -⟩ := regex_rescanned hreached rfl
  exact ⟨_, s, _, hreached, rfl, (hliteral _ hregex).2.2, rfl⟩

end Scanner

end EcmaSyntax
