import EcmaSyntax.Proofs.Coherence
import EcmaSyntax.Proofs.Reruns
import EcmaSyntax.Report

/-!
# What the label of a report covers

**Failures.**  A source locates a failure if the failure was found behind a part of the source and
its text comes next there.  A failure is bare if it is about something that has no text: the end
of the input, an inserted semicolon, or a limit.

**Spans.**  The span of a report is found by counting characters, once for the offset of the
failure and once for the end of its text, and both counts are bounded by the source.

**Results.**
* `Parser.Lockstep.fares`: a parser keeps to the source, or the source locates its failure; by
  induction over its steps.
* `located_of_error`: whatever a run fails at stands in the source, and only bare failures have no
  text.
* `label_covers`: the span holds the text of the failure, or else one character where it was found.
-/

namespace EcmaSyntax

/-! ## Failures in a source -/

/-- Failures without a text: nothing stands where the input ends, where a semicolon was inserted, or
where a rule would nest too deep. -/
def Failure.isBare (f : Failure) : Bool :=
  match f.cause with
  | .unexpected .endOfInput _ => true
  | .unexpected .insertedSemicolon _ => true
  | .tooDeep _ => true
  | _ => false

/-- A failure was found behind a part of a source, in front of its text. -/
structure Source.Locates (source : Source) (f : Failure) : Prop where
  split : ∃ before rest, source.content = before ++ (f.text ++ rest) ∧
    f.place.offset = before.size
  bare : f.text = [] → f.isBare

namespace Scanner

variable {source : Source} {before : Text} {s s' : Scanner} {f : Failure}

/-- A fault stands behind what the scanner has read. -/
theorem next_locates (h : s.Coherent source before) (hnext : next.run s = .error f s') :
    source.Locates f := by
  obtain ⟨p, hp, hs⟩ | ⟨p, hp, hs⟩ := s.next_cases
  · rw [next_of_valid hp hs] at hnext
    cases hnext
  · rw [next_of_fault hp hs] at hnext
    cases hnext
    have hgap := h.behind hs hp.fits
    refine ⟨⟨before ++ p.gap.text, p.rest, ?_, ?_⟩, fun hnil => ?_⟩
    · rw [hgap.split, rest_behind]
      exact congrArg (before ++ p.gap.text ++ ·) (List.append_assoc ..).symm
    · have hplace : s.place.past p.gap.text = Place.start.past (before ++ p.gap.text) := hgap.place
      show (s.place.past p.gap.text).offset = _
      rw [hplace, Place.offset_past]
      exact Nat.zero_add _
    · exact absurd (List.append_eq_nil_iff.mp hnil).1 hp.fault.read_ne_nil

/-- What cannot be read again stands where the slash does. -/
theorem rescan_locates {slash : Token} (h : s.HasRead source before slash)
    (hk : Parser.opensRegex slash.kind) (hrescan : (rescan slash).run s = .error f s') :
    source.Locates f := by
  have hoffset : slash.place.offset = before.size := by
    rw [h.place, Place.offset_past]
    exact Nat.zero_add _
  have htracks : s.Tracks (before ++ slash.text) := by
    refine ⟨h.coherent.source_eq.trans h.coherent.split, ?_⟩
    rw [h.coherent.place, Place.offset_past]
    exact Nat.zero_add _
  obtain ⟨body, r, s₁, -, -, hrun, -⟩ | ⟨text, unread, hsplit, hne, hrun⟩ :=
    rescan_cases slash htracks (h.slash hk).1 hoffset
  · rw [hrun] at hrescan
    cases hrescan
  · rw [hrun] at hrescan
    cases hrescan
    refine ⟨⟨before, unread, ?_, hoffset⟩, fun hnil => absurd hnil hne⟩
    rw [h.coherent.split, List.append_assoc, hsplit]
    rfl

end Scanner

namespace Parser

variable {source : Source} {before : Text} {s : ParserState} {α β : Type}

/-- How a parser fares: it keeps to the source, or the source locates its failure. -/
inductive Fares (source : Source) : EStateM.Result Failure ParserState α → Prop
  | ok {before : Text} {a : α} {s : ParserState} : Coherent source before s →
      Fares source (.ok a s)
  | error {f : Failure} {s : ParserState} : source.Locates f → Fares source (.error f s)

theorem Fares.bind {p : Parser α} {f : α → Parser β} (hp : Fares source (p.run s))
    (hf : ∀ a before s', Coherent source before s' → Fares source ((f a).run s')) :
    Fares source ((p >>= f).run s) := by
  rw [EStateM.run_bind]
  cases hrun : p.run s with
  | ok a s' =>
      rw [hrun] at hp
      cases hp with
      | ok hs => exact hf a _ s' hs
  | error e s' =>
      rw [hrun] at hp
      cases hp with
      | error he => exact .error he

/-! ## Steps -/

/-- What stands at hand stands behind the text that was read. -/
theorem Coherent.split (h : Coherent source before s) :
    ∃ rest, source.content = before ++ (s.current.text ++ rest) := by
  obtain ⟨t, hread, ⟨ht, -⟩ | ⟨ht, -⟩⟩ := h
  · exact ⟨_, by rw [ht, hread.coherent.split, List.append_assoc]⟩
  · exact ⟨_, by rw [ht, hread.coherent.split, List.append_assoc]; rfl⟩

/-- Of the tokens at hand only the end of the input and inserted semicolons have no text. -/
theorem Coherent.bare (h : Coherent source before s) (hnil : s.current.text = []) :
    s.current.kind = .endOfInput ∨ s.current.kind = .insertedSemicolon := by
  obtain ⟨t, hread, ⟨rfl, -⟩ | ⟨ht, -⟩⟩ := h
  · exact .inl (Classical.not_not.mp fun hk => hread.text_ne_nil hk hnil)
  · exact .inr (congrArg Token.kind ht)

/-- A failure at the token at hand is located, if it is bare where the token has no text. -/
theorem Coherent.locates {f : Failure} (h : Coherent source before s)
    (hplace : f.place = s.current.place) (htext : f.text = s.current.text ∨ f.text = [])
    (hbare : f.text = [] → f.isBare) : source.Locates f := by
  obtain ⟨rest, hsplit⟩ := h.split
  refine ⟨?_, hbare⟩
  rw [hplace, h.offset]
  obtain htext | htext := htext
  · exact ⟨before, rest, by rw [htext, hsplit], rfl⟩
  · exact ⟨before, s.current.text ++ rest, by rw [htext, hsplit]; rfl, rfl⟩

theorem unexpected_locates (h : Coherent source before s) :
    source.Locates (.ofToken s.current) := by
  refine h.locates rfl (.inl rfl) fun hnil => ?_
  obtain hk | hk := h.bare hnil
  · simp [Failure.isBare, Failure.ofToken, hk]
  · simp [Failure.isBare, Failure.ofToken, hk]

theorem take_fares (h : Coherent source before s) : Fares source (take.run s) := by
  have htake := take_coherent h
  cases hrun : take.run s with
  | ok t s' =>
      rw [hrun] at htake
      obtain ⟨-, -, gap, hs', -⟩ := htake
      exact .ok hs'
  | error f s' =>
      obtain ⟨t, hread, -⟩ := h
      obtain ⟨stream, hnext, -⟩ := run_take_error.mp hrun
      obtain ⟨-, sc, hscan, -⟩ := TokenStream.run_next_failed hnext
      exact .error (Scanner.next_locates hread.coherent hscan)

theorem endStatement_fares (h : Coherent source before s) : Fares source (endStatement.run s) := by
  rw [run_endStatement]
  split
  · have htake := take_fares h.atSemicolon
    generalize take.run (atSemicolon s) = result at htake
    cases htake with
    | ok hs => exact .ok hs
    | error hf => exact .error hf
  · exact .error (unexpected_locates h)

theorem regex_fares (h : Coherent source before s) (hk : opensRegex s.current.kind) :
    Fares source ((regex s.current).run s) := by
  rw [run_regex]
  obtain ⟨t, hread, ⟨rfl, hrequeued⟩ | ⟨hcurrent, -⟩⟩ := h
  · have hrescan := Scanner.rescan_coherent hread hk
    cases hscan : (Scanner.rescan s.current).run s.stream.scanner with
    | ok literal sc =>
        rw [hscan] at hrescan
        have hliteral : Coherent source before (atLiteral s literal sc) :=
          ⟨literal, hrescan.1, .inl ⟨rfl, hrequeued⟩⟩
        exact (take_fares hliteral).bind fun _ _ _ hs' => .ok hs'
    | error f sc => exact .error (Scanner.rescan_locates hread hk hscan)
  · rw [hcurrent] at hk
    cases hk

theorem pendingComments_fares (h : Coherent source before s) :
    Fares source (pendingComments.run s) := by
  have hcomments := pendingComments_coherent h
  rw [run_pendingComments] at hcomments ⊢
  obtain ⟨-, gap, hs'⟩ := hcomments
  exact .ok hs'

/-! ## Parsers -/

/-- Parsers fare in this way if the rules inside them do. -/
theorem Lockstep.fares {inner inner' : Inner} {credit : Nat} {known : Option Token}
    {p p' : Parser α} (h : Lockstep inner inner' credit known p p')
    (hinner : ∀ (r : Rule) before s, Coherent source before s → Fares source ((inner r).run s))
    (hs : Coherent source before s) (hknown : ∀ t ∈ known, s.current = t) :
    Fares source (p.run s) := by
  induction h generalizing s before with
  | pure a => exact .ok hs
  | bind _ _ ihp ihf => exact (ihp hs hknown).bind fun a _ s' hs' => ihf a hs' (fun _ => nofun)
  | unexpected => exact .error (unexpected_locates hs)
  | look _ ih => exact ih s.current s.lastEnd hs fun t ht => Option.some.inj ht
  | take _ _ ih =>
      obtain rfl := hknown _ rfl
      have htake := take_fares hs
      rw [EStateM.run_bind]
      cases hrun : Parser.take.run s with
      | ok t s' =>
          obtain rfl := (run_take_ok.mp hrun).1
          rw [hrun] at htake
          cases htake with
          | ok hs' => exact ih hs' (fun _ => nofun)
      | error f s' =>
          rw [hrun] at htake
          cases htake with
          | error hf => exact .error hf
  | regex hk =>
      obtain rfl := hknown _ rfl
      exact regex_fares hs hk
  | badNumber hk =>
      obtain rfl := hknown _ rfl
      refine .error (hs.locates rfl (.inl rfl) fun hnil => ?_)
      obtain hbare | hbare := hs.bare hnil <;> rw [hk] at hbare <;> cases hbare
  | endStatement => exact endStatement_fares hs
  | pendingComments => exact pendingComments_fares hs
  | inner r => exact hinner r _ s hs

/-- The rules of the grammar fare in this way, whatever room there is. -/
theorem rule_fares (turns room : Nat) (r : Rule) (h : Coherent source before s) :
    Fares source ((rule turns room r).run s) := by
  induction room generalizing r s before with
  | zero => exact .error (h.locates rfl (.inr rfl) fun _ => rfl)
  | succ room ih =>
      have hlockstep : Lockstep (rule turns room) (rule turns room) (r.weight - 1) none
          (ruleBody (rule turns room) turns r) (ruleBody (rule turns room) turns r) :=
        lockstep_ruleBody r
      have hbody :=
        hlockstep.fares (fun r _ s hs => ih r hs) (h.atDepth (s.depth + 1)) (fun _ => nofun)
      show Fares source ((deepen (ruleBody (rule turns room) turns r)).run s)
      rw [run_deepen]
      generalize (ruleBody (rule turns room) turns r).run (atDepth s (s.depth + 1)) = result
        at hbody
      cases hbody with
      | ok hs => exact .ok (hs.atDepth _)
      | error hf => exact .error hf

/-- How a run on a whole text fares. -/
theorem run_fares (source : Source) (limit : Nat) :
    Fares source (EcmaSyntax.run limit source.content) := by
  have htake := take_fares (coherent_ofText source)
  rw [run_eq]
  cases hrun : take.run (ParserState.ofText source.content) with
  | error f s =>
      rw [hrun] at htake
      cases htake with
      | error hf => exact .error hf
  | ok t s =>
      rw [hrun] at htake
      cases htake with
      | ok hs =>
          have hlockstep : Lockstep (rule (source.content.length + 3) limit)
              (rule (source.content.length + 3) limit) fullCredit none
              (programElements limit source.content) (programElements limit source.content) :=
            lockstep_program limit limit source.content
          have helements :=
            hlockstep.fares (fun r _ s hs => rule_fares _ _ r hs) hs (fun _ => nofun)
          dsimp only
          generalize (programElements limit source.content).run s = result at helements
          cases helements with
          | ok hs' =>
              obtain ⟨t', hread, hhand⟩ := hs'
              exact .ok ⟨t', hread, hhand⟩
          | error hf => exact .error hf

end Parser

/-- Whatever a run fails at stands in the source. -/
theorem located_of_error {source : Source} {limit : Nat} {f : Failure}
    (h : parse limit source.content = .error f) : source.Locates f := by
  obtain ⟨s, hrun⟩ := parse_eq_error_iff.mp h
  have hfares := Parser.run_fares source limit
  rw [hrun] at hfares
  cases hfares with
  | error hf => exact hf

/-- There is nothing to fail at in an empty text. -/
theorem ne_nil_of_error {limit : Nat} {source : Text} {f : Failure}
    (h : parse limit source = .error f) : source ≠ [] := by
  rintro rfl
  obtain ⟨s, hrun, -⟩ := Parser.Finished.program (s := ParserState.ofText []) limit
    ⟨Parser.restarts_ofText [], rfl, rfl⟩
  change outcome ((Parser.program limit).run (ParserState.ofText [])) = _ at h
  rw [hrun] at h
  cases h

/-! ## Spans -/

namespace Report

variable {content before rest : Text} {f : Failure}

/-- The characters under the label. -/
def labelled (content : Text) (f : Failure) : Text :=
  (content.drop (spanStart content f)).take (spanStop content f - spanStart content f)

theorem charIndex_append (before rest : Text) (n : Nat) :
    charIndex (before ++ rest) (before.size + n) = before.length + charIndex rest n := by
  unfold charIndex
  rw [Text.takeBytes_size_append, List.length_append]

theorem charIndex_zero (content : Text) : charIndex content 0 = 0 := by
  unfold charIndex
  rw [Text.takeBytes_zero]
  rfl

theorem charIndex_one_le (content : Text) : charIndex content 1 ≤ 1 := by
  unfold charIndex
  cases content with
  | nil => exact Nat.zero_le _
  | cons c t =>
      have hpos := c.utf8Size_pos
      unfold Text.takeBytes
      split
      · have hone : 1 - c.utf8Size = 0 := by omega
        rw [hone, Text.takeBytes_zero]
        exact Nat.le_refl 1
      · exact Nat.zero_le _

/-- The span of a failure with a text is that of the text. -/
theorem span_of_text (hsplit : content = before ++ (f.text ++ rest))
    (hoffset : f.place.offset = before.size) (hne : f.text ≠ []) :
    spanStart content f = before.length ∧
      spanStop content f = before.length + f.text.length := by
  have hpos : 0 < f.text.length := List.length_pos_iff.mpr hne
  have hsize : f.size = f.text.size := Nat.max_eq_left (Text.size_pos hne)
  have hlength : content.length = before.length + (f.text.length + rest.length) := by
    rw [hsplit, List.length_append, List.length_append]
  have hfirst : charIndex content f.place.offset = before.length := by
    have := charIndex_append before (f.text ++ rest) 0
    rwa [Nat.add_zero, charIndex_zero, ← hsplit, ← hoffset] at this
  have hlast : charIndex content (f.place.offset + f.size) = before.length + f.text.length := by
    have := charIndex_append (before ++ f.text) rest 0
    rwa [Nat.add_zero, charIndex_zero, List.append_assoc, ← hsplit, Text.size_append, ← hoffset,
      ← hsize, List.length_append] at this
  have hstart : spanStart content f = before.length := by
    unfold spanStart
    omega
  refine ⟨hstart, ?_⟩
  unfold spanStop
  rw [hstart, hlast]
  dsimp only
  omega

/-- The span of a failure without a text is one character. -/
theorem span_of_no_text (hsplit : content = before ++ rest) (hoffset : f.place.offset = before.size)
    (hcontent : content ≠ []) (hnil : f.text = []) :
    spanStart content f = min before.length (content.length - 1) ∧
      spanStop content f = spanStart content f + 1 := by
  have hpos : 0 < content.length := List.length_pos_iff.mpr hcontent
  have hsize : f.size = 1 := by
    unfold Failure.size
    rw [hnil]
    rfl
  have hfirst : charIndex content f.place.offset = before.length := by
    have := charIndex_append before rest 0
    rwa [Nat.add_zero, charIndex_zero, ← hsplit, ← hoffset] at this
  have hlast : charIndex content (f.place.offset + f.size) ≤ before.length + 1 := by
    have := charIndex_append before rest 1
    have hone := charIndex_one_le rest
    rw [← hsplit, ← hoffset] at this
    rw [hsize, this]
    omega
  have hstart : spanStart content f = min before.length (content.length - 1) := by
    unfold spanStart
    rw [hfirst]
  have hle : before.length ≤ content.length := by
    rw [hsplit, List.length_append]
    omega
  refine ⟨hstart, ?_⟩
  unfold spanStop
  rw [hstart]
  dsimp only
  omega

/-- The characters before the span take up the bytes before the failure, and the characters under
the label are its text. -/
theorem labelled_of_text (hsplit : content = before ++ (f.text ++ rest))
    (hoffset : f.place.offset = before.size) (hne : f.text ≠ []) :
    labelled content f = f.text ∧
      Text.size (content.take (spanStart content f)) = f.place.offset := by
  obtain ⟨hstart, hstop⟩ := span_of_text hsplit hoffset hne
  unfold labelled
  rw [hstart, hstop, Nat.add_sub_cancel_left, hsplit, hoffset, List.drop_left, List.take_left,
    List.take_left]
  exact ⟨rfl, rfl⟩

/-- The one character that is pointed at is the first one at the offset of the failure, or the last
one of all. -/
theorem start_of_no_text (hsplit : content = before ++ rest)
    (hoffset : f.place.offset = before.size) (hcontent : content ≠ []) (hnil : f.text = []) :
    if f.place.offset < content.size then
      Text.size (content.take (spanStart content f)) = f.place.offset
    else f.place.offset = content.size ∧ spanStop content f = content.length := by
  obtain ⟨hstart, hstop⟩ := span_of_no_text hsplit hoffset hcontent hnil
  have hlength : content.length = before.length + rest.length := by
    rw [hsplit, List.length_append]
  have hsize : content.size = before.size + rest.size := by rw [hsplit, Text.size_append]
  have hpos : 0 < content.length := List.length_pos_iff.mpr hcontent
  cases rest with
  | nil =>
      have hend : f.place.offset = content.size := hoffset.trans hsize.symm
      rw [if_neg (Nat.not_lt_of_le (Nat.le_of_eq hend.symm))]
      refine ⟨hend, ?_⟩
      rw [List.length_nil] at hlength
      omega
  | cons c rest =>
      have hmore := c.utf8Size_pos
      rw [Text.size_cons] at hsize
      rw [List.length_cons] at hlength
      have hbefore : spanStart content f = before.length := by omega
      rw [if_pos (by omega), hbefore, hsplit, List.take_left, hoffset]

end Report

/-- The label of a report covers a part of the source that is not empty.  It is the text of the
failure, at the offset where that was found.  Of a failure without a text, which is about the end of
the input, an inserted semicolon or a limit, it is the first character at the offset, or the last
one of the source if there is none. -/
theorem label_covers (source : Source) {limit : Nat} {f : Failure}
    (h : parse limit source.content = .error f) :
    Report.spanStart source.content f < Report.spanStop source.content f ∧
      Report.spanStop source.content f ≤ source.content.length ∧
      (f.text ≠ [] →
        Report.labelled source.content f = f.text ∧
          Text.size (source.content.take (Report.spanStart source.content f)) = f.place.offset) ∧
      (f.text = [] →
        f.isBare ∧ Report.spanStop source.content f = Report.spanStart source.content f + 1 ∧
          if f.place.offset < source.content.size then
            Text.size (source.content.take (Report.spanStart source.content f)) = f.place.offset
          else f.place.offset = source.content.size ∧
            Report.spanStop source.content f = source.content.length) := by
  have hcontent := ne_nil_of_error h
  have hpos := List.length_pos_iff.mpr hcontent
  obtain ⟨⟨before, rest, hsplit, hoffset⟩, hbare⟩ := located_of_error h
  have hlength : source.content.length = before.length + (f.text.length + rest.length) := by
    rw [hsplit, List.length_append, List.length_append]
  by_cases hnil : f.text = []
  · have hsplit' : source.content = before ++ rest := by rw [hsplit, hnil, List.nil_append]
    obtain ⟨hstart, hstop⟩ := Report.span_of_no_text hsplit' hoffset hcontent hnil
    exact ⟨by omega, by omega, fun hne => absurd hnil hne, fun _ =>
      ⟨hbare hnil, hstop, Report.start_of_no_text hsplit' hoffset hcontent hnil⟩⟩
  · obtain ⟨hstart, hstop⟩ := Report.span_of_text hsplit hoffset hnil
    have htext := List.length_pos_iff.mpr hnil
    exact ⟨by omega, by omega, fun _ => Report.labelled_of_text hsplit hoffset hnil,
      fun h => absurd h hnil⟩

/-- A string that is not closed, behind a character of two bytes. -/
theorem label_covers_string : ∃ f, parse 256 "x = 'é' 'ü".toList = .error f ∧
    Report.labelled "x = 'é' 'ü".toList f = ['\'', 'ü'] ∧
      Report.spanStop "x = 'é' 'ü".toList f ≤ 10 := by
  have htext : (failure? (parse 256 "x = 'é' 'ü".toList)).map (·.text) = some ['\'', 'ü'] := by
    decide +kernel
  obtain ⟨f, h, hf⟩ := exists_failure htext
  obtain ⟨-, hstop, htexted, -⟩ := label_covers (Source.anonymous "x = 'é' 'ü".toList) h
  have hne : f.text ≠ [] := by
    rw [hf]
    exact List.cons_ne_nil _ _
  exact ⟨f, h, (htexted hne).1.trans hf, hstop⟩

end EcmaSyntax
