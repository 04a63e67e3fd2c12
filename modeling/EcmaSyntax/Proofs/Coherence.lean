import EcmaSyntax.Proofs.Lockstep
import EcmaSyntax.Proofs.Positions

/-!
# Where a parser reads and fails

**Coherence.**  In a coherent state the token that was read last is at hand, or it comes after a
semicolon that was inserted in front of it, and the scanner stands behind it.

**Depth.**  The number of open rules is the same before and after each parser.  A limit affords a
parser if each byte that is left may open as many rules as the heaviest rule does, and the parser
as many as its credit says.

**Results.**
* `Lockstep.behaves`: a parser goes from a coherent state to a coherent state; if it fails, then at
  a place that has the position of its offset; and it nests too deep only behind the state that it
  started from, and never if the limit affords it.
* `positions_agree`: the positions that the scanner and the parser give are those of the offsets.
-/

namespace EcmaSyntax

theorem Text.size_pos {t : Text} (h : t ≠ []) : 0 < t.size := by
  obtain ⟨c, u, rfl⟩ := List.exists_cons_of_ne_nil h
  have := c.utf8Size_pos
  rw [Text.size_cons]
  omega

namespace Parser

/-! ## Coherent states -/

/-- A token was read behind some text, and it is at hand or comes next. -/
structure Holding (source : Source) (before : Text) (t : Token) (s : ParserState) : Prop where
  read : s.stream.scanner.HasRead source before t
  hand : s.current = t ∧ s.stream.requeued = none ∨
    s.current = t.semicolonBefore ∧ s.stream.requeued = some t

/-- Some token was read behind a text, and it is at hand or comes next. -/
def Coherent (source : Source) (before : Text) (s : ParserState) : Prop :=
  ∃ t, Holding source before t s

theorem coherent_ofText (source : Source) :
    Coherent source [] (ParserState.ofText source.content) :=
  ⟨Token.beforeStart, ⟨Scanner.coherent_ofText source, rfl, nofun, fun h => absurd rfl h, nofun⟩,
    .inl ⟨rfl, rfl⟩⟩

variable {source : Source} {before : Text} {s : ParserState} {α β : Type}

namespace Coherent

/-- The token at hand stands behind the text. -/
theorem place (h : Coherent source before s) : s.current.place = Place.start.past before := by
  obtain ⟨t, hread, ⟨ht, -⟩ | ⟨ht, -⟩⟩ := h
  · rw [ht, hread.place]
  · rw [ht, ← hread.place]
    rfl

theorem offset (h : Coherent source before s) : s.current.place.offset = before.size := by
  rw [h.place, Place.offset_past]
  exact Nat.zero_add _

theorem holds (h : Coherent source before s) :
    source.Holds s.current.place s.current.text := by
  obtain ⟨t, hread, ⟨ht, -⟩ | ⟨ht, -⟩⟩ := h
  · rw [ht]
    exact hread.holds
  · rw [ht]
    show source.Holds t.place []
    rw [hread.place]
    have hsplit : source.content = before ++ ([] ++ (t.text ++ s.stream.scanner.rest)) := by
      rw [hread.coherent.split, List.append_assoc]
      rfl
    exact Source.holds_of_append hsplit

/-- The text is a part of the source, and so is a token at hand that has a text. -/
theorem size_le (h : Coherent source before s) : before.size ≤ source.content.size := by
  obtain ⟨t, hread, -⟩ := h
  rw [hread.coherent.split, Text.size_append, Text.size_append]
  omega

theorem atDepth (h : Coherent source before s) (n : Nat) :
    Coherent source before (Parser.atDepth s n) := by
  obtain ⟨t, hread, hhand⟩ := h
  exact ⟨t, hread, hhand⟩

end Coherent

/-! ## Steps -/

/-- What a parser that takes the token at hand leaves. -/
def TakesFrom (source : Source) (before : Text) (s : ParserState) :
    EStateM.Result Failure ParserState Token → Prop
  | .ok t s' => t = s.current ∧ s'.depth = s.depth ∧ ∃ gap, Coherent source (before ++ gap) s' ∧
      (isReal s.current.kind → before.size < Text.size (before ++ gap))
  | .error f _ => source.Refuses f

theorem take_coherent (h : Coherent source before s) : TakesFrom source before s (take.run s) := by
  obtain ⟨t, hread, ⟨hcurrent, hrequeued⟩ | ⟨hcurrent, hrequeued⟩⟩ := h
  · have hnext := Scanner.next_coherent hread.coherent
    rw [run_take]
    cases hscan : Scanner.next.run s.stream.scanner with
    | error f sc =>
        rw [hscan] at hnext
        rw [TokenStream.run_next_error hrequeued hscan]
        exact hnext
    | ok t' sc =>
        rw [hscan] at hnext
        obtain ⟨gap, ht'⟩ := hnext
        rw [TokenStream.run_next_scan hrequeued hscan]
        refine ⟨rfl, rfl, t.text ++ gap, ⟨t', ?_, ?_⟩, fun hk => ?_⟩
        · rw [← List.append_assoc]
          exact ht'
        · show TokenStream.delivered _ t' = t' ∧ TokenStream.kept _ t' = none ∨
            TokenStream.delivered _ t' = t'.semicolonBefore ∧ TokenStream.kept _ t' = some t'
          unfold TokenStream.delivered TokenStream.kept
          split
          · exact .inr ⟨rfl, rfl⟩
          · exact .inl ⟨rfl, rfl⟩
        · have hpos := Text.size_pos (hread.text_ne_nil fun hend => by
            rw [hcurrent, hend] at hk
            cases hk)
          simp only [Text.size_append]
          omega
  · rw [run_take, TokenStream.run_next_requeued hrequeued]
    refine ⟨rfl, rfl, [], ⟨t, ?_, .inl ⟨rfl, rfl⟩⟩, fun hk => ?_⟩
    · rw [List.append_nil]
      exact hread
    · rw [hcurrent] at hk
      cases hk

/-- A semicolon that is noted or inserted stands where the token at hand does. -/
theorem Coherent.atSemicolon (h : Coherent source before s) :
    Coherent source before (atSemicolon s) := by
  unfold Parser.atSemicolon
  split
  · obtain ⟨t, hread, hhand⟩ := h
    exact ⟨t, hread, hhand⟩
  · split
    · exact h
    · next hk =>
        obtain ⟨t, hread, ⟨hcurrent, -⟩ | ⟨hcurrent, -⟩⟩ := h
        · rw [hcurrent]
          exact ⟨t, hread, .inr ⟨rfl, rfl⟩⟩
        · rw [hcurrent] at hk
          exact absurd rfl hk

/-- What a parser leaves that may fail but does not nest too deep. -/
def StepsFrom (source : Source) (before : Text) (s : ParserState) :
    EStateM.Result Failure ParserState α → Prop
  | .ok _ s' => s'.depth = s.depth ∧ ∃ gap, Coherent source (before ++ gap) s'
  | .error f _ => source.Refuses f

theorem depth_atSemicolon (s : ParserState) : (atSemicolon s).depth = s.depth := by
  unfold atSemicolon
  split
  · rfl
  · split <;> rfl

theorem unexpected_refuses (h : Coherent source before s) :
    source.Refuses (.ofToken s.current) :=
  ⟨h.holds, fun _ => nofun⟩

theorem endStatement_coherent (h : Coherent source before s) :
    StepsFrom source before s (endStatement.run s) := by
  rw [run_endStatement]
  split
  · have htake := take_coherent h.atSemicolon
    cases hrun : take.run (atSemicolon s) with
    | ok t s' =>
        rw [hrun] at htake
        obtain ⟨-, hd, gap, hs, -⟩ := htake
        exact ⟨hd.trans (depth_atSemicolon s), gap, hs⟩
    | error f s' =>
        rw [hrun] at htake
        exact htake
  · exact unexpected_refuses h

/-- A slash that is read again is at hand as a regular expression. -/
theorem rescan_coherent (h : Coherent source before s) (hk : opensRegex s.current.kind) :
    match (step (TokenStream.rescan s.current)).run s with
      | .ok t s' => Coherent source before { s' with current := t } ∧ s'.depth = s.depth
      | .error f _ => source.Refuses f := by
  obtain ⟨t, hread, ⟨rfl, hrequeued⟩ | ⟨hcurrent, -⟩⟩ := h
  · have hrescan := Scanner.rescan_coherent hread hk
    rw [run_step, TokenStream.run_rescan_scan]
    cases hscan : (Scanner.rescan s.current).run s.stream.scanner with
    | ok t' sc =>
        rw [hscan] at hrescan
        exact ⟨⟨t', hrescan.1, .inl ⟨rfl, hrequeued⟩⟩, rfl⟩
    | error f sc =>
        rw [hscan] at hrescan
        exact hrescan
  · rw [hcurrent] at hk
    cases hk

theorem regex_coherent (h : Coherent source before s) (hk : opensRegex s.current.kind) :
    StepsFrom source before s ((regex s.current).run s) := by
  have hrescan := rescan_coherent h hk
  unfold regex
  rw [EStateM.run_bind]
  cases hstep : (step (TokenStream.rescan s.current)).run s with
  | error f s₁ =>
      rw [hstep] at hrescan
      exact hrescan
  | ok t s₁ =>
      rw [hstep] at hrescan
      obtain ⟨hs₁, hd⟩ := hrescan
      have htake := take_coherent hs₁
      show StepsFrom source before s ((take >>= fun _ =>
        pure (Expression.regex (regexParts t.text).1 (regexParts t.text).2)).run
          { s₁ with current := t })
      rw [EStateM.run_bind]
      cases hrun : take.run { s₁ with current := t } with
      | error f s₂ =>
          rw [hrun] at htake
          exact htake
      | ok t' s₂ =>
          rw [hrun] at htake
          obtain ⟨-, hd₂, gap, hs₂, -⟩ := htake
          exact ⟨hd₂.trans hd, gap, hs₂⟩

theorem pendingComments_coherent (h : Coherent source before s) :
    StepsFrom source before s (pendingComments.run s) := by
  rw [run_pendingComments]
  obtain ⟨t, ⟨hcoherent, hplace, hmarked, htext, hslash⟩, hhand⟩ := h
  refine ⟨rfl, [], t, ⟨?_, ?_, hmarked, htext, hslash⟩, hhand⟩
  · rw [List.append_nil]
    exact ⟨hcoherent.source_eq, hcoherent.split, hcoherent.place, hcoherent.whole⟩
  · rw [List.append_nil, hplace]

/-! ## Parsers -/

/-- A limit covers the rules that may be open in a parser with some credit. -/
def Affords (source : Source) (limit depth : Nat) (before : Text) (credit : Nat) : Prop :=
  depth + fullCredit * (source.content.size - before.size) + credit ≤ limit

/-- How a parser ends that starts behind some text, where `affords` tells that it has room
enough. -/
inductive Ends (source : Source) (limit depth : Nat) (before : Text) (affords : Prop) :
    EStateM.Result Failure ParserState α → Prop
  | ok {a : α} {s : ParserState} {gap : Text} :
      Coherent source (before ++ gap) s → s.depth = depth →
      Ends source limit depth before affords (.ok a s)
  | error {f : Failure} {s : ParserState} :
      source.Holds f.place f.text →
      (∀ n, f.cause = .tooDeep n → n = limit ∧ before.size ≤ f.place.offset ∧ ¬affords) →
      Ends source limit depth before affords (.error f s)

/-- How a parser with some credit ends, at any state with a number of open rules. -/
def Behaves (source : Source) (limit depth credit : Nat) (known : Option Token) (p : Parser α) :
    Prop :=
  ∀ s before, Coherent source before s → s.depth = depth → (∀ t ∈ known, s.current = t) →
    Ends source limit depth before (Affords source limit depth before credit) (p.run s)

variable {limit depth credit : Nat} {known : Option Token}

theorem Ends.imp {affords affords' : Prop} {result : EStateM.Result Failure ParserState α}
    (h : Ends source limit depth before affords' result) (ha : affords → affords') :
    Ends source limit depth before affords result := by
  cases h with
  | ok hs hd => exact .ok hs hd
  | error hf hdeep =>
      refine .error hf fun n hn => ?_
      obtain ⟨hlimit, hoffset, hnot⟩ := hdeep n hn
      exact ⟨hlimit, hoffset, fun h => hnot (ha h)⟩

theorem Ends.weaken {gap : Text} {affords affords' : Prop}
    {result : EStateM.Result Failure ParserState α}
    (h : Ends source limit depth (before ++ gap) affords' result) (ha : affords → affords') :
    Ends source limit depth before affords result := by
  cases h with
  | ok hs hd => exact .ok (List.append_assoc _ _ _ ▸ hs) hd
  | error hf hdeep =>
      refine .error hf fun n hn => ?_
      obtain ⟨hlimit, hoffset, hnot⟩ := hdeep n hn
      rw [Text.size_append] at hoffset
      exact ⟨hlimit, by omega, fun h => hnot (ha h)⟩

theorem StepsFrom.ends {affords : Prop} {result : EStateM.Result Failure ParserState α}
    (h : StepsFrom source before s result) :
    Ends source limit s.depth before affords result := by
  cases result with
  | ok a s' =>
      obtain ⟨hd, gap, hs⟩ := h
      exact .ok hs hd
  | error f s' => exact .error h.1 fun n hn => absurd hn (h.2 n)

/-- What the token at hand takes up earns full credit. -/
theorem Affords.taken {gap : Text} (h : Affords source limit depth before credit)
    (hlt : before.size < Text.size (before ++ gap))
    (hle : Text.size (before ++ gap) ≤ source.content.size) :
    Affords source limit depth (before ++ gap) fullCredit := by
  unfold Affords fullCredit at *
  omega

theorem Affords.mono {credit' : Nat} (h : Affords source limit depth before credit)
    (hle : credit' ≤ credit) : Affords source limit depth before credit' :=
  Nat.le_trans (Nat.add_le_add_left hle _) h

theorem Affords.append {gap : Text} (h : Affords source limit depth before credit) :
    Affords source limit depth (before ++ gap) credit := by
  unfold Affords fullCredit at *
  rw [Text.size_append]
  omega

/-- Parsers behave if the rules inside them do. -/
theorem Lockstep.behaves {inner inner' : Inner} {p p' : Parser α}
    (h : Lockstep inner inner' credit known p p')
    (hinner : ∀ r : Rule, Behaves source limit depth r.weight none (inner r)) :
    Behaves source limit depth credit known p := by
  induction h with
  | pure a =>
      intro s before hs hd _
      have hs' : Coherent source (before ++ []) s := by rwa [List.append_nil]
      exact .ok hs' hd
  | @bind credit known α β p p' f f' _ _ ihp ihf =>
      intro s before hs hd hknown
      have hp := ihp s before hs hd hknown
      rw [EStateM.run_bind]
      cases hrun : p.run s with
      | error f s₁ =>
          rw [hrun] at hp
          cases hp with
          | error hf hdeep => exact .error hf hdeep
      | ok a s₁ =>
          rw [hrun] at hp
          cases hp with
          | ok hs₁ hd₁ => exact (ihf a s₁ _ hs₁ hd₁ (fun _ => nofun)).weaken .append
  | unexpected =>
      intro s before hs hd _
      exact hd ▸ StepsFrom.ends (unexpected_refuses hs)
  | look _ ih =>
      intro s before hs hd _
      exact ih s.current s.lastEnd s before hs hd fun t ht => Option.some.inj ht
  | @take credit t α f f' ht _ ih =>
      intro s before hs hd hknown
      obtain rfl := hknown t rfl
      have htake := take_coherent hs
      rw [EStateM.run_bind]
      cases hrun : Parser.take.run s with
      | error f s₁ =>
          rw [hrun] at htake
          exact .error htake.1 fun n hn => absurd hn (htake.2 n)
      | ok t s₁ =>
          rw [hrun] at htake
          obtain ⟨rfl, hd₁, gap, hs₁, hlt⟩ := htake
          exact (ih s₁ _ hs₁ (hd₁.trans hd) (fun _ => nofun)).weaken
            fun h => h.taken (hlt ht) hs₁.size_le
  | @regex credit slash hk =>
      intro s before hs hd hknown
      obtain rfl := hknown slash rfl
      exact hd ▸ (regex_coherent hs hk).ends
  | @badNumber _ t =>
      intro s before hs hd hknown
      obtain rfl := hknown t rfl
      exact .error hs.holds (fun _ => nofun)
  | endStatement =>
      intro s before hs hd _
      exact hd ▸ (endStatement_coherent hs).ends
  | pendingComments =>
      intro s before hs hd _
      exact hd ▸ (pendingComments_coherent hs).ends
  | inner r hr =>
      intro s before hs hd _
      exact (hinner r s before hs hd (fun _ => nofun)).imp fun h => h.mono hr

/-! ## Rules -/

theorem Ends.deepen {affords : Prop} {p : Parser α}
    (h : Ends source limit (depth + 1) before affords (p.run (atDepth s (s.depth + 1)))) :
    Ends source limit depth before affords ((deepen p).run s) := by
  rw [run_deepen]
  generalize p.run (atDepth s (s.depth + 1)) = result at h
  cases h with
  | ok hs hd => exact .ok (hs.atDepth _) (by rw [hd]; rfl)
  | error hf hdeep => exact .error hf hdeep

/-- A rule with the room that the limit leaves behaves. -/
theorem behaves_rule (source : Source) (turns room depth : Nat) (r : Rule) :
    Behaves source (depth + room) depth r.weight none (rule turns room r) := by
  induction room generalizing depth r with
  | zero =>
      intro s before hs hd _
      refine .error ⟨hs.holds.1, Text.takeBytes_zero _⟩ fun n hn => ⟨?_, ?_, fun h => ?_⟩
      · cases hn
        exact hd
      · exact Nat.le_of_eq hs.offset.symm
      · have := r.weight_pos
        unfold Affords at h
        omega
  | succ room ih =>
      intro s before hs hd _
      have hlockstep : Lockstep (rule turns room) (rule turns room) (r.weight - 1) none
          (ruleBody (rule turns room) turns r) (ruleBody (rule turns room) turns r) :=
        lockstep_ruleBody r
      have hbody := hlockstep.behaves fun r => ih (depth + 1) r
      have hends :=
        hbody (atDepth s (s.depth + 1)) before (hs.atDepth _) (congrArg (· + 1) hd) (fun _ => nofun)
      have hlimit : depth + 1 + room = depth + (room + 1) := by omega
      rw [hlimit] at hends
      refine Ends.deepen (hends.imp fun h => ?_)
      have := r.weight_pos
      unfold Affords at *
      omega

/-- The note at the end of a run changes nothing. -/
theorem Ends.noteProgram {affords : Prop}
    {result : EStateM.Result Failure ParserState (List Statement)}
    (h : Ends source limit depth before affords result) :
    Ends source limit depth before affords (match result with
      | .ok body s => .ok (⟨body⟩ : Program) (noteProgram body s)
      | .error f s => .error f s) := by
  cases h with
  | ok hs hd =>
      obtain ⟨t, hread, hhand⟩ := hs
      exact .ok ⟨t, hread, hhand⟩ hd
  | error hf hdeep => exact .error hf hdeep

/-- The rules that a run opens behave. -/
theorem behaves_run (source : Source) (limit : Nat) (r : Rule) :
    Behaves source limit 0 r.weight none (rule (source.content.length + 3) limit r) := by
  have := behaves_rule source (source.content.length + 3) limit 0 r
  rwa [Nat.zero_add] at this

/-- How a run on a whole text ends. -/
theorem run_ends (source : Source) (limit : Nat) :
    Ends source limit 0 [] (Affords source limit 0 [] fullCredit)
      (EcmaSyntax.run limit source.content) := by
  have htake := take_coherent (coherent_ofText source)
  rw [run_eq]
  cases hrun : take.run (ParserState.ofText source.content) with
  | error f s =>
      rw [hrun] at htake
      exact .error htake.1 fun n hn => absurd hn (htake.2 n)
  | ok t s =>
      rw [hrun] at htake
      obtain ⟨-, hd, gap, hs, -⟩ := htake
      have helements : Behaves source limit 0 fullCredit none
          (programElements limit source.content) :=
        (lockstep_program limit limit source.content).behaves (behaves_run source limit)
      exact ((helements s _ hs hd (fun _ => nofun)).weaken .append).noteProgram

end Parser

/-- What the scanner answers stands in the source at the position of its offset, and so does the
text that a run fails at. -/
theorem positions_agree (source : Source) :
    (∀ choices, ∀ a ∈ (Scanner.ofText source.content).answers choices,
      Scanner.IsPlaced source a) ∧
    ∀ limit f, parse limit source.content = .error f → source.Holds f.place f.text := by
  refine ⟨fun choices => Scanner.answers_placed choices (Scanner.coherent_ofText source),
    fun limit f h => ?_⟩
  obtain ⟨s, hrun⟩ := parse_eq_error_iff.mp h
  have hends := Parser.run_ends source limit
  rw [hrun] at hends
  cases hends with
  | error hf => exact hf

/-- The failure of a run, if it failed. -/
def failure? : Except Failure Program → Option Failure
  | .ok _ => none
  | .error f => some f

theorem exists_failure {α : Type} {result : Except Failure Program} {g : Failure → α} {a : α}
    (h : (failure? result).map g = some a) : ∃ f, result = .error f ∧ g f = a := by
  cases result with
  | ok => cases h
  | error f => exact ⟨f, rfl, Option.some.inj h⟩

/-- A failure in the third line of a source whose lines end in different ways, one of them within
a string. -/
theorem positions_agree_lines : ∃ f,
    parse 256 "a = '\\\r\nb'\u2028+ /c/g )".toList = .error f ∧ f.place = ⟨⟨3, 8⟩, 20⟩ ∧
      (Source.anonymous "a = '\\\r\nb'\u2028+ /c/g )".toList).Holds f.place f.text := by
  have hplace : (failure? (parse 256 "a = '\\\r\nb'\u2028+ /c/g )".toList)).map (·.place) =
      some ⟨⟨3, 8⟩, 20⟩ := by decide +kernel
  obtain ⟨f, h, hf⟩ := exists_failure hplace
  exact ⟨f, h, hf, (positions_agree (Source.anonymous _)).2 256 f h⟩

end EcmaSyntax
