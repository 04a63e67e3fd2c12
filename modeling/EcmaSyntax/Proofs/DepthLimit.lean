import EcmaSyntax.Proofs.Coherence

/-!
# The limit on open rules

**Input.**  Two runs on one text, with a limit and with a limit that is no smaller.

**Method.**  The parsers of the two runs are in lockstep.  As long as the smaller limit allows
all rules that are opened, the runs are the same.  Where it is exceeded, the run with the smaller
limit ends, and whatever the other one does from there happens no further to the left.

**Results.**
* `run_cutShort`: the run with the smaller limit is the other run, or that run cut short.
* `depthLimit_monotone`: what this says of the answers, and a limit that no run exceeds.
-/

namespace EcmaSyntax
namespace Parser

variable {source : Source} {before : Text} {s : ParserState} {α : Type}
  {limit limit' depth credit : Nat} {known : Option Token}

/-- A result is the other one, or it exceeds the limit at a place that the other one is not in
front of. -/
inductive CutShort (source : Source) (limit limit' depth : Nat) :
    EStateM.Result Failure ParserState α → EStateM.Result Failure ParserState α → Prop
  | ok (a : α) (s : ParserState) : CutShort source limit limit' depth (.ok a s) (.ok a s)
  | error {f : Failure} (s : ParserState) : (∀ n, f.cause ≠ .tooDeep n) →
      CutShort source limit limit' depth (.error f s) (.error f s)
  | cut {f : Failure} (s : ParserState) {before : Text}
      {result' : EStateM.Result Failure ParserState α} :
      f.cause = .tooDeep limit → f.place.offset ≤ before.size →
      Ends source limit' depth before False result' →
      CutShort source limit limit' depth (.error f s) result'

/-- Two parsers end like this from each state with a number of open rules. -/
def CutsShort (source : Source) (limit limit' depth : Nat) (known : Option Token)
    (p p' : Parser α) : Prop :=
  ∀ s before, Coherent source before s → s.depth = depth → (∀ t ∈ known, s.current = t) →
    CutShort source limit limit' depth (p.run s) (p'.run s)

/-! ## Steps -/

theorem StepsFrom.cutShort {result : EStateM.Result Failure ParserState α}
    (h : StepsFrom source before s result) : CutShort source limit limit' depth result result := by
  cases result with
  | ok a s' => exact .ok a s'
  | error f s' => exact .error s' h.2

theorem CutShort.deepen {p p' : Parser α}
    (h : CutShort source limit limit' (depth + 1) (p.run (atDepth s (s.depth + 1)))
      (p'.run (atDepth s (s.depth + 1)))) :
    CutShort source limit limit' depth ((deepen p).run s) ((deepen p').run s) := by
  generalize hresult : p.run (atDepth s (s.depth + 1)) = result at h
  generalize hresult' : p'.run (atDepth s (s.depth + 1)) = result' at h
  cases h with
  | ok a s₁ =>
      rw [run_deepen, run_deepen, hresult, hresult']
      exact .ok a _
  | error s₁ hnot =>
      rw [run_deepen, run_deepen, hresult, hresult']
      exact .error _ hnot
  | cut s₁ hcause hoffset hends =>
      rw [run_deepen p, hresult]
      exact .cut _ hcause hoffset (hresult' ▸ hends).deepen

/-! ## Parsers -/

/-- Parsers in lockstep end like this if the rules inside them do. -/
theorem Lockstep.cutsShort {inner inner' : Inner} {p p' : Parser α}
    (h : Lockstep inner inner' credit known p p')
    (hinner : ∀ r : Rule, Behaves source limit depth r.weight none (inner r))
    (hinner' : ∀ r : Rule, Behaves source limit' depth r.weight none (inner' r))
    (hcuts : ∀ r : Rule, CutsShort source limit limit' depth none (inner r) (inner' r)) :
    CutsShort source limit limit' depth known p p' := by
  induction h with
  | pure a =>
      intro s before _ _ _
      exact .ok a s
  | @bind credit known α β p p' f f' hp hf ihp ihf =>
      intro s before hs hd hknown
      have hcut := ihp s before hs hd hknown
      have hends := hp.behaves hinner s before hs hd hknown
      rw [EStateM.run_bind, EStateM.run_bind]
      generalize p.run s = result at hcut hends
      generalize p'.run s = result' at hcut
      cases hcut with
      | ok a s₁ =>
          cases hends with
          | ok hs₁ hd₁ => exact ihf a s₁ _ hs₁ hd₁ (fun _ => nofun)
      | error s₁ hnot => exact .error s₁ hnot
      | cut s₁ hcause hoffset hends' =>
          -- the other run may go on, from where it has come to
          refine .cut s₁ hcause hoffset ?_
          cases hends' with
          | error hf hdeep => exact .error hf hdeep
          | ok hs' hd' =>
              exact ((hf _).symm.behaves hinner' _ _ hs' hd' (fun _ => nofun)).weaken False.elim
  | unexpected =>
      intro s before hs _ _
      exact .error s (unexpected_refuses hs).2
  | look _ ih =>
      intro s before hs hd _
      exact ih s.current s.lastEnd s before hs hd fun t ht => Option.some.inj ht
  | @take credit t α f f' _ _ ih =>
      intro s before hs hd hknown
      obtain rfl := hknown t rfl
      have htake := take_coherent hs
      rw [EStateM.run_bind, EStateM.run_bind]
      cases hrun : Parser.take.run s with
      | error f s₁ =>
          rw [hrun] at htake
          exact .error s₁ htake.2
      | ok t s₁ =>
          rw [hrun] at htake
          obtain ⟨rfl, hd₁, gap, hs₁, -⟩ := htake
          exact ih s₁ _ hs₁ (hd₁.trans hd) (fun _ => nofun)
  | @regex credit slash hk =>
      intro s before hs _ hknown
      obtain rfl := hknown slash rfl
      exact (regex_coherent hs hk).cutShort
  | badNumber =>
      intro s before _ _ _
      exact .error s (fun _ => nofun)
  | endStatement =>
      intro s before hs _ _
      exact (endStatement_coherent hs).cutShort
  | pendingComments =>
      intro s before hs _ _
      exact (pendingComments_coherent hs).cutShort
  | inner r _ =>
      intro s before hs hd _
      exact hcuts r s before hs hd (fun _ => nofun)

/-! ## Rules and runs -/

/-- A rule with less room is the rule with more room, cut short. -/
theorem cutsShort_rule (source : Source) (turns room extra depth : Nat) (r : Rule) :
    CutsShort source (depth + room) (depth + (room + extra)) depth none (rule turns room r)
      (rule turns (room + extra) r) := by
  induction room generalizing depth r with
  | zero =>
      intro s before hs hd hknown
      have hends := behaves_rule source turns (0 + extra) depth r s before hs hd hknown
      exact .cut s (congrArg _ hd) (Nat.le_of_eq hs.offset) (hends.imp False.elim)
  | succ room ih =>
      intro s before hs hd _
      have hlimit : depth + (room + 1) = depth + 1 + room := by omega
      have hlimit' : depth + (room + 1 + extra) = depth + 1 + (room + extra) := by omega
      have hroom : room + 1 + extra = room + extra + 1 := by omega
      have hlockstep : Lockstep (rule turns room) (rule turns (room + extra)) (r.weight - 1) none
          (ruleBody (rule turns room) turns r) (ruleBody (rule turns (room + extra)) turns r) :=
        lockstep_ruleBody r
      have hbody := hlockstep.cutsShort (behaves_rule source turns room (depth + 1))
        (behaves_rule source turns (room + extra) (depth + 1)) (ih (depth + 1))
      rw [hlimit, hlimit', hroom]
      exact (hbody (atDepth s (s.depth + 1)) before (hs.atDepth _) (congrArg (· + 1) hd)
        (fun _ => nofun)).deepen

/-- The run with the smaller limit is the other run, cut short. -/
theorem run_cutShort (source : Source) (h : limit ≤ limit') :
    CutShort source limit limit' 0 (EcmaSyntax.run limit source.content)
      (EcmaSyntax.run limit' source.content) := by
  obtain ⟨extra, rfl⟩ := Nat.exists_eq_add_of_le h
  have hcuts : ∀ r : Rule, CutsShort source limit (limit + extra) 0 none
      (rule (source.content.length + 3) limit r)
      (rule (source.content.length + 3) (limit + extra) r) := by
    intro r
    have := cutsShort_rule source (source.content.length + 3) limit extra 0 r
    rwa [Nat.zero_add, Nat.zero_add] at this
  have htake := take_coherent (coherent_ofText source)
  rw [run_eq, run_eq]
  cases hrun : take.run (ParserState.ofText source.content) with
  | error f s =>
      rw [hrun] at htake
      exact .error s htake.2
  | ok t s =>
      rw [hrun] at htake
      obtain ⟨-, hd, gap, hs, -⟩ := htake
      have hprogram : CutsShort source limit (limit + extra) 0 none
          (programElements limit source.content) (programElements (limit + extra) source.content) :=
        (lockstep_program limit (limit + extra) source.content).cutsShort (behaves_run source _)
          (behaves_run source _) hcuts
      have helements := hprogram s _ hs hd (fun _ => nofun)
      simp only
      generalize (programElements limit source.content).run s = result at helements
      generalize (programElements (limit + extra) source.content).run s = result' at helements
      cases helements with
      | ok body s₁ => exact .ok (⟨body⟩ : Program) _
      | error s₁ hnot => exact .error s₁ hnot
      | cut s₁ hcause hoffset hends => exact .cut s₁ hcause hoffset hends.noteProgram

end Parser

/-- An answer tells that a limit is exceeded at an offset. -/
def ExceedsAt (limit offset : Nat) (answer : Except Failure Program) : Prop :=
  ∃ f, answer = .error f ∧ f.cause = .tooDeep limit ∧ f.place.offset = offset

theorem Parser.Ends.exceedsAt {source : Source} {limit depth n offset : Nat} {before : Text}
    {affords : Prop} {result : EStateM.Result Failure ParserState Program}
    (h : Ends source limit depth before affords result) (hn : ExceedsAt n offset (outcome result)) :
    n = limit ∧ before.size ≤ offset ∧ ¬affords := by
  obtain ⟨f, hf, hcause, rfl⟩ := hn
  cases h with
  | ok => cases hf
  | error _ hdeep =>
      cases hf
      exact hdeep n hcause

/-- The answers are the same and no limit is exceeded, or the smaller limit is exceeded, no later
than the larger one. -/
theorem parse_cutShort (source : Text) {limit limit' : Nat} (h : limit ≤ limit') :
    (parse limit' source = parse limit source ∧
      ∀ n offset, ¬ExceedsAt n offset (parse limit source)) ∨
    ∃ offset, ExceedsAt limit offset (parse limit source) ∧
      ∀ n offset', ExceedsAt n offset' (parse limit' source) → n = limit' ∧ offset ≤ offset' := by
  have hcut := Parser.run_cutShort (Source.anonymous source) h
  change Parser.CutShort _ limit limit' 0 (run limit source) (run limit' source) at hcut
  unfold parse
  generalize run limit source = result at hcut ⊢
  generalize run limit' source = result' at hcut ⊢
  cases hcut with
  | ok =>
      refine .inl ⟨rfl, ?_⟩
      rintro n offset ⟨f, hf, -⟩
      cases hf
  | error s hnot =>
      refine .inl ⟨rfl, ?_⟩
      rintro n offset ⟨f, hf, hcause, -⟩
      cases hf
      exact hnot n hcause
  | cut s hcause hoffset hends =>
      refine .inr ⟨_, ⟨_, rfl, hcause, rfl⟩, fun n offset' hn => ?_⟩
      obtain ⟨hlimit, hle, -⟩ := hends.exceedsAt hn
      exact ⟨hlimit, Nat.le_trans hoffset hle⟩

/-- A larger limit gives the same answer if the smaller one is not exceeded. -/
theorem parse_eq_of_not_exceedsAt (source : Text) {limit limit' : Nat} (h : limit ≤ limit')
    (hnot : ∀ n offset, ¬ExceedsAt n offset (parse limit source)) :
    parse limit' source = parse limit source := by
  obtain ⟨heq, -⟩ | ⟨offset, hexceeds, -⟩ := parse_cutShort source h
  · exact heq
  · exact absurd hexceeds (hnot limit offset)

/-- A limit that grows with the size of the text is never exceeded. -/
theorem not_exceedsAt_of_size_le {source : Text} {limit : Nat}
    (hlimit : 3 * (source.size + 1) ≤ limit) (n offset : Nat) :
    ¬ExceedsAt n offset (parse limit source) := by
  intro hn
  have hends := Parser.run_ends (Source.anonymous source) limit
  refine (hends.exceedsAt hn).2.2 ?_
  show 0 + 3 * (source.size - 0) + 3 ≤ limit
  omega

/-- A smaller limit gives the same answer, or it is exceeded no later than the larger one; and a
limit that grows with the size of the text is never exceeded. -/
theorem depthLimit_monotone (source : Text) {limit limit' : Nat} (h : limit ≤ limit') :
    ((∀ n offset, ¬ExceedsAt n offset (parse limit source)) →
      parse limit' source = parse limit source) ∧
    (∀ n offset', ExceedsAt n offset' (parse limit' source) →
      n = limit' ∧ ∃ offset ≤ offset', ExceedsAt limit offset (parse limit source)) ∧
    (3 * (source.size + 1) ≤ limit → ∀ n offset, ¬ExceedsAt n offset (parse limit source)) := by
  refine ⟨parse_eq_of_not_exceedsAt source h, fun n offset' hn => ?_, not_exceedsAt_of_size_le⟩
  obtain ⟨heq, hnot⟩ | ⟨offset, hexceeds, hlater⟩ := parse_cutShort source h
  · rw [heq] at hn
    exact absurd hn (hnot n offset')
  · obtain ⟨hlimit, hle⟩ := hlater n offset' hn
    exact ⟨hlimit, offset, hle, hexceeds⟩

/-- A limit that is exceeded behind the second parenthesis, and one that is large enough. -/
theorem depthLimit_monotone_parentheses :
    ExceedsAt 3 2 (parse 3 "((1))".toList) ∧
      parse 40 "((1))".toList = parse 18 "((1))".toList := by
  have hmono := depthLimit_monotone "((1))".toList (show 18 ≤ 40 by decide)
  refine ⟨?_, hmono.1 (hmono.2.2 (by decide))⟩
  have hfailure : (failure? (parse 3 "((1))".toList)).map (fun f => (f.cause, f.place.offset)) =
      some (.tooDeep 3, 2) := by decide +kernel
  obtain ⟨f, h, hf⟩ := exists_failure hfailure
  obtain ⟨hcause, hoffset⟩ := Prod.mk.inj hf
  exact ⟨f, h, hcause, hoffset⟩

end EcmaSyntax
