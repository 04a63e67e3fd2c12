import EcmaSyntax.Proofs.Standing

/-!
# Runs one after the other

**States.**  A parser may start over in a state with no open rules and a steady stream.  It has
finished if nothing is left, no comments either.

**Progress.**  A run that fails leaves less than there was, and a run that succeeds finishes.  A
finished parser yields the empty program and stays finished.

**Results.**
* `Parser.program_cases`, `Parser.Finished.program`: the two steps of a sequence of runs.
* `runs_get_through`: sooner or later a run on a source succeeds, and all that follow yield the
  empty program.  No rule is open before or after any of them.
-/

namespace EcmaSyntax

/-- The state after some runs, each from the state that the one before left. -/
def afterRuns (limit : Nat) : Nat → ParserState → ParserState
  | 0, s => s
  | n + 1, s => afterRuns limit n (finalState (Parser.program limit s))

namespace Parser

variable {s s' : ParserState} {inner : Inner} {stops : List TokenKind} {limit : Nat}

/-- A parser may start over. -/
structure Restarts (s : ParserState) : Prop where
  steady : s.stream.Steady
  depth : s.depth = 0

/-- A parser has gone through its whole input. -/
structure Finished (s : ParserState) : Prop extends Restarts s where
  left : s.stream.left = 0
  comments : s.stream.scanner.comments = []

theorem restarts_ofText (source : Text) : Restarts (ParserState.ofText source) :=
  ⟨TokenStream.steady_ofText source, rfl⟩

/-! ## Elements -/

/-- Only comments stand in front of a token that ends the elements. -/
theorem elements_of_stop (inner : Inner) {turns : Nat} (hturns : 0 < turns)
    (hk : stops.contains s.current.kind) :
    ∃ comments, (elements inner stops turns).run s =
        .ok comments { s with stream.scanner.comments := [] } ∧
      (s.stream.scanner.comments = [] → comments = []) := by
  obtain ⟨turns, rfl⟩ := Nat.exists_eq_succ_of_ne_zero (Nat.ne_of_gt hturns)
  unfold elements
  rw [EStateM.run_bind, run_pendingComments]
  dsimp only
  rw [EStateM.run_bind, run_kind]
  dsimp only
  rw [if_pos hk]
  refine ⟨_, rfl, fun h => ?_⟩
  rw [h]
  rfl

/-- Elements end in front of a token that ends them, and all comments have been claimed. -/
theorem elements_ok {body : List Statement} {turns : Nat}
    (h : (elements inner stops turns).run s = .ok body s') :
    stops.contains s'.current.kind ∧ s'.stream.scanner.comments = [] := by
  induction turns generalizing s body with
  | zero => cases h
  | succ turns ih =>
      by_cases hk : stops.contains s.current.kind
      · obtain ⟨comments, hrun, -⟩ := elements_of_stop inner turns.succ_pos hk
        rw [hrun] at h
        cases h
        exact ⟨hk, rfl⟩
      · unfold elements at h
        rw [EStateM.run_bind, run_pendingComments] at h
        dsimp only at h
        rw [EStateM.run_bind, run_kind] at h
        dsimp only at h
        rw [if_neg hk] at h
        obtain ⟨statement, s₁, -, h⟩ := run_bind_ok.mp h
        obtain ⟨rest, s₂, hrest, h⟩ := run_bind_ok.mp h
        cases h
        exact ih hrest

/-! ## One run -/

/-- Nothing is left when the end of the input is at hand. -/
theorem Held.left_eq_zero (h : Held s) (hk : s.current.kind = .endOfInput) :
    s.stream.left = 0 := by
  have hreal : s.current.kind ≠ .insertedSemicolon := by
    rw [hk]
    nofun
  obtain ⟨hq, hread⟩ := h.justRead hreal
  simp [TokenStream.left, hq, hread.ended hk]

theorem Held.finished (h : Held s) (hd : s.depth = 0) (hk : s.current.kind = .endOfInput)
    (hcomments : s.stream.scanner.comments = []) (body : List Statement) :
    Finished (noteProgram body s) :=
  ⟨⟨⟨h.steady.tracks, h.steady.requeued⟩, hd⟩, h.left_eq_zero hk, hcomments⟩

theorem turnsFor_pos (s : ParserState) : 0 < turnsFor s := Nat.succ_pos _

theorem stops_endOfInput {k : TokenKind} (hk : k = .endOfInput) :
    [TokenKind.endOfInput].contains k := by
  rw [hk]
  rfl

/-- A run that fails leaves less than there was, and a run that succeeds finishes. -/
theorem program_cases (limit : Nat) (hs : Restarts s) :
    (∃ P s', (program limit).run s = .ok P s' ∧ Finished s') ∨
      ∃ f s', (program limit).run s = .error f s' ∧ Restarts s' ∧
        s'.stream.left < s.stream.left := by
  rw [run_program, run_take]
  cases hnext : TokenStream.next.run s.stream with
  | error f stream =>
      obtain ⟨hsteady, hless⟩ := hs.steady.next_error hnext
      exact .inr ⟨f, _, rfl, ⟨hsteady, hs.depth⟩, hless⟩
  | ok t stream =>
      obtain ⟨hheld, hless, hnil⟩ := hs.steady.next_ok hnext
      have hleaves := elements_leaves (s := advance s t stream) (turnsFor s) (limit - s.depth)
        [.endOfInput] (turnsFor s) hheld
      dsimp only
      cases hrun : (elements (rule (turnsFor s) (limit - s.depth)) [.endOfInput] (turnsFor s)).run
          (advance s t stream) with
      | ok body s' =>
          obtain ⟨hstop, hcomments⟩ := elements_ok hrun
          rw [hrun] at hleaves
          cases hleaves with
          | ok hheld' hd hle =>
              have hend : s'.current.kind = .endOfInput := by simpa using hstop
              exact .inl ⟨_, _, rfl, hheld'.finished (hd.trans hs.depth) hend hcomments body⟩
      | error f s' =>
          have hne : s.stream.left ≠ 0 := by
            intro h₀
            -- the run would have succeeded at once
            have hstop := (hnil h₀).1
            obtain ⟨comments, hstops, -⟩ := elements_of_stop (s := advance s t stream)
              (rule (turnsFor s) (limit - s.depth)) (turnsFor_pos s) (stops_endOfInput hstop)
            rw [hrun] at hstops
            cases hstops
          rw [hrun] at hleaves
          cases hleaves with
          | error hsteady hd hle =>
              exact .inr ⟨f, s', rfl, ⟨hsteady, hd.trans hs.depth⟩, Nat.lt_of_le_of_lt hle (hless hne)⟩

/-- A finished parser yields the empty program and stays finished. -/
theorem Finished.program (limit : Nat) (hs : Finished s) :
    ∃ s', (program limit).run s = .ok ⟨[]⟩ s' ∧ Finished s' := by
  rw [run_program, run_take]
  cases hnext : TokenStream.next.run s.stream with
  | error f stream =>
      have := (hs.steady.next_error hnext).2
      rw [hs.left] at this
      cases this
  | ok t stream =>
      obtain ⟨hheld, -, hnil⟩ := hs.steady.next_ok hnext
      obtain ⟨hend, hleft, hcomments⟩ := hnil hs.left
      rw [hs.comments] at hcomments
      obtain ⟨comments, hrun, hempty⟩ := elements_of_stop (s := advance s t stream)
        (rule (turnsFor s) (limit - s.depth)) (turnsFor_pos s) (stops_endOfInput hend)
      obtain rfl := hempty hcomments
      have hleaves := elements_leaves (s := advance s t stream) (turnsFor s) (limit - s.depth)
        [.endOfInput] (turnsFor s) hheld
      rw [hrun] at hleaves
      dsimp only
      rw [hrun]
      cases hleaves with
      | ok hheld' hd _ => exact ⟨_, rfl, hheld'.finished (hd.trans hs.depth) hend rfl []⟩

/-! ## Sequences of runs -/

theorem runs_succ {r : EStateM.Result Failure ParserState Program} (n : Nat)
    (h : (program limit).run s = r) :
    runs limit (n + 1) s = outcome r :: runs limit n (finalState r) := by
  rw [← h]
  rfl

/-- Some run succeeds if there are more runs than there is left. -/
theorem Restarts.exists_ok (n : Nat) (hs : Restarts s) (hn : s.stream.left < n) :
    ∃ P, .ok P ∈ runs limit n s := by
  induction n generalizing s with
  | zero => cases hn
  | succ n ih =>
      obtain ⟨P, s', hrun, -⟩ | ⟨f, s', hrun, hs', hless⟩ := program_cases limit hs
      · rw [runs_succ n hrun]
        exact ⟨P, List.mem_cons_self⟩
      · obtain ⟨P, hP⟩ := ih hs' (by omega)
        rw [runs_succ n hrun]
        exact ⟨P, List.mem_cons_of_mem _ hP⟩

theorem Restarts.program (hs : Restarts s) : Restarts (finalState ((program limit).run s)) := by
  obtain ⟨P, s', hrun, hs'⟩ | ⟨f, s', hrun, hs', -⟩ := program_cases limit hs
  · rw [hrun]
    exact hs'.toRestarts
  · rw [hrun]
    exact hs'

theorem Restarts.afterRuns (n : Nat) (hs : Restarts s) : Restarts (afterRuns limit n s) := by
  induction n generalizing s with
  | zero => exact hs
  | succ n ih => exact ih (s := finalState ((Parser.program limit).run s)) hs.program

theorem Finished.runs (n : Nat) (hs : Finished s) : ∀ a ∈ runs limit n s, a = .ok ⟨[]⟩ := by
  induction n generalizing s with
  | zero => exact fun a ha => absurd ha List.not_mem_nil
  | succ n ih =>
      obtain ⟨s', hrun, hs'⟩ := hs.program limit
      rw [runs_succ n hrun]
      exact List.forall_mem_cons.mpr ⟨rfl, ih hs'⟩

/-- All runs behind one that succeeds yield the empty program. -/
theorem Restarts.runs {n : Nat} {earlier later : List (Except Failure Program)} {P : Program}
    (hs : Restarts s) (h : runs limit n s = earlier ++ .ok P :: later) :
    ∀ a ∈ later, a = .ok ⟨[]⟩ := by
  induction n generalizing s earlier with
  | zero => cases earlier <;> cases h
  | succ n ih =>
      rw [runs_succ n rfl] at h
      cases earlier with
      | cons a earlier => exact ih hs.program (List.cons.inj h).2
      | nil =>
          obtain ⟨hfirst, rfl⟩ := List.cons.inj h
          obtain ⟨P', s', hrun, hs'⟩ | ⟨f, s', hrun, -⟩ := program_cases limit hs
          · rw [hrun]
            exact hs'.runs n
          · rw [hrun] at hfirst
            cases hfirst

end Parser

/-- Whatever the limit, a parser gets through its input.  No rule is open before or after any run.
One of the first runs succeeds, and there are no more of them than twice the size of the source and
some.  All runs behind it yield the empty program. -/
theorem runs_get_through (limit : Nat) (source : Text) :
    (∀ n, (afterRuns limit n (ParserState.ofText source)).depth = 0) ∧
      (∃ P, .ok P ∈ runs limit (2 * (source.size + 2)) (ParserState.ofText source)) ∧
      ∀ n earlier P later,
        runs limit n (ParserState.ofText source) = earlier ++ .ok P :: later →
          ∀ a ∈ later, a = .ok ⟨[]⟩ := by
  have hs := Parser.restarts_ofText source
  refine ⟨fun n => (hs.afterRuns n).depth, hs.exists_ok _ ?_, fun n earlier P later h => hs.runs h⟩
  have := Text.length_le_size source
  show 2 * source.length + 0 < _
  omega

end EcmaSyntax
