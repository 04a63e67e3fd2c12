import EcmaSyntax.Proofs.Grammar.Complete
import EcmaSyntax.Proofs.Grammar.Sound
import EcmaSyntax.Proofs.Spelling

/-!
# Runs on whole texts

**Input.**  A text and a limit on the number of open rules.

**Results.**
* `run_ok_iff`: a run yields a program exactly if the text spells items that the grammar
  derives the program from.  The marks of the run are those of the spelling.

What a run does is settled by the items: neither states nor turns are left.
-/

namespace EcmaSyntax

theorem TokenStream.marks_parsed (s : TokenStream) (n : Nat) :
    marks { s with journal := .parsed n :: s.journal } = s.marks := by
  simp [marks, marksOf, Event.mark?]

namespace Parser

/-- A text spells some items, from its first token to its end. -/
def Reads (source : Text) (its : List Item) (marks : List Mark) : Prop :=
  ∃ (p : Site) (ms : List Mark), p.all = source ∧ Spells 0 false false p its ms ∧
    marks = p.marks 0 false ++ ms

theorem ready_ofText (source : Text) : Ready (ParserState.ofText source) [] source :=
  ⟨rfl, rfl, rfl, rfl, nofun, nofun, rfl⟩

/-- Lists of statements end in front of one of their stops. -/
def StopsAt (last : TokenKind) : Nonterminal → List Item → Prop
  | .elements stops, r => peek last r ∈ stops
  | _, _ => True

theorem Derives.stopsAt {last : TokenKind} {room : Nat} {n : Nonterminal} {i r : List Item}
    {tree : n.Tree} (h : Derives last room n i tree r) : StopsAt last n r := by
  induction h with
  | elementsEnd hk => exact hk
  | elementsMore _ _ _ _ ih => exact ih
  | _ => trivial

/-- Each item that is counted takes a character at least. -/
theorem Spells.count_le {o : Nat} {bare claimed : Bool} {p : Site} {its : List Item}
    {marks : List Mark} (h : Spells o bare claimed p its marks) :
    count its ≤ (p.text ++ p.rest).length := by
  induction h with
  | stop => exact Nat.zero_le _
  | @taken o bare claimed p q its marks hp _ hk hall _ ih =>
      have htext : p.text ≠ [] := hp.text_ne_nil (by rintro h; rw [h] at hk; cases hk)
      have hpos := List.length_pos_iff.mpr htext
      have hrest := congrArg List.length hall
      simp only [Site.all, List.length_append, count_taken] at *
      omega
  | @member o bare claimed p q n its marks hp _ hk hall _ _ halln _ ih =>
      have htext : p.text ≠ [] := hp.text_ne_nil (by rw [hk]; decide)
      have hpos := List.length_pos_iff.mpr htext
      have hrest := congrArg List.length hall
      have hrestn := congrArg List.length halln
      simp only [Site.all, List.length_append, count_member] at *
      omega
  | @literal o bare claimed p q after body its marks _ _ _ htext _ hall _ ih =>
      rw [htext, hall]
      simp only [Site.all, List.length_append, List.length_cons, count_literal] at *
      omega
  | @ended o bare claimed p q its marks _ _ _ hall _ ih =>
      have hrest := congrArg List.length hall
      simp only [Site.all, List.length_append, count_ended] at *
      omega
  | early _ _ ih => exact ih
  | inserted _ _ _ _ ih => exact ih
  | comments _ ih => exact ih

section Program

variable {limit : Nat} {source : Text} {P : Program} {s : ParserState} {marks : List Mark}

theorem program_ok_iff : (program limit).run (ParserState.ofText source) = .ok P s ↔
    ∃ t s₁ s₂, take.run (ParserState.ofText source) = .ok t s₁ ∧
      (elements (rule (source.length + 3) limit) [.endOfInput] (source.length + 3)).run s₁ =
        .ok P.body s₂ ∧
      s = { s₂ with stream.journal := .parsed P.body.length :: s₂.stream.journal } := by
  unfold program
  rw [EStateM.run_bind, EStateM.run_get]
  constructor
  · intro h
    obtain ⟨t, s₁, ht, h⟩ := run_bind_ok.mp h
    obtain ⟨body, s₂, hbody, h⟩ := run_bind_ok.mp h
    cases h
    exact ⟨t, s₁, s₂, ht, hbody, rfl⟩
  · rintro ⟨t, s₁, s₂, ht, hbody, rfl⟩
    exact run_bind_ok.mpr ⟨t, s₁, ht, run_bind_ok.mpr ⟨P.body, s₂, hbody, rfl⟩⟩

/-- A run yields a program exactly if the text spells items that the grammar derives it from. -/
theorem run_ok_iff : (∃ s, run limit source = .ok P s ∧ s.stream.marks = marks) ↔
    ∃ its, Reads source its marks ∧
      Derives .endOfInput limit (.elements [.endOfInput]) its P.body [] := by
  constructor
  · rintro ⟨s, hrun, hmarks⟩
    obtain ⟨t, s₁, s₂, ht, helements, hs⟩ := program_ok_iff.mp hrun
    obtain ⟨p, hp, hall⟩ := (ready_ofText source).exists_site ht
    subst hall
    obtain ⟨s₁', ht', hs₁, hprevious, hbefore, hmarks₁⟩ := (ready_ofText p.all).take hp
    rw [ht] at ht'
    cases ht'
    have hfollows : Follows s₂.current.kind limit (rule (p.all.length + 3) limit) :=
      yields_rule _ limit
    obtain ⟨its, hmoves, hderives⟩ :=
      yields_elements hfollows [.endOfInput] _ s₁ P.body s₂ helements [] rfl
    have hend : s₂.current.kind = .endOfInput := by
      simpa using (show s₂.current.kind ∈ [TokenKind.endOfInput] from hderives.stopsAt)
    rw [hend] at hderives
    obtain ⟨ms, hspells, hms⟩ := hmoves.spells hend hs₁ ⟨hprevious, fun _ => by
      rw [hbefore]
      exact nofun⟩
    refine ⟨its, ⟨p, ms, rfl, hspells, ?_⟩, hderives⟩
    rw [← hmarks, hs, TokenStream.marks_parsed, hms, hmarks₁]
    rfl
  · rintro ⟨its, ⟨p, ms, rfl, hspells, rfl⟩, hderives⟩
    obtain ⟨s₁, ht, hs₁, hprevious, hbefore, hmarks₁⟩ :=
      (ready_ofText p.all).take hspells.valid
    obtain ⟨e, hmoves, hend, hms⟩ := hspells.moves rfl hs₁ ⟨hprevious, fun _ => by
      rw [hbefore]
      exact nofun⟩
    have hcount := hspells.count_le
    have hle : count its < p.all.length + 3 := by
      rw [Site.all, List.length_append]
      omega
    obtain ⟨s₂, hrun, -, hmoves₂⟩ :=
      hderives.accepts hle (Nat.le_refl _) s₁ e hmoves hend
    obtain ⟨n, rfl⟩ := hmoves₂.eq_atDepth
    refine ⟨_, program_ok_iff.mpr ⟨_, s₁, s₂, ht, hrun, rfl⟩, ?_⟩
    rw [TokenStream.marks_parsed]
    have hms' : s₂.stream.marks = s₁.stream.marks ++ ms := hms
    rw [hms', hmarks₁]
    rfl

end Program

/-- A text that spells what the grammar derives a program from is that program. -/
theorem Spells.parses {limit : Nat} {p : Site} {its : List Item} {ms : List Mark}
    {body : List Statement} (h : Spells 0 false false p its ms)
    (hd : Derives .endOfInput limit (.elements [.endOfInput]) its body []) :
    parse limit p.all = .ok ⟨body⟩ := by
  obtain ⟨s, hrun, -⟩ := (run_ok_iff (P := ⟨body⟩)).mpr ⟨its, ⟨p, ms, rfl, h, rfl⟩, hd⟩
  exact parse_eq_ok_iff.mpr ⟨s, hrun⟩

end Parser
end EcmaSyntax
