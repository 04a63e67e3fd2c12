import EcmaSyntax.Proofs.Completion.Completes

/-!
# Completions of expressions

**Hypothesis.**  Each function of the parser takes the rules one level deeper; they are taken to
complete what they leave unfinished, in some room.

**Results.**  Each function that parses an expression or a part of one completes what it leaves
unfinished, in the same room.  The lemmas follow the functions one by one; where a function
chooses by the token at hand, the word that stands for it is derived apart.
-/

namespace EcmaSyntax

open Printer (sign)
open EcmaSyntax.Parser.Completion (name)

/-- A short word of a rule. -/
def Rule.sample : Rule → List Parser.Item
  | .statement => [sign .semicolon]
  | .declaration =>
      [sign .kwFunction, name, sign .openParen, sign .closeParen, sign .openBrace, .comments [],
        sign .closeBrace]
  | .assignment _ => [name]
  | .operand _ => [name]
  | .construction => [sign .kwNew, name]

namespace Parser

variable {room turns : Nat} {inner : Inner}

/-! ## What may follow -/

/-- Kinds of tokens that go on with no expression, list of variables or statement. -/
def follows : TokenKind → Bool
  | .closeParen | .closeBracket | .closeBrace | .semicolon | .colon | .kwWhile | .endOfInput => true
  | _ => false

section Follows

variable {k : TokenKind} (h : follows k)
include h

theorem ne_of_follows {k' : TokenKind} (hk : follows k' = false) : k ≠ k' := by
  rintro rfl
  rw [h] at hk
  cases hk

theorem postfixOperator?_of_follows : k.postfixOperator? = none := by
  cases k <;> first | rfl | cases h

theorem infixOperator?_of_follows (p : Nat) (g : Grammar) : infixOperator? p g k = none := by
  cases k <;> first | rfl | cases h

theorem assignOperator?_of_follows : k.assignOperator? = none := by
  cases k <;> first | rfl | cases h

end Follows

/-! ## Rules -/

/-- The rules inside a rule complete what they leave unfinished. -/
def Completing (room : Nat) (inner : Inner) : Prop :=
  ∀ (r : Rule) (s : ParserState),
    CompletesBy r.sample s (inner r) follows (Derives .endOfInput room (.rule r))

section Tail

variable {α : Type} {s : ParserState} {p : Parser α} {follow : TokenKind → Bool}
variable {R : List Item → α → List Item → Prop}

/-- What may be left out needs no word. -/
theorem CompletesBy.orNothing (h : Completes s p follow R) {a : α}
    (ha : ∀ r, follow (peek .endOfInput r) → R r a r) : CompletesBy [] s p follow R :=
  ⟨h, fun rest hrest => ⟨List.forall_mem_nil _, a, ha rest hrest⟩⟩

/-- What may be a name has a name for its word. -/
theorem CompletesBy.orName (h : Completes s p follow R) {a : α}
    (ha : ∀ r, follow (peek .endOfInput r) → R (name :: r) a r) : CompletesBy [name] s p follow R :=
  ⟨h, fun rest hrest => ⟨List.forall_mem_singleton.mpr written_name, a, ha rest hrest⟩⟩

end Tail

/-! ## Literals and names -/

theorem completes_propertyKey (s : ParserState) :
    CompletesBy [name] s propertyKey anyKind fun i key r =>
      ∃ k t, i = .taken k t :: r ∧ propertyKey? k t = some key := by
  refine .orName (a := .identifier ['a']) ?_ fun r _ => ⟨_, _, rfl, rfl⟩
  unfold propertyKey
  refine .current ?_
  cases hkey : propertyKey? s.current.kind s.current.text with
  | none => exact .unexpected
  | some key =>
      refine .bind (P := fun i t r => i = .taken s.current.kind s.current.text :: r)
        (.take (isPlain_of_propertyKey? hkey) fun _ => rfl) fun t s₁ => .pure ?_
      rintro r i - rfl
      exact ⟨_, _, rfl, hkey⟩

theorem completes_leaf {e : Expression} (s : ParserState) (hk : isPlain s.current.kind) :
    Completes s (leaf e) anyKind fun i a r =>
      i = .taken s.current.kind s.current.text :: r ∧ a = e := by
  unfold leaf
  refine .bind (P := fun i t r => i = .taken s.current.kind s.current.text :: r)
    (.take hk fun _ => rfl) fun t s₁ => .pure ?_
  rintro r i - rfl
  exact ⟨rfl, rfl⟩

theorem completes_number {g : Grammar} (s : ParserState) (hk : s.current.kind = .number) :
    Completes s (number s.current) anyKind (Derives .endOfInput room (.primary g)) := by
  unfold number
  cases hv : numberValue? s.current.text with
  | none =>
      refine ⟨.throw, ?_⟩
      rintro s' (⟨a, hrun⟩ | ⟨f, k, text, hrun, hf⟩)
      · cases hrun
      · cases hrun
        cases hf
  | some value =>
      refine .bind (P := fun i t r => i = .taken .number s.current.text :: r)
        (.take (by rw [hk]; rfl) fun _ => by rw [hk]) fun t s₁ => .pure ?_
      rintro r i - rfl
      exact .primaryNumber hv

section Expressions

variable (hinner : Completing room inner)
include hinner

/-! ## Sequences and lists -/

theorem completes_sequenceRest (first : Expression) (g : Grammar) (s : ParserState) :
    CompletesBy [] s (sequenceRest inner turns first g) follows
      (Derives .endOfInput room (.sequenceRest first g)) := by
  refine .orNothing (a := first) ?_ fun r hr => .sequenceEnd (ne_of_follows hr rfl)
  unfold sequenceRest
  refine .isAt ?_
  by_cases h : s.current.kind = .comma
  · simp only [h, decide_true, if_true]
    refine .bindBefore (CompletesBy.afterCommas (L := Derives .endOfInput room (.operands g))
      (hinner _) (by decide) (fun _ => .operandsEnd) (fun _ _ _ _ _ _ => .operandsMore) turns
      s).toCompletes (fun es s₁ => .pure ?_) fun _ hk => hk
    intro r i hi hes
    exact .sequenceMore (hi.trans h) hes
  · simp only [h, decide_false, Bool.false_eq_true, if_false]
    refine .pure fun r hr => .sequenceEnd ?_
    rw [hr]
    exact h

theorem completes_expression (g : Grammar) (s : ParserState) :
    CompletesBy [name] s (expression inner turns g) follows
      (Derives .endOfInput room (.expression g)) := by
  unfold expression
  refine .bindBefore (hinner (.assignment g) s) (fun first s₁ =>
    (completes_sequenceRest hinner first g s₁).mono fun m e r hm i hi => ?_) fun _ hk => hk
  exact .expression hi hm

theorem completes_parenthesized (s : ParserState) :
    CompletesBy [sign .openParen, name, sign .closeParen] s (parenthesized inner turns) anyKind
      (Derives .endOfInput room .parenthesized) := by
  unfold parenthesized
  refine .bind (.expect rfl) fun t s₁ => .bindBefore (completes_expression hinner _ _) (fun e s₂ =>
    .bind (.expect rfl) fun t' s₃ => .pure fun r m' hm' m he i hi => ?_) fun _ _ => rfl
  subst hm' hi
  exact .parenthesized he

theorem completes_arguments (s : ParserState) :
    CompletesBy [sign .openParen, sign .closeParen] s (arguments inner turns) anyKind
      (Derives .endOfInput room .arguments) := by
  unfold arguments
  refine .bind (.expect rfl) fun t s₁ => ?_
  refine (CompletesBy.commaList (L := Derives .endOfInput room .argumentsRest) rfl (hinner _) rfl
    (fun _ _ => .argumentsEnd) (fun _ _ _ _ _ _ => .argumentsMore) turns s₁).mono ?_
  rintro i as r (⟨rfl, t', rfl⟩ | ⟨a, as, m, rfl, hne, ha, has⟩) _ rfl
  · exact .argumentsNone
  · exact .argumentsSome hne ha has

/-! ## Statement lists -/

theorem completes_element (s : ParserState) :
    CompletesBy [sign .semicolon] s (element inner) follows
      (Derives .endOfInput room .element) := by
  constructor
  · unfold element
    refine .isAt ?_
    by_cases h : s.current.kind = .kwFunction
    · simp only [h, decide_true, if_true]
      exact (hinner .declaration s).toCompletes.mono (fun _ hk => hk) fun i a r hi ha =>
        .elementFunction (hi.trans h) ha
    · simp only [h, decide_false, Bool.false_eq_true, if_false]
      refine (hinner .statement s).toCompletes.mono (fun _ hk => hk) fun i a r hi ha =>
        .elementStatement ?_ ha
      rw [hi]
      exact h
  · intro rest hrest
    obtain ⟨hw, a, ha⟩ := (hinner .statement s).whole rest hrest
    exact ⟨hw, a, .elementStatement (show TokenKind.semicolon ≠ _ by decide) ha⟩

/-- What ends a list of statements has to be a kind that may follow a statement. -/
theorem completes_elements (stops : List TokenKind) (fuel : Nat) (s : ParserState) :
    CompletesBy [.comments []] s (elements inner stops fuel) (fun k => k ∈ stops && follows k)
      (Derives .endOfInput room (.elements stops)) := by
  have hstop : ∀ rest cs, (peek .endOfInput rest ∈ stops && follows (peek .endOfInput rest)) →
      Derives .endOfInput room (.elements stops) (.comments cs :: rest) (cs.map .comment) rest :=
    fun rest cs h => .elementsEnd (by simpa using (Bool.and_eq_true_iff.mp h).1)
  have hwhole : ∀ rest, (peek .endOfInput rest ∈ stops && follows (peek .endOfInput rest)) →
      (∀ it ∈ [Item.comments []], it.IsWritten) ∧
        ∃ ss, Derives .endOfInput room (.elements stops) ([.comments []] ++ rest) ss rest :=
    fun rest hrest => ⟨List.forall_mem_singleton.mpr .comments, [], hstop rest [] hrest⟩
  refine ⟨?_, hwhole⟩
  induction fuel generalizing s with
  | zero => exact .unexpected
  | succ fuel ih =>
      refine .bind CompletesBy.pendingComments.toCompletes fun comments s₁ =>
        .orNothing (a := comments) (.kind ?_) ?_
      · by_cases h : s₁.current.kind ∈ stops
        · simp only [List.contains_iff_mem, h, if_true]
          refine .pure fun r hr i _ hi => ?_
          obtain ⟨cs, rfl, rfl⟩ := hi
          exact .elementsEnd (hr ▸ h)
        · simp only [List.contains_iff_mem, h, if_false]
          refine .bindBefore (completes_element hinner s₁).toCompletes (fun a s₂ =>
            .bindBefore ⟨ih s₂, hwhole⟩ (fun as s₃ => .pure ?_) fun _ hk => hk)
              fun k hk => (Bool.and_eq_true_iff.mp hk).2
          intro r m' has m hm ha i _ hi
          obtain ⟨cs, rfl, rfl⟩ := hi
          exact .elementsMore (hm ▸ h) ha has
      · rintro r hr i - ⟨cs, rfl, rfl⟩
        exact hstop r cs hr

theorem completes_blockBody (s : ParserState) :
    CompletesBy [sign .openBrace, .comments [], sign .closeBrace] s (blockBody inner turns) anyKind
      (Derives .endOfInput room .blockBody) := by
  unfold blockBody
  refine .bind (.expect rfl) fun t s₁ => .bindBefore (completes_elements hinner _ _ _)
    (fun ss s₂ => .bind (.expect rfl) fun t' s₃ => .pure ?_) fun _ _ => rfl
  rintro r m' rfl m hm i rfl
  exact .blockBody hm

/-! ## Functions -/

theorem completes_signature (name : Option Text) (s : ParserState) :
    CompletesBy [sign .openParen, sign .closeParen, sign .openBrace, .comments [], sign .closeBrace]
      s (do
        let _ ← expect .openParen
        let params ← commaList .closeParen bindingName turns
        let body ← blockBody inner turns
        return ⟨name, params, body⟩) anyKind
      fun i f r => ∃ params ss m, f = (⟨name, params, ss⟩ : Function) ∧
        Derives .endOfInput room .parameters i params m ∧
        Derives .endOfInput room .blockBody m ss r := by
  refine .bind (.expect rfl) fun t s₁ => .bind (.commaList
    (L := Derives .endOfInput room .parametersRest) rfl (fun _ => .bindingName) rfl
    (fun _ _ => .parametersEnd) ?_ turns s₁) fun params s₂ =>
      .bind (completes_blockBody hinner s₂) fun ss s₃ => .pure ?_
  · rintro t i m r a as rfl hm
    exact .parametersMore hm
  · rintro r m hss m' (⟨rfl, t', rfl⟩ | ⟨p, ps, m'', rfl, -, rfl, hps⟩) i rfl
    · exact ⟨[], ss, m, rfl, .parametersNone, hss⟩
    · exact ⟨p :: ps, ss, m, rfl, .parametersSome hps, hss⟩

theorem completes_function (needsName : Bool) (s : ParserState) :
    CompletesBy (Rule.sample .declaration) s (function inner turns needsName) anyKind
      (Derives .endOfInput room (.function needsName)) := by
  have hnamed (t : Token) (s₁ : ParserState) :
      CompletesBy [name, sign .openParen, sign .closeParen, sign .openBrace, .comments [],
        sign .closeBrace] s₁ (do
          let name ← some <$> bindingName
          let _ ← expect .openParen
          let params ← commaList .closeParen bindingName turns
          let body ← blockBody inner turns
          return ⟨name, params, body⟩) anyKind fun i f r => ∀ input,
            input = .taken .kwFunction t.text :: i →
              Derives .endOfInput room (.function needsName) input f r := by
    refine .bind (.map (R := fun i o r => ∃ name, i = .taken .identifier name :: r ∧
      o = some name) .bindingName fun i name r hi => ⟨name, hi, rfl⟩) fun o s₂ =>
        (completes_signature hinner o s₂).mono ?_
    rintro m f r ⟨params, ss, m', rfl, hps, hss⟩ i' ⟨name, rfl, rfl⟩ i rfl
    exact .functionNamed hps hss
  unfold function
  refine .bind (.expect rfl) fun t s₁ => ⟨.isAt ?_, (hnamed t s₁).whole⟩
  by_cases h : s₁.current.kind = .identifier
  · simp only [h, decide_true, if_true]
    exact (hnamed t s₁).toCompletes
  · simp only [h, decide_false, Bool.false_eq_true, if_false]
    cases needsName with
    | true => exact .unexpected_bind
    | false =>
        refine (completes_signature hinner none s₁).toCompletes.mono (fun _ hk => hk) ?_
        rintro m f r - ⟨params, ss, m', rfl, hps, hss⟩ i rfl
        exact .functionPlain hps hss

/-! ## Literals with parts -/

theorem completes_arrayElement (s : ParserState) :
    Completes s (arrayElement inner) (fun k => k = .closeBracket) fun i o r =>
      peek .endOfInput i ≠ .closeBracket → ∀ es r',
        Derives .endOfInput room .arrayElements r es r' →
          Derives .endOfInput room .arrayElements i (o :: es) r' := by
  unfold arrayElement
  refine .ifEat rfl (fun s₁ => .pure fun r t _ es r' h => .arrayHole h) fun hcomma => ?_
  refine .bindBefore (hinner (.assignment .normal) s).toCompletes (fun e s₁ =>
    .orNothing (a := some e) (.isAt ?_) ?_) ?_
  · dsimp only
    by_cases h : s₁.current.kind = .closeBracket
    · simp only [h, decide_true, Bool.not_true, Bool.false_eq_true, if_false]
      refine .pure fun r hr i hi he hne es r' hes =>
        .arrayLast hne (by rwa [hi]) he (hr.trans h) hes
    · simp only [h, decide_false, Bool.not_false, if_true]
      refine .bind (CompletesBy.expect rfl).toCompletes fun t s₂ => .pure ?_
      rintro r m - rfl i hi he hne es r' hes
      exact .arrayMore hne (by rwa [hi]) he hes
  · intro r hr i hi he hne es r' hes
    exact .arrayLast hne (by rwa [hi]) he (by simpa using hr) hes
  · intro k hk
    rw [of_decide_eq_true hk]
    rfl

theorem completes_arrayElements (s : ParserState) :
    CompletesBy [] s (itemsUntil (isAt .closeBracket) (arrayElement inner) turns)
      (fun k => k = .closeBracket) (Derives .endOfInput room .arrayElements) :=
  .itemsBefore (completes_arrayElement hinner) (fun _ => .arrayEnd)
    (fun _ _ _ _ _ hne ho hes => ho hne _ _ hes) turns s

theorem completes_array (s : ParserState) (g : Grammar) :
    CompletesBy [sign .openBracket, sign .closeBracket] s (array inner turns) anyKind
      (Derives .endOfInput room (.primary g)) := by
  unfold array
  refine .bind (.expect rfl) fun t s₁ => .bindBefore (completes_arrayElements hinner s₁)
    (fun es s₂ => .bind (.expect rfl) fun t' s₃ => .pure ?_) fun _ _ => rfl
  rintro r m' rfl m hes i rfl
  exact .primaryArray hes

theorem completes_propertyValue (key : PropertyKey) (s : ParserState) :
    CompletesBy [sign .colon, name] s (propertyValue inner key) follows fun i p r =>
      ∃ t m value, i = .taken .colon t :: m ∧
        Derives .endOfInput room (.rule (.assignment .normal)) m value r ∧ p = .init key value := by
  unfold propertyValue
  refine .bind (.expect rfl) fun t s₁ => .bindBefore (hinner (.assignment .normal) s₁)
    (fun value s₂ => .pure ?_) fun _ hk => hk
  rintro r m hv i rfl
  exact ⟨t.text, m, value, rfl, hv, rfl⟩

theorem completes_accessor (isGetter : Bool) (s : ParserState) :
    Completes s (accessor inner turns isGetter) anyKind fun i p r =>
      Derives .endOfInput room .property
        (.taken .identifier (if isGetter then "get".toList else "set".toList) :: i) p r := by
  unfold accessor
  cases isGetter with
  | true =>
      refine .bind (completes_propertyKey s).toCompletes fun key s₁ => .bind (.expect rfl)
        fun t s₂ => .bind (.expect rfl) fun t' s₃ => .bind (completes_blockBody hinner s₃)
          fun ss s₄ => .pure ?_
      rintro r m hss m' rfl m'' rfl i - ⟨k, t'', rfl, hkey⟩
      exact .propertyGetter hkey hss
  | false =>
      refine .bind (completes_propertyKey s).toCompletes fun key s₁ => .bind (.expect rfl)
        fun t s₂ => .bind .bindingName fun param s₃ => .bind (.expect rfl) fun t' s₄ =>
          .bind (completes_blockBody hinner s₄) fun ss s₅ => .pure ?_
      rintro r m hss m₁ rfl m₂ rfl m₃ rfl i - ⟨k, t'', rfl, hkey⟩
      exact .propertySetter hkey hss

theorem completes_property (s : ParserState) :
    Completes s (property inner turns) follows (Derives .endOfInput room .property) := by
  unfold property
  refine .current ?_
  by_cases h : s.current.kind = .identifier ∧
      (s.current.text = "get".toList ∨ s.current.text = "set".toList)
  · rw [if_pos h]
    have hvalue (s₁ : ParserState) : CompletesBy [sign .colon, name] s₁
        (propertyValue inner (.identifier s.current.text)) follows fun m p r =>
          Derives .endOfInput room .property (.taken .identifier s.current.text :: m) p r := by
      refine (completes_propertyValue hinner _ s₁).mono ?_
      rintro m p r ⟨t', m', value, rfl, hv, rfl⟩
      exact .propertyInit rfl hv
    refine .bind (P := fun i t r => i = .taken .identifier s.current.text :: r)
      (.take (by rw [h.1]; rfl) fun _ => by rw [h.1]) fun t s₁ =>
        .mono (P := fun m p r =>
          Derives .endOfInput room .property (.taken .identifier s.current.text :: m) p r)
          ⟨.isAt ?_, (hvalue s₁).whole⟩ ?_
    · by_cases hc : s₁.current.kind = .colon
      · simp only [hc, decide_true, if_true]
        exact (hvalue s₁).toCompletes
      · simp only [hc, decide_false, Bool.false_eq_true, if_false]
        refine (completes_accessor hinner _ s₁).mono (fun _ _ => rfl) fun m p r _ hp => ?_
        obtain hg | hs := h.2
        · rw [hg] at hp ⊢
          exact hp
        · rw [hs] at hp ⊢
          exact hp
    · rintro m p r hp i - rfl
      exact hp
  · rw [if_neg h]
    refine .bind (completes_propertyKey s).toCompletes fun key s₁ =>
      (completes_propertyValue hinner key s₁).mono ?_
    rintro m p r ⟨t', m', value, rfl, hv, rfl⟩ i - ⟨k, t, rfl, hkey⟩
    exact .propertyInit hkey hv

theorem completes_objectMember (s : ParserState) :
    Completes s (objectMember inner turns) (fun k => k = .closeBrace) fun i p r =>
      peek .endOfInput i ≠ .closeBrace → ∀ ps r', Derives .endOfInput room .members r ps r' →
        Derives .endOfInput room .members i (p :: ps) r' := by
  unfold objectMember
  refine .bindBefore (completes_property hinner s) (fun p s₁ =>
    .orNothing (a := p) (.isAt ?_) ?_) ?_
  · dsimp only
    by_cases h : s₁.current.kind = .closeBrace
    · simp only [h, decide_true, Bool.not_true, Bool.false_eq_true, if_false]
      exact .pure fun r hr i _ hp hne ps r' hps => .membersLast hne hp (hr.trans h) hps
    · simp only [h, decide_false, Bool.not_false, if_true]
      refine .bind (CompletesBy.expect rfl).toCompletes fun t s₂ => .pure ?_
      rintro r m - rfl i - hp hne ps r' hps
      exact .membersMore hne hp hps
  · rintro r hr i - hp hne ps r' hps
    exact .membersLast hne hp (by simpa using hr) hps
  · intro k hk
    rw [of_decide_eq_true hk]
    rfl

theorem completes_members (s : ParserState) :
    CompletesBy [] s (itemsUntil (isAt .closeBrace) (objectMember inner turns) turns)
      (fun k => k = .closeBrace) (Derives .endOfInput room .members) :=
  .itemsBefore (completes_objectMember hinner) (fun _ => .membersEnd)
    (fun _ _ _ _ _ hne hp hps => hp hne _ _ hps) turns s

theorem completes_object {g : Grammar} (hg : g ≠ .noBrace) (s : ParserState) :
    CompletesBy [sign .openBrace, sign .closeBrace] s (object inner turns) anyKind
      (Derives .endOfInput room (.primary g)) := by
  unfold object
  refine .bind (.expect rfl) fun t s₁ => .bindBefore (completes_members hinner s₁)
    (fun ps s₂ => .bind (.expect rfl) fun t' s₃ => .pure ?_) fun _ _ => rfl
  rintro r m' rfl m hps i rfl
  exact .primaryObject hg hps

/-! ## Primary expressions -/

theorem completes_primary (g : Grammar) (s : ParserState) :
    CompletesBy [name] s (primary inner turns g) anyKind
      (Derives .endOfInput room (.primary g)) := by
  have hleaf : ∀ e, isPlain s.current.kind → (∀ r, Derives .endOfInput room (.primary g)
      (.taken s.current.kind s.current.text :: r) e r) →
      Completes s (leaf e) anyKind (Derives .endOfInput room (.primary g)) := by
    intro e hk h
    refine (completes_leaf s hk).mono (fun _ hk => hk) ?_
    rintro i a r - ⟨rfl, rfl⟩
    exact h r
  refine .orName (a := .identifier ['a']) ?_ fun r _ => .primaryName
  unfold primary
  refine .current ?_
  cases hk : s.current.kind with
  | kwThis => exact hleaf _ (by rw [hk]; rfl) fun r => by rw [hk]; exact .primaryThis
  | identifier => exact hleaf _ (by rw [hk]; rfl) fun r => by rw [hk]; exact .primaryName
  | kwNull => exact hleaf _ (by rw [hk]; rfl) fun r => by rw [hk]; exact .primaryNull
  | kwTrue => exact hleaf _ (by rw [hk]; rfl) fun r => by rw [hk]; exact .primaryTrue
  | kwFalse => exact hleaf _ (by rw [hk]; rfl) fun r => by rw [hk]; exact .primaryFalse
  | number => exact completes_number s hk
  | string => exact hleaf _ (by rw [hk]; rfl) fun r => by rw [hk]; exact .primaryString
  | slash => exact .regex (by rw [hk]; rfl) fun text r => .primaryRegex
  | slashEquals => exact .regex (by rw [hk]; rfl) fun text r => .primaryRegex
  | openBracket => exact (completes_array hinner s g).toCompletes
  | openBrace =>
      by_cases hg : g = .noBrace
      · simp only [hg, if_true]
        exact .unexpected
      · simp only [hg, if_false]
        exact (completes_object hinner hg s).toCompletes
  | kwFunction =>
      by_cases hg : g = .noBrace
      · simp only [hg, if_true]
        exact .unexpected
      · simp only [hg, if_false]
        refine .bind (completes_function hinner false s).toCompletes fun f s₁ => .pure ?_
        intro r i hi hf
        exact .primaryFunction hg (hi.trans hk) hf
  | openParen =>
      exact (completes_parenthesized hinner s).toCompletes.mono (fun _ hk => hk) fun i e r hi he =>
        .primaryParenthesized (hi.trans hk) he
  | _ => exact .unexpected

/-! ## Left-hand sides -/

theorem completes_memberStep (base : Expression) (s : ParserState) :
    Completes s (memberStep inner turns base) anyKind (AccessTaken .endOfInput room base) := by
  unfold memberStep
  refine .kind ?_
  cases hk : s.current.kind with
  | dot => exact .member hk fun name s₁ => .pure fun r k e r' he => .memberDot he
  | openBracket =>
      refine .bind (P := fun i t r => i = .taken .openBracket s.current.text :: r)
        (.take (by rw [hk]; rfl) fun _ => by rw [hk]) fun t s₁ =>
          .bindBefore (completes_expression hinner _ s₁) (fun index s₂ =>
            .bind (.expect rfl) fun t' s₃ => .pure ?_) fun _ _ => rfl
      rintro r m' rfl m hindex i - rfl e r' he
      exact .memberBracket hindex he
  | _ =>
      refine .pure fun r hr e r' => ⟨rfl, ?_, ?_⟩
      · rw [hr, hk]
        decide
      · rw [hr, hk]
        decide

theorem completes_memberTail (base : Expression) (s : ParserState) :
    CompletesBy [] s (memberTail inner turns base) follows
      (Derives .endOfInput room (.memberTail base)) := by
  unfold memberTail
  refine .iterate (L := fun base => Derives .endOfInput room (.memberTail base))
    (fun base s => (completes_memberStep hinner base s).mono (fun _ _ => rfl) fun _ _ _ _ h => h)
    ?_ ?_ ?_ turns base s
  · intro base i r h
    obtain ⟨rfl, hd, hb⟩ := h base r
    exact .memberEnd hd hb
  · intro base r hr
    exact .memberEnd (ne_of_follows hr rfl) (ne_of_follows hr rfl)
  · intro base b e i m r h he
    exact h e r he

theorem completes_callStep (callee : Expression) (s : ParserState) :
    Completes s (callStep inner turns callee) follows fun i o r =>
      ∀ e r', match o with
        | none => i = r ∧ peek .endOfInput r ≠ .openParen
        | some b => Derives .endOfInput room (.callTail b) r e r' →
            Derives .endOfInput room (.callTail callee) i e r' := by
  unfold callStep
  refine .isAt ?_
  by_cases h : s.current.kind = .openParen
  · simp only [h, decide_true, if_true]
    refine .bind (completes_arguments hinner s).toCompletes fun args s₁ =>
      .bindBefore (completes_memberTail hinner _ s₁) (fun b s₂ => .pure ?_) fun _ hk => hk
    intro r m hb i hi hargs e r' he
    exact .callMore (hi.trans h) hargs hb he
  · simp only [h, decide_false, Bool.false_eq_true, if_false]
    refine .pure fun r hr e r' => ⟨rfl, ?_⟩
    rw [hr]
    exact h

theorem completes_callTail (base : Expression) (s : ParserState) :
    CompletesBy [] s (iterate (callStep inner turns) turns base) follows
      (Derives .endOfInput room (.callTail base)) := by
  refine .iterate (L := fun base => Derives .endOfInput room (.callTail base))
    (completes_callStep hinner) ?_ ?_ ?_ turns base s
  · intro base i r h
    obtain ⟨rfl, hne⟩ := h base r
    exact .callEnd hne
  · intro base r hr
    exact .callEnd (ne_of_follows hr rfl)
  · intro base b e i m r h he
    exact h e r he

theorem completes_chainHead (g : Grammar) (s : ParserState) :
    CompletesBy [name] s (chainHead inner turns g) follows
      (Derives .endOfInput room (.chainHead g)) := by
  refine .orName (a := .identifier ['a']) ?_ fun r _ =>
    .headPrimary (show TokenKind.identifier ≠ _ by decide) .primaryName
  unfold chainHead
  refine .isAt ?_
  by_cases h : s.current.kind = .kwNew
  · simp only [h, decide_true, if_true]
    exact (hinner .construction s).toCompletes.mono (fun _ hk => hk) fun i e r hi he =>
      .headNew (hi.trans h) he
  · simp only [h, decide_false, Bool.false_eq_true, if_false]
    refine (completes_primary hinner g s).toCompletes.mono (fun _ _ => rfl) fun i e r hi he =>
      .headPrimary ?_ he
    rw [hi]
    exact h

theorem completes_leftHandSide (g : Grammar) (s : ParserState) :
    CompletesBy [name] s (leftHandSide inner turns g) follows
      (Derives .endOfInput room (.leftHandSide g)) := by
  unfold leftHandSide
  refine .bindBefore (completes_chainHead hinner g s) (fun head s₁ =>
    .bindBefore (completes_memberTail hinner head s₁) (fun base s₂ =>
      (completes_callTail hinner base s₂).mono fun m' e r he m hbase i hhead => ?_)
      fun _ hk => hk) fun _ hk => hk
  exact .leftHandSide hhead hbase he

theorem completes_construction (s : ParserState) :
    CompletesBy [sign .kwNew, name] s (construction inner turns) follows
      (Derives .endOfInput room (.body .construction)) := by
  unfold construction
  refine .bind (.expect rfl) fun t s₁ => .bindBefore (completes_chainHead hinner .normal s₁)
    (fun head s₂ => .bindBefore (completes_memberTail hinner head s₂) (fun callee s₃ =>
      .orNothing (a := .construct callee []) (.isAt ?_) ?_) fun _ hk => hk) fun _ hk => hk
  · by_cases h : s₃.current.kind = .openParen
    · simp only [h, decide_true, if_true]
      refine .bind (completes_arguments hinner s₃).toCompletes fun args s₄ => .pure ?_
      rintro r m' hm' hargs m hcallee i hhead i' rfl
      exact .constructionApplied hhead hcallee (hm'.trans h) hargs
    · simp only [h, decide_false, Bool.false_eq_true, if_false]
      refine .pure ?_
      rintro r hr m hcallee i hhead i' rfl
      refine .constructionBare hhead hcallee ?_
      rw [hr]
      exact h
  · rintro r hr m hcallee i hhead i' rfl
    exact .constructionBare hhead hcallee (ne_of_follows hr rfl)

/-! ## Operators -/

omit hinner in
theorem completes_postfixed (room : Nat) (operand : Expression) (s : ParserState) :
    CompletesBy [] s (postfixed operand) follows
      (Derives .endOfInput room (.postfixed operand)) := by
  refine .orNothing (a := operand) ?_ fun r hr => .postfixEnd (postfixOperator?_of_follows hr)
  unfold postfixed
  refine .kind ?_
  cases hop : s.current.kind.postfixOperator? with
  | none => exact .pure fun r hr => .postfixEnd (by rw [hr, hop])
  | some op =>
      refine .bind (P := fun i t r => i = .taken s.current.kind s.current.text :: r)
        (.take (isPlain_of_postfixOperator? hop) fun _ => rfl) fun t s₁ => .pure ?_
      rintro r i - rfl
      exact .postfixMore hop

theorem completes_unary (g : Grammar) (s : ParserState) :
    CompletesBy [name] s (unary inner turns g) follows
      (Derives .endOfInput room (.body (.operand g))) := by
  have hplain (s : ParserState) : CompletesBy [name] s (do
      let e ← leftHandSide inner turns g
      postfixed e) follows fun i e r => (peek .endOfInput i).prefixOperator? = none →
        Derives .endOfInput room (.body (.operand g)) i e r := by
    refine .bindBefore (completes_leftHandSide hinner g s) (fun e s₁ =>
      (completes_postfixed room e s₁).mono fun m a r ha i he hi => ?_) fun _ hk => hk
    exact .unaryPostfix hi he ha
  constructor
  · unfold unary
    refine .kind ?_
    cases hop : s.current.kind.prefixOperator? with
    | none =>
        exact (hplain s).toCompletes.mono (fun _ hk => hk) fun i e r hi he => he (by rw [hi, hop])
    | some op =>
        refine .bind (P := fun i t r => i = .taken s.current.kind s.current.text :: r)
          (.take (isPlain_of_prefixOperator? hop) fun _ => rfl) fun t s₁ =>
            .bindBefore (hinner (.operand g.operand) s₁) (fun operand s₂ => .pure ?_)
              fun _ hk => hk
        rintro r m he i - rfl
        exact .unaryPrefix hop he
  · intro rest hrest
    obtain ⟨hw, e, he⟩ := (hplain s).whole rest hrest
    exact ⟨hw, e, he rfl⟩

theorem completes_binary (fuel : Nat) (left : Expression) (p : Nat) (g : Grammar)
    (s : ParserState) :
    CompletesBy [] s (binary inner turns fuel left p g) follows
      (Derives .endOfInput room (.binary left p g)) := by
  induction fuel generalizing left p g s with
  | zero => exact .orNothing .unexpected fun r hr => .binaryEnd (infixOperator?_of_follows hr p g)
  | succ fuel ih =>
      refine .orNothing (a := left) ?_ fun r hr => .binaryEnd (infixOperator?_of_follows hr p g)
      unfold binary
      rw [infixOperator, bind_assoc]
      refine .kind ?_
      rw [pure_bind]
      cases hop : infixOperator? p g s.current.kind with
      | none => exact .pure fun r hr => .binaryEnd (by rw [hr, hop])
      | some op =>
          refine .bind (P := fun i t r => i = .taken s.current.kind s.current.text :: r)
            (.take (isPlain_of_infixOperator? hop) fun _ => rfl) fun t s₁ =>
              .bindBefore (completes_unary hinner g.operand s₁) (fun operand s₂ =>
                .bindBefore (ih operand op.rightPower g.operand s₂) (fun right s₃ =>
                  (ih (op.apply left right) p g s₃).mono ?_) fun _ hk => hk) fun _ hk => hk
          rintro m e r he m' hright m'' hoperand i - rfl
          exact .binaryMore hop hoperand hright he

theorem completes_conditionalRest (test : Expression) (g : Grammar) (s : ParserState) :
    CompletesBy [] s (conditionalRest inner test g) follows
      (Derives .endOfInput room (.conditionalRest test g)) := by
  refine .orNothing (a := test) ?_ fun r hr => .conditionalEnd (ne_of_follows hr rfl)
  unfold conditionalRest
  refine .ifEat rfl (fun s₁ => .bindBefore (hinner (.assignment .normal) s₁) (fun consequent s₂ =>
    .bind (.expect rfl) fun t' s₃ => .bindBefore (hinner (.assignment g.operand) s₃)
      (fun alternate s₄ => .pure ?_) fun _ hk => hk) fun _ _ => rfl)
      fun h => .pure fun r hr => .conditionalEnd (by rwa [hr])
  rintro r m ha m' rfl i hc t
  exact .conditionalMore hc ha

theorem completes_operatorsRest (operand : Expression) (g : Grammar) (s : ParserState) :
    CompletesBy [] s (operatorsRest inner turns operand g) follows
      (Derives .endOfInput room (.operatorsRest operand g)) := by
  unfold operatorsRest
  refine .bindBefore (completes_binary hinner turns operand 0 g s) (fun test s₁ =>
    (completes_conditionalRest hinner test g s₁).mono fun m e r he i htest => ?_) fun _ hk => hk
  exact .operatorsRest htest he

theorem completes_assignmentRest (left : Expression) (g : Grammar) (s : ParserState) :
    CompletesBy [] s (assignmentRest inner turns left g) follows
      (Derives .endOfInput room (.assignmentRest left g)) := by
  have hplain (s : ParserState) : CompletesBy [] s (do
      let operand ← postfixed left
      operatorsRest inner turns operand g) follows fun i e r =>
        (peek .endOfInput i).assignOperator? = none →
          Derives .endOfInput room (.assignmentRest left g) i e r := by
    refine .bindBefore (completes_postfixed room left s) (fun operand s₁ =>
      (completes_operatorsRest hinner operand g s₁).mono fun m e r he i ho hi => ?_)
      fun _ hk => hk
    exact .assignEnd hi ho he
  constructor
  · unfold assignmentRest
    refine .kind ?_
    cases hop : s.current.kind.assignOperator? with
    | none =>
        exact (hplain s).toCompletes.mono (fun _ hk => hk) fun i e r hi he => he (by rw [hi, hop])
    | some op =>
        refine .bind (P := fun i t r => i = .taken s.current.kind s.current.text :: r)
          (.take (isPlain_of_assignOperator? hop) fun _ => rfl) fun t s₁ =>
            .bindBefore (hinner (.assignment g.operand) s₁) (fun value s₂ => .pure ?_)
              fun _ hk => hk
        rintro r m hv i - rfl
        exact .assignMore hop hv
  · intro rest hrest
    obtain ⟨hw, e, he⟩ := (hplain s).whole rest hrest
    exact ⟨hw, e, he (assignOperator?_of_follows hrest)⟩

theorem completes_assignment (g : Grammar) (s : ParserState) :
    Completes s (assignment inner turns g) follows
      (Derives .endOfInput room (.body (.assignment g))) := by
  unfold assignment
  refine .kind ?_
  by_cases h : s.current.kind.isPrefixOperator
  · simp only [h, if_true]
    refine .bindBefore (completes_unary hinner g s).toCompletes (fun operand s₁ =>
      (completes_operatorsRest hinner operand g s₁).mono fun m e r he i hi ho => ?_)
      fun _ hk => hk
    exact .assignmentPrefixed (by rw [hi]; exact h) ho he
  · simp only [h, Bool.false_eq_true, if_false]
    refine .bindBefore (completes_leftHandSide hinner g s).toCompletes (fun left s₁ =>
      (completes_assignmentRest hinner left g s₁).mono fun m e r he i hi hl => ?_)
      fun _ hk => hk
    refine .assignmentPlain ?_ hl he
    rw [hi]
    simpa using h

end Expressions

end Parser
end EcmaSyntax
