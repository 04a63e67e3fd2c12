import EcmaSyntax.Proofs.Grammar.Yields

/-!
# The parser follows the grammar

**Hypothesis.**  Each function of the parser takes the rules one level deeper; they are
taken to follow the grammar with some room.

**Result.**  `yields_rule`: whatever a rule takes and yields, the grammar derives with the
same room.  It is an induction on the room, with one lemma for each function of the parser.
-/

namespace EcmaSyntax
namespace Parser

variable {last : TokenKind} {room : Nat} {inner : Inner} {turns : Nat}

/-- The rules inside a rule follow the grammar. -/
def Follows (last : TokenKind) (room : Nat) (inner : Inner) : Prop :=
  ∀ (r : Rule) (s : ParserState), Yields last s (inner r) (Derives last room (.rule r))

/-! ## Literals and names -/

theorem yields_propertyKey (s : ParserState) :
    Yields last s propertyKey fun i key r =>
      ∃ k t, i = .taken k t :: r ∧ propertyKey? k t = some key := by
  unfold propertyKey
  refine .current ?_
  cases hkey : propertyKey? s.current.kind s.current.text with
  | none => exact .unexpected
  | some key =>
      refine .bind (P := fun i t r => i = .taken s.current.kind s.current.text :: r)
        (.take (isPlain_of_propertyKey? hkey) fun _ => rfl) fun t s₁ => .pure ?_
      rintro r _ i _ rfl
      exact ⟨_, _, rfl, hkey⟩

theorem yields_leaf {e : Expression} (s : ParserState) (hk : isPlain s.current.kind) :
    Yields last s (leaf e) fun i a r =>
      i = .taken s.current.kind s.current.text :: r ∧ a = e := by
  unfold leaf
  refine .bind (P := fun i t r => i = .taken s.current.kind s.current.text :: r)
    (.take hk fun _ => rfl) fun t s₁ => .pure ?_
  rintro r _ i _ rfl
  exact ⟨rfl, rfl⟩

theorem yields_number {g : Grammar} (s : ParserState) (hk : s.current.kind = .number) :
    Yields last s (number s.current) (Derives last room (.primary g)) := by
  unfold number
  cases hv : numberValue? s.current.text with
  | none => exact .throw
  | some value =>
      refine .bind (P := fun i t r => i = .taken .number s.current.text :: r)
        (.take (by rw [hk]; rfl) fun _ => by rw [hk]) fun t s₁ => .pure ?_
      rintro r _ i _ rfl
      exact .primaryNumber hv

theorem yields_regex {g : Grammar} (s : ParserState) (hk : opensRegex s.current.kind) :
    Yields last s (regex s.current) (Derives last room (.primary g)) := by
  intro e s' hrun rest hrest
  unfold regex at hrun
  obtain ⟨t, s₁, h₁, hrun⟩ := run_bind_ok.mp hrun
  obtain ⟨_, s₂, h₂, hrun⟩ := run_bind_ok.mp hrun
  cases h₂
  obtain ⟨t', s₃, h₃, hrun⟩ := run_bind_ok.mp hrun
  change EStateM.Result.ok (Expression.regex (regexParts t.text).1 (regexParts t.text).2) s₃ =
    .ok e s' at hrun
  cases hrun
  exact ⟨_, .literal h₁ rfl hk rfl h₃ .refl, .primaryRegex⟩

section Expressions

variable (hinner : Follows last room inner)
include hinner

/-! ## Sequences and lists -/

theorem yields_sequenceRest (first : Expression) (g : Grammar) (s : ParserState) :
    Yields last s (sequenceRest inner turns first g)
      (Derives last room (.sequenceRest first g)) := by
  unfold sequenceRest
  refine .isAt ?_
  by_cases h : s.current.kind = .comma
  · simp only [h, decide_true, if_true]
    refine .bind (P := Derives last room (.operands g)) ?_ fun es s₁ => .pure ?_
    · refine .itemsUntil .afterComma (hinner _) ?_ ?_ turns s
      · rintro i r (⟨h, -⟩ | ⟨-, rfl, hr⟩)
        · cases h
        · exact .operandsEnd hr
      · rintro i m m' r a as (⟨-, t, rfl⟩ | ⟨h, -⟩) hP hL
        · exact .operandsMore hP hL
        · cases h
    · intro r _ i hi hes
      exact .sequenceMore (hi.trans h) hes
  · simp only [h, decide_false, Bool.false_eq_true, if_false]
    refine .pure fun r hr => .sequenceEnd ?_
    rw [hr]
    exact h

theorem yields_expression (g : Grammar) (s : ParserState) :
    Yields last s (expression inner turns g) (Derives last room (.expression g)) := by
  unfold expression
  refine .bind (hinner _ _) fun first s₁ => ?_
  refine (yields_sequenceRest hinner first g s₁).mono fun m e r _ hm i _ hi => ?_
  exact .expression hi hm

theorem yields_parenthesized (s : ParserState) :
    Yields last s (parenthesized inner turns) (Derives last room .parenthesized) := by
  unfold parenthesized
  refine .bind (.expect rfl) fun t s₁ => .bind (yields_expression hinner _ _) fun e s₂ =>
    .bind (.expect rfl) fun t' s₃ => .pure fun r _ m' _ hm' m _ he i _ hi => ?_
  subst hm' hi
  exact .parenthesized he

theorem yields_arguments (s : ParserState) :
    Yields last s (arguments inner turns) (Derives last room .arguments) := by
  unfold arguments
  refine .bind (.expect rfl) fun t s₁ => ?_
  refine (Yields.commaList (L := Derives last room .argumentsRest) rfl (hinner _)
    (fun _ _ => .argumentsEnd) (fun _ _ _ _ _ _ => .argumentsMore) turns s₁).mono ?_
  rintro i as r - (⟨rfl, t', rfl⟩ | ⟨a, as, m, rfl, hne, ha, has⟩) _ - rfl
  · exact .argumentsNone
  · exact .argumentsSome hne ha has

/-! ## Statement lists -/

theorem yields_element (s : ParserState) :
    Yields last s (element inner) (Derives last room .element) := by
  unfold element
  refine .isAt ?_
  by_cases h : s.current.kind = .kwFunction
  · simp only [h, decide_true, if_true]
    exact (hinner _ s).mono fun i a r hi ha => .elementFunction (hi.trans h) ha
  · simp only [h, decide_false, Bool.false_eq_true, if_false]
    refine (hinner _ s).mono fun i a r hi ha => .elementStatement ?_ ha
    rw [hi]
    exact h

theorem yields_elements (stops : List TokenKind) (fuel : Nat) (s : ParserState) :
    Yields last s (elements inner stops fuel) (Derives last room (.elements stops)) := by
  induction fuel generalizing s with
  | zero => exact .unexpected
  | succ fuel ih =>
      refine .bind .pendingComments fun comments s₁ => .kind ?_
      by_cases h : s₁.current.kind ∈ stops
      · simp only [List.contains_iff_mem, h, if_true]
        refine .pure fun r hr i _ hi => ?_
        obtain ⟨cs, rfl, rfl⟩ := hi
        exact .elementsEnd (hr ▸ h)
      · simp only [List.contains_iff_mem, h, if_false]
        refine .bind (yields_element hinner s₁) fun a s₂ => .bind (ih s₂) fun as s₃ => .pure ?_
        intro r _ m' _ has m hm ha i _ hi
        obtain ⟨cs, rfl, rfl⟩ := hi
        exact .elementsMore (hm ▸ h) ha has

theorem yields_blockBody (s : ParserState) :
    Yields last s (blockBody inner turns) (Derives last room .blockBody) := by
  unfold blockBody
  refine .bind (.expect rfl) fun t s₁ => .bind (yields_elements hinner _ _ _) fun ss s₂ =>
    .bind (.expect rfl) fun t' s₃ => .pure ?_
  rintro r _ m' _ rfl m _ hm i _ rfl
  exact .blockBody hm

/-! ## Functions -/

theorem yields_signature (name : Option Text) (s : ParserState) :
    Yields last s (do
        let _ ← expect .openParen
        let params ← commaList .closeParen bindingName turns
        let body ← blockBody inner turns
        return ⟨name, params, body⟩)
      fun i f r => ∃ params ss m, f = (⟨name, params, ss⟩ : Function) ∧
        Derives last room .parameters i params m ∧ Derives last room .blockBody m ss r := by
  refine .bind (.expect rfl) fun t s₁ => .bind (.commaList
    (L := Derives last room .parametersRest) rfl (fun _ => .bindingName)
    (fun _ _ => .parametersEnd) ?_ turns s₁) fun params s₂ =>
      .bind (yields_blockBody hinner s₂) fun ss s₃ => .pure ?_
  · rintro t i m r a as rfl hm
    exact .parametersMore hm
  · rintro r _ m _ hss m' _ (⟨rfl, t', rfl⟩ | ⟨p, ps, m'', rfl, -, rfl, hps⟩) i _ rfl
    · exact ⟨[], ss, m, rfl, .parametersNone, hss⟩
    · exact ⟨p :: ps, ss, m, rfl, .parametersSome hps, hss⟩

theorem yields_function (needsName : Bool) (s : ParserState) :
    Yields last s (function inner turns needsName) (Derives last room (.function needsName)) := by
  unfold function
  refine .bind (.expect rfl) fun t s₁ => .isAt ?_
  by_cases h : s₁.current.kind = .identifier
  · simp only [h, decide_true, if_true]
    refine .bind (.map (R := fun i o r => ∃ name, i = .taken .identifier name :: r ∧
      o = some name) .bindingName fun i name r _ hi => ⟨name, hi, rfl⟩) fun o s₂ => ?_
    refine (yields_signature hinner o s₂).mono ?_
    rintro m f r - ⟨params, ss, m', rfl, hps, hss⟩ i' - ⟨name, rfl, rfl⟩ i - rfl
    exact .functionNamed hps hss
  · simp only [h, decide_false, Bool.false_eq_true, if_false]
    cases needsName with
    | true => exact .unexpected_bind
    | false =>
        refine (yields_signature hinner none s₁).mono ?_
        rintro m f r - ⟨params, ss, m', rfl, hps, hss⟩ i - rfl
        exact .functionPlain hps hss

/-! ## Literals with parts -/

theorem yields_arrayElement (s : ParserState) :
    Yields last s (arrayElement inner) fun i o r =>
      peek last i ≠ .closeBracket → ∀ es r', Derives last room .arrayElements r es r' →
        Derives last room .arrayElements i (o :: es) r' := by
  unfold arrayElement
  refine .ifEat rfl (fun s₁ => ?_) fun s₁ => ?_
  · exact .pure fun r _ t _ es r' h => .arrayHole h
  · refine .bind (hinner _ s₁) fun e s₂ => .isAt ?_
    dsimp only
    by_cases h : s₂.current.kind = .closeBracket
    · simp only [h, decide_true, Bool.not_true, Bool.false_eq_true, if_false]
      exact .pure fun r hr i _ he hne hne' es r' hes =>
        .arrayLast hne' hne he (hr.trans h) hes
    · simp only [h, decide_false, Bool.not_false, if_true]
      refine .bind (.expect rfl) fun t s₃ => .pure ?_
      rintro r _ m _ rfl i _ he hne hne' es r' hes
      exact .arrayMore hne' hne he hes

theorem yields_arrayElements (s : ParserState) :
    Yields last s (itemsUntil (isAt .closeBracket) (arrayElement inner) turns)
      (Derives last room .arrayElements) := by
  refine .itemsUntil (E := fun i b r => i = r ∧ (b = true ↔ peek last i = .closeBracket))
    (fun s₁ => ?_) (yields_arrayElement hinner) ?_ ?_ turns s
  · refine .isAt (f := Pure.pure) (.pure fun r hr => ⟨rfl, ?_⟩)
    rw [hr, decide_eq_true_iff]
  · rintro i r ⟨rfl, h⟩
    exact .arrayEnd (h.mp rfl)
  · rintro i m m' r o es ⟨rfl, h⟩ ho hes
    exact ho (fun hi => by simpa using h.mpr hi) es r hes

theorem yields_array (s : ParserState) (g : Grammar) :
    Yields last s (array inner turns) (Derives last room (.primary g)) := by
  unfold array
  refine .bind (.expect rfl) fun t s₁ => .bind (yields_arrayElements hinner s₁) fun es s₂ =>
    .bind (.expect rfl) fun t' s₃ => .pure ?_
  rintro r _ m' _ rfl m _ hes i _ rfl
  exact .primaryArray hes

theorem yields_propertyValue (key : PropertyKey) (s : ParserState) :
    Yields last s (propertyValue inner key) fun i p r => ∃ t m value, i = .taken .colon t :: m ∧
      Derives last room (.rule (.assignment .normal)) m value r ∧ p = .init key value := by
  unfold propertyValue
  refine .bind (.expect rfl) fun t s₁ => .bind (hinner _ s₁) fun value s₂ => .pure ?_
  rintro r _ m _ hv i _ rfl
  exact ⟨t.text, m, value, rfl, hv, rfl⟩

theorem yields_accessor (isGetter : Bool) (s : ParserState) :
    Yields last s (accessor inner turns isGetter) fun i p r =>
      Derives last room .property
        (.taken .identifier (if isGetter then "get".toList else "set".toList) :: i) p r := by
  unfold accessor
  refine .bind (yields_propertyKey s) fun key s₁ => .bind (.expect rfl) fun t s₂ => ?_
  cases isGetter with
  | true =>
      refine .bind (.expect rfl) fun t' s₃ => .bind (yields_blockBody hinner s₃) fun ss s₄ =>
        .pure ?_
      rintro r _ m _ hss m' _ rfl m'' _ rfl i _ ⟨k, t'', rfl, hkey⟩
      exact .propertyGetter hkey hss
  | false =>
      refine .bind .bindingName fun param s₃ => .bind (.expect rfl) fun t' s₄ =>
        .bind (yields_blockBody hinner s₄) fun ss s₅ => .pure ?_
      rintro r _ m _ hss m₁ _ rfl m₂ _ rfl m₃ _ rfl i _ ⟨k, t'', rfl, hkey⟩
      exact .propertySetter hkey hss

theorem yields_property (s : ParserState) :
    Yields last s (property inner turns) (Derives last room .property) := by
  unfold property
  refine .current ?_
  by_cases h : s.current.kind = .identifier ∧
      (s.current.text = "get".toList ∨ s.current.text = "set".toList)
  · rw [if_pos h]
    refine .bind (P := fun i t r => i = .taken .identifier s.current.text :: r)
      (.take (by rw [h.1]; rfl) fun _ => by rw [h.1]) fun t s₁ => .isAt ?_
    by_cases hc : s₁.current.kind = .colon
    · simp only [hc, decide_true, if_true]
      refine (yields_propertyValue hinner _ s₁).mono ?_
      rintro m p r - ⟨t', m', value, rfl, hv, rfl⟩ i - rfl
      exact .propertyInit rfl hv
    · simp only [hc, decide_false, Bool.false_eq_true, if_false]
      refine (yields_accessor hinner _ s₁).mono ?_
      rintro m p r - hp i - rfl
      obtain hg | hs := h.2
      · rw [hg] at hp ⊢
        exact hp
      · rw [hs] at hp ⊢
        exact hp
  · rw [if_neg h]
    refine .bind (yields_propertyKey s) fun key s₁ => (yields_propertyValue hinner key s₁).mono ?_
    rintro m p r - ⟨t', m', value, rfl, hv, rfl⟩ i - ⟨k, t, rfl, hkey⟩
    exact .propertyInit hkey hv

theorem yields_objectMember (s : ParserState) :
    Yields last s (objectMember inner turns) fun i p r =>
      peek last i ≠ .closeBrace → ∀ ps r', Derives last room .members r ps r' →
        Derives last room .members i (p :: ps) r' := by
  unfold objectMember
  refine .bind (yields_property hinner s) fun p s₁ => .isAt ?_
  dsimp only
  by_cases h : s₁.current.kind = .closeBrace
  · simp only [h, decide_true, Bool.not_true, Bool.false_eq_true, if_false]
    exact .pure fun r hr i _ hp hne ps r' hps => .membersLast hne hp (hr.trans h) hps
  · simp only [h, decide_false, Bool.not_false, if_true]
    refine .bind (.expect rfl) fun t s₃ => .pure ?_
    rintro r _ m _ rfl i _ hp hne ps r' hps
    exact .membersMore hne hp hps

theorem yields_object {g : Grammar} (hg : g ≠ .noBrace) (s : ParserState) :
    Yields last s (object inner turns) (Derives last room (.primary g)) := by
  unfold object
  refine .bind (.expect rfl) fun t s₁ => .bind (P := Derives last room .members) ?_
    fun ps s₂ => .bind (.expect rfl) fun t' s₃ => .pure ?_
  · refine .itemsUntil (E := fun i b r => i = r ∧ (b = true ↔ peek last i = .closeBrace))
      (fun s₁ => ?_) (yields_objectMember hinner) ?_ ?_ turns s₁
    · refine .isAt (f := Pure.pure) (.pure fun r hr => ⟨rfl, ?_⟩)
      rw [hr, decide_eq_true_iff]
    · rintro i r ⟨rfl, h⟩
      exact .membersEnd (h.mp rfl)
    · rintro i m m' r p ps ⟨rfl, h⟩ hp hps
      exact hp (fun hi => by simpa using h.mpr hi) ps r hps
  · rintro r _ m' _ rfl m _ hps i _ rfl
    exact .primaryObject hg hps

/-! ## Primary expressions -/

theorem yields_primary (g : Grammar) (s : ParserState) :
    Yields last s (primary inner turns g) (Derives last room (.primary g)) := by
  have hleaf : ∀ e, isPlain s.current.kind → (∀ r, Derives last room (.primary g)
      (.taken s.current.kind s.current.text :: r) e r) →
      Yields last s (leaf e) (Derives last room (.primary g)) := by
    intro e hk h
    refine (yields_leaf s hk).mono ?_
    rintro i a r - ⟨rfl, rfl⟩
    exact h r
  unfold primary
  refine .current ?_
  cases hk : s.current.kind with
  | kwThis => exact hleaf _ (by rw [hk]; rfl) fun r => by rw [hk]; exact .primaryThis
  | identifier => exact hleaf _ (by rw [hk]; rfl) fun r => by rw [hk]; exact .primaryName
  | kwNull => exact hleaf _ (by rw [hk]; rfl) fun r => by rw [hk]; exact .primaryNull
  | kwTrue => exact hleaf _ (by rw [hk]; rfl) fun r => by rw [hk]; exact .primaryTrue
  | kwFalse => exact hleaf _ (by rw [hk]; rfl) fun r => by rw [hk]; exact .primaryFalse
  | number => exact yields_number s hk
  | string => exact hleaf _ (by rw [hk]; rfl) fun r => by rw [hk]; exact .primaryString
  | slash => exact yields_regex s (by rw [hk]; rfl)
  | slashEquals => exact yields_regex s (by rw [hk]; rfl)
  | openBracket => exact yields_array hinner s g
  | openBrace =>
      by_cases hg : g = .noBrace
      · simp only [hg, if_true]
        exact .unexpected
      · simp only [hg, if_false]
        exact yields_object hinner hg s
  | kwFunction =>
      by_cases hg : g = .noBrace
      · simp only [hg, if_true]
        exact .unexpected
      · simp only [hg, if_false]
        refine .bind (yields_function hinner false s) fun f s₁ => .pure fun r _ i hi hf => ?_
        exact .primaryFunction hg (hi.trans hk) hf
  | openParen =>
      exact (yields_parenthesized hinner s).mono fun i e r hi he =>
        .primaryParenthesized (hi.trans hk) he
  | _ => exact .unexpected

/-! ## Left-hand sides -/

/-- What one access has taken. -/
def AccessTaken (last : TokenKind) (room : Nat) (base : Expression) (i : List Item)
    (o : Option Expression) (r : List Item) : Prop :=
  ∀ e r', match o with
    | none => i = r ∧ peek last r ≠ .dot ∧ peek last r ≠ .openBracket
    | some b => Derives last room (.memberTail b) r e r' →
        Derives last room (.memberTail base) i e r'

theorem yields_memberStep (base : Expression) (s : ParserState) :
    Yields last s (memberStep inner turns base) (AccessTaken last room base) := by
  unfold memberStep
  refine .kind ?_
  cases hk : s.current.kind with
  | dot => exact .member hk fun name s₁ => .pure fun r _ k _ e r' he => .memberDot he
  | openBracket =>
      refine .bind (P := fun i t r => i = .taken .openBracket s.current.text :: r)
        (.take (by rw [hk]; rfl) fun _ => by rw [hk]) fun t s₁ =>
          .bind (yields_expression hinner _ s₁) fun index s₂ =>
            .bind (.expect rfl) fun t' s₃ => .pure ?_
      rintro r _ m' _ rfl m _ hindex i _ rfl e r' he
      exact .memberBracket hindex he
  | _ =>
      refine .pure fun r hr e r' => ⟨rfl, ?_, ?_⟩
      · rw [hr, hk]
        decide
      · rw [hr, hk]
        decide

theorem yields_memberTail (base : Expression) (s : ParserState) :
    Yields last s (memberTail inner turns base) (Derives last room (.memberTail base)) := by
  unfold memberTail
  refine .iterate (L := fun base => Derives last room (.memberTail base))
    (yields_memberStep hinner) ?_ ?_ turns base s
  · intro base i r h
    obtain ⟨rfl, hd, hb⟩ := h base r
    exact .memberEnd hd hb
  · intro base b e i m r h he
    exact h e r he

theorem yields_callStep (callee : Expression) (s : ParserState) :
    Yields last s (callStep inner turns callee) fun i o r =>
      ∀ e r', match o with
        | none => i = r ∧ peek last r ≠ .openParen
        | some b => Derives last room (.callTail b) r e r' →
            Derives last room (.callTail callee) i e r' := by
  unfold callStep
  refine .isAt ?_
  by_cases h : s.current.kind = .openParen
  · simp only [h, decide_true, if_true]
    refine .bind (yields_arguments hinner s) fun args s₁ =>
      .bind (yields_memberTail hinner _ s₁) fun b s₂ => .pure ?_
    intro r _ m _ hb i hi hargs e r' he
    exact .callMore (hi.trans h) hargs hb he
  · simp only [h, decide_false, Bool.false_eq_true, if_false]
    refine .pure fun r hr e r' => ⟨rfl, ?_⟩
    rw [hr]
    exact h

theorem yields_callTail (base : Expression) (s : ParserState) :
    Yields last s (iterate (callStep inner turns) turns base)
      (Derives last room (.callTail base)) := by
  refine .iterate (L := fun base => Derives last room (.callTail base))
    (yields_callStep hinner) ?_ ?_ turns base s
  · intro base i r h
    obtain ⟨rfl, hne⟩ := h base r
    exact .callEnd hne
  · intro base b e i m r h he
    exact h e r he

theorem yields_chainHead (g : Grammar) (s : ParserState) :
    Yields last s (chainHead inner turns g) (Derives last room (.chainHead g)) := by
  unfold chainHead
  refine .isAt ?_
  by_cases h : s.current.kind = .kwNew
  · simp only [h, decide_true, if_true]
    exact (hinner _ s).mono fun i e r hi he => .headNew (hi.trans h) he
  · simp only [h, decide_false, Bool.false_eq_true, if_false]
    refine (yields_primary hinner g s).mono fun i e r hi he => .headPrimary ?_ he
    rw [hi]
    exact h

theorem yields_leftHandSide (g : Grammar) (s : ParserState) :
    Yields last s (leftHandSide inner turns g) (Derives last room (.leftHandSide g)) := by
  unfold leftHandSide
  refine .bind (yields_chainHead hinner g s) fun head s₁ =>
    .bind (yields_memberTail hinner head s₁) fun base s₂ =>
      (yields_callTail hinner base s₂).mono fun m' e r _ he m _ hbase i _ hhead => ?_
  exact .leftHandSide hhead hbase he

theorem yields_construction (s : ParserState) :
    Yields last s (construction inner turns) (Derives last room (.body .construction)) := by
  unfold construction
  refine .bind (.expect rfl) fun t s₁ => .bind (yields_chainHead hinner _ s₁) fun head s₂ =>
    .bind (yields_memberTail hinner head s₂) fun callee s₃ => .isAt ?_
  by_cases h : s₃.current.kind = .openParen
  · simp only [h, decide_true, if_true]
    refine .bind (yields_arguments hinner s₃) fun args s₄ => .pure ?_
    rintro r _ m' hm' hargs m _ hcallee i _ hhead i' _ rfl
    exact .constructionApplied hhead hcallee (hm'.trans h) hargs
  · simp only [h, decide_false, Bool.false_eq_true, if_false]
    refine .pure ?_
    rintro r hr m _ hcallee i _ hhead i' _ rfl
    refine .constructionBare hhead hcallee ?_
    rw [hr]
    exact h

/-! ## Operators -/

omit hinner in
theorem yields_postfixed (room : Nat) (operand : Expression) (s : ParserState) :
    Yields last s (postfixed operand) (Derives last room (.postfixed operand)) := by
  unfold postfixed
  refine .kind ?_
  cases hop : s.current.kind.postfixOperator? with
  | none => exact .pure fun r hr => .postfixEnd (by rw [hr, hop])
  | some op =>
      refine .bind (P := fun i t r => i = .taken s.current.kind s.current.text :: r)
        (.take (isPlain_of_postfixOperator? hop) fun _ => rfl) fun t s₁ => .pure ?_
      rintro r _ i _ rfl
      exact .postfixMore hop

theorem yields_unary (g : Grammar) (s : ParserState) :
    Yields last s (unary inner turns g) (Derives last room (.body (.operand g))) := by
  unfold unary
  refine .kind ?_
  cases hop : s.current.kind.prefixOperator? with
  | none =>
      refine .bind (yields_leftHandSide hinner g s) fun e s₁ =>
        (yields_postfixed room e s₁).mono fun m a r _ ha i hi he => ?_
      exact .unaryPostfix (by rw [hi, hop]) he ha
  | some op =>
      refine .bind (P := fun i t r => i = .taken s.current.kind s.current.text :: r)
        (.take (isPlain_of_prefixOperator? hop) fun _ => rfl) fun t s₁ =>
          .bind (hinner _ s₁) fun operand s₂ => .pure ?_
      rintro r _ m _ he i _ rfl
      exact .unaryPrefix hop he

theorem yields_binary (fuel : Nat) (left : Expression) (p : Nat) (g : Grammar)
    (s : ParserState) :
    Yields last s (binary inner turns fuel left p g) (Derives last room (.binary left p g)) := by
  induction fuel generalizing left p g s with
  | zero => exact .unexpected
  | succ fuel ih =>
      unfold binary
      rw [infixOperator, bind_assoc]
      refine .kind ?_
      rw [pure_bind]
      cases hop : infixOperator? p g s.current.kind with
      | none => exact .pure fun r hr => .binaryEnd (by rw [hr, hop])
      | some op =>
          refine .bind (P := fun i t r => i = .taken s.current.kind s.current.text :: r)
            (.take (isPlain_of_infixOperator? hop) fun _ => rfl) fun t s₁ =>
              .bind (yields_unary hinner _ s₁) fun operand s₂ =>
                .bind (ih operand _ _ s₂) fun right s₃ =>
                  (ih _ p g s₃).mono ?_
          rintro m e r _ he m' _ hright m'' _ hoperand i _ rfl
          exact .binaryMore hop hoperand hright he

theorem yields_conditionalRest (test : Expression) (g : Grammar) (s : ParserState) :
    Yields last s (conditionalRest inner test g)
      (Derives last room (.conditionalRest test g)) := by
  unfold conditionalRest
  refine .ifEat rfl (fun s₁ => ?_) fun s₁ => ?_
  · refine .bind (hinner _ s₁) fun consequent s₂ => .bind (.expect rfl) fun t' s₃ =>
      .bind (hinner _ s₃) fun alternate s₄ => .pure ?_
    rintro r _ m _ ha m' _ rfl i _ hc t
    exact .conditionalMore hc ha
  · exact .pure fun r _ hne => .conditionalEnd hne

theorem yields_operatorsRest (operand : Expression) (g : Grammar) (s : ParserState) :
    Yields last s (operatorsRest inner turns operand g)
      (Derives last room (.operatorsRest operand g)) := by
  unfold operatorsRest
  refine .bind (yields_binary hinner turns operand 0 g s) fun test s₁ =>
    (yields_conditionalRest hinner test g s₁).mono fun m e r _ he i _ htest => ?_
  exact .operatorsRest htest he

theorem yields_assignmentRest (left : Expression) (g : Grammar) (s : ParserState) :
    Yields last s (assignmentRest inner turns left g)
      (Derives last room (.assignmentRest left g)) := by
  unfold assignmentRest
  refine .kind ?_
  cases hop : s.current.kind.assignOperator? with
  | none =>
      refine .bind (yields_postfixed room left s) fun operand s₁ =>
        (yields_operatorsRest hinner operand g s₁).mono fun m e r _ he i hi ho => ?_
      exact .assignEnd (by rw [hi, hop]) ho he
  | some op =>
      refine .bind (P := fun i t r => i = .taken s.current.kind s.current.text :: r)
        (.take (isPlain_of_assignOperator? hop) fun _ => rfl) fun t s₁ =>
          .bind (hinner _ s₁) fun value s₂ => .pure ?_
      rintro r _ m _ hv i _ rfl
      exact .assignMore hop hv

theorem yields_assignment (g : Grammar) (s : ParserState) :
    Yields last s (assignment inner turns g) (Derives last room (.body (.assignment g))) := by
  unfold assignment
  refine .kind ?_
  by_cases h : s.current.kind.isPrefixOperator
  · simp only [h, if_true]
    refine .bind (yields_unary hinner g s) fun operand s₁ =>
      (yields_operatorsRest hinner operand g s₁).mono fun m e r _ he i hi ho => ?_
    exact .assignmentPrefixed (by rw [hi]; exact h) ho he
  · simp only [h, Bool.false_eq_true, if_false]
    refine .bind (yields_leftHandSide hinner g s) fun left s₁ =>
      (yields_assignmentRest hinner left g s₁).mono fun m e r _ he i hi hl => ?_
    refine .assignmentPlain ?_ hl he
    rw [hi]
    simpa using h

end Expressions

section Statements

variable (hinner : Follows last room inner)
include hinner

/-! ## Simple statements -/

theorem yields_declarator (g : Grammar) (s : ParserState) :
    Yields last s (declarator inner g) (Derives last room (.declarator g)) := by
  unfold declarator
  refine .bind .bindingName fun name s₁ => .ifEat rfl (fun s₂ => ?_) fun s₂ => ?_
  · refine .bind (hinner _ s₂) fun value s₃ => .pure ?_
    rintro r _ m _ hv t i _ rfl
    exact .declaratorInit hv
  · refine .pure ?_
    rintro r _ hne i _ rfl
    exact .declaratorPlain hne

theorem yields_declarators (g : Grammar) (s : ParserState) :
    Yields last s (declarators inner turns g) (Derives last room (.declarators g)) := by
  unfold declarators
  refine .bind (yields_declarator hinner g s) fun d s₁ =>
    .bind (P := Derives last room (.declaratorsRest g)) ?_ fun ds s₂ => .pure ?_
  · refine .itemsUntil .afterComma (yields_declarator hinner g) ?_ ?_ turns s₁
    · rintro i r (⟨h, -⟩ | ⟨-, rfl, hr⟩)
      · cases h
      · exact .declaratorsEnd hr
    · rintro i m m' r d ds (⟨-, t, rfl⟩ | ⟨h, -⟩) hd hds
      · exact .declaratorsMore hd hds
      · cases h
  · intro r _ m _ hds i _ hd
    exact .declarators hd hds

theorem yields_varDeclaration (s : ParserState) :
    Yields last s (varDeclaration inner turns) (Derives last room (.body .statement)) := by
  unfold varDeclaration
  refine .bind (.expect rfl) fun t s₁ => .bind (yields_declarators hinner _ s₁) fun ds s₂ =>
    .bind (.endStatement room) fun _ s₃ => .pure ?_
  rintro r _ m _ hend m' _ hds i _ rfl
  exact .declare hds hend

omit hinner in
theorem yields_empty (s : ParserState) (hk : s.current.kind = .semicolon) :
    Yields last s empty (Derives last room (.body .statement)) := by
  unfold empty
  refine .bind (P := fun i t r => i = .taken .semicolon s.current.text :: r)
    (.take (by rw [hk]; rfl) fun _ => by rw [hk]) fun t s₁ => .pure ?_
  rintro r _ i _ rfl
  exact .empty

theorem yields_expressionOrLabelled (s : ParserState)
    (hk : opensStatement s.current.kind = false) :
    Yields last s (expressionOrLabelled inner turns) (Derives last room (.body .statement)) := by
  intro a s' hrun rest hrest
  unfold expressionOrLabelled at hrun
  rw [EStateM.run_bind, run_current] at hrun
  obtain ⟨e, s₁, h₁, hrun⟩ := run_bind_ok.mp hrun
  obtain ⟨_, _, hget, hrun⟩ := run_bind_ok.mp hrun
  cases hget
  by_cases hl : isName e ∧ s.current.kind = .identifier ∧ s₁.lastEnd = s.current.stop ∧
      s₁.current.kind = .colon
  · obtain ⟨hname, hlabel⟩ := hl
    obtain ⟨label, rfl⟩ := isName_iff.mp hname
    simp only [hlabel, and_self, if_true] at hrun
    have hbody : Yields last s₁
        (do let _ ← take; let body ← inner .statement; return Statement.labelled label body)
        fun i a r => ∃ t m body, i = .taken .colon t :: m ∧
          Derives last room (.rule .statement) m body r ∧ a = Statement.labelled label body := by
      refine .bind (P := fun i t r => i = .taken .colon s₁.current.text :: r)
        (.take (by rw [hlabel.2.2]; rfl) fun _ => by rw [hlabel.2.2]) fun t s₂ =>
          .bind (hinner _ s₂) fun body s₃ => .pure ?_
      rintro r _ m _ hb i _ rfl
      exact ⟨_, m, body, rfl, hb, rfl⟩
    obtain ⟨mid, hmid, t, m, body, rfl, hb, rfl⟩ := hbody a s' hrun rest hrest
    obtain ⟨input, hm, he⟩ := yields_expression hinner _ s _ s₁ h₁ _ (hmid.peek_eq hrest)
    obtain rfl := he.eq_name ((hm.peek_eq (hmid.peek_eq hrest)).trans hlabel.1)
    exact ⟨_, hm.trans hmid, .labelled he hb⟩
  · have hend : (do endStatement; return Statement.expression e : Parser Statement).run s₁ =
        .ok a s' := by
      cases e with
      | identifier name =>
          have hnot : ¬(s.current.kind = .identifier ∧ s₁.lastEnd = s.current.stop ∧
              s₁.current.kind = .colon) := fun h => hl ⟨rfl, h⟩
          simp only [hnot, if_false] at hrun
          exact hrun
      | _ => exact hrun
    obtain ⟨_, s₂, h₂, hpure⟩ := run_bind_ok.mp hend
    cases hpure
    obtain ⟨mid, hmid, ht⟩ := Yields.endStatement room _ _ h₂ rest hrest
    obtain ⟨input, hm, he⟩ := yields_expression hinner _ s _ s₁ h₁ _ (hmid.peek_eq hrest)
    have hi := hm.peek_eq (hmid.peek_eq hrest)
    refine ⟨input, hm.trans hmid, .expressionStatement (by rw [hi, hk]) he ?_ ht⟩
    rintro ⟨hid, hname, hcolon⟩
    obtain ⟨label, rfl⟩ := isName_iff.mp hname
    obtain rfl := he.eq_name hid
    -- the name is the last token taken, so a colon would have made it a label
    exact hl ⟨rfl, hi.symm.trans hid, hm.lastEnd_eq, (hmid.peek_eq hrest).symm.trans hcolon⟩

omit hinner in
theorem yields_debugger (s : ParserState) (hk : s.current.kind = .kwDebugger) :
    Yields last s debugger (Derives last room (.body .statement)) := by
  unfold debugger
  refine .bind (P := fun i t r => i = .taken .kwDebugger s.current.text :: r)
    (.take (by rw [hk]; rfl) fun _ => by rw [hk]) fun t s₁ =>
      .bind (.endStatement room) fun _ s₂ => .pure ?_
  rintro r _ m _ hend i _ rfl
  exact .debugger hend

/-! ## Branches and loops -/

theorem yields_ifElse (s : ParserState) :
    Yields last s (ifElse inner turns) (Derives last room (.body .statement)) := by
  unfold ifElse
  refine .bind (.expect rfl) fun t s₁ => .bind (yields_parenthesized hinner s₁) fun test s₂ =>
    .bind (hinner _ s₂) fun consequent s₃ => .ifEat rfl (fun s₄ => ?_) fun s₄ => ?_
  · refine .bind (hinner _ s₄) fun alternate s₅ => .pure ?_
    rintro r _ m _ ha t' m' _ hc i _ htest i' _ rfl
    exact .ifElse htest hc ha
  · refine .pure ?_
    rintro r _ hne m _ hc i _ htest i' _ rfl
    exact .ifThen htest hc hne

theorem yields_doWhile (s : ParserState) :
    Yields last s (doWhile inner turns) (Derives last room (.body .statement)) := by
  unfold doWhile
  refine .bind (.expect rfl) fun t s₁ => .bind (hinner _ s₁) fun body s₂ =>
    .bind (.expect rfl) fun t' s₃ => .bind (yields_parenthesized hinner s₃) fun test s₄ =>
      .bind (.endStatement room) fun _ s₅ => .pure ?_
  rintro r _ m' _ hend m _ htest i _ rfl i' _ hb i'' _ rfl
  exact .doWhile hb htest hend

theorem yields_whileDo (s : ParserState) :
    Yields last s (whileDo inner turns) (Derives last room (.body .statement)) := by
  unfold whileDo
  refine .bind (.expect rfl) fun t s₁ => .bind (yields_parenthesized hinner s₁) fun test s₂ =>
    .bind (hinner _ s₂) fun body s₃ => .pure ?_
  rintro r _ m _ hb i _ htest i' _ rfl
  exact .whileDo htest hb

theorem yields_expressionBefore (close : TokenKind) (s : ParserState) :
    Yields last s (expressionBefore inner turns close)
      (Derives last room (.expressionBefore close)) := by
  unfold expressionBefore
  refine .isAt ?_
  by_cases h : s.current.kind = close
  · simp only [h, decide_true, if_true]
    exact .pure fun r hr => .expressionAbsent (hr.trans h)
  · simp only [h, decide_false, Bool.false_eq_true, if_false]
    refine .map (yields_expression hinner _ s) fun i e r hi he => .expressionPresent ?_ he
    rw [hi]
    exact h

theorem yields_forRest (init : Option ForInit) (s : ParserState) :
    Yields last s (forRest inner turns init) (Derives last room (.forRest init)) := by
  unfold forRest
  refine .bind (.expect rfl) fun t s₁ => .bind (yields_expressionBefore hinner _ s₁) fun test s₂ =>
    .bind (.expect rfl) fun t' s₃ => .bind (yields_expressionBefore hinner _ s₃) fun update s₄ =>
      .bind (.expect rfl) fun t'' s₅ => .bind (hinner _ s₅) fun body s₆ => .pure ?_
  rintro r _ m _ hb m₁ _ rfl m₂ _ hu m₃ _ rfl m₄ _ htest i _ rfl
  exact .forRest htest hu hb

theorem yields_forInRest (target : ForTarget) (s : ParserState) :
    Yields last s (forInRest inner turns target) (Derives last room (.forInRest target)) := by
  unfold forInRest
  refine .bind (yields_expression hinner _ s) fun object s₁ => .bind (.expect rfl) fun t s₂ =>
    .bind (hinner _ s₂) fun body s₃ => .pure ?_
  rintro r _ m _ hb m' _ rfl i _ ho
  exact .forInRest ho hb

theorem yields_forVariables (s : ParserState) (hk : s.current.kind = .kwVar) :
    Yields last s (forVariables inner turns) (Derives last room .forHeader) := by
  unfold forVariables
  refine .bind (P := fun i t r => i = .taken .kwVar s.current.text :: r)
    (.take (by rw [hk]; rfl) fun _ => by rw [hk]) fun t s₁ =>
      .bind (yields_declarators hinner _ s₁) fun ds s₂ => ?_
  by_cases hd : ∃ d, ds = [d]
  · obtain ⟨d, rfl⟩ := hd
    refine .ifEat rfl (fun s₃ => ?_) fun s₃ => ?_
    · refine (yields_forInRest hinner _ s₃).mono ?_
      rintro m a r - ha t' i - hd i' - rfl
      exact .forInVariable hd ha
    · refine (yields_forRest hinner _ s₃).mono ?_
      rintro m a r - ha hne i - hd i' - rfl
      exact .forVariables hd (fun h => hne h.2) ha
  · have hrest : Yields last s₂ (forRest inner turns (some (.declared ds))) fun mid b rest =>
        ∀ i, peek last i = s₁.current.kind → Derives last room (.declarators .noIn) i ds mid →
          ∀ i', peek last i' = s.current.kind → i' = .taken .kwVar s.current.text :: i →
            Derives last room .forHeader i' b rest := by
      refine (yields_forRest hinner _ s₂).mono ?_
      rintro m a r - ha i - hds i' - rfl
      refine .forVariables hds (fun h => hd ?_) ha
      exact List.length_eq_one_iff.mp h.1
    match ds, hd, hrest with
    | [], _, hrest => exact hrest
    | [d], hd, _ => exact absurd ⟨d, rfl⟩ hd
    | _ :: _ :: _, _, hrest => exact hrest

theorem yields_forPrefixed (s : ParserState) (hk : s.current.kind.isPrefixOperator) :
    Yields last s (forPrefixed inner turns) (Derives last room .forHeader) := by
  unfold forPrefixed
  refine .bind (hinner _ s) fun first s₁ => .bind (yields_sequenceRest hinner first _ s₁)
    fun e s₂ => (yields_forRest hinner _ s₂).mono ?_
  rintro m' a r - ha m - he i hi hfirst
  exact .forPrefixed (by rw [hi]; exact hk) hfirst he ha

theorem yields_forTarget (s : ParserState) (hs : s.current.kind ≠ .semicolon)
    (hv : s.current.kind ≠ .kwVar) (hp : s.current.kind.isPrefixOperator = false) :
    Yields last s (forTarget inner turns) (Derives last room .forHeader) := by
  unfold forTarget
  refine .bind (yields_leftHandSide hinner _ s) fun left s₁ =>
    .ifEat rfl (fun s₂ => ?_) fun s₂ => ?_
  · refine (yields_forInRest hinner _ s₂).mono ?_
    rintro m a r - ha t i hi hl
    exact .forInExpression (by rwa [hi]) (by rwa [hi]) (by rwa [hi]) hl ha
  · refine .bind (yields_assignmentRest hinner left _ s₂) fun first s₃ =>
      .bind (yields_sequenceRest hinner first _ s₃) fun e s₄ =>
        (yields_forRest hinner _ s₄).mono ?_
    rintro m₂ a r - ha m₁ - he m - hfirst hne i hi hl
    exact .forExpression (by rwa [hi]) (by rwa [hi]) (by rwa [hi]) hl hne hfirst he ha

theorem yields_forLoop (s : ParserState) :
    Yields last s (forLoop inner turns) (Derives last room (.body .statement)) := by
  have hheader : ∀ s, Yields last s (do
      let k ← kind
      if k = .semicolon then forRest inner turns none
      else if k = .kwVar then forVariables inner turns
      else if k.isPrefixOperator then forPrefixed inner turns
      else forTarget inner turns) (Derives last room .forHeader) := by
    intro s
    refine .kind ?_
    by_cases h₁ : s.current.kind = .semicolon
    · rw [if_pos h₁]
      exact (yields_forRest hinner none s).mono fun i a r hi ha => .forNothing (hi.trans h₁) ha
    · by_cases h₂ : s.current.kind = .kwVar
      · rw [if_neg h₁, if_pos h₂]
        exact yields_forVariables hinner s h₂
      · by_cases h₃ : s.current.kind.isPrefixOperator
        · rw [if_neg h₁, if_neg h₂, if_pos h₃]
          exact yields_forPrefixed hinner s h₃
        · rw [if_neg h₁, if_neg h₂, if_neg h₃]
          exact yields_forTarget hinner s h₁ h₂ (by simpa using h₃)
  unfold forLoop
  refine .bind (.expect rfl) fun t s₁ => .bind (.expect rfl) fun t' s₂ => (hheader s₂).mono ?_
  rintro i a r - ha i' - rfl i'' - rfl
  exact .forLoop ha

/-! ## Jumps -/

omit hinner in
theorem yields_jump (s : ParserState)
    (hk : s.current.kind = .kwContinue ∨ s.current.kind = .kwBreak) :
    Yields last s jump (Derives last room (.body .statement)) := by
  have hplain : isPlain s.current.kind := by
    obtain hk | hk := hk <;> rw [hk] <;> rfl
  unfold jump
  refine .bind (P := fun i t r => i = .taken s.current.kind s.current.text :: r ∧ t = s.current)
    (.take hplain fun _ => ⟨rfl, rfl⟩) fun t s₁ => .isAt ?_
  by_cases h : s₁.current.kind = .identifier
  · simp only [h, decide_true, if_true]
    refine .bind (.map (R := fun i o r => ∃ label, i = .taken .identifier label :: r ∧
      o = some label) .bindingName fun i label r _ hi => ⟨label, hi, rfl⟩) fun o s₂ =>
        .bind (.endStatement room) fun _ s₃ => .pure ?_
    rintro r _ m _ hend m' _ ⟨label, rfl, rfl⟩ i _ ⟨rfl, rfl⟩
    exact .jumpLabel hk hend
  · simp only [h, decide_false, Bool.false_eq_true, if_false]
    rw [pure_bind]
    refine .bind (.endStatement room) fun _ s₂ => .pure ?_
    rintro r _ m hm hend i _ ⟨rfl, rfl⟩
    refine .jumpBare hk ?_ hend
    rw [hm]
    exact h

theorem yields_returnWith (s : ParserState) :
    Yields last s (returnWith inner turns) (Derives last room (.body .statement)) := by
  unfold returnWith
  refine .bind (.expect rfl) fun t s₁ => .kind ?_
  by_cases h : endsReturn s₁.current.kind
  · simp only [h, if_true]
    rw [pure_bind]
    refine .bind (.endStatement room) fun _ s₂ => .pure ?_
    rintro r _ m hm hend i _ rfl
    exact .returnNothing (by rw [hm]; exact h) hend
  · simp only [h, Bool.false_eq_true, if_false]
    refine .bind (.map (R := fun i o r => ∃ e, o = some e ∧
      Derives last room (.expression .normal) i e r) (yields_expression hinner _ s₁)
        fun i e r _ he => ⟨e, rfl, he⟩) fun o s₂ =>
          .bind (.endStatement room) fun _ s₃ => .pure ?_
    rintro r _ m _ hend m' hm' ⟨e, rfl, he⟩ i _ rfl
    refine .returnValue ?_ he hend
    rw [hm']
    simpa using h

theorem yields_throwWith (s : ParserState) :
    Yields last s (throwWith inner turns) (Derives last room (.body .statement)) := by
  unfold throwWith
  refine .bind (.expect rfl) fun t s₁ => .bind (yields_expression hinner _ s₁) fun value s₂ =>
    .bind (.endStatement room) fun _ s₃ => .pure ?_
  rintro r _ m _ hend m' _ hv i _ rfl
  exact .throwValue hv hend

/-! ## Compound statements -/

theorem yields_withObject (s : ParserState) :
    Yields last s (withObject inner turns) (Derives last room (.body .statement)) := by
  unfold withObject
  refine .bind (.expect rfl) fun t s₁ => .bind (yields_parenthesized hinner s₁) fun object s₂ =>
    .bind (hinner _ s₂) fun body s₃ => .pure ?_
  rintro r _ m _ hb i _ ho i' _ rfl
  exact .withObject ho hb

theorem yields_clauseTest (seen : Bool) (s : ParserState) :
    Yields last s (clauseTest inner turns seen) fun i test r =>
      (∃ t m e, test = some e ∧ i = .taken .kwCase t :: m ∧
        Derives last room (.expression .normal) m e r) ∨
      ∃ t, test = none ∧ seen = false ∧ i = .taken .kwDefault t :: r := by
  unfold clauseTest
  refine .kind ?_
  by_cases h₁ : s.current.kind = .kwCase
  · rw [if_pos h₁]
    refine .bind (P := fun i t r => i = .taken .kwCase s.current.text :: r)
      (.take (by rw [h₁]; rfl) fun _ => by rw [h₁]) fun t s₁ =>
        .map (yields_expression hinner _ s₁) ?_
    rintro m e r _ he i _ rfl
    exact .inl ⟨_, m, e, rfl, rfl, he⟩
  · rw [if_neg h₁]
    by_cases h₂ : s.current.kind = .kwDefault ∧ !seen
    · rw [if_pos h₂]
      refine .bind (P := fun i t r => i = .taken .kwDefault s.current.text :: r)
        (.take (by rw [h₂.1]; rfl) fun _ => by rw [h₂.1]) fun t s₁ => .pure ?_
      rintro r _ i _ rfl
      exact .inr ⟨_, rfl, by simpa using h₂.2, rfl⟩
    · rw [if_neg h₂]
      exact .unexpected

theorem yields_clauses (fuel : Nat) (seen : Bool) (s : ParserState) :
    Yields last s (clauses inner turns seen fuel) (Derives last room (.clauses seen)) := by
  induction fuel generalizing seen s with
  | zero => exact .unexpected
  | succ fuel ih =>
      unfold clauses
      refine .ifEat rfl (fun s₁ => .pure fun r _ t => .clausesEnd) fun s₁ => ?_
      refine .bind (yields_clauseTest hinner seen s₁) fun test s₂ => .bind (.expect rfl)
        fun t s₃ => .bind (yields_elements hinner _ _ s₃) fun ss s₄ =>
          .bind (ih _ s₄) fun cs s₅ => .pure ?_
      rintro r _ m _ hcs m' _ hss m'' _ rfl i _
        (⟨t', i', e, rfl, rfl, he⟩ | ⟨t', rfl, rfl, rfl⟩) -
      · refine .clausesCase he hss ?_
        rwa [Option.isNone_some, Bool.or_false] at hcs
      · exact .clausesDefault hss hcs

theorem yields_switch (s : ParserState) :
    Yields last s (switch inner turns) (Derives last room (.body .statement)) := by
  unfold switch
  refine .bind (.expect rfl) fun t s₁ => .bind (yields_parenthesized hinner s₁)
    fun discriminant s₂ => .bind (.expect rfl) fun t' s₃ =>
      .bind (yields_clauses hinner turns false s₃) fun cs s₄ => .pure ?_
  rintro r _ m _ hcs i _ rfl i' _ hd i'' _ rfl
  exact .switch hd hcs

theorem yields_handler (s : ParserState) :
    Yields last s (handler inner turns) (Derives last room .handler) := by
  unfold handler
  refine .ifEat rfl (fun s₁ => ?_) fun s₁ => .pure fun r _ hne => .handlerAbsent hne
  refine .bind (.expect rfl) fun t s₂ => .bind .bindingName fun param s₃ =>
    .bind (.expect rfl) fun t' s₄ => .bind (yields_blockBody hinner s₄) fun ss s₅ => .pure ?_
  rintro r _ m _ hss m₁ _ rfl m₂ _ rfl i _ rfl t''
  exact .handlerPresent hss

theorem yields_block (s : ParserState) :
    Yields last s (block inner turns) fun i b r =>
      ∃ ss, b = .block ss ∧ Derives last room .blockBody i ss r := by
  unfold block
  exact .bind (yields_blockBody hinner s) fun ss s₁ => .pure fun r _ i _ hss => ⟨ss, rfl, hss⟩

theorem yields_finalizer {β : Type} {f : Option Statement → Parser β}
    {R : List Item → β → List Item → Prop} (s : ParserState)
    (hf : ∀ o s₁, Yields last s₁ (f o) fun mid b rest =>
      ∀ i, Derives last room .finalizer i o mid → R i b rest) :
    Yields last s (do
      let finalizer ← if ← eat .kwFinally then some <$> block inner turns else pure none
      f finalizer) R := by
  refine .bind (.eat rfl) fun b s₁ => ?_
  cases b with
  | true =>
      refine .bind (.map (R := fun i o r => ∃ ss, o = some (.block ss) ∧
        Derives last room .blockBody i ss r) (yields_block hinner s₁) ?_) fun o s₂ => ?_
      · rintro i _ r - ⟨ss, rfl, hss⟩
        exact ⟨ss, rfl, hss⟩
      · refine (hf o s₂).mono ?_
        rintro m b r - hR i - ⟨ss, rfl, hss⟩ i' - (⟨-, t, rfl⟩ | ⟨h, -⟩)
        · exact hR _ (.finalizerPresent hss)
        · cases h
  | false =>
      refine (hf none s₁).mono ?_
      rintro m b r - hR i - (⟨h, -⟩ | ⟨-, rfl, hne⟩)
      · cases h
      · exact hR _ (.finalizerAbsent hne)

theorem yields_tryCatch (s : ParserState) :
    Yields last s (tryCatch inner turns) (Derives last room (.body .statement)) := by
  unfold tryCatch
  refine .bind (.expect rfl) fun t s₁ => .bind (yields_block hinner s₁) fun guarded s₂ =>
    .bind (yields_handler hinner s₂) fun handler s₃ =>
      yields_finalizer hinner s₃ fun finalizer s₄ => ?_
  by_cases h : handler.isNone ∧ finalizer.isNone
  · rw [if_pos h]
    exact .unexpected
  · rw [if_neg h]
    refine .pure ?_
    rintro r _ m hfin m' _ hhan i _ ⟨ss, rfl, hss⟩ i' _ rfl
    refine .tryCatch hss hhan hfin ?_
    cases handler <;> cases finalizer <;> simp at h ⊢

/-! ## Rules -/

theorem yields_statement (s : ParserState) :
    Yields last s (statement inner turns) (Derives last room (.body .statement)) := by
  unfold statement
  refine .kind ?_
  cases hk : s.current.kind with
  | openBrace =>
      refine (yields_block hinner s).mono ?_
      rintro i _ r hi ⟨ss, rfl, hss⟩
      exact .block (hi.trans hk) hss
  | kwVar => exact yields_varDeclaration hinner s
  | semicolon => exact yields_empty s hk
  | kwIf => exact yields_ifElse hinner s
  | kwDo => exact yields_doWhile hinner s
  | kwWhile => exact yields_whileDo hinner s
  | kwFor => exact yields_forLoop hinner s
  | kwContinue => exact yields_jump s (.inl hk)
  | kwBreak => exact yields_jump s (.inr hk)
  | kwReturn => exact yields_returnWith hinner s
  | kwWith => exact yields_withObject hinner s
  | kwSwitch => exact yields_switch hinner s
  | kwThrow => exact yields_throwWith hinner s
  | kwTry => exact yields_tryCatch hinner s
  | kwDebugger => exact yields_debugger s hk
  | _ => exact yields_expressionOrLabelled hinner s (by rw [hk]; rfl)

theorem yields_declaration (s : ParserState) :
    Yields last s (declaration inner turns) (Derives last room (.body .declaration)) := by
  unfold declaration
  exact .bind (yields_function hinner true s) fun f s₁ => .pure fun r _ i _ hf => .declaration hf

theorem yields_ruleBody (r : Rule) (s : ParserState) :
    Yields last s (ruleBody inner turns r) (Derives last room (.body r)) := by
  cases r with
  | statement => exact yields_statement hinner s
  | declaration => exact yields_declaration hinner s
  | assignment g => exact yields_assignment hinner g s
  | operand g => exact yields_unary hinner g s
  | construction => exact yields_construction hinner s

end Statements

/-- What a rule takes and yields is derived by the grammar. -/
theorem yields_rule (turns room : Nat) : Follows last room (rule turns room) := by
  induction room with
  | zero =>
      intro r s a s' hrun
      cases hrun
  | succ room ih =>
      intro r s a s' hrun rest hrest
      obtain ⟨s₁, h₁, rfl⟩ := run_deepen_ok.mp hrun
      obtain ⟨input, hm, hd⟩ := yields_ruleBody ih r _ a s₁ h₁ rest hrest
      refine ⟨input, ?_, .nested hd⟩
      have := hm.withDepth s.depth (s₁.depth - 1)
      simpa using this

end Parser
end EcmaSyntax
