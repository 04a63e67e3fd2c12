import EcmaSyntax.Proofs.Respelling

/-!
# Inserted semicolons may be written

**Input.**  A source and what happened in a successful run on it.

**Results.**
* `inserted_semicolons_written`: the source with a semicolon written after each token after which
  one was inserted has the same program, and a run on it inserts none.
-/

namespace EcmaSyntax

/-- Events at which a semicolon is inserted. -/
def Event.isInsertion : Event → Bool
  | .insertedAfterKeyword _ => true
  | .insertedBefore _ => true
  | _ => false

/-- For each semicolon that was inserted the offset just past the token before it, given where the
last two tokens end. -/
def insertionPoints : Nat → Nat → List Event → List Nat
  | _, _, [] => []
  | _, last, .scanned t :: events => insertionPoints last t.stop events
  | before, _, .rescanned _ literal :: events => insertionPoints before literal.stop events
  | before, last, .insertedAfterKeyword _ :: events => before :: insertionPoints before last events
  | before, last, .insertedBefore _ :: events => before :: insertionPoints before last events
  | before, last, .ended _ :: events => insertionPoints before last events
  | before, last, .parsed _ :: events => insertionPoints before last events

/-- A text with a semicolon written at an offset. -/
def writeSemicolon (offset : Nat) (source : Text) : Text :=
  source.takeBytes offset ++ ';' :: source.dropBytes offset

/-- A text with semicolons written at offsets that stand in order. -/
def writeSemicolons (offsets : List Nat) (source : Text) : Text :=
  offsets.foldr writeSemicolon source

theorem writeSemicolon_append (before t : Text) :
    writeSemicolon before.size (before ++ t) = before ++ ';' :: t := by
  rw [writeSemicolon, Text.takeBytes_size, Text.dropBytes_size]

/-! ## Marks -/

namespace Mark

/-- The offsets of `insertionPoints`, from marks. -/
def points : Nat → Nat → List Mark → List Nat
  | _, _, [] => []
  | _, last, .token _ t start _ :: marks => points last (start + t.size) marks
  | before, _, .literal _ t start :: marks => points before (start + t.size) marks
  | before, last, .inserted :: marks => before :: points before last marks
  | before, last, .ended _ :: marks => points before last marks

end Mark

theorem insertionPoints_eq (before last : Nat) (events : List Event) :
    insertionPoints before last events = Mark.points before last (marksOf events) := by
  induction events generalizing before last with
  | nil => rfl
  | cons e events ih =>
      unfold marksOf at ih
      cases e <;>
        simp [insertionPoints, marksOf, Event.mark?, Mark.points, List.filterMap_cons, Token.stop,
          ih]

theorem isInsertion_iff {e : Event} : e.isInsertion ↔ e.mark? = some .inserted := by
  cases e <;> simp [Event.isInsertion, Event.mark?]

namespace Site

/-- The points of what a stream notes at a site. -/
theorem points_marks (p : Site) (before o : Nat) (bare : Bool) (ms : List Mark) :
    Mark.points before o (p.marks o bare ++ ms) =
      (if bare && p.newline then [o] else []) ++ Mark.points o (p.stop o) ms := by
  unfold Site.marks
  cases bare && p.newline <;> rfl

theorem marks_eq {p : Site} {bare : Bool} (hb : (bare && p.newline) = false) (o : Nat) :
    p.marks o bare = [.token p.kindHere p.text (p.start o) p.newline] := by
  rw [Site.marks, hb]
  rfl

/-- A semicolon right after a token. -/
def semicolon (rest : Text) : Site := ⟨[], .semicolon, [';'], rest⟩

theorem all_semicolon (rest : Text) : (semicolon rest).all = ';' :: rest := rfl

theorem semicolon_valid (rest : Text) : (semicolon rest).Valid := by
  have hpunctuators : ∀ p ∈ TokenKind.punctuators, p.display.head? = some ';' →
      p.display.length ≤ 1 := by decide +kernel
  have hmem : TokenKind.semicolon ∈ TokenKind.punctuators := by decide
  have hsettled : isSettled (';' :: rest) := by simp [isSettled]; decide
  refine ⟨trivial, hsettled, .inr (.punctuator ?_ ?_)⟩
  · refine punctuator?_eq_some_iff.mpr ⟨hmem, ⟨rest, rfl⟩, fun p hp hpt => ?_⟩
    obtain ⟨c, u, hu⟩ := List.exists_cons_of_ne_nil (punctuators_tail p hp).1
    rw [hu] at hpt
    refine hpunctuators p hp ?_
    rw [hu, (List.cons_prefix_cons.mp hpt).1]
    rfl
  · exact numeral_of_start (by decide) (by decide)

end Site

namespace Parser

/-- No point comes before a token that is passed. -/
theorem Passes.points {o o₁ : Nat} {bare bare₁ : Bool} {p p₁ : Site} {it : Item} {ms : List Mark}
    {w : Text} (h : Passes o bare p it ms w o₁ bare₁ p₁) (marks : List Mark) :
    ∃ o₀, Mark.points o o (p.marks o bare ++ (ms ++ (p₁.marks o₁ bare₁ ++ marks))) =
      Mark.points o₀ o₁ (p₁.marks o₁ bare₁ ++ marks) := by
  rw [p.points_marks, h.not_early]
  cases h with
  | taken => exact ⟨o, rfl⟩
  | member => exact ⟨p.stop o, rfl⟩
  | literal => exact ⟨o, rfl⟩
  | ended => exact ⟨o, rfl⟩

/-- An item with a written semicolon for one that was inserted. -/
def Item.write : Item → Item
  | .ended _ => .ended .semicolon
  | .inserted _ => .ended .semicolon
  | it => it

open TokenStream (isRestrictedKeyword)

/-- The text from a site on is written again, with semicolons, as that from another site on.  The
gap is the same unless a semicolon may be written after the token before it. -/
structure Rewrites (b : Bool) (o : Nat) (bare claimed : Bool) (before : Text) (p : Site)
    (its : List Item) (marks : List Mark) (q : Site) : Prop where
  gap : b = false → q.gap = p.gap
  starts : StartsLike p.all q.all
  text : writeSemicolons (Mark.points o o (p.marks o bare ++ marks)) (before ++ p.all) =
    before ++ q.all
  spells : ∀ o', ∃ ms, Spells o' bare claimed q (its.map Item.write) ms ∧
    .inserted ∉ q.marks o' bare ++ ms

namespace Rewrites

variable {b bare claimed : Bool} {o : Nat} {before : Text} {p q : Site} {its : List Item}
  {marks : List Mark}

theorem text_points {o₀ : Nat} (h : Rewrites b o bare claimed before p its marks q) :
    writeSemicolons (Mark.points o₀ o (p.marks o bare ++ marks)) (before ++ p.all) =
      before ++ q.all := by
  rw [p.points_marks, ← p.points_marks o]
  exact h.text

/-- A semicolon is written in front of a site. -/
theorem write {it : Item} (h : Rewrites false o false claimed before p its marks q)
    (ho : before.size = o) (hc : claimed = false) (he : it.isEnding) (ms : List Mark)
    (hpoints : Mark.points o o (p.marks o bare ++ ms) =
      o :: Mark.points o o (p.marks o false ++ marks)) :
    Rewrites true o bare claimed before p (it :: its) ms (Site.semicolon q.all) := by
  have hwrite : it.write = .ended .semicolon := by
    cases it with
    | ended => rfl
    | inserted => rfl
    | _ => cases he
  refine ⟨nofun, .inr (.inr (.inl rfl)), ?_, fun o' => ?_⟩
  · have := h.text
    rw [hpoints, writeSemicolons, List.foldr_cons]
    rw [writeSemicolons] at this
    rw [this, ← ho, writeSemicolon_append, Site.all_semicolon]
  · subst hc
    obtain ⟨ms', hspells, hnone⟩ := h.spells ((Site.semicolon q.all).stop o')
    have hb : (bare && (Site.semicolon q.all).newline) = false := Bool.and_false _
    refine ⟨.ended ((Site.semicolon q.all).start o')
      :: (q.marks ((Site.semicolon q.all).stop o') false ++ ms'), ?_, ?_⟩
    · rw [List.map_cons, hwrite]
      exact .ended (Site.semicolon_valid _) hb rfl rfl hspells
    · rw [Site.marks_eq hb]
      simpa using hnone

/-- A token is kept. -/
theorem pass {it : Item} {ms : List Mark} {w : Text} {o₁ : Nat} {b₁ bare₁ : Bool} {p₁ q₁ : Site}
    (hp : Passes o bare p it ms w o₁ bare₁ p₁)
    (h : Rewrites b₁ o₁ bare₁ false (before ++ w) p₁ its marks q₁) :
    ∃ q, Rewrites b o bare claimed before p (it :: its) (ms ++ (p₁.marks o₁ bare₁ ++ marks)) q := by
  obtain ⟨rest, hall, hrespell⟩ := hp.respell h.starts
  have hwrite : it.write = it := by
    obtain hit | rfl := hp.item
    · cases it with
      | ended => cases hit
      | inserted => cases hit
      | _ => rfl
    · rfl
  refine ⟨p.withRest rest, fun _ => rfl, ?_, ?_, fun o' => ?_⟩
  · rw [hp.all_eq, hall]
    exact h.starts.append w
  · obtain ⟨o₀, hpoints⟩ := hp.points marks
    rw [hpoints, hp.all_eq, hall, ← List.append_assoc, ← List.append_assoc]
    exact h.text_points
  · obtain ⟨ms', o₁', hp'⟩ := hrespell o'
    obtain ⟨ms₁, hspells, hnone⟩ := h.spells o₁'
    refine ⟨_, by rw [List.map_cons, hwrite]; exact hp'.spells hspells claimed, ?_⟩
    rw [Site.marks_withRest, Site.marks_eq hp.not_early]
    simp only [List.mem_append, not_or] at hnone ⊢
    exact ⟨by simp, hp'.inserted_not_mem, hnone⟩

end Rewrites

/-- What a source spells with inserted semicolons it spells with written ones. -/
theorem Spells.exists_rewrites {o : Nat} {bare claimed : Bool} {p : Site} {its : List Item}
    {marks : List Mark} (h : Spells o bare claimed p its marks) {b : Bool} (ho : Orderly b its)
    (hb : b → claimed = false) {before : Text} (hbefore : before.size = o) :
    ∃ q, Rewrites b o bare claimed before p its marks q := by
  induction h using Spells.steps generalizing b before with
  | @stop o bare claimed p hp hbare hk =>
      refine ⟨p, fun _ => rfl, .refl _, ?_, fun o' => ⟨[], .stop hp hbare hk, ?_⟩⟩
      · rw [p.points_marks, hbare]
        rfl
      · simp [Site.marks, hbare]
  | pass hpass h ih =>
      obtain ⟨q₁, hq₁⟩ := ih ho.2 (fun _ => rfl) (hpass.size_eq hbefore)
      exact hq₁.pass hpass
  | @early o bare claimed p its marks hbare h ih =>
      obtain ⟨rfl, ho'⟩ := Orderly.ended.mp ho
      obtain ⟨q, hq⟩ := ih ho' (absurd · Bool.false_ne_true) hbefore
      refine ⟨_, hq.write hbefore (hb rfl) rfl _ ?_⟩
      rw [p.points_marks, p.points_marks, hbare]
      rfl
  | @inserted o bare claimed p its marks hbare hk ha h ih =>
      obtain ⟨rfl, ho'⟩ := Orderly.inserted.mp ho
      obtain ⟨q, hq⟩ := ih ho' (absurd · Bool.false_ne_true) hbefore
      refine ⟨_, hq.write hbefore (hb rfl) rfl _ ?_⟩
      rw [p.points_marks, p.points_marks, hbare]
      rfl
  | @comments o bare claimed p its marks h ih =>
      obtain ⟨q, hq⟩ := ih (Orderly.comments.mp ho) (absurd · Bool.false_ne_true) hbefore
      refine ⟨q, fun _ => hq.gap rfl, hq.starts, hq.text, fun o' => ?_⟩
      obtain ⟨ms, hms, hnone⟩ := hq.spells o'
      rw [← hq.gap rfl]
      exact ⟨ms, .comments hms, hnone⟩

/-- Items with written semicolons for inserted ones are alike. -/
theorem alike_write (a : Bool) (its : List Item) : Alike a its (its.map Item.write) := by
  have hending : ∀ a, Ending a (.ended .semicolon) := fun _ => .ended rfl fun _ => rfl
  induction its generalizing a with
  | nil => exact .nil
  | cons it its ih =>
      cases it with
      | ended => exact .ending rfl (hending a) (ih _)
      | inserted => exact .ending rfl (hending a) (ih _)
      | _ => exact .cons _ ih a

end Parser

/-- A source with semicolons written where a successful run inserted them has the same program, and
the run on it inserts none. -/
theorem inserted_semicolons_written {limit : Nat} {source : Text} {P : Program} {s : ParserState}
    (h : run limit source = .ok P s) : ∃ s',
      run limit (writeSemicolons (insertionPoints 0 0 (history (run limit source))) source) =
        .ok P s' ∧
      ∀ e ∈ history (run limit
        (writeSemicolons (insertionPoints 0 0 (history (run limit source))) source)),
        e.isInsertion = false := by
  obtain ⟨its, ⟨p, ms, rfl, hspells, hmarks⟩, hderives⟩ := Parser.run_ok_iff.mp ⟨s, h, rfl⟩
  have horderly : Parser.Orderly false its := hderives.orderly Parser.Orderly.nil
  obtain ⟨q, hq⟩ := hspells.exists_rewrites horderly nofun (rfl : Text.size [] = 0)
  obtain ⟨ms', hspells', hnone⟩ := hq.spells 0
  obtain ⟨_, r, hr, hderives'⟩ :=
    hderives.transfer Parser.Orderly.nil (Parser.alike_write false its)
  cases hr
  have hpoints : insertionPoints 0 0 (history (run limit p.all)) =
      Mark.points 0 0 (p.marks 0 false ++ ms) := by
    rw [insertionPoints_eq, h, ← hmarks]
    rfl
  have hsource : writeSemicolons (insertionPoints 0 0 (history (run limit p.all))) p.all =
      q.all := by
    rw [hpoints]
    exact hq.text
  obtain ⟨s', h', hmarks'⟩ := Parser.run_ok_iff.mpr ⟨_, ⟨q, ms', rfl, hspells', rfl⟩, hderives'⟩
  rw [hsource, h']
  refine ⟨s', rfl, fun e he => Bool.eq_false_iff.mpr fun hi => hnone ?_⟩
  rw [← hmarks']
  exact List.mem_filterMap.mpr ⟨e, he, isInsertion_iff.mp hi⟩

/-- In this source one semicolon is inserted after a keyword and two before tokens. -/
theorem inserted_semicolons_written_jump : ∃ P s s',
    run 256 "a: while (b) \x7b continue\na\n++c /* d */ \x7d".toList = .ok P s ∧
      run 256 "a: while (b) \x7b continue;\na;\n++c; /* d */ \x7d".toList = .ok P s' := by
  obtain ⟨P, s, h⟩ :=
    exists_run 256 "a: while (b) \x7b continue\na\n++c /* d */ \x7d".toList (by decide +kernel)
  obtain ⟨s', h', -⟩ := inserted_semicolons_written h
  have hsource : writeSemicolons (insertionPoints 0 0 (history
      (run 256 "a: while (b) \x7b continue\na\n++c /* d */ \x7d".toList)))
      "a: while (b) \x7b continue\na\n++c /* d */ \x7d".toList =
        "a: while (b) \x7b continue;\na;\n++c; /* d */ \x7d".toList := by decide +kernel
  rw [hsource] at h'
  exact ⟨P, s, s', h, h'⟩

end EcmaSyntax
