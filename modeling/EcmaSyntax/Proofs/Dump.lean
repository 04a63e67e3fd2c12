import EcmaSyntax.Proofs.NodeLabels
import EcmaSyntax.Proofs.Traversal

/-!
# What a dump shows

**Trees.**  A label tree has the labels of a tree and nothing else.  Its outline lists the labels as
a walk visits them, each with its depth.

**Lines.**  A dump has one line for each entry of the outline.  Labels stay on their lines, so the
lines can be told apart; they do not start with a space, so the depth can be read off a line; and
the white space that is cut off at the end is the last line end.

**Reading.**  What comes behind a tree in an outline is no deeper than the tree.  So an outline is
cut into the outlines of the children in one way only, and the label tree can be built again.

**Results.**
* `LabelTree.outline_injective`: trees with the same outline are the same.
* `Program.lines_dump`: the lines of a dump are those of the rows of a walk.
* `dump_faithful`: a dump shows the label tree, all of it, and nothing else.
-/

namespace EcmaSyntax

/-! ## Label trees -/

/-- The labels of a tree. -/
inductive LabelTree where
  | node (label : Text) (children : List LabelTree)

namespace LabelTree

/-- The labels of a tree in the order of a walk, with their depths. -/
def outline (depth : Nat) : LabelTree → List (Nat × Text)
  | node label children => (depth, label) :: children.flatMap (outline (depth + 1))

/-- No entry comes first that is as deep as `depth` or deeper. -/
def Rises (depth : Nat) (r : List (Nat × Text)) : Prop := ∀ x ∈ r.head?, x.1 < depth

theorem rises_nil (depth : Nat) : Rises depth [] := nofun

theorem Rises.mono {depth depth' : Nat} {r : List (Nat × Text)} (h : Rises depth r)
    (hle : depth ≤ depth') : Rises depth' r :=
  fun x hx => Nat.lt_of_lt_of_le (h x hx) hle

theorem head?_forest (depth : Nat) (label : Text) (children ts : List LabelTree)
    (r : List (Nat × Text)) :
    ((node label children :: ts).flatMap (outline depth) ++ r).head? = some (depth, label) := by
  rw [List.flatMap_cons, outline]
  rfl

/-- A tree is followed by a tree of the same depth or by what follows all of them. -/
theorem rises_forest {depth : Nat} {r : List (Nat × Text)} (h : Rises depth r)
    (ts : List LabelTree) : Rises (depth + 1) (ts.flatMap (outline depth) ++ r) := by
  cases ts with
  | nil => exact h.mono (Nat.le_succ depth)
  | cons t ts =>
      obtain ⟨label, children⟩ := t
      intro x hx
      rw [head?_forest] at hx
      cases hx
      exact Nat.lt_succ_self depth

mutual

/-- The outline of a tree ends where something stands that is no deeper than the tree. -/
theorem outline_cancel {depth : Nat} {r r' : List (Nat × Text)} (hr : Rises (depth + 1) r)
    (hr' : Rises (depth + 1) r') :
    ∀ t t' : LabelTree, t.outline depth ++ r = t'.outline depth ++ r' → t = t' ∧ r = r'
  | .node label children, .node label' children', h => by
      rw [outline, outline, List.cons_append, List.cons_append] at h
      obtain ⟨hhead, htail⟩ := List.cons.inj h
      obtain ⟨rfl, rfl⟩ := forest_cancel hr hr' children children' htail
      exact ⟨congrArg (node · children) (Prod.mk.inj hhead).2, rfl⟩

theorem forest_cancel {depth : Nat} {r r' : List (Nat × Text)} (hr : Rises depth r)
    (hr' : Rises depth r') : ∀ ts ts' : List LabelTree,
      ts.flatMap (outline depth) ++ r = ts'.flatMap (outline depth) ++ r' → ts = ts' ∧ r = r'
  | [], [], h => ⟨rfl, h⟩
  | [], .node label children :: ts', h => by
      have hhead : (depth, label) ∈ r.head? := by
        rw [List.flatMap_nil, List.nil_append] at h
        rw [h]
        exact head?_forest depth label children ts' r'
      exact absurd (hr _ hhead) (Nat.lt_irrefl depth)
  | .node label children :: ts, [], h => by
      have hhead : (depth, label) ∈ r'.head? := by
        rw [List.flatMap_nil, List.nil_append] at h
        rw [← h]
        exact head?_forest depth label children ts r
      exact absurd (hr' _ hhead) (Nat.lt_irrefl depth)
  | t :: ts, t' :: ts', h => by
      rw [List.flatMap_cons, List.flatMap_cons, List.append_assoc, List.append_assoc] at h
      obtain ⟨rfl, hforest⟩ := outline_cancel (rises_forest hr ts) (rises_forest hr' ts') t t' h
      obtain ⟨rfl, hrest⟩ := forest_cancel hr hr' ts ts' hforest
      exact ⟨rfl, hrest⟩

end

/-- Trees with the same outline are the same. -/
theorem outline_injective (depth : Nat) : Function.Injective (outline depth) := by
  intro t t' h
  have h : t.outline depth ++ [] = t'.outline depth ++ [] := by rw [h]
  exact (outline_cancel (rises_nil _) (rises_nil _) t t' h).1

end LabelTree

/-- The labels of a node and of all nodes below it. -/
def Node.labels (n : Node) : LabelTree :=
  .node n.label (n.children.attach.map fun child => labels child.val)
termination_by n.size
decreasing_by exact size_lt_of_mem_children child.property

theorem Node.labels_eq (n : Node) : n.labels = .node n.label (n.children.map labels) := by
  conv => rhs; rw [← List.attach_map_subtype_val n.children, List.map_map]
  rw [labels]
  rfl

/-- The rows of a walk are the outline of the labels. -/
theorem Node.outline_labels (n : Node) (depth : Nat) :
    n.labels.outline depth = (n.rows depth).map fun row => (row.1, row.2.label) := by
  induction n, depth using Node.rows.induct with
  | case1 n depth ih =>
      rw [labels_eq, LabelTree.outline, rows_eq, List.map_cons, List.map_flatMap, List.flatMap_map]
      exact congrArg (_ :: ·) (List.flatMap_congr fun child hchild => ih ⟨child, hchild⟩)

/-! ## Lines -/

namespace Text

variable {line t : Text}

/-- A character that is no line end belongs to the first line. -/
theorem splitAt_cons {c : Char} {rest : List Text} (hc : c ≠ '\n')
    (h : splitAt '\n' t = line :: rest) : splitAt '\n' (c :: t) = (c :: line) :: rest := by
  have hfeed : decide (c = '\n') = false := decide_eq_false hc
  unfold splitAt at h ⊢
  rw [linesBy, hfeed, h]
  rfl

theorem splitAt_of_notMem (h : '\n' ∉ line) : splitAt '\n' line = [line] := by
  induction line with
  | nil => rfl
  | cons c line ih =>
      obtain ⟨hc, hline⟩ := not_or.mp (mt List.mem_cons.mpr h)
      exact splitAt_cons (Ne.symm hc) (ih hline)

/-- A line that ends in a text is the first of its lines. -/
theorem splitAt_append (h : '\n' ∉ line) :
    splitAt '\n' (line ++ '\n' :: t) = line :: splitAt '\n' t := by
  induction line with
  | nil => rfl
  | cons c line ih =>
      obtain ⟨hc, hline⟩ := not_or.mp (mt List.mem_cons.mpr h)
      exact splitAt_cons (Ne.symm hc) (ih hline)

/-- Only the last line end is cut off behind a text that is trimmed. -/
theorem trimEnd_lineFeed (hlast : ∀ c ∈ t.getLast?, isWhiteSpace c = false) :
    trimEnd (t ++ ['\n']) = t := by
  have hfeed : isWhiteSpace '\n' = true := by decide
  unfold trimEnd
  rw [List.reverse_append, List.reverse_singleton, List.singleton_append,
    List.dropWhile_cons_of_pos hfeed]
  cases hrev : t.reverse with
  | nil =>
      rw [List.reverse_eq_nil_iff.mp hrev]
      rfl
  | cons c u =>
      have hc : c ∈ t.getLast? := by
        rw [List.getLast?_eq_head?_reverse, hrev]
        rfl
      rw [List.dropWhile_cons_of_neg (by simp [hlast c hc]), ← hrev, List.reverse_reverse]

theorem splitAt_lines {lines : List Text} (hlines : ∀ l ∈ lines, '\n' ∉ l) (ht : '\n' ∉ t) :
    splitAt '\n' (lines.flatMap (· ++ ['\n']) ++ t) = lines ++ [t] := by
  induction lines with
  | nil => exact splitAt_of_notMem ht
  | cons line lines ih =>
      obtain ⟨hline, hlines⟩ := List.forall_mem_cons.mp hlines
      rw [List.flatMap_cons, List.append_assoc, List.append_assoc, List.singleton_append,
        splitAt_append hline, ih hlines]
      rfl

/-- Lines are told apart again, though the white space at the end is cut off. -/
theorem splitAt_trimEnd {lines : List Text} (hne : lines ≠ []) (hlines : ∀ l ∈ lines, '\n' ∉ l)
    (hlast : ∀ l ∈ lines, l ≠ [] ∧ ∀ c ∈ l.getLast?, isWhiteSpace c = false) :
    splitAt '\n' (trimEnd (lines.flatMap (· ++ ['\n']))) = lines := by
  obtain rfl | ⟨before, last, rfl⟩ := List.eq_nil_or_concat lines
  · exact absurd rfl hne
  · rw [List.concat_eq_append] at hlines hlast ⊢
    have hmem : last ∈ before ++ [last] := List.mem_append_right _ (List.mem_singleton_self last)
    obtain ⟨hlastne, hlastend⟩ := hlast last hmem
    have hend : ∀ c ∈ (before.flatMap (· ++ ['\n']) ++ last).getLast?, isWhiteSpace c = false := by
      rwa [List.getLast?_append_of_ne_nil _ hlastne]
    rw [List.flatMap_append, List.flatMap_singleton, ← List.append_assoc, trimEnd_lineFeed hend]
    exact splitAt_lines (fun l hl => hlines l (List.mem_append_left _ hl)) (hlines last hmem)

/-- The line of a label at some depth. -/
def indented (entry : Nat × Text) : Text := fill (2 * entry.1) ' ' ++ entry.2

/-- The depth and the label that a line shows. -/
def readIndented (line : Text) : Nat × Text :=
  ((line.takeWhile (· = ' ')).length / 2, line.dropWhile (· = ' '))

variable {entry : Nat × Text}

theorem readIndented_indented (h : entry.2.IsLabel) : readIndented (indented entry) = entry := by
  obtain ⟨depth, label⟩ := entry
  obtain ⟨c, hc, hspace⟩ := h.first
  obtain ⟨more, rfl⟩ := List.head?_eq_some_iff.mp hc
  have hfill : ∀ d ∈ fill (2 * depth) ' ', decide (d = ' ') = true := fun d hd =>
    decide_eq_true (List.eq_of_mem_replicate hd)
  have htake : (c :: more).takeWhile (· = ' ') = [] :=
    List.takeWhile_cons_of_neg (by simpa using hspace)
  have hdrop : (c :: more).dropWhile (· = ' ') = c :: more :=
    List.dropWhile_cons_of_neg (by simpa using hspace)
  unfold readIndented indented
  dsimp only
  rw [List.takeWhile_append_of_pos hfill, List.dropWhile_append_of_pos hfill, htake, hdrop,
    List.append_nil, fill, List.length_replicate, Nat.mul_div_cancel_left depth Nat.two_pos]

theorem lineFeed_notMem_indented (h : entry.2.IsLabel) : '\n' ∉ indented entry := by
  refine lineFeed_notMem_append (fun hmem => ?_) h.line
  exact absurd (List.eq_of_mem_replicate hmem) (by decide)

theorem indented_last (h : entry.2.IsLabel) :
    indented entry ≠ [] ∧ ∀ c ∈ (indented entry).getLast?, isWhiteSpace c = false := by
  have hne : entry.2 ≠ [] := by
    intro hnil
    obtain ⟨c, hc, -⟩ := h.first
    rw [hnil] at hc
    cases hc
  refine ⟨List.append_ne_nil_of_right_ne_nil _ hne, ?_⟩
  rw [indented, List.getLast?_append_of_ne_nil _ hne]
  exact h.last

end Text

/-! ## Dumps -/

namespace Node

variable {n : Node}

/-- Each row of a walk through a sound tree has a label. -/
theorem Sound.isLabel (h : n.Sound) (depth : Nat) : ∀ row ∈ n.rows depth, row.2.label.IsLabel := by
  induction n, depth using Node.rows.induct with
  | case1 n depth ih =>
      obtain ⟨hn, hchildren⟩ := h
      intro row hrow
      rw [rows_eq] at hrow
      obtain rfl | hrow := List.mem_cons.mp hrow
      · exact hn.isLabel
      · obtain ⟨child, hchild, hrow⟩ := List.mem_flatMap.mp hrow
        exact ih ⟨child, hchild⟩ (hchildren child hchild) row hrow

end Node

namespace Program

variable {P : Program}

/-- A dump is the outline of the labels, line by line. -/
theorem dump_eq (P : Program) : P.dump = Text.trimEnd
    ((((Node.program P).labels.outline 0).map Text.indented).flatMap (· ++ ['\n'])) := by
  rw [Node.outline_labels, List.map_map, List.flatMap_map]
  rfl

/-- The lines of a dump are those of the outline. -/
theorem lines_dump (h : P.WellFormed) :
    Text.splitAt '\n' P.dump = ((Node.program P).labels.outline 0).map Text.indented := by
  have hlabels : ∀ entry ∈ (Node.program P).labels.outline 0, entry.2.IsLabel := by
    rw [Node.outline_labels]
    intro entry hentry
    obtain ⟨row, hrow, rfl⟩ := List.mem_map.mp hentry
    exact h.isLabel 0 row hrow
  rw [dump_eq]
  refine Text.splitAt_trimEnd ?_ ?_ ?_
  · rw [Node.outline_labels, Node.rows_eq]
    exact List.cons_ne_nil _ _
  · intro line hline
    obtain ⟨entry, hentry, rfl⟩ := List.mem_map.mp hline
    exact Text.lineFeed_notMem_indented (hlabels entry hentry)
  · intro line hline
    obtain ⟨entry, hentry, rfl⟩ := List.mem_map.mp hline
    exact Text.indented_last (hlabels entry hentry)

/-- The outline of the labels is read off a dump. -/
theorem outline_eq (h : P.WellFormed) : (Node.program P).labels.outline 0 =
    (Text.splitAt '\n' P.dump).map Text.readIndented := by
  rw [lines_dump h, List.map_map, Node.outline_labels, List.map_map]
  refine List.map_congr_left fun row hrow => ?_
  exact (Text.readIndented_indented (h.isLabel 0 row hrow)).symm

end Program

/-- A dump has one line for each row of a walk, which is indented by two spaces for each level and
shows the label of the row.  Each label stays on its line and starts and ends with something to be
seen.  So dumps are the same if and only if the trees of labels are. -/
theorem dump_faithful {limit₁ limit₂ : Nat} {source₁ source₂ : Text} {P₁ P₂ : Program}
    (h₁ : parse limit₁ source₁ = .ok P₁) (h₂ : parse limit₂ source₂ = .ok P₂) :
    Text.splitAt '\n' P₁.dump = ((Node.program P₁).rows 0).map (fun row =>
        Text.fill (2 * row.1) ' ' ++ row.2.label) ∧
      (∀ row ∈ (Node.program P₁).rows 0, row.2.label.IsLabel) ∧
      (P₁.dump = P₂.dump ↔ (Node.program P₁).labels = (Node.program P₂).labels) := by
  obtain ⟨s₁, hrun₁⟩ := parse_eq_ok_iff.mp h₁
  obtain ⟨s₂, hrun₂⟩ := parse_eq_ok_iff.mp h₂
  have hP₁ := wellFormed_of_run hrun₁
  have hP₂ := wellFormed_of_run hrun₂
  refine ⟨?_, hP₁.isLabel 0, fun hdump => ?_, fun hlabels => ?_⟩
  · rw [Program.lines_dump hP₁, Node.outline_labels, List.map_map]
    rfl
  · refine LabelTree.outline_injective 0 ?_
    rw [Program.outline_eq hP₁, Program.outline_eq hP₂, hdump]
  · rw [Program.dump_eq, Program.dump_eq, hlabels]

/-- This string goes on in a second line, which looks like a line of a dump. -/
theorem dump_faithful_string : ∃ P, parse 256 "'a\\\n  This'".toList = .ok P ∧
    Text.splitAt '\n' P.dump = ((Node.program P).rows 0).map (fun row =>
      Text.fill (2 * row.1) ' ' ++ row.2.label) ∧
    ∀ row ∈ (Node.program P).rows 0, row.2.label.IsLabel := by
  obtain ⟨P, s, h⟩ := exists_run 256 "'a\\\n  This'".toList (by decide +kernel)
  have hparse := parse_eq_ok_iff.mpr ⟨s, h⟩
  obtain ⟨hlines, hlabels, -⟩ := dump_faithful hparse hparse
  exact ⟨P, hparse, hlines, hlabels⟩

end EcmaSyntax
