import Mathlib.Data.List.TakeWhile
import ThemeRender.Proofs.Markup.SourceLines
import ThemeRender.Proofs.Outcome

namespace ThemeRender.Markup

open Outcome (except_bind_eq_error except_bind_eq_ok)

/-! Lines before a line -/

/-- The lines under which a line of the given indentation comes, the nearest first. Those before it
are given from the last on. -/
def enclosing (indent : Nat) : List Line → List Line
  | [] => []
  | line :: earlier =>
      if line.indent < indent then line :: enclosing line.indent earlier
      else enclosing indent earlier

/-- Whether a line can come after lines, which are given from the last on. -/
def Line.Follows (line : Line) : List Line → Prop
  | [] => True
  | last :: earlier =>
      last.indent ≤ line.indent ∨ ∃ outer ∈ enclosing last.indent earlier, outer.indent = line.indent

def InStep (earlier : List Line) : List Line → Prop
  | [] => True
  | line :: rest => line.Follows earlier ∧ InStep (line :: earlier) rest

def enclosures (earlier : List Line) : List Line → List (Line × List Line)
  | [] => []
  | line :: rest => (line, enclosing line.indent earlier) :: enclosures (line :: earlier) rest

variable {indent level : Nat} {line : Line} {earlier recent lines more : List Line}

theorem head?_enclosing (indent : Nat) (earlier : List Line) :
    (enclosing indent earlier).head? = earlier.find? (·.indent < indent) := by
  induction earlier with
  | nil => rfl
  | cons line earlier ih =>
      rw [enclosing, List.find?_cons]
      by_cases less : line.indent < indent
      · simp [less]
      · simp [less, ih]

theorem of_mem_enclosing (member : line ∈ enclosing indent earlier) :
    line ∈ earlier ∧ line.indent < indent := by
  induction earlier generalizing indent with
  | nil => cases member
  | cons first earlier ih =>
      rw [enclosing] at member
      split at member
      · rename_i less
        rcases List.mem_cons.mp member with rfl | outer
        · exact ⟨List.mem_cons_self, less⟩
        · obtain ⟨before, lower⟩ := ih outer
          exact ⟨List.mem_cons_of_mem _ before, lower.trans less⟩
      · obtain ⟨before, lower⟩ := ih member
        exact ⟨List.mem_cons_of_mem _ before, lower⟩

theorem enclosing_append_deep (deep : ∀ other ∈ recent, indent ≤ other.indent)
    (earlier : List Line) : enclosing indent (recent ++ earlier) = enclosing indent earlier := by
  induction recent with
  | nil => rfl
  | cons first recent ih =>
      rw [List.forall_mem_cons] at deep
      rw [List.cons_append, enclosing, if_neg (Nat.not_lt.mpr deep.1), ih deep.2]

theorem enclosing_append_cons (less : line.indent < indent)
    (deep : ∀ other ∈ recent, line.indent < other.indent) (earlier : List Line) :
    enclosing indent (recent ++ line :: earlier) =
      enclosing indent recent ++ line :: enclosing line.indent earlier := by
  induction recent generalizing indent with
  | nil => simp [enclosing, less]
  | cons first recent ih =>
      rw [List.forall_mem_cons] at deep
      rw [List.cons_append, enclosing, enclosing]
      split
      · rw [ih deep.1 deep.2, List.cons_append]
      · rw [ih less deep.2]

theorem inStep_append (earlier lines more : List Line) :
    InStep earlier (lines ++ more) ↔
      InStep earlier lines ∧ InStep (lines.reverse ++ earlier) more := by
  induction lines generalizing earlier with
  | nil => simp [InStep]
  | cons line lines ih =>
      rw [List.cons_append, InStep, InStep, ih, and_assoc, List.reverse_cons, List.append_assoc]
      rfl

theorem enclosures_append (earlier lines more : List Line) :
    enclosures earlier (lines ++ more) =
      enclosures earlier lines ++ enclosures (lines.reverse ++ earlier) more := by
  induction lines generalizing earlier with
  | nil => rfl
  | cons line lines ih =>
      rw [List.cons_append, enclosures, enclosures, ih, List.reverse_cons, List.append_assoc]
      rfl

/-! Trees -/

/-- A line with what is nested under it, and the lines that it is nested under, the nearest first. -/
structure Placement where
  tree : LineTree
  above : List Line

namespace LineTree

mutual

def placements (above : List Line) : LineTree → List Placement
  | mk line nested => ⟨mk line nested, above⟩ :: forestPlacements (line :: above) nested

def forestPlacements (above : List Line) : List LineTree → List Placement
  | [] => []
  | tree :: rest => placements above tree ++ forestPlacements above rest

end

/-- The lines nested under a line are deeper than it, and all equally deep. -/
structure Nests (tree : LineTree) : Prop where
  deeper : ∀ child ∈ tree.nested, tree.line.indent < child.line.indent
  even : ∀ child ∈ tree.nested, ∀ other ∈ tree.nested, child.line.indent = other.line.indent

theorem exists_placement {tree : LineTree} {trees : List LineTree} (member : tree ∈ trees)
    (above : List Line) : ∃ placement ∈ forestPlacements above trees, placement.tree = tree := by
  induction trees with
  | nil => cases member
  | cons first rest ih =>
      rw [forestPlacements]
      rcases List.mem_cons.mp member with rfl | later
      · obtain ⟨line, nested⟩ := tree
        exact ⟨⟨mk line nested, above⟩, by simp [placements], rfl⟩
      · obtain ⟨placement, placed, same⟩ := ih later
        exact ⟨placement, List.mem_append_right _ placed, same⟩

end LineTree

open LineTree (forest forestPlacements placements)

/-! Nesting lines after others -/

/-- Whether lines can be nested at a level, after lines that are given from the last on: the first of
them follows exactly if it is on the level, and none goes up to a line that encloses the level. -/
structure Opens (level : Nat) (earlier lines : List Line) : Prop where
  first : ∀ line ∈ lines.head?, line.Follows earlier ↔ line.indent = level
  inside : ∀ outer ∈ enclosing level earlier, ∀ line ∈ lines, outer.indent < line.indent

namespace Opens

theorem top (lines : List Line) : Opens ((lines.head?.map Line.indent).getD 0) [] lines where
  first line head := by
    rw [Option.mem_def] at head
    simp [head, Line.Follows]
  inside _ none := by cases none

variable {rest : List Line}

theorem deeper (opens : Opens line.indent earlier (line :: rest)) :
    Opens (((rest.takeWhile (line.indent < ·.indent)).head?.map Line.indent).getD 0)
      (line :: earlier) (rest.takeWhile (line.indent < ·.indent)) := by
  have below : ∀ other ∈ rest.takeWhile (line.indent < ·.indent), line.indent < other.indent := by
    intro other member
    simpa using List.mem_takeWhile_imp member
  constructor
  case first =>
    intro first head
    have member := List.mem_of_mem_head? head
    rw [Option.mem_def] at head
    simp [head, Line.Follows, (below first member).le]
  case inside =>
    intro outer encloses other member
    cases split : rest.takeWhile (line.indent < ·.indent) with
    | nil =>
        rw [split] at member
        cases member
    | cons first others =>
        rw [split] at encloses
        have less := below first (by rw [split]; exact List.mem_cons_self)
        change outer ∈ enclosing first.indent (line :: earlier) at encloses
        rw [enclosing, if_pos less] at encloses
        rcases List.mem_cons.mp encloses with rfl | higher
        · exact below other member
        · exact (of_mem_enclosing higher).2.trans (below other member)

theorem others (opens : Opens line.indent earlier (line :: rest)) :
    Opens line.indent ((rest.takeWhile (line.indent < ·.indent)).reverse ++ line :: earlier)
      (rest.dropWhile (line.indent < ·.indent)) := by
  have below : ∀ other ∈ (rest.takeWhile (line.indent < ·.indent)).reverse,
      line.indent < other.indent := by
    intro other member
    simpa using List.mem_takeWhile_imp (List.mem_reverse.mp member)
  have inside : ∀ outer ∈ enclosing line.indent earlier,
      ∀ other ∈ rest.dropWhile (line.indent < ·.indent), outer.indent < other.indent := by
    intro outer encloses other member
    apply opens.inside outer encloses other
    exact List.mem_cons_of_mem _ ((List.dropWhile_suffix _).subset member)
  constructor
  case inside =>
    intro outer encloses
    rw [enclosing_append_deep fun other member => (below other member).le, enclosing,
      if_neg (Nat.lt_irrefl _)] at encloses
    exact inside outer encloses
  case first =>
    intro first head
    have member := List.mem_of_mem_head? head
    have notBelow : first.indent ≤ line.indent := by
      have stops := List.head?_dropWhile_not (fun other : Line => line.indent < other.indent) rest
      rw [head] at stops
      simpa using stops
    -- no line above the first one is as deep as this one
    have higher : ¬ ∃ outer ∈ enclosing line.indent earlier, outer.indent = first.indent := by
      rintro ⟨outer, encloses, same⟩
      exact absurd same (inside outer encloses first member).ne
    cases split : (rest.takeWhile (line.indent < ·.indent)).reverse with
    | nil =>
        rw [List.nil_append, Line.Follows, or_iff_left higher]
        omega
    | cons last recent =>
        rw [split, List.forall_mem_cons] at below
        rw [List.cons_append, Line.Follows, enclosing_append_cons below.1 below.2]
        constructor
        · rintro (past | ⟨outer, encloses, same⟩)
          · have := below.1
            omega
          · rcases List.mem_append.mp encloses with within | above
            · have deep := below.2 outer (of_mem_enclosing within).1
              omega
            · rcases List.mem_cons.mp above with rfl | above
              · exact same.symm
              · exact absurd ⟨outer, above, same⟩ higher
        · intro same
          exact .inr ⟨line, by simp, same.symm⟩

end Opens

structure NestedAt (level : Nat) (earlier lines : List Line) (trees : List LineTree) : Prop where
  inStep : InStep earlier lines
  onLevel : ∀ tree ∈ trees, tree.line.indent = level
  placed : (forestPlacements (enclosing level earlier) trees).map (fun placement =>
    (placement.tree.line, placement.above)) = enclosures earlier lines
  nests : ∀ placement ∈ forestPlacements (enclosing level earlier) trees, placement.tree.Nests

theorem enclosures_lines (earlier lines : List Line) : (enclosures earlier lines).map (·.1) = lines := by
  induction lines generalizing earlier with
  | nil => rfl
  | cons line lines ih => rw [enclosures, List.map_cons, ih]

namespace NestedAt

variable {rest : List Line} {nested siblings trees : List LineTree}

theorem nil (level : Nat) (earlier : List Line) : NestedAt level earlier [] [] where
  inStep := trivial
  onLevel _ none := by cases none
  placed := rfl
  nests _ none := by cases none

theorem preorder (nestedAt : NestedAt level earlier lines trees) :
    (forestPlacements (enclosing level earlier) trees).map (·.tree.line) = lines := by
  have placed := congrArg (List.map Prod.fst) nestedAt.placed
  rw [enclosures_lines, List.map_map] at placed
  exact placed

theorem line_mem (nestedAt : NestedAt level earlier lines trees) {tree : LineTree}
    (member : tree ∈ trees) : tree.line ∈ lines := by
  obtain ⟨placement, placed, rfl⟩ := LineTree.exists_placement member (enclosing level earlier)
  rw [← nestedAt.preorder]
  exact List.mem_map_of_mem placed

theorem cons (opens : Opens line.indent earlier (line :: more ++ rest))
    (deep : ∀ other ∈ more, line.indent < other.indent)
    (below : NestedAt ((more.head?.map Line.indent).getD 0) (line :: earlier) more nested)
    (after : NestedAt line.indent (more.reverse ++ line :: earlier) rest siblings) :
    NestedAt line.indent earlier (line :: more ++ rest) (.mk line nested :: siblings) := by
  have outside : enclosing line.indent (more.reverse ++ line :: earlier) =
      enclosing line.indent earlier := by
    rw [enclosing_append_deep, enclosing, if_neg (Nat.lt_irrefl _)]
    intro other member
    exact (deep other (List.mem_reverse.mp member)).le
  have within : forestPlacements (line :: enclosing line.indent earlier) nested =
      forestPlacements (enclosing ((more.head?.map Line.indent).getD 0) (line :: earlier))
        nested := by
    cases more with
    | nil =>
        cases nested with
        | nil => rfl
        | cons tree _ => exact absurd (below.line_mem List.mem_cons_self) List.not_mem_nil
    | cons first more =>
        change _ = forestPlacements (enclosing first.indent (line :: earlier)) nested
        rw [enclosing, if_pos (deep first List.mem_cons_self)]
  constructor
  case inStep =>
    have follows := (opens.first line rfl).mpr rfl
    exact ⟨follows, (inStep_append _ _ _).mpr ⟨below.inStep, after.inStep⟩⟩
  case onLevel =>
    exact List.forall_mem_cons.mpr ⟨rfl, after.onLevel⟩
  case placed =>
    have placed := after.placed
    rw [outside] at placed
    rw [forestPlacements, placements, List.map_append, List.map_cons, within, below.placed, placed,
      List.cons_append, List.cons_append, enclosures, enclosures_append]
    rfl
  case nests =>
    have nests := after.nests
    rw [outside] at nests
    rw [forestPlacements, placements, within, List.forall_mem_append, List.forall_mem_cons]
    refine ⟨⟨⟨?_, ?_⟩, below.nests⟩, nests⟩
    · intro child member
      exact deep _ (below.line_mem member)
    · intro child member other memberToo
      rw [below.onLevel child member, below.onLevel other memberToo]

end NestedAt

variable {trees : List LineTree} {complaint : Complaint}

theorem forest_ok (opens : Opens level earlier lines) (built : forest level lines = .ok trees) :
    NestedAt level earlier lines trees := by
  fun_induction forest level lines generalizing earlier trees with
  | case1 =>
      cases built
      exact .nil _ _
  | case2 => cases built
  | case3 level line rest onLevel deeper others =>
      rename_i ihDeeper ihOthers
      rw [not_ne_iff] at onLevel
      subst onLevel
      obtain ⟨nested, builtNested, built⟩ := except_bind_eq_ok.mp built
      obtain ⟨siblings, builtSiblings, same⟩ := except_bind_eq_ok.mp built
      cases same
      have below := ihDeeper opens.deeper builtNested
      have after := ihOthers opens.others builtSiblings
      have parts : deeper ++ others = rest := List.takeWhile_append_dropWhile
      rw [← parts] at opens ⊢
      refine .cons opens ?_ below after
      intro other member
      simpa using List.mem_takeWhile_imp member

/-- Where lines cannot be nested, the complaint is about the first of them that cannot come after
those before it. -/
theorem forest_error (opens : Opens level earlier lines)
    (fails : forest level lines = .error complaint) :
    ∃ before line after, lines = before ++ line :: after ∧ InStep earlier before ∧
      ¬ line.Follows (before.reverse ++ earlier) ∧
      complaint = line.complain .inconsistentIndentation := by
  fun_induction forest level lines generalizing earlier with
  | case1 => cases fails
  | case2 level line rest offLevel =>
      cases fails
      refine ⟨[], line, rest, rfl, trivial, ?_, rfl⟩
      intro follows
      exact offLevel ((opens.first line rfl).mp follows)
  | case3 level line rest onLevel deeper others =>
      rename_i ihDeeper ihOthers
      rw [not_ne_iff] at onLevel
      subst onLevel
      have follows := (opens.first line rfl).mpr rfl
      have parts : deeper ++ others = rest := List.takeWhile_append_dropWhile
      rcases except_bind_eq_error.mp fails with failsDeeper | ⟨nested, builtNested, fails⟩
      · obtain ⟨before, bad, after, split, inStep, out, same⟩ := ihDeeper opens.deeper failsDeeper
        refine ⟨line :: before, bad, after ++ others, ?_, ⟨follows, inStep⟩, ?_, same⟩
        · rw [← parts, split]
          simp
        · rw [List.reverse_cons, List.append_assoc]
          exact out
      · rcases except_bind_eq_error.mp fails with failsOthers | ⟨siblings, _, none⟩
        · obtain ⟨before, bad, after, split, inStep, out, same⟩ := ihOthers opens.others failsOthers
          have inStepDeeper := (forest_ok opens.deeper builtNested).inStep
          refine ⟨line :: (deeper ++ before), bad, after, ?_,
            ⟨follows, (inStep_append _ _ _).mpr ⟨inStepDeeper, inStep⟩⟩, ?_, same⟩
          · rw [← parts, split]
            simp
          · rw [List.reverse_cons, List.reverse_append, List.append_assoc, List.append_assoc]
            exact out
        · cases none

/-! Nesting the lines of a source -/

structure Outlines (lines : List Line) (trees : List LineTree) : Prop where
  preorder : (forestPlacements [] trees).map (·.tree.line) = lines
  roots : ∀ tree ∈ trees, ∀ other ∈ trees, tree.line.indent = other.line.indent
  nests : ∀ placement ∈ forestPlacements [] trees, placement.tree.Nests
  /-- The parent is the nearest line before that is less deep. -/
  parent : ∀ before placement after, forestPlacements [] trees = before ++ placement :: after →
    placement.above.head? =
      (before.map (·.tree.line)).reverse.find? (·.indent < placement.tree.line.indent)
  above : ∀ before placement after, forestPlacements [] trees = before ++ placement :: after →
    placement.above = enclosing placement.tree.line.indent (before.map (·.tree.line)).reverse

theorem enclosing_of_enclosures {before after : List (Line × List Line)} {here : Line × List Line}
    (split : enclosures earlier lines = before ++ here :: after) :
    here.2 = enclosing here.1.indent ((before.map (·.1)).reverse ++ earlier) := by
  induction before generalizing earlier lines with
  | nil =>
      cases lines with
      | nil => cases split
      | cons line lines =>
          cases split
          rfl
  | cons first before ih =>
      cases lines with
      | nil => cases split
      | cons line lines =>
          rw [enclosures, List.cons_append] at split
          obtain ⟨rfl, more⟩ := List.cons_eq_cons.mp split
          rw [ih more, List.map_cons, List.reverse_cons, List.append_assoc]
          rfl

theorem NestedAt.outlines (nestedAt : NestedAt level [] lines trees) : Outlines lines trees := by
  have above : ∀ before placement after, forestPlacements [] trees = before ++ placement :: after →
      placement.above =
        enclosing placement.tree.line.indent (before.map (·.tree.line)).reverse := by
    intro before placement after split
    have placed := nestedAt.placed
    rw [enclosing, split, List.map_append, List.map_cons] at placed
    have encloses := enclosing_of_enclosures placed.symm
    rw [List.map_map, List.append_nil] at encloses
    exact encloses
  refine ⟨nestedAt.preorder, ?_, nestedAt.nests, ?_, above⟩
  · intro tree member other memberToo
    rw [nestedAt.onLevel tree member, nestedAt.onLevel other memberToo]
  · intro before placement after split
    rw [above before placement after split, head?_enclosing]

/-- A source none of whose lines is indented with tabs and with spaces. Its lines that are not blank
can be nested exactly if each is as deep as the one before it, or deeper, or as deep as a line which
that one is nested under. Then the trees have these lines in preorder, the lines nested under one line
are deeper than it and equally deep, and each line is nested under the nearest one before it that is
less deep. If they cannot be nested, the complaint is about the first line that is out of step. -/
theorem lines_nest_by_indentation {source : List Char}
    (unmixed : ∀ raw ∈ Text.lines source, raw.all Text.isBlank = false → ¬ Mixed raw) :
    ∃ lines, List.Forall₂ (Line.Reads source) lines (busyFrom 1 (Text.lines source)) ∧
      ((∃ trees, LineTree.ofSource source = .ok trees) ↔ InStep [] lines) ∧
      (∀ trees, LineTree.ofSource source = .ok trees → Outlines lines trees) ∧
      (∀ complaint, LineTree.ofSource source = .error complaint →
        ∃ before line after, lines = before ++ line :: after ∧ InStep [] before ∧
          ¬ line.Follows before.reverse ∧
          complaint = line.complain .inconsistentIndentation) := by
  obtain ⟨lines, readsLines, reads⟩ : ∃ lines, linesFrom 1 0 (Text.lines source) = .ok lines ∧
      List.Forall₂ (Line.Reads source) lines (busyFrom 1 (Text.lines source)) :=
    @linesFrom_reads source [] 1 source rfl (fun _ => rfl) unmixed
  have nesting : LineTree.ofSource source =
      forest ((lines.head?.map Line.indent).getD 0) lines := by
    unfold LineTree.ofSource
    rw [readsLines]
    rfl
  have out : ∀ complaint, LineTree.ofSource source = .error complaint →
      ∃ before line after, lines = before ++ line :: after ∧ InStep [] before ∧
        ¬ line.Follows before.reverse ∧
        complaint = line.complain .inconsistentIndentation := by
    intro complaint fails
    rw [nesting] at fails
    obtain ⟨before, line, after, split, inStep, out, same⟩ := forest_error (.top lines) fails
    rw [List.append_nil] at out
    exact ⟨before, line, after, split, inStep, out, same⟩
  refine ⟨lines, reads, ⟨?_, ?_⟩, ?_, out⟩
  · rintro ⟨trees, built⟩
    rw [nesting] at built
    exact (forest_ok (.top lines) built).inStep
  · intro inStep
    cases built : LineTree.ofSource source with
    | ok trees => exact ⟨trees, rfl⟩
    | error complaint =>
        obtain ⟨before, line, after, split, _, outOfStep, _⟩ := out complaint built
        rw [split, inStep_append, InStep, List.append_nil] at inStep
        exact absurd inStep.2.1 outOfStep
  · intro trees built
    rw [nesting] at built
    exact (forest_ok (.top lines) built).outlines

theorem menu_nests_past_blank_line :
    let source := "ul\n  li\n\n\t \n    é\n  p".toList
    (∀ raw ∈ Text.lines source, raw.all Text.isBlank = false → ¬ Mixed raw) ∧
    ∃ lines, List.Forall₂ (Line.Reads source) lines
        [("ul\n".toList, 1), ("  li\n".toList, 2), ("    é\n".toList, 5), ("  p".toList, 6)] ∧
      ∃ trees, LineTree.ofSource source = .ok trees ∧ Outlines lines trees := by
  intro source
  have unmixed : ∀ raw ∈ Text.lines source, raw.all Text.isBlank = false → ¬ Mixed raw := by
    decide
  obtain ⟨lines, reads, nests, outlines, -⟩ := lines_nest_by_indentation unmixed
  have numbered : busyFrom 1 (Text.lines source) =
      [("ul\n".toList, 1), ("  li\n".toList, 2), ("    é\n".toList, 5), ("  p".toList, 6)] := by
    decide
  rw [numbered] at reads
  obtain ⟨trees, built⟩ := nests.mpr <| by
    obtain ⟨list, _, readsList, items, rfl⟩ := List.forall₂_cons_right_iff.mp reads
    obtain ⟨first, _, readsFirst, later, rfl⟩ := List.forall₂_cons_right_iff.mp items
    obtain ⟨inside, _, readsInside, others, rfl⟩ := List.forall₂_cons_right_iff.mp later
    obtain ⟨last, _, readsLast, none, rfl⟩ := List.forall₂_cons_right_iff.mp others
    cases none
    have listIndent : list.indent = 0 := readsList.indent
    have firstIndent : first.indent = 2 := readsFirst.indent
    have insideIndent : inside.indent = 4 := readsInside.indent
    have lastIndent : last.indent = 2 := readsLast.indent
    simp [InStep, Line.Follows, enclosing, listIndent, firstIndent, insideIndent, lastIndent]
  exact ⟨unmixed, lines, reads, trees, built, outlines trees built⟩

end ThemeRender.Markup
