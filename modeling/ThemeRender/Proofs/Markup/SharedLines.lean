import ThemeRender.Proofs.Markup.Shapes
import ThemeRender.Proofs.Markup.Shared
import ThemeRender.Proofs.Outcome
import ThemeRender.Proofs.Text.Splitting
import ThemeRender.Proofs.Text.WholeLines
/-!
The lines of a shared page in both dialects. They are indented alike, so that either both sources
are refused for their indentation, or their lines are nested in the same way (`Twins`).
-/

namespace ThemeRender.Markup

open Outcome (Together)

variable {row : Row} {rows : List Row} {lines : List Line}

def Row.raw (side : Row → List Char) (row : Row) : List Char :=
  row.indent ++ side row ++ ['\n']

theorem lines_rows {side : Row → List Char} (starts : ∀ row ∈ rows, StartsLine (side row))
    (flat : ∀ row ∈ rows, Text.Flat row.indent) :
    Text.lines (rows.flatMap (Row.raw side)) = rows.map (Row.raw side) := by
  have texts : ∀ text ∈ rows.map (fun row => row.indent ++ side row), Text.Flat text := by
    rw [List.forall_mem_map]
    intro row member
    exact (flat row member).append (starts row member).1
  have lines := Text.lines_rows texts
  rw [List.flatMap_map, List.map_map] at lines
  exact lines

def Line.Holds (side : Row → List Char) (line : Line) (row : Row) : Prop :=
  line.indent = row.indent.length ∧ line.text = Text.trimEnd (side row)

theorem lineOf?_raw {side : Row → List Char} (blank : ∀ c ∈ row.indent, Text.isBlank c = true)
    (starts : StartsLine (side row)) (number offset : Nat) :
    ∃ line : Line, line.Holds side row ∧ lineOf? number offset (row.raw side) =
      if '\t' ∈ row.indent ∧ ' ' ∈ row.indent then .error (line.complain .mixedIndentation)
      else .ok (some line) := by
  obtain ⟨-, busy⟩ := starts
  cases same : side row with
  | nil =>
      rw [same] at busy
      cases busy
  | cons c rest =>
      rw [same] at busy
      have noBlank : Text.isBlank c = false := Option.some.inj busy
      have kept : Text.trimEnd (side row) = c :: Text.trimEnd rest := by
        rw [same, Text.trimEnd_cons_of_not_blank noBlank]
      have content : Text.trimEnd (row.raw side) = row.indent ++ c :: Text.trimEnd rest := by
        rw [Row.raw, Text.trimEnd_append_blank (by decide), Text.trimEnd_append_of_busy, kept]
        rw [kept]
        exact List.cons_ne_nil _ _
      have text : Text.trimStart (Text.trimEnd (row.raw side)) = c :: Text.trimEnd rest := by
        rw [content, Text.trimStart_append_of_blank blank,
          Text.trimStart_cons_of_not_blank noBlank]
      have indent : (Text.trimEnd (row.raw side)).takeWhile Text.isBlank = row.indent := by
        rw [content, List.takeWhile_append_of_pos blank, List.takeWhile_cons, noBlank]
        simp
      unfold lineOf?
      simp only [text, indent, List.isEmpty_cons, Bool.false_eq_true, if_false]
      exact ⟨_, ⟨rfl, kept.symm⟩, rfl⟩

def Hold (rows : List Row) (lines linesToo : List Line) : Prop :=
  List.Forall₂ (Line.Holds Row.haml) lines rows ∧ List.Forall₂ (Line.Holds Row.jade) linesToo rows

theorem linesFrom_together (fits : ∀ row ∈ rows, row.Fits) (number offset offsetToo : Nat) :
    Together (Hold rows) (linesFrom number offset (rows.map (Row.raw Row.haml)))
      (linesFrom number offsetToo (rows.map (Row.raw Row.jade))) := by
  induction rows generalizing number offset offsetToo with
  | nil => exact .ok ⟨.nil, .nil⟩
  | cons row rest ih =>
      rw [List.forall_mem_cons] at fits
      obtain ⟨line, holds, read⟩ := lineOf?_raw fits.1.blank fits.1.haml number offset
      obtain ⟨lineToo, holdsToo, readToo⟩ :=
        lineOf?_raw fits.1.blank fits.1.jade number offsetToo
      rw [List.map_cons, List.map_cons, linesFrom, linesFrom, read, readToo]
      split
      · exact .error _ _
      · apply (ih fits.2 (number + 1) _ _).bind
        intro lines linesToo hold
        exact .ok ⟨.cons holds hold.1, .cons holdsToo hold.2⟩

/-! Nesting -/

/-- The trees of lines in which both dialects have a tree. -/
inductive Twins : List Tree → List LineTree → List LineTree → Prop
  | nil : Twins [] [] []
  | shown {shown : Shown} (step : Step) {nested rest : List Tree} {line lineToo : Line}
      {inner innerToo after afterToo : List LineTree}
      (haml : line.text = Text.trimEnd shown.haml) (jade : lineToo.text = Text.trimEnd shown.jade)
      (inside : Twins nested inner innerToo) (more : Twins rest after afterToo) :
      Twins (.shown shown step nested :: rest) (.mk line inner :: after)
        (.mk lineToo innerToo :: afterToo)
  | comment {text : LineEnd} {rest : List Tree} {line lineToo : Line}
      {after afterToo : List LineTree} (haml : line.text = Text.trimEnd (Tree.comment text).haml)
      (jade : lineToo.text = Text.trimEnd (Tree.comment text).jade)
      (more : Twins rest after afterToo) :
      Twins (.comment text :: rest) (.mk line [] :: after) (.mk lineToo [] :: afterToo)
  | silent {text : LineEnd} (hidden : List Hidden) {rest : List Tree} {line lineToo : Line}
      (inner innerToo : List LineTree) {after afterToo : List LineTree}
      (haml : line.text = Text.trimEnd (Tree.silent text hidden).haml)
      (jade : lineToo.text = Text.trimEnd (Tree.silent text hidden).jade)
      (more : Twins rest after afterToo) :
      Twins (.silent text hidden :: rest) (.mk line inner :: after)
        (.mk lineToo innerToo :: afterToo)

theorem forest_together {lines linesToo : List Line}
    (alike : List.Forall₂ (fun line other => line.indent = other.indent) lines linesToo) :
    Together (fun _ _ => True) (LineTree.forest (firstIndent lines) lines)
      (LineTree.forest (firstIndent linesToo) linesToo) := by
  have reindented : List.Forall₂ (Line.Reindented (fun _ _ => True) id Set.univ) lines linesToo :=
    alike.imp fun _ _ same => ⟨trivial, trivial, same.symm⟩
  have shaped := forest_shaped (strictMono_id.strictMonoOn _) reindented
    (firstIndent_reindented reindented)
  exact shaped.together.mono fun _ _ _ => trivial

/-! The rows that are nested in a tree are deeper than the tree, and the next one is not -/

mutual

theorem Tree.deep_innerRows (indent : List Char) :
    ∀ tree : Tree, ∀ row ∈ tree.innerRows indent, indent.length < row.indent.length
  | .shown _ step nested => by
      intro row member
      have deep := Tree.deep_rows (indent ++ step.text) nested row member
      have further := List.length_pos_iff.mpr step.some
      rw [List.length_append] at deep
      omega
  | .comment _ => by simp [Tree.innerRows]
  | .silent _ hidden => by
      intro row member
      obtain ⟨line, -, rfl⟩ := List.mem_map.mp member
      have further := List.length_pos_iff.mpr line.step.some
      rw [List.length_append]
      omega

theorem Tree.deep_rows (indent : List Char) :
    ∀ trees : List Tree, ∀ row ∈ Tree.rows indent trees, indent.length ≤ row.indent.length
  | [] => by simp [Tree.rows]
  | tree :: rest => by
      rw [Tree.rows, List.forall_mem_cons, List.forall_mem_append]
      exact ⟨Nat.le_refl _, fun row member => (tree.deep_innerRows indent row member).le,
        Tree.deep_rows indent rest⟩

end

def Row.deeper (indent : List Char) (row : Row) : Bool :=
  indent.length < row.indent.length

theorem Tree.rows_parted (indent : List Char) (tree : Tree) (rest : List Tree) :
    (tree.innerRows indent ++ Tree.rows indent rest).takeWhile (Row.deeper indent) =
        tree.innerRows indent ∧
      (tree.innerRows indent ++ Tree.rows indent rest).dropWhile (Row.deeper indent) =
        Tree.rows indent rest := by
  have deep : ∀ row ∈ tree.innerRows indent, Row.deeper indent row = true := by
    intro row member
    exact decide_eq_true (tree.deep_innerRows indent row member)
  have ends : ∀ row, (Tree.rows indent rest).head? = some row → Row.deeper indent row = false := by
    intro row first
    cases rest with
    | nil => cases first
    | cons next rest =>
        cases first
        exact decide_eq_false (Nat.lt_irrefl _)
  exact ⟨Text.takeWhile_exact deep ends, Text.dropWhile_exact deep ends⟩

theorem Line.Holds.deeper {side : Row → List Char} {line : Line} (holds : line.Holds side row)
    (indent : List Char) : decide (indent.length < line.indent) = row.deeper indent := by
  rw [holds.1]
  rfl

namespace Hold

variable {linesToo : List Line}

theorem deeper (hold : Hold rows lines linesToo) (indent : List Char) :
    Hold (rows.takeWhile (Row.deeper indent)) (lines.takeWhile (indent.length < ·.indent))
      (linesToo.takeWhile (indent.length < ·.indent)) :=
  ⟨Forall₂.takeWhile hold.1 fun _ _ holds => holds.deeper indent,
    Forall₂.takeWhile hold.2 fun _ _ holds => holds.deeper indent⟩

theorem others (hold : Hold rows lines linesToo) (indent : List Char) :
    Hold (rows.dropWhile (Row.deeper indent)) (lines.dropWhile (indent.length < ·.indent))
      (linesToo.dropWhile (indent.length < ·.indent)) :=
  ⟨Forall₂.dropWhile hold.1 fun _ _ holds => holds.deeper indent,
    Forall₂.dropWhile hold.2 fun _ _ holds => holds.deeper indent⟩

theorem alike (hold : Hold rows lines linesToo) :
    List.Forall₂ (fun line other => line.indent = other.indent) lines linesToo := by
  obtain ⟨holds, holdsToo⟩ := hold
  induction holds generalizing linesToo with
  | nil =>
      cases holdsToo
      exact .nil
  | cons here _ ih =>
      cases holdsToo with
      | cons hereToo laterToo => exact .cons (here.1.trans hereToo.1.symm) (ih laterToo)

end Hold

variable {indent : List Char}

theorem forest_first {side : Row → List Char} {trees : List Tree}
    (holds : List.Forall₂ (Line.Holds side) lines (Tree.rows indent trees)) :
    LineTree.forest (firstIndent lines) lines = LineTree.forest indent.length lines := by
  cases trees with
  | nil =>
      cases holds
      rw [LineTree.forest, LineTree.forest]
  | cons tree rest =>
      rw [Tree.rows] at holds
      cases holds with
      | cons here _ => exact congrArg (LineTree.forest · _) here.1

theorem forest_tree {tree : Tree} {rest : List Tree} {linesToo : List Line}
    {Inner : List LineTree → List LineTree → Prop}
    (hold : Hold (Tree.rows indent (tree :: rest)) lines linesToo)
    (inside : ∀ inner innerToo, Hold (tree.innerRows indent) inner innerToo →
      Together Inner (LineTree.forest (firstIndent inner) inner)
        (LineTree.forest (firstIndent innerToo) innerToo))
    (after : ∀ others othersToo, Hold (Tree.rows indent rest) others othersToo →
      Together (Twins rest) (LineTree.forest indent.length others)
        (LineTree.forest indent.length othersToo))
    (build : ∀ line lineToo inner innerToo siblings siblingsToo,
      line.text = Text.trimEnd tree.haml → lineToo.text = Text.trimEnd tree.jade →
      Inner inner innerToo → Twins rest siblings siblingsToo →
      Twins (tree :: rest) (.mk line inner :: siblings) (.mk lineToo innerToo :: siblingsToo)) :
    Together (Twins (tree :: rest)) (LineTree.forest indent.length lines)
      (LineTree.forest indent.length linesToo) := by
  obtain ⟨holds, holdsToo⟩ := hold
  rw [Tree.rows] at holds holdsToo
  cases holds with
  | cons here later =>
      cases holdsToo with
      | cons hereToo laterToo =>
          have hold : Hold _ _ _ := ⟨later, laterToo⟩
          obtain ⟨parted, partedToo⟩ := tree.rows_parted indent rest
          have deeper := hold.deeper indent
          have others := hold.others indent
          rw [parted] at deeper
          rw [partedToo] at others
          rw [forest_cons here.1, forest_cons hereToo.1]
          apply (inside _ _ deeper).bind
          intro inner innerToo nested
          apply (after _ _ others).bind
          intro siblings siblingsToo twins
          exact .ok (build _ _ _ _ _ _ here.2 hereToo.2 nested twins)

theorem forest_rows (indent : List Char) : ∀ (trees : List Tree) (lines linesToo : List Line),
    Hold (Tree.rows indent trees) lines linesToo →
      Together (Twins trees) (LineTree.forest indent.length lines)
        (LineTree.forest indent.length linesToo)
  | [] => by
      intro lines linesToo hold
      cases hold.1
      cases hold.2
      rw [LineTree.forest]
      exact .ok .nil
  | .shown line step nested :: rest => by
      intro lines linesToo hold
      refine forest_tree hold ?inside (fun _ _ => forest_rows indent rest _ _)
        fun _ _ _ _ _ _ haml jade => Twins.shown step haml jade
      case inside =>
        intro inner innerToo within
        rw [Tree.innerRows] at within
        rw [forest_first within.1, forest_first within.2]
        exact forest_rows _ nested _ _ within
  | .comment text :: rest => by
      intro lines linesToo hold
      have inside (inner innerToo : List Line)
          (within : Hold ((Tree.comment text).innerRows indent) inner innerToo) :
          Together (fun inner innerToo => inner = [] ∧ innerToo = [])
            (LineTree.forest (firstIndent inner) inner)
            (LineTree.forest (firstIndent innerToo) innerToo) := by
        cases within.1
        cases within.2
        rw [LineTree.forest]
        exact .ok ⟨rfl, rfl⟩
      apply forest_tree hold inside (fun _ _ => forest_rows indent rest _ _)
      rintro line lineToo _ _ siblings siblingsToo haml jade ⟨rfl, rfl⟩
      exact Twins.comment haml jade
  | .silent text hidden :: rest => by
      intro lines linesToo hold
      have inside (inner innerToo : List Line)
          (within : Hold ((Tree.silent text hidden).innerRows indent) inner innerToo) :
          Together (fun _ _ => True) (LineTree.forest (firstIndent inner) inner)
            (LineTree.forest (firstIndent innerToo) innerToo) := by
        exact forest_together within.alike
      exact forest_tree hold inside (fun _ _ => forest_rows indent rest _ _)
        fun _ _ inner innerToo _ _ haml jade _ => Twins.silent hidden inner innerToo haml jade

theorem SharedPage.ofSource_together (page : SharedPage) :
    Together (Twins page.trees) (LineTree.ofSource page.haml.toList)
      (LineTree.ofSource page.jade.toList) := by
  have fits : ∀ row ∈ page.rows, row.Fits := Tree.fits_rows page.indent page.trees
  have haml : Text.lines page.haml.toList = page.rows.map (Row.raw Row.haml) := by
    rw [SharedPage.haml, String.toList_ofList]
    exact lines_rows (fun row member => (fits row member).haml)
      fun row member => (fits row member).flat
  have jade : Text.lines page.jade.toList = page.rows.map (Row.raw Row.jade) := by
    rw [SharedPage.jade, String.toList_ofList]
    exact lines_rows (fun row member => (fits row member).jade)
      fun row member => (fits row member).flat
  unfold LineTree.ofSource
  rw [haml, jade]
  apply (linesFrom_together fits 1 0 0).bind
  intro lines linesToo hold
  change Together _ (LineTree.forest (firstIndent lines) lines)
    (LineTree.forest (firstIndent linesToo) linesToo)
  rw [forest_first hold.1, forest_first hold.2]
  exact forest_rows _ page.trees _ _ hold

end ThemeRender.Markup
