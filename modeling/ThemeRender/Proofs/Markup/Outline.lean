import ThemeRender.Markup.LineTree
import ThemeRender.Markup.Piece
import ThemeRender.Proofs.Markup.SourceLines
import ThemeRender.Proofs.Outcome
import ThemeRender.Proofs.Text.Marks
import ThemeRender.Proofs.Text.Splitting
/-!
The lines of a source in order, each with the way in which the lines above it have it read, and the
words that a line puts on its page.
-/

namespace ThemeRender.Markup

open Outcome (except_bind_eq_ok)

/-- How what is nested in a line is read. -/
inductive Context where
  | markup
  | text
  | copied
  /-- Not at all, since a comment hides it. -/
  | hidden
  /-- Not at all, although nothing hides it. -/
  | dropped
deriving DecidableEq, Repr

/-- What the lines of a dialect look like. -/
structure LineRules where
  within : Line → Context
  plain? : List Char → Option (List Char)
  /-- The words of a comment that is part of the page. -/
  remark? : List Char → Option (List Char)
  isSilent : List Char → Bool

def LineRules.under (rules : LineRules) (context : Context) (line : Line) : Context :=
  match context with
  | .markup => rules.within line
  | context => context

structure Placed where
  context : Context
  tree : LineTree

/-- The line puts the words on its page: it is text without expressions, or a comment with no other
lines in it, or it is copied as it is. -/
inductive Placed.Tells (rules : LineRules) (words : List Char) : Placed → Prop
  | plain {line : Line} {nested : List LineTree} (reads : rules.plain? line.text = some words)
      (lacks : Text.Lacks exprOpen words) : Tells rules words ⟨.markup, .mk line nested⟩
  | remark {line : Line} {nested : List LineTree} (reads : rules.remark? line.text = some words)
      (alone : ∀ tree ∈ nested, rules.isSilent tree.line.text = true) :
      Tells rules words ⟨.markup, .mk line nested⟩
  | text {line : Line} {nested : List LineTree} (same : line.text = words)
      (lacks : Text.Lacks exprOpen words) : Tells rules words ⟨.text, .mk line nested⟩
  | copied {line : Line} {nested : List LineTree} (same : line.text = words) :
      Tells rules words ⟨.copied, .mk line nested⟩

namespace Placed.Tells

variable {rules : LineRules} {words : List Char} {placed : Placed}

theorem text_eq (tells : placed.Tells rules words) (other : placed.context ≠ .markup) :
    placed.tree.line.text = words := by
  cases tells with
  | plain => exact absurd rfl other
  | remark => exact absurd rfl other
  | text same => exact same
  | copied same => exact same

theorem lacks (tells : placed.Tells rules words) (text : placed.context = .text) :
    Text.Lacks exprOpen words := by
  cases tells with
  | text _ lacks => exact lacks
  | plain => cases text
  | remark => cases text
  | copied => cases text

theorem shown (tells : placed.Tells rules words) :
    placed.context ≠ .hidden ∧ placed.context ≠ .dropped := by
  cases tells <;> exact ⟨Context.noConfusion, Context.noConfusion⟩

end Placed.Tells

namespace LineTree

variable (rules : LineRules)

mutual

def places (context : Context) : LineTree → List Placed
  | mk line nested =>
      ⟨context, mk line nested⟩ :: forestPlaces (rules.under context line) nested

def forestPlaces (context : Context) : List LineTree → List Placed
  | [] => []
  | tree :: rest => places context tree ++ forestPlaces context rest

end

def sourcePlaces (source : List Char) : List Placed :=
  match ofSource source with
  | .ok trees => forestPlaces rules .markup trees
  | .error _ => []

end LineTree

def Line.beyond (base : Nat) (line : Line) : List Char :=
  List.replicate (line.indent - base) ' ' ++ line.text

def busyLines (source : List Char) : List (List Char) :=
  ((Text.lines source).map fun raw => Text.trimStart (Text.trimEnd raw)).filter (!·.isEmpty)

/-- The place is that of a line of the dialect, or of one that is nested in it and read otherwise. -/
inductive Placed.Taken (rules : LineRules) (line : Line) (nested : List LineTree) : Placed → Prop
  | own : Taken rules line nested ⟨.markup, .mk line nested⟩
  | inside {placed : Placed} (other : rules.within line ≠ .markup)
      (inner : placed ∈ LineTree.forestPlaces rules (rules.within line) nested) :
      Taken rules line nested placed

theorem Placed.Taken.member {rules : LineRules} {line : Line} {nested : List LineTree}
    {placed : Placed} (taken : placed.Taken rules line nested) :
    placed ∈ ⟨.markup, .mk line nested⟩ ::
      LineTree.forestPlaces rules (rules.within line) nested := by
  cases taken with
  | own => exact List.mem_cons_self
  | inside _ inner => exact List.mem_cons_of_mem _ inner

/-! Every line that is not blank has a place -/

theorem text_linesFrom {number offset : Nat} {raws : List (List Char)} {lines : List Line}
    (reads : linesFrom number offset raws = .ok lines) :
    lines.map Line.text =
      (raws.map fun raw => Text.trimStart (Text.trimEnd raw)).filter (!·.isEmpty) := by
  have texts : lines.map Line.text =
      (busyRaws raws).map fun raw => Text.trimStart (Text.trimEnd raw) := by
    rw [← List.forall₂_eq_eq_eq, List.forall₂_map_left_iff, List.forall₂_map_right_iff]
    exact (linesFrom_busyRaws reads).imp fun _ _ isOf => isOf.2
  rw [texts, busyRaws, List.filter_map]
  congr 2
  funext raw
  rw [Function.comp_apply, Bool.not_inj_iff, Bool.eq_iff_iff, List.isEmpty_iff,
    Text.trimStart_trimEnd_eq_nil_iff]

namespace LineTree

variable {rules : LineRules}

theorem lines_forestPlaces {level : Nat} {lines : List Line} {trees : List LineTree}
    (built : forest level lines = .ok trees) (context : Context) :
    (forestPlaces rules context trees).map (·.tree.line) = lines := by
  fun_induction forest level lines generalizing trees context with
  | case1 =>
      cases built
      rfl
  | case2 => cases built
  | case3 level first rest here deeper others =>
      rename_i ihDeeper ihOthers
      obtain ⟨nested, builtNested, built⟩ := except_bind_eq_ok.mp built
      obtain ⟨siblings, builtSiblings, same⟩ := except_bind_eq_ok.mp built
      cases same
      rw [forestPlaces, places, List.map_append, List.map_cons, ihDeeper builtNested,
        ihOthers builtSiblings]
      exact congrArg (first :: ·) List.takeWhile_append_dropWhile

theorem nested_eq_takeWhile {level : Nat} (built : forest level lines = .ok trees) {line : Line}
    {nested : List LineTree} {inner : Context}
    (member : ⟨inner, mk line nested⟩ ∈ forestPlaces rules context trees) :
    ∃ before after, lines = before ++ line :: after ∧
      (forestPlaces rules (rules.under inner line) nested).map (·.tree.line) =
        after.takeWhile (line.indent < ·.indent) := by
  fun_induction forest level lines generalizing trees context with
  | case1 =>
      cases built
      cases member
  | case2 => cases built
  | case3 level first rest here deeper others =>
      rename_i ihDeeper ihOthers
      obtain ⟨under, builtUnder, built⟩ := except_bind_eq_ok.mp built
      obtain ⟨siblings, builtSiblings, same⟩ := except_bind_eq_ok.mp built
      cases same
      rw [forestPlaces, places] at member
      have parts : deeper ++ others = rest := List.takeWhile_append_dropWhile
      rcases List.mem_append.mp member with own | beside
      · rcases List.mem_cons.mp own with root | below
        · cases root
          rw [not_ne_iff] at here
          refine ⟨[], rest, rfl, ?_⟩
          rw [lines_forestPlaces builtUnder, here]
        · obtain ⟨before, after, split, flattened⟩ := ihDeeper builtUnder below
          refine ⟨first :: before, after ++ others, ?_, ?_⟩
          · rw [← parts, split]
            simp
          · rw [flattened]
            -- the line that ends what is nested in the first ends what is nested in one below it
            have deep : level < line.indent := by
              have member : line ∈ deeper := by
                rw [split]
                simp
              simpa using List.mem_takeWhile_imp member
            refine (Text.takeWhile_append_of_ends after ?_).symm
            intro next head
            have stops := List.head?_dropWhile_not (fun other : Line => level < other.indent) rest
            rw [show rest.dropWhile (level < ·.indent) = others from rfl, head] at stops
            have notDeeper : next.indent ≤ level := by simpa using stops
            exact decide_eq_false (by omega)
      · obtain ⟨before, after, split, flattened⟩ := ihOthers builtSiblings beside
        refine ⟨first :: (deeper ++ before), after, ?_, flattened⟩
        rw [← parts, split]
        simp

theorem texts_sourcePlaces {source : List Char} {trees : List LineTree}
    (built : ofSource source = .ok trees) :
    (sourcePlaces rules source).map (·.tree.line.text) = busyLines source := by
  have placed : sourcePlaces rules source = forestPlaces rules .markup trees := by
    rw [sourcePlaces, built]
  obtain ⟨lines, readsLines, built⟩ := except_bind_eq_ok.mp built
  rw [placed, busyLines, ← text_linesFrom readsLines, ← lines_forestPlaces built, List.map_map]
  rfl

/-! Lines that are not read as lines of the dialect -/

theorem LineRules.under_eq {context : Context} (other : context ≠ .markup) (line : Line) :
    rules.under context line = context := by
  cases context <;> first | rfl | contradiction

mutual

theorem context_of_places {context : Context} (other : context ≠ .markup) :
    ∀ (tree : LineTree), ∀ placed ∈ places rules context tree, placed.context = context
  | mk line nested, placed, member => by
      rw [places, LineRules.under_eq other] at member
      rcases List.mem_cons.mp member with rfl | within
      · rfl
      · exact context_of_forestPlaces other nested placed within

theorem context_of_forestPlaces {context : Context} (other : context ≠ .markup) :
    ∀ (trees : List LineTree), ∀ placed ∈ forestPlaces rules context trees,
      placed.context = context
  | [], placed, member => by cases member
  | tree :: rest, placed, member => by
      rw [forestPlaces] at member
      rcases List.mem_append.mp member with first | later
      · exact context_of_places other tree placed first
      · exact context_of_forestPlaces other rest placed later

end

/-! Flattened trees -/

mutual

theorem rawLines_eq (rules : LineRules) (context : Context) (base : Nat) : ∀ tree : LineTree,
    rawLines base tree = (places rules context tree).map (·.tree.line.beyond base)
  | mk line nested => by
      rw [rawLines, places, List.map_cons, rawForest_eq rules _ base nested]
      rfl

theorem rawForest_eq (rules : LineRules) (context : Context) (base : Nat) :
    ∀ trees : List LineTree,
      rawForest base trees = (forestPlaces rules context trees).map (·.tree.line.beyond base)
  | [] => rfl
  | tree :: rest => by
      rw [rawForest, forestPlaces, List.map_append, rawLines_eq rules context base tree,
        rawForest_eq rules context base rest]

end

theorem raw_of_nested {context : Context} (line : Line) {nested : List LineTree} {placed : Placed}
    (member : placed ∈ forestPlaces rules context nested) :
    ∃ width, List.replicate width ' ' ++ placed.tree.line.text ∈ rawNested (.mk line nested) := by
  cases nested with
  | nil => cases member
  | cons first rest =>
      have raw := List.mem_map_of_mem (f := (·.tree.line.beyond first.line.indent)) member
      rw [← rawForest_eq, Line.beyond] at raw
      exact ⟨_, raw⟩

theorem raw_of_tells {context : Context} (other : context ≠ .markup) (line : Line)
    {nested : List LineTree} {placed : Placed} {words : List Char}
    (member : placed ∈ forestPlaces rules context nested) (tells : placed.Tells rules words) :
    placed.context = context ∧
      ∃ width, List.replicate width ' ' ++ words ∈ rawNested (.mk line nested) := by
  have same := context_of_forestPlaces other _ placed member
  rw [← tells.text_eq (same ▸ other)]
  exact ⟨same, raw_of_nested line member⟩

theorem markup_of_forestPlaces {context : Context} {trees : List LineTree} {tree : LineTree}
    (member : ⟨.markup, tree⟩ ∈ forestPlaces rules context trees) : context = .markup := by
  apply Decidable.byContradiction
  intro other
  exact other (context_of_forestPlaces other trees _ member).symm

mutual

theorem own_of_places : ∀ (tree : LineTree), ∀ placed ∈ places rules .markup tree,
    ∃ line nested, ⟨.markup, mk line nested⟩ ∈ places rules .markup tree ∧
      placed.Taken rules line nested
  | mk line nested, placed, member => by
      rw [places] at member ⊢
      rcases List.mem_cons.mp member with rfl | inner
      · exact ⟨line, nested, List.mem_cons_self, .own⟩
      · change placed ∈ forestPlaces rules (rules.within line) nested at inner
        by_cases markup : rules.within line = .markup
        · rw [markup] at inner
          obtain ⟨own, below, found, taken⟩ := own_of_forestPlaces nested placed inner
          refine ⟨own, below, List.mem_cons_of_mem _ ?_, taken⟩
          change _ ∈ forestPlaces rules (rules.within line) nested
          rw [markup]
          exact found
        · exact ⟨line, nested, List.mem_cons_self, .inside markup inner⟩

theorem own_of_forestPlaces : ∀ (trees : List LineTree),
    ∀ placed ∈ forestPlaces rules .markup trees,
      ∃ line nested, ⟨.markup, mk line nested⟩ ∈ forestPlaces rules .markup trees ∧
        placed.Taken rules line nested
  | [], placed, member => by cases member
  | tree :: rest, placed, member => by
      rw [forestPlaces] at member ⊢
      rcases List.mem_append.mp member with first | later
      · obtain ⟨line, nested, found, taken⟩ := own_of_places tree placed first
        exact ⟨line, nested, List.mem_append_left _ found, taken⟩
      · obtain ⟨line, nested, found, taken⟩ := own_of_forestPlaces rest placed later
        exact ⟨line, nested, List.mem_append_right _ found, taken⟩

end

theorem shown_of_nested {context : Context} {nested : List LineTree} {placed : Placed}
    {words : List Char} (member : placed ∈ forestPlaces rules context nested)
    (tells : placed.Tells rules words) : context ≠ .hidden ∧ context ≠ .dropped := by
  by_cases markup : context = .markup
  · rw [markup]
    exact ⟨Context.noConfusion, Context.noConfusion⟩
  · have same := context_of_forestPlaces markup _ placed member
    exact same ▸ tells.shown

end LineTree

end ThemeRender.Markup
