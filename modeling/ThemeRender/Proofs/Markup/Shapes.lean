import Mathlib.Data.List.Forall2
import Mathlib.Order.Monotone.Basic
import ThemeRender.Proofs.Markup.Echoes

namespace ThemeRender.Markup

open Outcome (Alongside)

variable {At : Line → Line → Prop} {lines linesToo : List Line}

/-- Trees of the same shape whose lines correspond. -/
inductive Shaped (At : Line → Line → Prop) : List LineTree → List LineTree → Prop
  | nil : Shaped At [] []
  | cons {line other : Line} (place : At line other) {nested nestedToo rest restToo : List LineTree}
      (inside : Shaped At nested nestedToo) (after : Shaped At rest restToo) :
      Shaped At (.mk line nested :: rest) (.mk other nestedToo :: restToo)

theorem Forall₂.takeWhile {α β : Type} {Related : α → β → Prop} {p : α → Bool} {q : β → Bool}
    {list : List α} {other : List β} (related : List.Forall₂ Related list other)
    (same : ∀ a b, Related a b → p a = q b) :
    List.Forall₂ Related (list.takeWhile p) (other.takeWhile q) := by
  induction related with
  | nil => exact .nil
  | cons here _ ih =>
      rw [List.takeWhile_cons, List.takeWhile_cons, same _ _ here]
      split
      · exact .cons here ih
      · exact .nil

theorem Forall₂.dropWhile {α β : Type} {Related : α → β → Prop} {p : α → Bool} {q : β → Bool}
    {list : List α} {other : List β} (related : List.Forall₂ Related list other)
    (same : ∀ a b, Related a b → p a = q b) :
    List.Forall₂ Related (list.dropWhile p) (other.dropWhile q) := by
  induction related with
  | nil => exact .nil
  | cons here later ih =>
      rw [List.dropWhile_cons, List.dropWhile_cons, same _ _ here]
      split
      · exact ih
      · exact .cons here later

def firstIndent (lines : List Line) : Nat :=
  (lines.head?.map Line.indent).getD 0

theorem forest_cons {level : Nat} {line : Line} {rest : List Line} (here : line.indent = level) :
    LineTree.forest level (line :: rest) = (do
      let deeper := rest.takeWhile (level < ·.indent)
      let nested ← LineTree.forest (firstIndent deeper) deeper
      let siblings ← LineTree.forest level (rest.dropWhile (level < ·.indent))
      return .mk line nested :: siblings) := by
  rw [LineTree.forest, if_neg (not_not_intro here)]
  rfl

/-- Lines that correspond, the indentation of the one being that of the other under `f`. -/
structure Line.Reindented (At : Line → Line → Prop) (f : Nat → Nat) (widths : Set Nat)
    (line other : Line) : Prop where
  place : At line other
  known : line.indent ∈ widths
  indent : other.indent = f line.indent

section

variable {f : Nat → Nat} {widths : Set Nat} {level levelToo : Nat}

theorem firstIndent_reindented
    (alike : List.Forall₂ (Line.Reindented At f widths) lines linesToo) (some : lines ≠ []) :
    firstIndent lines ∈ widths ∧ firstIndent linesToo = f (firstIndent lines) := by
  cases alike with
  | nil => exact absurd rfl some
  | cons here _ => exact ⟨here.known, here.indent⟩

theorem forest_shaped (increasing : StrictMonoOn f widths)
    (alike : List.Forall₂ (Line.Reindented At f widths) lines linesToo)
    (levels : lines ≠ [] → level ∈ widths ∧ levelToo = f level) :
    Alongside (Echoes At) (Shaped At) (LineTree.forest level lines)
      (LineTree.forest levelToo linesToo) := by
  -- the deeper lines and the others are both fewer, but neither are the rest of the lines
  generalize size : lines.length = n
  induction n using Nat.strongRecOn generalizing level levelToo lines linesToo with
  | ind n ih =>
      cases alike with
      | nil =>
          rw [LineTree.forest, LineTree.forest]
          exact .ok .nil
      | @cons line other rest restToo here later =>
          obtain ⟨known, rfl⟩ := levels (List.cons_ne_nil _ _)
          have sameLevel : other.indent = f level ↔ line.indent = level := by
            rw [here.indent, increasing.eq_iff_eq here.known known]
          by_cases onLevel : line.indent = level
          · have same (line other : Line) (here : line.Reindented At f widths other) :
                decide (level < line.indent) = decide (f level < other.indent) := by
              rw [decide_eq_decide, here.indent, increasing.lt_iff_lt known here.known]
            have deeper := Forall₂.takeWhile later same
            have others := Forall₂.dropWhile later same
            have shorter := (List.takeWhile_prefix
              (l := rest) fun next => decide (level < next.indent)).length_le
            have shorterToo := (List.dropWhile_suffix
              (l := rest) fun next => decide (level < next.indent)).length_le
            rw [List.length_cons] at size
            rw [forest_cons onLevel, forest_cons (sameLevel.mpr onLevel)]
            apply (ih _ (by omega) deeper (firstIndent_reindented deeper) rfl).bind
            intro nested nestedToo inside
            apply (ih _ (by omega) others (fun _ => ⟨known, rfl⟩) rfl).bind
            intro siblings siblingsToo after
            exact .ok (.cons here.place inside after)
          · rw [LineTree.forest, LineTree.forest, if_pos onLevel, if_pos (mt sameLevel.mp onLevel)]
            exact .error (.whole here.place _)

end

end ThemeRender.Markup
