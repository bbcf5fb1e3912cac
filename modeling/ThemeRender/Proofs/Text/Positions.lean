import ThemeRender.Proofs.Text.WholeLines
import ThemeRender.Text.Span

namespace ThemeRender

namespace Text

/-- Whether a position is at a character of a text or at its end. -/
def IsBoundary (text : List Char) (position : Nat) : Prop :=
  ∃ before after, text = before ++ after ∧ byteLength before = position

def StandsAt (text piece : List Char) (position : Nat) : Prop :=
  ∃ before after, text = before ++ (piece ++ after) ∧ byteLength before = position

theorem byteLength_pos {text : List Char} (some : text ≠ []) : 0 < byteLength text := by
  cases text with
  | nil => exact absurd rfl some
  | cons c rest => exact Nat.add_pos_left c.utf8Size_pos _

namespace StandsAt

variable {text piece first second inner : List Char} {position place : Nat}

theorem whole (text : List Char) : StandsAt text text 0 := by
  refine ⟨[], [], ?_, rfl⟩
  simp

theorem start (stands : StandsAt text piece position) : IsBoundary text position := by
  obtain ⟨before, after, same, starts⟩ := stands
  exact ⟨before, piece ++ after, same, starts⟩

theorem stop (stands : StandsAt text piece position) :
    IsBoundary text (byteLength piece + position) := by
  obtain ⟨before, after, same, starts⟩ := stands
  refine ⟨before ++ piece, after, ?_, ?_⟩
  · rw [same, List.append_assoc]
  · rw [byteLength_append, starts, Nat.add_comm]

theorem within (stands : StandsAt text piece position) (inside : StandsAt piece inner place) :
    StandsAt text inner (place + position) := by
  obtain ⟨before, after, rfl, rfl⟩ := stands
  obtain ⟨first, last, rfl, rfl⟩ := inside
  refine ⟨before ++ first, last ++ after, ?_, ?_⟩
  · simp
  · rw [byteLength_append, Nat.add_comm]

theorem left (stands : StandsAt text (first ++ second) position) : StandsAt text first position := by
  obtain ⟨before, after, same, starts⟩ := stands
  exact ⟨before, second ++ after, by rw [same, List.append_assoc], starts⟩

theorem right (stands : StandsAt text (first ++ second) position) :
    StandsAt text second (position + byteLength first) := by
  obtain ⟨before, after, same, starts⟩ := stands
  refine ⟨before ++ first, after, ?_, ?_⟩
  · rw [same]
    simp
  · rw [byteLength_append, starts]

theorem ending (stands : StandsAt text piece position) (ends : inner <:+ piece) :
    StandsAt text inner (position + byteLength piece - byteLength inner) := by
  obtain ⟨front, rfl⟩ := ends
  have place : position + byteLength (front ++ inner) - byteLength inner =
      position + byteLength front := by
    rw [byteLength_append]
    omega
  rw [place]
  exact stands.right

end StandsAt

end Text

structure Span.Covers (span : Span) (text piece : List Char) : Prop where
  stands : Text.StandsAt text piece span.start
  stop : span.stop = span.start + Text.byteLength piece

namespace Span.Covers

open Text (IsBoundary)

variable {span : Span} {text code piece : List Char} {offset : Nat}

theorem start_boundary (covers : span.Covers text piece) : IsBoundary text span.start :=
  covers.stands.start

theorem stop_boundary (covers : span.Covers text piece) : IsBoundary text span.stop := by
  rw [covers.stop, Nat.add_comm]
  exact covers.stands.stop

theorem start_le_stop (covers : span.Covers text piece) : span.start ≤ span.stop := by
  rw [covers.stop]
  exact Nat.le_add_right _ _

theorem stop_le (covers : span.Covers text piece) : span.stop ≤ Text.byteLength text := by
  obtain ⟨before, after, rfl, start⟩ := covers.stands
  rw [covers.stop, ← start]
  simp only [Text.byteLength_append]
  omega

theorem shift (covers : span.Covers code piece) (stands : Text.StandsAt text code offset) :
    (span.shift offset).Covers text piece where
  stands := stands.within covers.stands
  stop := by
    have stop := covers.stop
    simp only [Span.shift]
    omega

end Span.Covers

/-! The lines of places -/

namespace Text

variable {s t : List Char} {place number : Nat}

theorem takeBytes_append_of_le (within : place ≤ byteLength s) (t : List Char) :
    takeBytes place (s ++ t) = takeBytes place s := by
  induction s generalizing place with
  | nil =>
      rw [Nat.le_zero.mp within, takeBytes_zero, takeBytes_zero]
  | cons c rest ih =>
      rw [byteLength_cons] at within
      rw [List.cons_append, takeBytes, takeBytes]
      split
      · rw [ih (by omega)]
      · rfl

theorem takeBytes_append_add (s t : List Char) (place : Nat) :
    takeBytes (byteLength s + place) (s ++ t) = s ++ takeBytes place t := by
  induction s with
  | nil => rw [byteLength_nil, Nat.zero_add, List.nil_append, List.nil_append]
  | cons c rest ih =>
      have fits : c.utf8Size ≤ byteLength (c :: rest) + place := by
        rw [byteLength_cons]
        omega
      have left : byteLength (c :: rest) + place - c.utf8Size = byteLength rest + place := by
        rw [byteLength_cons]
        omega
      rw [List.cons_append, takeBytes, if_pos fits, left, ih, List.cons_append]

theorem lineAt_append_of_le (within : place ≤ byteLength s) (t : List Char) :
    lineAt (s ++ t) place = lineAt s place := by
  rw [lineAt, lineAt, takeBytes_append_of_le within]

theorem lineAt_append_add (s t : List Char) (place : Nat) :
    lineAt (s ++ t) (byteLength s + place) = lineAt t place + s.count '\n' := by
  rw [lineAt, lineAt, takeBytes_append_add, List.count_append]
  omega

/-- The line of that number, counted from one, holds the byte at the place. -/
def LineHolds (s : List Char) (number place : Nat) : Prop :=
  ∃ earlier line later, lines s = earlier ++ line :: later ∧ earlier.length + 1 = number ∧
    byteLength earlier.flatten ≤ place ∧ place < byteLength earlier.flatten + byteLength line

theorem LineHolds.bounds (holds : LineHolds s number place) :
    1 ≤ number ∧ number ≤ (lines s).length := by
  obtain ⟨earlier, line, later, split, rfl, -⟩ := holds
  rw [split, List.length_append, List.length_cons]
  omega

theorem LineHolds.feed_cons (holds : LineHolds s number place) :
    LineHolds ('\n' :: s) (number + 1) (Char.utf8Size '\n' + place) := by
  obtain ⟨earlier, line, later, split, rfl, starts, ends⟩ := holds
  refine ⟨['\n'] :: earlier, line, later, ?_, rfl, ?_, ?_⟩
  · rw [lines, if_pos rfl, split]
    rfl
  · rw [List.flatten_cons, byteLength_append, byteLength_cons, byteLength_nil]
    omega
  · rw [List.flatten_cons, byteLength_append, byteLength_cons, byteLength_nil]
    omega

theorem LineHolds.cons (holds : LineHolds s number place) {c : Char} (noFeed : c ≠ '\n') :
    LineHolds (c :: s) number (c.utf8Size + place) := by
  obtain ⟨earlier, line, later, split, rfl, starts, ends⟩ := holds
  cases earlier with
  | nil =>
      refine ⟨[], c :: line, later, ?_, rfl, Nat.zero_le _, ?_⟩
      · rw [lines, if_neg noFeed, split]
        rfl
      · simp only [List.flatten_nil, byteLength_nil, byteLength_cons] at ends ⊢
        omega
  | cons first earlier =>
      refine ⟨(c :: first) :: earlier, line, later, ?_, rfl, ?_, ?_⟩
      · rw [lines, if_neg noFeed, split]
        rfl
      · simp only [List.flatten_cons, byteLength_append, byteLength_cons] at starts ⊢
        omega
      · simp only [List.flatten_cons, byteLength_append, byteLength_cons] at ends ⊢
        omega

theorem lineHolds_first {c : Char} (within : place < c.utf8Size) (s : List Char) :
    LineHolds (c :: s) 1 place := by
  have starts : ∃ rest later, lines (c :: s) = (c :: rest) :: later := by
    rw [lines]
    split
    · exact ⟨[], lines s, rfl⟩
    · split
      · exact ⟨[], [], rfl⟩
      · exact ⟨_, _, rfl⟩
  obtain ⟨rest, later, split⟩ := starts
  refine ⟨[], c :: rest, later, split, rfl, Nat.zero_le _, ?_⟩
  rw [List.flatten_nil, byteLength_nil, byteLength_cons]
  omega

theorem lineHolds_lineAt (within : place < byteLength s) : LineHolds s (lineAt s place) place := by
  induction s generalizing place with
  | nil => exact absurd within (Nat.not_lt_zero _)
  | cons c rest ih =>
      rw [byteLength_cons] at within
      by_cases first : place < c.utf8Size
      · have one : lineAt (c :: rest) place = 1 := by
          rw [lineAt, takeBytes, if_neg (by omega)]
          rfl
        rw [one]
        exact lineHolds_first first rest
      · obtain ⟨later, rfl⟩ := Nat.exists_eq_add_of_le (Nat.le_of_not_lt first)
        have holds := @ih later (by omega)
        have line := lineAt_append_add [c] rest later
        rw [byteLength_cons, byteLength_nil, Nat.add_zero, List.singleton_append] at line
        rw [line]
        by_cases feed : c = '\n'
        · subst feed
          exact holds.feed_cons
        · rw [List.count_singleton, if_neg (by simpa using feed), Nat.add_zero]
          exact holds.cons feed

end Text

end ThemeRender
