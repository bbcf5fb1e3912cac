import ThemeRender.Text.Blank
import ThemeRender.Text.Cut

namespace ThemeRender.Text

variable {mark : Char}

theorem splitAt_append (s t : List Char) :
    splitAt mark (s ++ mark :: t) = splitAt mark s ++ splitAt mark t := by
  induction s with
  | nil => simp [splitAt]
  | cons c rest ih =>
      simp only [List.cons_append, splitAt, ih]
      split
      · rfl
      · cases pieces : splitAt mark rest with
        | nil => exact absurd pieces (splitAt_ne_nil mark rest)
        | cons piece more => rfl

theorem splitAt_of_not_mem {s : List Char} (absent : mark ∉ s) : splitAt mark s = [s] := by
  induction s with
  | nil => rfl
  | cons c rest ih =>
      simp only [List.mem_cons, not_or] at absent
      simp [splitAt, Ne.symm absent.1, ih absent.2]

theorem not_mem_of_mem_splitAt {s piece : List Char} (member : piece ∈ splitAt mark s) :
    mark ∉ piece := by
  induction s generalizing piece with
  | nil =>
      simp only [splitAt, List.mem_singleton] at member
      simp [member]
  | cons c rest ih =>
      simp only [splitAt] at member
      split at member
      · rcases List.mem_cons.mp member with rfl | member
        · simp
        · exact ih member
      · rename_i different
        cases pieces : splitAt mark rest with
        | nil => exact absurd pieces (splitAt_ne_nil mark rest)
        | cons first more =>
            rw [pieces] at ih member
            rcases List.mem_cons.mp member with rfl | member
            · simp only [List.mem_cons, not_or]
              exact ⟨Ne.symm different, ih (by simp)⟩
            · exact ih (by simp [member])

theorem mem_piece_of_mem {s : List Char} {c : Char} (member : c ∈ s) (other : c ≠ mark) :
    ∃ piece ∈ splitAt mark s, c ∈ piece := by
  induction s with
  | nil => cases member
  | cons first rest ih =>
      simp only [splitAt]
      by_cases isMark : first = mark
      · have later : c ∈ rest := by
          rcases List.mem_cons.mp member with same | later
          · exact absurd (same.trans isMark) other
          · exact later
        obtain ⟨piece, inRest, within⟩ := ih later
        rw [if_pos isMark]
        exact ⟨piece, List.mem_cons_of_mem _ inRest, within⟩
      · rw [if_neg isMark]
        cases pieces : splitAt mark rest with
        | nil => exact absurd pieces (splitAt_ne_nil mark rest)
        | cons head more =>
            rw [pieces] at ih
            rcases List.mem_cons.mp member with rfl | later
            · exact ⟨_, List.mem_cons_self, List.mem_cons_self⟩
            · obtain ⟨piece, inRest, within⟩ := ih later
              rcases List.mem_cons.mp inRest with rfl | inMore
              · exact ⟨_, List.mem_cons_self, List.mem_cons_of_mem _ within⟩
              · exact ⟨piece, List.mem_cons_of_mem _ inMore, within⟩

theorem cutWhere?_eq (p : Char → Bool) (s : List Char) :
    cutWhere? p s =
      match s.dropWhile (!p ·) with
      | [] => none
      | _ :: after => some (s.takeWhile (!p ·), after) := by
  induction s with
  | nil => rfl
  | cons c rest ih =>
      rw [cutWhere?, ih, List.takeWhile_cons, List.dropWhile_cons]
      cases p c with
      | true => rfl
      | false =>
          simp only [Bool.false_eq_true, if_false, Bool.not_false, if_true]
          cases rest.dropWhile (!p ·) <;> rfl

theorem code_of_isAlpha {c : Char} (letter : c.isAlpha = true) :
    65 ≤ c.toNat ∧ c.toNat ≤ 90 ∨ 97 ≤ c.toNat ∧ c.toNat ≤ 122 := by
  rcases Bool.or_eq_true_iff.mp letter with upper | lower
  · exact .inl (of_decide_eq_true upper)
  · have bounds : (decide ('a'.val ≤ c.val) && decide (c.val ≤ 'z'.val)) = true := lower
    obtain ⟨above, below⟩ := Bool.and_eq_true_iff.mp bounds
    exact .inr ⟨of_decide_eq_true above, of_decide_eq_true below⟩

theorem not_blank_of_isAlphanum {c : Char} (letter : c.isAlphanum = true) :
    isBlank c = false := by
  have range : 48 ≤ c.toNat ∧ c.toNat ≤ 122 := by
    rcases Bool.or_eq_true_iff.mp letter with alpha | digit
    · have := code_of_isAlpha alpha
      omega
    · obtain ⟨above, below⟩ := Bool.and_eq_true_iff.mp digit
      have : 48 ≤ c.toNat := of_decide_eq_true above
      have : c.toNat ≤ 57 := of_decide_eq_true below
      omega
  rw [Bool.eq_false_iff]
  simp only [isBlank, ne_eq, Bool.or_eq_true, Bool.and_eq_true, decide_eq_true_eq, beq_iff_eq]
  omega

section

variable {α : Type} {p : α → Bool} {part rest : List α}

theorem takeWhile_exact (within : ∀ a ∈ part, p a = true)
    (ends : ∀ a, rest.head? = some a → p a = false) : (part ++ rest).takeWhile p = part := by
  rw [List.takeWhile_append_of_pos within]
  cases rest with
  | nil => simp
  | cons a rest => simp [ends a rfl]

theorem takeWhile_append_of_ends (part : List α)
    (ends : ∀ a, rest.head? = some a → p a = false) :
    (part ++ rest).takeWhile p = part.takeWhile p := by
  induction part with
  | nil => exact @takeWhile_exact α p [] rest (List.forall_mem_nil _) ends
  | cons a part ih =>
      rw [List.cons_append, List.takeWhile_cons, List.takeWhile_cons, ih]

theorem dropWhile_exact (within : ∀ a ∈ part, p a = true)
    (ends : ∀ a, rest.head? = some a → p a = false) : (part ++ rest).dropWhile p = rest := by
  rw [List.dropWhile_append_of_pos within]
  cases rest with
  | nil => rfl
  | cons a rest => simp [ends a rfl]

end

end ThemeRender.Text
