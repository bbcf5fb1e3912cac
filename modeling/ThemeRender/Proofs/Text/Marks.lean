import ThemeRender.Text.Cut

namespace ThemeRender.Text

def Lacks (mark s : List Char) : Prop :=
  ¬ mark <:+: s

instance (mark s : List Char) : Decidable (Lacks mark s) :=
  inferInstanceAs (Decidable (¬ mark <:+: s))

theorem Lacks.of_append_left {mark s t : List Char} (lacks : Lacks mark (s ++ t)) : Lacks mark s :=
  fun within => lacks (within.trans (List.infix_append' [] s t))

theorem Lacks.of_append_right {mark s t : List Char} (lacks : Lacks mark (s ++ t)) :
    Lacks mark t :=
  fun within => lacks (within.trans (List.suffix_append s t).isInfix)

theorem Lacks.of_infix {mark s t : List Char} (lacks : Lacks mark s) (part : t <:+: s) :
    Lacks mark t :=
  fun within => lacks (within.trans part)

variable {a b : Char} {s t : List Char}

theorem lacks_nil : Lacks [a, b] [] := by
  intro within
  have := within.length_le
  simp at this

theorem lacks_cons {c : Char} :
    Lacks [a, b] (c :: s) ↔ ¬ (c = a ∧ s.head? = some b) ∧ Lacks [a, b] s := by
  have first : [a, b] <+: c :: s ↔ c = a ∧ s.head? = some b := by
    cases s with
    | nil => simp [List.cons_prefix_cons]
    | cons d rest => simp [List.cons_prefix_cons, eq_comm]
  unfold Lacks
  rw [List.infix_cons_iff, first, not_or]

/-- No mark arises where two texts meet, if the first character of the mark does not end the one or
the second does not start the other. -/
theorem Lacks.append (lacks : Lacks [a, b] s) (lacksAfter : Lacks [a, b] t)
    (apart : s.getLast? ≠ some a ∨ t.head? ≠ some b) : Lacks [a, b] (s ++ t) := by
  induction s with
  | nil => exact lacksAfter
  | cons c rest ih =>
      rw [lacks_cons] at lacks
      rw [List.cons_append, lacks_cons]
      cases rest with
      | nil =>
          refine ⟨?_, lacksAfter⟩
          rintro ⟨rfl, starts⟩
          rcases apart with ends | other
          · exact ends rfl
          · exact other starts
      | cons d rest =>
          refine ⟨lacks.1, ih lacks.2 ?_⟩
          rcases apart with ends | other
          · exact .inl (by simpa using ends)
          · exact .inr other

theorem Lacks.cons (lacks : Lacks [a, b] s) {c : Char} (other : c ≠ a) : Lacks [a, b] (c :: s) :=
  lacks_cons.mpr ⟨fun both => other both.1, lacks⟩

theorem lacks_of_not_mem (absent : a ∉ s) : Lacks [a, b] s := by
  intro within
  exact absent (within.subset List.mem_cons_self)

theorem lacks_of_not_mem_right (absent : b ∉ s) : Lacks [a, b] s := by
  intro within
  exact absent (within.subset (List.mem_cons_of_mem _ List.mem_cons_self))

theorem cut?_mark (different : a ≠ b) (lacks : Lacks [a, b] s) (t : List Char) :
    cut? [a, b] (s ++ a :: b :: t) = some (s, t) := by
  induction s with
  | nil => simp [cut?]
  | cons c rest ih =>
      rw [lacks_cons] at lacks
      have noMark : [a, b].isPrefixOf (c :: (rest ++ a :: b :: t)) = false := by
        rw [Bool.eq_false_iff]
        intro here
        have isFirst := List.isPrefixOf_iff_prefix.mp here
        cases rest with
        | nil =>
            simp only [List.nil_append, List.cons_prefix_cons] at isFirst
            exact different isFirst.2.1.symm
        | cons d rest =>
            simp only [List.cons_append, List.cons_prefix_cons] at isFirst
            exact lacks.1 ⟨isFirst.1.symm, congrArg some isFirst.2.1.symm⟩
      rw [List.cons_append, cut?, noMark, ih lacks.2]
      rfl

theorem cut?_of_lacks (lacks : Lacks [a, b] s) : cut? [a, b] s = none := by
  induction s with
  | nil => rfl
  | cons c rest ih =>
      have noMark : [a, b].isPrefixOf (c :: rest) = false := by
        rw [Bool.eq_false_iff]
        intro here
        exact lacks (List.isPrefixOf_iff_prefix.mp here).isInfix
      rw [cut?, noMark, ih (lacks_cons.mp lacks).2]
      rfl

theorem lacks_of_cut?_none (none : cut? [a, b] s = .none) : Lacks [a, b] s := by
  induction s with
  | nil => exact lacks_nil
  | cons c rest ih =>
      rw [cut?] at none
      split at none
      · cases none
      · rename_i noMark
        rw [List.isPrefixOf_iff_prefix] at noMark
        intro within
        rcases List.infix_cons_iff.mp within with first | later
        · exact noMark first
        · exact ih (Option.map_eq_none_iff.mp none) later

theorem lacks_before_cut? {before after : List Char} (cut : cut? [a, b] s = some (before, after)) :
    Lacks [a, b] before := by
  induction s generalizing before with
  | nil => cases cut
  | cons c rest ih =>
      rw [cut?] at cut
      split at cut
      · cases cut
        exact lacks_nil
      · rename_i noMark
        obtain ⟨⟨head, tail⟩, later, same⟩ := Option.map_eq_some_iff.mp cut
        cases same
        rw [lacks_cons]
        refine ⟨?_, ih later⟩
        rintro ⟨rfl, starts⟩
        -- a mark that started before the cut would be the first one
        apply noMark
        rw [cut?_eq_some later]
        cases head with
        | nil => cases starts
        | cons d more =>
            cases starts
            simp

/-! Marks of one character -/

theorem cut?_char (absent : a ∉ s) (t : List Char) : cut? [a] (s ++ a :: t) = some (s, t) := by
  induction s with
  | nil => simp [cut?]
  | cons c rest ih =>
      rw [List.mem_cons, not_or] at absent
      have noMark : [a].isPrefixOf (c :: (rest ++ a :: t)) = false := by
        simpa [List.isPrefixOf] using absent.1
      rw [List.cons_append, cut?, noMark, ih absent.2]
      rfl

theorem cut?_of_not_mem (absent : a ∉ s) : cut? [a] s = none := by
  induction s with
  | nil => rfl
  | cons c rest ih =>
      rw [List.mem_cons, not_or] at absent
      have noMark : [a].isPrefixOf (c :: rest) = false := by
        simpa [List.isPrefixOf] using absent.1
      rw [cut?, noMark, ih absent.2]
      rfl

theorem not_mem_of_cut?_none (none : cut? [a] s = .none) : a ∉ s := by
  intro member
  obtain ⟨before, after, rfl, absent⟩ := List.eq_append_cons_of_mem member
  rw [cut?_char absent] at none
  cases none

theorem not_mem_before_cut? {before after : List Char}
    (cut : cut? [a] s = some (before, after)) : a ∉ before := by
  have member : a ∈ s := by
    rw [cut?_eq_some cut]
    simp
  obtain ⟨first, rest, rfl, absent⟩ := List.eq_append_cons_of_mem member
  rw [cut?_char absent] at cut
  cases cut
  exact absent

end ThemeRender.Text
