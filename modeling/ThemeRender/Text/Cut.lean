namespace ThemeRender.Text

/-- The text before and after the first occurrence of `mark`. -/
def cut? (mark : List Char) : List Char → Option (List Char × List Char)
  | [] => if mark.isEmpty then some ([], []) else none
  | c :: rest =>
      if mark.isPrefixOf (c :: rest) then
        some ([], (c :: rest).drop mark.length)
      else
        (cut? mark rest).map fun parts => (c :: parts.1, parts.2)

theorem cut?_eq_some {mark s before after : List Char} (h : cut? mark s = some (before, after)) :
    s = before ++ mark ++ after := by
  induction s generalizing before with
  | nil =>
      cases mark with
      | nil => simp_all [cut?]
      | cons => simp [cut?] at h
  | cons c rest ih =>
      rw [cut?] at h
      split at h
      · rename_i isMark
        obtain ⟨tail, htail⟩ := List.isPrefixOf_iff_prefix.1 isMark
        simp only [Option.some.injEq, Prod.mk.injEq] at h
        obtain ⟨rfl, rfl⟩ := h
        rw [← htail]
        simp
      · obtain ⟨⟨before', after'⟩, hcut, hparts⟩ := Option.map_eq_some_iff.1 h
        simp only [Prod.mk.injEq] at hparts
        obtain ⟨rfl, rfl⟩ := hparts
        simp [ih hcut]

theorem length_lt_of_cut? {mark s before after : List Char} (hmark : mark ≠ [])
    (h : cut? mark s = some (before, after)) : after.length < s.length := by
  have hpos : 0 < mark.length := List.length_pos_iff.2 hmark
  rw [cut?_eq_some h]
  simp only [List.length_append]
  omega

/-- The text before and after the first character with the property `p`, that character left out. -/
def cutWhere? (p : Char → Bool) : List Char → Option (List Char × List Char)
  | [] => none
  | c :: rest =>
      if p c then some ([], rest) else (cutWhere? p rest).map fun parts => (c :: parts.1, parts.2)

def dropLead? (lead : List Char) (s : List Char) : Option (List Char) :=
  if lead.isPrefixOf s then some (s.drop lead.length) else none

def dropTail? (tail : List Char) (s : List Char) : Option (List Char) :=
  if tail.isSuffixOf s then some (s.take (s.length - tail.length)) else none

/-- The pieces between the occurrences of `mark`; one piece where there is none. -/
def splitAt (mark : Char) : List Char → List (List Char)
  | [] => [[]]
  | c :: rest =>
      if c = mark then [] :: splitAt mark rest
      else
        match splitAt mark rest with
        | [] => [[c]]
        | piece :: pieces => (c :: piece) :: pieces

theorem splitAt_ne_nil (mark : Char) (s : List Char) : splitAt mark s ≠ [] := by
  induction s with
  | nil => simp [splitAt]
  | cons c rest ih =>
      rw [splitAt]
      split
      · simp
      · split <;> simp

/-- Lines with their line feeds; the last line may lack one, and no line is empty. -/
def lines : List Char → List (List Char)
  | [] => []
  | c :: rest =>
      if c = '\n' then [c] :: lines rest
      else
        match lines rest with
        | [] => [[c]]
        | line :: more => (c :: line) :: more

theorem flatten_lines (s : List Char) : (lines s).flatten = s := by
  induction s with
  | nil => rfl
  | cons c rest ih =>
      rw [lines]
      split
      · simp [ih]
      · split <;> rename_i h
        · rw [h] at ih
          simp_all
        · rw [h] at ih
          simp_all

end ThemeRender.Text
