namespace ThemeRender

/-- Entries with names, meant to be in strictly increasing order of the names. -/
abbrev Fields (α : Type) := List (String × α)

namespace Fields

variable {α : Type}

def get? (name : String) : Fields α → Option α
  | [] => none
  | (other, value) :: rest => if name = other then some value else get? name rest

/-- Puts an entry in its place; an entry of the same name is replaced. -/
def insert (name : String) (value : α) : Fields α → Fields α
  | [] => [(name, value)]
  | (other, old) :: rest =>
      if name < other then (name, value) :: (other, old) :: rest
      else if name = other then (name, value) :: rest
      else (other, old) :: insert name value rest

/-- The entries of both; where both have a name, the entry of `upper` stays. -/
def overlay (base upper : Fields α) : Fields α :=
  upper.foldl (fun fields entry => fields.insert entry.1 entry.2) base

/-- The entries of a list in any order, the last entry of a name staying. -/
def ofList (entries : List (String × α)) : Fields α :=
  overlay [] entries

def Sorted (fields : Fields α) : Prop :=
  fields.Pairwise fun a b => a.1 < b.1

@[simp] theorem get?_nil (name : String) : get? name ([] : Fields α) = none := rfl

@[simp] theorem overlay_nil (base : Fields α) : overlay base [] = base := rfl

@[simp] theorem overlay_cons (base : Fields α) (entry : String × α) (upper : Fields α) :
    overlay base (entry :: upper) = overlay (base.insert entry.1 entry.2) upper := rfl

theorem get?_insert (name other : String) (value : α) (fields : Fields α) :
    get? name (insert other value fields) = if name = other then some value else get? name fields := by
  induction fields with
  | nil => rfl
  | cons entry rest ih =>
      obtain ⟨key, old⟩ := entry
      rw [insert]
      split
      · rfl
      · split
        · rename_i same
          subst same
          by_cases h : name = other <;> simp [get?, h]
        · rename_i different
          simp only [get?, ih]
          by_cases h : name = key
          · subst h
            simp [Ne.symm different]
          · simp [h]

theorem fst_mem_insert {name : String} {value : α} {fields : Fields α} {entry : String × α}
    (h : entry ∈ insert name value fields) : entry.1 = name ∨ entry ∈ fields := by
  induction fields with
  | nil =>
      simp only [insert, List.mem_singleton] at h
      exact .inl (by rw [h])
  | cons head rest ih =>
      rw [insert] at h
      split at h
      · rcases List.mem_cons.1 h with rfl | h
        · exact .inl rfl
        · exact .inr h
      · split at h
        · rcases List.mem_cons.1 h with rfl | h
          · exact .inl rfl
          · exact .inr (List.mem_cons_of_mem _ h)
        · rcases List.mem_cons.1 h with rfl | h
          · exact .inr List.mem_cons_self
          · exact (ih h).imp_right (List.mem_cons_of_mem _)

theorem sorted_insert {name : String} {value : α} {fields : Fields α} (h : Sorted fields) :
    Sorted (insert name value fields) := by
  induction fields with
  | nil => simp [insert, Sorted]
  | cons head rest ih =>
      obtain ⟨key, old⟩ := head
      have hrest : Sorted rest := (List.pairwise_cons.1 h).2
      have hhead : ∀ entry ∈ rest, key < entry.1 := (List.pairwise_cons.1 h).1
      rw [insert]
      split
      · rename_i less
        refine List.pairwise_cons.2 ⟨fun entry member => ?_, h⟩
        rcases List.mem_cons.1 member with rfl | member
        · exact less
        · exact String.lt_trans less (hhead entry member)
      · split
        · rename_i same
          subst same
          exact List.pairwise_cons.2 ⟨hhead, hrest⟩
        · rename_i notLess different
          refine List.pairwise_cons.2 ⟨fun entry member => ?_, ih hrest⟩
          rcases fst_mem_insert member with same | member
          · rw [same]
            exact Std.lt_of_le_of_ne (Std.not_lt.1 notLess) (Ne.symm different)
          · exact hhead entry member

theorem sorted_overlay {base upper : Fields α} (h : Sorted base) : Sorted (overlay base upper) := by
  induction upper generalizing base with
  | nil => exact h
  | cons entry rest ih => exact ih (sorted_insert h)

end Fields

end ThemeRender
