import ThemeRender.Data.Fields
/-!
Entries laid over others. Overlays can be put together first, and look-ups and filters by name go
through them. All of it rests on what one insertion does to entries in the order of their names.
-/

namespace ThemeRender.Fields

variable {α : Type} {name other : String} {value : α} {fields base upper : Fields α}

theorem Sorted.above {head : String × α} (sorted : Sorted (head :: fields)) :
    ∀ entry ∈ fields, head.1 < entry.1 :=
  (List.pairwise_cons.mp sorted).1

theorem Sorted.rest {head : String × α} (sorted : Sorted (head :: fields)) : Sorted fields :=
  (List.pairwise_cons.mp sorted).2

theorem get?_isSome_iff : (get? name fields).isSome ↔ name ∈ fields.map (·.1) := by
  induction fields with
  | nil => simp
  | cons head rest ih =>
      rw [get?, List.map_cons, List.mem_cons]
      split
      · simp_all
      · simp_all

theorem Sorted.get?_head (sorted : Sorted ((name, value) :: fields)) : get? name fields = none := by
  rw [← Option.not_isSome_iff_eq_none, get?_isSome_iff]
  intro again
  obtain ⟨entry, member, same⟩ := List.mem_map.mp again
  have less : name < entry.1 := sorted.above entry member
  rw [same] at less
  exact String.lt_irrefl _ less

theorem get?_of_sorted {entry : String × α} (sorted : Sorted fields) (member : entry ∈ fields) :
    get? entry.1 fields = some entry.2 := by
  induction fields with
  | nil => cases member
  | cons head rest ih =>
      rcases List.mem_cons.mp member with rfl | later
      · rw [get?, if_pos rfl]
      · have less := sorted.above entry later
        have different : entry.1 ≠ head.1 := (String.ne_of_lt less).symm
        rw [get?, if_neg different]
        exact ih sorted.rest later

/-! One entry and another -/

theorem insert_of_less (less : name < other) (value old : α) (fields : Fields α) :
    insert name value ((other, old) :: fields) = (name, value) :: (other, old) :: fields := by
  rw [insert, if_pos less]

theorem insert_same (name : String) (value old : α) (fields : Fields α) :
    insert name value ((name, old) :: fields) = (name, value) :: fields := by
  rw [insert, if_neg (String.lt_irrefl name), if_pos rfl]

theorem insert_of_greater (greater : other < name) (value old : α) (fields : Fields α) :
    insert name value ((other, old) :: fields) = (other, old) :: insert name value fields := by
  rw [insert, if_neg (String.lt_asymm greater), if_neg (String.ne_of_lt greater).symm]

theorem lt_or_eq_or_gt (name other : String) : name < other ∨ name = other ∨ other < name := by
  by_cases less : name < other
  · exact .inl less
  · by_cases same : name = other
    · exact .inr (.inl same)
    · exact .inr (.inr (Std.lt_of_le_of_ne (Std.not_lt.1 less) (Ne.symm same)))

theorem insert_insert (name : String) (earlier later : α) (fields : Fields α) :
    insert name later (insert name earlier fields) = insert name later fields := by
  induction fields with
  | nil => exact insert_same name later earlier []
  | cons head rest ih =>
      obtain ⟨key, old⟩ := head
      rcases lt_or_eq_or_gt name key with less | rfl | greater
      · rw [insert_of_less less, insert_same, insert_of_less less]
      · rw [insert_same, insert_same, insert_same]
      · rw [insert_of_greater greater, insert_of_greater greater, insert_of_greater greater, ih]

theorem insert_comm_of_less (less : name < other) (value next : α) (fields : Fields α) :
    insert name value (insert other next fields) = insert other next (insert name value fields) := by
  induction fields with
  | nil =>
      rw [insert, insert, insert_of_less less, insert_of_greater less, insert]
  | cons head rest ih =>
      obtain ⟨key, old⟩ := head
      rcases lt_or_eq_or_gt name key with below | rfl | above
      · -- the entry of the smaller name stands in front either way
        rw [insert_of_less below, insert_of_greater less]
        rcases lt_or_eq_or_gt other key with before | rfl | after
        · rw [insert_of_less before, insert_of_less less]
        · rw [insert_same, insert_of_less less]
        · rw [insert_of_greater after, insert_of_less below]
      · rw [insert_of_greater less, insert_same, insert_same, insert_of_greater less]
      · have beyond : key < other := String.lt_trans above less
        rw [insert_of_greater beyond, insert_of_greater above, insert_of_greater above,
          insert_of_greater beyond, ih]

theorem insert_comm (different : name ≠ other) (value next : α) (fields : Fields α) :
    insert name value (insert other next fields) = insert other next (insert name value fields) := by
  rcases lt_or_eq_or_gt name other with less | same | greater
  · exact insert_comm_of_less less value next fields
  · exact absurd same different
  · exact (insert_comm_of_less greater next value fields).symm

/-! Overlays -/

theorem overlay_insert_base (absent : name ∉ upper.map (·.1)) (value : α) (base : Fields α) :
    overlay (insert name value base) upper = insert name value (overlay base upper) := by
  induction upper generalizing base with
  | nil => rfl
  | cons head rest ih =>
      rw [List.map_cons, List.mem_cons, not_or] at absent
      rw [overlay_cons, overlay_cons, ← insert_comm absent.1, ih absent.2]

theorem overlay_insert (sorted : Sorted upper) (name : String) (value : α) (base : Fields α) :
    overlay base (insert name value upper) = insert name value (overlay base upper) := by
  induction upper generalizing base with
  | nil => rfl
  | cons head rest ih =>
      obtain ⟨key, old⟩ := head
      have absent {least : String} (less : ∀ entry ∈ rest, least < entry.1) :
          least ∉ rest.map (·.1) := by
        intro member
        obtain ⟨entry, inRest, same⟩ := List.mem_map.mp member
        exact String.ne_of_lt (less entry inRest) same.symm
      rcases lt_or_eq_or_gt name key with less | rfl | greater
      · have below : ∀ entry ∈ rest, name < entry.1 := fun entry member =>
          String.lt_trans less (sorted.above entry member)
        rw [insert_of_less less, overlay_cons, overlay_insert_base]
        rw [List.map_cons, List.mem_cons, not_or]
        exact ⟨String.ne_of_lt less, absent below⟩
      · rw [insert_same, overlay_cons, overlay_cons, overlay_insert_base (absent sorted.above),
          overlay_insert_base (absent sorted.above), insert_insert]
      · rw [insert_of_greater greater, overlay_cons, overlay_cons]
        exact ih sorted.rest (base.insert key old)

theorem overlay_assoc (base : Fields α) {middle : Fields α} (sorted : Sorted middle)
    (upper : Fields α) : overlay (overlay base middle) upper = overlay base (overlay middle upper) := by
  induction upper generalizing middle with
  | nil => rfl
  | cons head rest ih =>
      rw [overlay_cons, overlay_cons, ← ih (sorted_insert sorted), overlay_insert sorted]

theorem get?_overlay (name : String) (base : Fields α) (sorted : Sorted upper) :
    get? name (overlay base upper) = (get? name upper).or (get? name base) := by
  induction upper generalizing base with
  | nil => rfl
  | cons head rest ih =>
      obtain ⟨key, value⟩ := head
      rw [overlay_cons, ih _ sorted.rest, get?_insert, get?]
      by_cases same : name = key
      · subst same
        rw [sorted.get?_head, if_pos rfl, if_pos rfl, Option.none_or, Option.some_or]
      · rw [if_neg same, if_neg same]

/-! Entries of some names only -/

variable {keeps : String → Bool}

def restrict (keeps : String → Bool) (fields : Fields α) : Fields α :=
  fields.filter (keeps ·.1)

theorem restrict_cons_of_kept (kept : keeps name = true) (value : α) (fields : Fields α) :
    restrict keeps ((name, value) :: fields) = (name, value) :: restrict keeps fields :=
  List.filter_cons_of_pos kept

theorem restrict_cons_of_dropped (dropped : ¬ keeps name = true) (value : α) (fields : Fields α) :
    restrict keeps ((name, value) :: fields) = restrict keeps fields :=
  List.filter_cons_of_neg dropped

theorem restrict_insert_of_kept (kept : keeps name = true) (sorted : Sorted fields) (value : α) :
    restrict keeps (insert name value fields) = insert name value (restrict keeps fields) := by
  induction fields with
  | nil => exact restrict_cons_of_kept kept value []
  | cons head rest ih =>
      obtain ⟨key, old⟩ := head
      rcases lt_or_eq_or_gt name key with less | rfl | greater
      · rw [insert_of_less less, restrict_cons_of_kept kept]
        -- what is kept of the entries still comes after the name
        have above : ∀ entry ∈ restrict keeps ((key, old) :: rest), name < entry.1 := by
          intro entry member
          rcases List.mem_cons.mp (List.mem_filter.mp member).1 with rfl | later
          · exact less
          · exact String.lt_trans less (sorted.above entry later)
        cases left : restrict keeps ((key, old) :: rest) with
        | nil => rfl
        | cons first others =>
            rw [left] at above
            exact (insert_of_less (above first List.mem_cons_self) value first.2 others).symm
      · rw [insert_same, restrict_cons_of_kept kept, restrict_cons_of_kept kept, insert_same]
      · rw [insert_of_greater greater]
        by_cases keptToo : keeps key = true
        · rw [restrict_cons_of_kept keptToo, restrict_cons_of_kept keptToo,
            insert_of_greater greater, ih sorted.rest]
        · rw [restrict_cons_of_dropped keptToo, restrict_cons_of_dropped keptToo, ih sorted.rest]

theorem restrict_insert_of_dropped (dropped : ¬ keeps name = true) (value : α)
    (fields : Fields α) : restrict keeps (insert name value fields) = restrict keeps fields := by
  induction fields with
  | nil => exact restrict_cons_of_dropped dropped value []
  | cons head rest ih =>
      obtain ⟨key, old⟩ := head
      rcases lt_or_eq_or_gt name key with less | rfl | greater
      · rw [insert_of_less less, restrict_cons_of_dropped dropped]
      · rw [insert_same, restrict_cons_of_dropped dropped, restrict_cons_of_dropped dropped]
      · rw [insert_of_greater greater]
        by_cases kept : keeps key = true
        · rw [restrict_cons_of_kept kept, restrict_cons_of_kept kept, ih]
        · rw [restrict_cons_of_dropped kept, restrict_cons_of_dropped kept, ih]

theorem restrict_overlay (keeps : String → Bool) (sorted : Sorted base) (upper : Fields α) :
    restrict keeps (overlay base upper) = overlay (restrict keeps base) (restrict keeps upper) := by
  induction upper generalizing base with
  | nil => rfl
  | cons head rest ih =>
      obtain ⟨key, value⟩ := head
      rw [overlay_cons, ih (sorted_insert sorted)]
      by_cases kept : keeps key = true
      · rw [restrict_cons_of_kept kept, overlay_cons, restrict_insert_of_kept kept sorted]
      · rw [restrict_cons_of_dropped kept, restrict_insert_of_dropped kept]

theorem sorted_restrict (sorted : Sorted fields) : Sorted (restrict keeps fields) :=
  List.Pairwise.filter _ sorted

theorem get?_restrict (keeps : String → Bool) (name : String) (fields : Fields α) :
    get? name (restrict keeps fields) = if keeps name = true then get? name fields else none := by
  induction fields with
  | nil => split <;> rfl
  | cons head rest ih =>
      obtain ⟨key, value⟩ := head
      by_cases kept : keeps key = true
      · rw [restrict_cons_of_kept kept, get?, get?, ih]
        by_cases same : name = key
        · rw [if_pos same, if_pos same, if_pos (same ▸ kept)]
        · rw [if_neg same, if_neg same]
      · rw [restrict_cons_of_dropped kept, ih, get?]
        by_cases same : name = key
        · rw [if_neg (same ▸ kept), if_neg (same ▸ kept)]
        · rw [if_neg same]

end ThemeRender.Fields
