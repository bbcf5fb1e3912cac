import ThemeRender.Store.Path
/-!
Entries kept under paths. Paths that name the same place share an entry.
-/

namespace ThemeRender

/-- The components of a path; a place has one entry however its path is written. -/
abbrev Place := List Path.Component

structure PathMap (α : Type) where
  entries : List (Place × α)

namespace PathMap

variable {α : Type}

def empty : PathMap α := ⟨[]⟩

def get? (map : PathMap α) (path : Path) : Option α :=
  map.entries.lookup path.components

def contains (map : PathMap α) (path : Path) : Bool :=
  (map.get? path).isSome

def insert (map : PathMap α) (path : Path) (value : α) : PathMap α :=
  ⟨(path.components, value) :: map.entries.filter (·.1 ≠ path.components)⟩

def insertNew (map : PathMap α) (path : Path) (value : α) : PathMap α :=
  if map.contains path then map else map.insert path value

def update (map : PathMap α) (path : Path) (f : α → α) : PathMap α :=
  match map.get? path with
  | none => map
  | some value => map.insert path (f value)

@[simp] theorem get?_empty (path : Path) : (empty : PathMap α).get? path = none := rfl

theorem lookup_filter_ne {κ : Type} [DecidableEq κ] [BEq κ] [LawfulBEq κ] (entries : List (κ × α))
    {place other : κ} (h : place ≠ other) :
    (entries.filter (·.1 ≠ other)).lookup place = entries.lookup place := by
  induction entries with
  | nil => rfl
  | cons entry rest ih =>
      obtain ⟨key, value⟩ := entry
      by_cases same : key = other
      · subst same
        have : (place == key) = false := by simpa using h
        simpa [List.lookup_cons, this] using ih
      · simp only [List.filter_cons, same, ne_eq, not_false_eq_true, decide_true, if_true,
          List.lookup_cons, ih]

theorem get?_insert (map : PathMap α) (path other : Path) (value : α) :
    (map.insert other value).get? path =
      if path.components = other.components then some value else map.get? path := by
  unfold insert get?
  by_cases same : path.components = other.components
  · simp [same]
  · have : (path.components == other.components) = false := by simpa using same
    simp only [List.lookup_cons, this, same, if_false]
    exact lookup_filter_ne map.entries same

end PathMap

end ThemeRender
