import ThemeRender.Proofs.Theme.ArtifactPath
import ThemeRender.Theme.Lookup

namespace ThemeRender

/-- Whether a template's name does not start at the top of the file system. -/
def RelativeName (name : String) : Prop :=
  (Path.ofString name).isAbsolute = false

instance (name : String) : Decidable (RelativeName name) :=
  inferInstanceAs (Decidable (_ = false))

theorem slash_not_mem_lastSegment (name : List Char) : '/' ∉ (lastSegment name).2 := by
  induction name with
  | nil => simp [lastSegment]
  | cons c rest ih =>
      unfold lastSegment
      split
      · exact ih
      · rename_i absent
        exact absent

namespace TemplateFile

variable {viewsRoot path : Path} {name : String}

theorem suffixes_spelled :
    ∀ suffix ∈ suffixes, suffix.toList.head? = some '.' ∧ 'h' ∈ suffix.toList := by
  decide

theorem isAbsolute_suffixed (relative : RelativeName name) {suffix : String}
    (tried : suffix ∈ suffixes) : (Path.ofString (name ++ suffix)).isAbsolute = false := by
  have spelled : (name ++ suffix).toList = name.toList ++ suffix.toList := String.toList_append
  unfold RelativeName Path.isAbsolute Path.ofString at *
  dsimp only at *
  rw [spelled, List.head?_append]
  cases first : name.toList.head? with
  | none => simp [(suffixes_spelled suffix tried).1]
  | some c =>
      rw [first] at relative
      exact relative

theorem candidates_inside (views : viewsRoot.components ≠ []) (relative : RelativeName name)
    (candidate : path ∈ candidates viewsRoot name) : path.Inside viewsRoot := by
  obtain ⟨suffix, tried, rfl⟩ := List.mem_map.mp candidate
  have ends := suffixes_spelled suffix tried
  have spelled : (name ++ suffix).toList = name.toList ++ suffix.toList := String.toList_append
  have relative' := isAbsolute_suffixed relative tried
  have busy : Path.steps (Text.splitAt '/' (name ++ suffix).toList) ≠ [] := by
    have member : 'h' ∈ (name ++ suffix).toList := by
      rw [spelled]
      exact List.mem_append_right _ ends.2
    obtain ⟨piece, inPieces, within⟩ := @Text.mem_piece_of_mem '/' _ _ member (by decide)
    intro none
    have idle : Path.isIdle piece = true := by
      cases busy : Path.isIdle piece with
      | true => rfl
      | false =>
          have step : Path.component piece ∈
              Path.steps (Text.splitAt '/' (name ++ suffix).toList) :=
            List.mem_map_of_mem (List.mem_filter.mpr ⟨inPieces, by simp [busy]⟩)
          rw [none] at step
          cases step
    rcases (by simpa [Path.isIdle] using idle : piece = [] ∨ piece = ['.']) with rfl | rfl
    · cases within
    · simp at within
  have joined := Path.components_join relative' views
  unfold Path.Inside
  rw [joined]
  constructor
  · exact List.prefix_append _ _
  · intro same
    exact busy (List.self_eq_append_right.mp same)

theorem findSome?_congr {α β : Type} {f g : α → Option β} {l : List α}
    (same : ∀ a ∈ l, f a = g a) : l.findSome? f = l.findSome? g := by
  induction l with
  | nil => rfl
  | cons a rest ih =>
      rw [List.findSome?_cons, List.findSome?_cons, same a List.mem_cons_self,
        ih (fun b member => same b (List.mem_cons_of_mem a member))]

theorem find?_congr {σ : Type} [Store σ] {first second : σ}
    (same : ∀ path ∈ candidates viewsRoot name,
      Store.isFile first path = Store.isFile second path) :
    find? first viewsRoot name = find? second viewsRoot name := by
  apply findSome?_congr
  intro path candidate
  unfold ofPath?
  rw [same path candidate]

theorem of_find? {σ : Type} [Store σ] {store : σ} {file : TemplateFile}
    (found : find? store viewsRoot name = some file) :
    file.path ∈ candidates viewsRoot name ∧ Store.isFile store file.path = true ∧
      Dialect.ofPath? file.path = some file.dialect := by
  obtain ⟨path, candidate, here⟩ := List.exists_of_findSome?_eq_some found
  unfold ofPath? at here
  split at here
  · rename_i isFile
    obtain ⟨dialect, spelled, rfl⟩ := Option.map_eq_some_iff.mp here
    exact ⟨candidate, isFile, spelled⟩
  · cases here

end TemplateFile

end ThemeRender
