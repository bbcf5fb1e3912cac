import ThemeRender.Proofs.Store.Components

namespace ThemeRender.Path

theorem ancestorsWithin_of_parent?_none {path : Path} (top : path.parent? = none) (steps : Nat) :
    ancestorsWithin steps path = [path] := by
  cases steps with
  | zero => rfl
  | succ steps => simp only [ancestorsWithin, top]

theorem ancestorsWithin_enough {steps other : Nat} {path : Path}
    (enough : path.components.length ≤ steps) (enough' : path.components.length ≤ other) :
    ancestorsWithin steps path = ancestorsWithin other path := by
  induction steps generalizing other path with
  | zero =>
      have none := List.length_eq_zero_iff.mp (Nat.le_zero.mp enough)
      have top := (parent?_eq_none_iff path).mpr (.inl none)
      rw [ancestorsWithin_of_parent?_none top, ancestorsWithin_of_parent?_none top]
  | succ steps ih =>
      cases above : path.parent? with
      | none => rw [ancestorsWithin_of_parent?_none above, ancestorsWithin_of_parent?_none above]
      | some parent =>
          have shorter := congrArg List.length (components_of_parent? above)
          rw [List.length_dropLast] at shorter
          cases other with
          | zero =>
              have none := List.length_eq_zero_iff.mp (Nat.le_zero.mp enough')
              rw [(parent?_eq_none_iff path).mpr (.inl none)] at above
              cases above
          | succ other =>
              simp only [ancestorsWithin, above]
              rw [@ih other parent (by omega) (by omega)]

theorem components_length_le (path : Path) :
    path.components.length ≤ path.pieces.body.length + 1 := by
  have kept := List.length_filter_le (!isIdle ·) path.pieces.body
  rw [components_eq]
  cases lead : path.pieces.lead with
  | root =>
      simp only [Lead.components, steps, List.length_append, List.length_map, List.length_singleton]
      omega
  | current =>
      simp only [Lead.components, steps, List.length_append, List.length_map, List.length_singleton]
      omega
  | none =>
      simp only [Lead.components, steps, List.length_append, List.length_map, List.length_nil]
      omega

theorem ancestors_of_parent?_none {path : Path} (top : path.parent? = none) :
    path.ancestors = [path] :=
  ancestorsWithin_of_parent?_none top _

theorem ancestors_of_parent? {path parent : Path} (above : path.parent? = some parent) :
    path.ancestors = path :: parent.ancestors := by
  have shorter := congrArg List.length (components_of_parent? above)
  rw [List.length_dropLast] at shorter
  have enough := components_length_le path
  have enough' := components_length_le parent
  have step : path.ancestors = path :: ancestorsWithin path.pieces.body.length parent := by
    simp only [ancestors, ancestorsWithin, above]
  rw [step, ancestors, ancestorsWithin_enough (by omega) enough']

theorem ancestors_head (path : Path) : ∃ more, path.ancestors = path :: more := by
  cases above : path.parent? with
  | none => exact ⟨[], ancestors_of_parent?_none above⟩
  | some parent => exact ⟨parent.ancestors, ancestors_of_parent? above⟩

theorem length_of_parent? {path parent : Path} (above : path.parent? = some parent) :
    parent.components.length < path.components.length := by
  have shorter := congrArg List.length (components_of_parent? above)
  have some : path.components ≠ [] := by
    intro empty
    rw [(parent?_eq_none_iff path).mpr (.inl empty)] at above
    cases above
  have long := List.length_pos_iff.mpr some
  rw [List.length_dropLast] at shorter
  omega

theorem startsWith_of_parent? {path parent : Path} (above : path.parent? = some parent) :
    path.startsWith parent = true := by
  rw [startsWith_iff, components_of_parent? above]
  exact List.dropLast_prefix _

theorem parent_induction {holds : Path → Prop}
    (step : ∀ path, (∀ parent, path.parent? = some parent → holds parent) → holds path)
    (path : Path) : holds path :=
  step path fun parent _ => parent_induction step parent
termination_by path.components.length
decreasing_by exact length_of_parent? ‹_›

theorem mem_ancestors_self (path : Path) : path ∈ path.ancestors := by
  obtain ⟨more, all⟩ := path.ancestors_head
  rw [all]
  exact List.mem_cons_self

theorem prefix_of_mem_ancestors {path ancestor : Path} (above : ancestor ∈ path.ancestors) :
    ancestor.components <+: path.components := by
  induction path using parent_induction with
  | step path ih =>
      cases parent : path.parent? with
      | none =>
          rw [ancestors_of_parent?_none parent] at above
          cases List.mem_singleton.mp above
          exact List.prefix_rfl
      | some next =>
          rw [ancestors_of_parent? parent] at above
          rcases List.mem_cons.mp above with rfl | higher
          · exact List.prefix_rfl
          · have front := ih next parent higher
            rw [components_of_parent? parent] at front
            exact front.trans (List.dropLast_prefix _)

theorem startsWith_parent {path above : Path} (leads : path.startsWith above = true)
    (some : above.components ≠ []) (proper : above.components ≠ path.components) :
    ∃ parent, path.parent? = .some parent ∧ parent.startsWith above = true := by
  rw [startsWith_iff] at leads
  have nonempty : path.components ≠ [] := by
    intro empty
    rw [empty, List.prefix_nil] at leads
    exact some leads
  rw [← List.dropLast_concat_getLast nonempty, List.prefix_concat_iff,
    List.dropLast_concat_getLast nonempty] at leads
  have higher := leads.resolve_left proper
  cases parent : path.parent? with
  | none =>
      have root := ((parent?_eq_none_iff path).mp parent).resolve_left nonempty
      rw [root] at higher
      exact absurd (List.prefix_nil.mp higher) some
  | some next =>
      refine ⟨next, rfl, (startsWith_iff _ _).mpr ?_⟩
      rw [components_of_parent? parent]
      exact higher

theorem exists_mem_ancestors {path above : Path} (leads : path.startsWith above = true)
    (some : above.components ≠ []) :
    ∃ ancestor ∈ path.ancestors, ancestor.components = above.components := by
  induction path using parent_induction with
  | step path ih =>
      by_cases whole : above.components = path.components
      · exact ⟨path, mem_ancestors_self path, whole.symm⟩
      · obtain ⟨parent, isParent, higher⟩ := startsWith_parent leads some whole
        obtain ⟨ancestor, member, same⟩ := ih parent isParent higher
        rw [ancestors_of_parent? isParent]
        exact ⟨ancestor, List.mem_cons_of_mem _ member, same⟩

end ThemeRender.Path
