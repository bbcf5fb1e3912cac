import Mathlib.Data.List.Induction
import ThemeRender.Data.Locals
import ThemeRender.Proofs.Data.Overlays
import ThemeRender.Proofs.Text.ByteOrder

namespace ThemeRender

/-! Entries in order -/

namespace Fields

variable {α : Type} {name : String} {value : α} {fields base upper : Fields α}

theorem get?_eq_some_iff (sorted : Sorted fields) :
    get? name fields = some value ↔ (name, value) ∈ fields := by
  constructor
  · intro found
    induction fields with
    | nil => cases found
    | cons head rest ih =>
        obtain ⟨key, old⟩ := head
        rw [get?] at found
        split at found
        · rename_i same
          cases found
          rw [same]
          exact List.mem_cons_self
        · exact List.mem_cons_of_mem _ (ih sorted.rest found)
  · exact get?_of_sorted sorted

theorem insert_of_above (above : ∀ entry ∈ fields, entry.1 < name) (value : α) :
    insert name value fields = fields ++ [(name, value)] := by
  induction fields with
  | nil => rfl
  | cons head rest ih =>
      rw [insert_of_greater (above head List.mem_cons_self), List.cons_append,
        ih fun entry later => above entry (List.mem_cons_of_mem _ later)]

theorem overlay_of_above (sorted : Sorted upper)
    (above : ∀ lower ∈ base, ∀ entry ∈ upper, lower.1 < entry.1) :
    overlay base upper = base ++ upper := by
  induction upper generalizing base with
  | nil => exact (List.append_nil base).symm
  | cons head rest ih =>
      have behind : insert head.1 head.2 base = base ++ [head] :=
        insert_of_above (fun lower member => above lower member head List.mem_cons_self) head.2
      rw [overlay_cons, behind, ih sorted.rest, List.append_assoc]
      · rfl
      · intro lower member entry later
        rcases List.mem_append.mp member with before | last
        · exact above lower before entry (List.mem_cons_of_mem _ later)
        · rw [List.mem_singleton.mp last]
          exact sorted.above entry later

end Fields

namespace Locals

def Ordered (locals : Locals) : Prop :=
  Fields.Sorted locals.fields

/-- What can be done to locals. Giving a value in a chain of calls is the same as giving it in
place. -/
inductive Step where
  | insert (name : String) (value : Value)
  | merge (value : Value)
  | replace (value : Value)

namespace Step

/-- Only a map changes anything as a whole. -/
def apply (locals : Locals) : Step → Locals
  | .insert name value => locals.insert name value
  | .merge value =>
      match ofValue? value with
      | some upper => locals.merged upper
      | none => locals
  | .replace value =>
      match ofValue? value with
      | some replacement => replacement
      | none => locals

def Ordered : Step → Prop
  | .merge (.map fields) | .replace (.map fields) => Fields.Sorted fields
  | _ => True

def Gives (name : String) (value : Value) : Step → Prop
  | .insert other given => name = other ∧ value = given
  | .merge (.map fields) | .replace (.map fields) => (name, value) ∈ fields
  | _ => False

/-- Whether a step makes all names forgotten that it does not give. -/
def Forgets : Step → Prop
  | .replace (.map _) => True
  | _ => False

end Step

def afterSteps (steps : List Step) : Locals :=
  steps.foldl Step.apply empty

/-- A value was given to a name, and since then nothing was, nor was all forgotten. -/
def GivenLast (steps : List Step) (name : String) (value : Value) : Prop :=
  ∃ before step after, steps = before ++ step :: after ∧ step.Gives name value ∧
    ∀ later ∈ after, ¬ later.Forgets ∧ ∀ other, ¬ later.Gives name other

variable {locals : Locals} {step : Step} {steps : List Step} {name : String} {value : Value}

theorem Ordered.apply (ordered : locals.Ordered) (orderedStep : step.Ordered) :
    (step.apply locals).Ordered := by
  cases step with
  | insert name value => exact Fields.sorted_insert ordered
  | merge value =>
      cases value with
      | map fields => exact Fields.sorted_overlay ordered
      | _ => exact ordered
  | replace value =>
      cases value with
      | map fields => exact orderedStep
      | _ => exact ordered

theorem get?_apply (orderedStep : step.Ordered) :
    (step.apply locals).get? name = some value ↔
      step.Gives name value ∨
        (¬ step.Forgets ∧ ∀ other, ¬ step.Gives name other) ∧ locals.get? name = some value := by
  cases step with
  | insert other given =>
      rw [Step.apply, get?_insert]
      by_cases same : name = other
      · simp [same, Step.Gives, Step.Forgets, eq_comm]
      · simp [same, Step.Gives, Step.Forgets]
  | merge upper =>
      cases upper with
      | map fields =>
          have sorted : Fields.Sorted fields := orderedStep
          change Fields.get? name (Fields.overlay locals.fields fields) = some value ↔ _
          rw [Fields.get?_overlay _ _ sorted]
          simp only [Step.Gives, ← Fields.get?_eq_some_iff sorted, Step.Forgets]
          cases Fields.get? name fields with
          | none => simp [Locals.get?]
          | some given => simp
      | _ => simp [Step.apply, ofValue?, Step.Gives, Step.Forgets]
  | replace replacement =>
      cases replacement with
      | map fields =>
          have sorted : Fields.Sorted fields := orderedStep
          simp [Step.apply, ofValue?, Locals.get?, Step.Gives, Step.Forgets,
            Fields.get?_eq_some_iff sorted]
      | _ => simp [Step.apply, ofValue?, Step.Gives, Step.Forgets]

theorem givenLast_append_singleton :
    GivenLast (steps ++ [step]) name value ↔
      step.Gives name value ∨
        (¬ step.Forgets ∧ ∀ other, ¬ step.Gives name other) ∧ GivenLast steps name value := by
  constructor
  · rintro ⟨before, giving, after, whole, gives, since⟩
    rcases List.eq_nil_or_concat after with rfl | ⟨middle, last, rfl⟩
    · obtain ⟨-, same⟩ := List.append_inj' whole rfl
      cases same
      exact .inl gives
    · rw [List.concat_eq_append, ← List.cons_append, ← List.append_assoc] at whole
      obtain ⟨rfl, same⟩ := List.append_inj' whole rfl
      cases same
      refine .inr ⟨since step (by simp), before, giving, middle, rfl, gives, ?_⟩
      intro later member
      exact since later (by simp [member])
  · rintro (gives | ⟨keeps, before, giving, after, rfl, gives, since⟩)
    · exact ⟨steps, step, [], rfl, gives, by simp⟩
    · refine ⟨before, giving, after ++ [step], by simp, gives, ?_⟩
      intro later member
      rcases List.mem_append.mp member with inside | last
      · exact since later inside
      · rw [List.mem_singleton.mp last]
        exact keeps

theorem afterSteps_append (steps : List Step) (step : Step) :
    afterSteps (steps ++ [step]) = step.apply (afterSteps steps) := by
  unfold afterSteps
  rw [List.foldl_append]
  rfl

theorem ordered_afterSteps (ordered : ∀ step ∈ steps, step.Ordered) :
    (afterSteps steps).Ordered := by
  induction steps using List.reverseRecOn with
  | nil => exact List.Pairwise.nil
  | append_singleton steps step ih =>
      rw [afterSteps_append]
      apply Ordered.apply
      · exact ih fun earlier member => ordered earlier (List.mem_append_left _ member)
      · exact ordered step (by simp)

theorem get?_afterSteps (ordered : ∀ step ∈ steps, step.Ordered) :
    (afterSteps steps).get? name = some value ↔ GivenLast steps name value := by
  induction steps using List.reverseRecOn with
  | nil => simp [afterSteps, GivenLast]
  | append_singleton steps step ih =>
      have orderedBefore : ∀ step ∈ steps, step.Ordered :=
        fun earlier member => ordered earlier (List.mem_append_left _ member)
      rw [afterSteps_append, get?_apply (ordered step (by simp)), ih orderedBefore,
        givenLast_append_singleton]

theorem contains_iff : locals.contains name = true ↔ ∃ value, locals.get? name = some value :=
  Option.isSome_iff_exists

theorem apply_not_map (notMap : ∀ fields, value ≠ .map fields) :
    (Step.merge value).apply locals = locals ∧ (Step.replace value).apply locals = locals := by
  cases value with
  | map fields => exact absurd rfl (notMap fields)
  | _ => exact ⟨rfl, rfl⟩

theorem merged_assoc {middle upper : Locals} (ordered : middle.Ordered) :
    (locals.merged middle).merged upper = locals.merged (middle.merged upper) := by
  unfold merged
  rw [Fields.overlay_assoc locals.fields ordered]

theorem empty_merged (ordered : locals.Ordered) : empty.merged locals = locals := by
  unfold merged empty
  rw [Fields.overlay_of_above ordered (by simp), List.nil_append]

/-- After any steps the entries are strictly in the byte order of their names, and the size counts
them; a name is there just when it has a value, which is the one of its entry and the one it was
given last. Merging or replacing by what is no map changes nothing. Merging is associative, and no
locals are its identity. -/
theorem ordered_last_given :
    (∀ steps : List Step, (∀ step ∈ steps, step.Ordered) →
      let locals := afterSteps steps
      locals.fields.Pairwise (fun entry later => Text.bytes entry.1 < Text.bytes later.1) ∧
      locals.size = locals.fields.length ∧ (locals.isEmpty = true ↔ locals.fields = []) ∧
      ∀ name, (locals.contains name = true ↔ ∃ value, locals.get? name = some value) ∧
        ∀ value, (locals.get? name = some value ↔ (name, value) ∈ locals.fields) ∧
          (locals.get? name = some value ↔ GivenLast steps name value)) ∧
    (∀ (locals : Locals) (value : Value), (∀ fields, value ≠ .map fields) →
      (Step.merge value).apply locals = locals ∧ (Step.replace value).apply locals = locals) ∧
    (∀ lower middle upper : Locals, lower.Ordered → middle.Ordered → upper.Ordered →
      (lower.merged middle).merged upper = lower.merged (middle.merged upper)) ∧
    ∀ locals : Locals, locals.Ordered →
      locals.merged empty = locals ∧ empty.merged locals = locals := by
  refine ⟨?_, fun _ _ => apply_not_map, fun _ _ _ _ ordered _ => merged_assoc ordered,
    fun locals ordered => ⟨merged_empty locals, empty_merged ordered⟩⟩
  intro steps ordered locals
  have sorted : Fields.Sorted locals.fields := ordered_afterSteps ordered
  refine ⟨sorted.imp Text.bytes_lt_iff.mpr, rfl, List.isEmpty_iff, ?_⟩
  intro name
  refine ⟨contains_iff, fun value => ⟨Fields.get?_eq_some_iff sorted, ?_⟩⟩
  exact get?_afterSteps ordered

def titleSteps : List Step :=
  [.insert "title" (.string "a"), .merge (.map [("lang", .string "en"), ("title", .string "b")]),
    .replace (.map [("size", .null)]), .merge (.list []), .insert "title" (.string "c"),
    .merge (.map [("lang", .string "de")])]

theorem title_given_last :
    let locals := afterSteps titleSteps
    let laid : Locals := ⟨[("Lang", .null), ("title", .null)]⟩
    (∀ step ∈ titleSteps, step.Ordered) ∧ laid.Ordered ∧
    GivenLast titleSteps "title" (.string "c") ∧ locals.get? "title" = some (.string "c") ∧
    locals.fields.Pairwise (fun entry later => Text.bytes entry.1 < Text.bytes later.1) ∧
    (Step.replace (.string "no map")).apply locals = locals ∧
    (locals.merged laid).merged locals = locals.merged (laid.merged locals) ∧
    empty.merged laid = laid := by
  intro locals laid
  have ordered : ∀ step ∈ titleSteps, step.Ordered := by
    have inOrder : Fields.Sorted [("lang", Value.string "en"), ("title", .string "b")] := by
      unfold Fields.Sorted
      decide
    simp only [titleSteps, List.forall_mem_cons]
    exact ⟨trivial, inOrder, List.pairwise_singleton _ _, trivial, trivial,
      List.pairwise_singleton _ _, by simp⟩
  have laidOrdered : laid.Ordered := by
    unfold Locals.Ordered Fields.Sorted
    decide
  have found : locals.get? "title" = some (.string "c") := rfl
  obtain ⟨histories, unmoved, assoc, identity⟩ := ordered_last_given
  obtain ⟨increasing, -, -, given⟩ := histories titleSteps ordered
  refine ⟨ordered, laidOrdered, ?_, found, increasing, ?_, ?_, ?_⟩
  · exact ((given "title").2 _).2.mp found
  · exact (unmoved locals (.string "no map") (by simp)).2
  · have locals_ordered := ordered_afterSteps ordered
    exact assoc locals laid locals locals_ordered laidOrdered locals_ordered
  · exact (identity laid laidOrdered).2

end Locals

end ThemeRender
