import ThemeRender.Proofs.Data.Overlays
import ThemeRender.Proofs.Outcome
import ThemeRender.Theme.ViewOptions
/-!
Merging view options. A map as a whole comes to `overlaid` where nothing is wrong with it, and else
to its first fault. Merging one map after another is then merging the overlay of both.
-/

namespace ThemeRender

def Value.Ordered : Value → Prop
  | .map fields => Fields.Sorted fields
  | _ => True

def Value.given? (key : String) : Value → Option Value
  | .map fields => Fields.get? key fields
  | _ => none

/-- What keeps a value from being merged over view options. Of a map with a bad layout and bad locals
the layout is told. -/
inductive Unmergeable : Value → OptionsError → Prop
  | value {value : Value} (notNull : value ≠ .null) (notMap : ∀ fields, value ≠ .map fields) :
      Unmergeable value (.notMap value.typeName)
  | layout {fields : Fields Value} {layout : Value} (given : fields.get? "layout" = some layout)
      (notString : ∀ text, layout ≠ .string text) :
      Unmergeable (.map fields) (.wrongType "layout" "string" layout.typeName)
  | locals {fields : Fields Value} {locals : Value}
      (layoutFits : ∀ layout, fields.get? "layout" = some layout → ∃ text, layout = .string text)
      (given : fields.get? "locals" = some locals) (notNull : locals ≠ .null)
      (notMap : ∀ inner, locals ≠ .map inner) :
      Unmergeable (.map fields) (.wrongType "locals" "map" locals.typeName)

namespace ViewOptions

def isFree (key : String) : Bool :=
  key ≠ "layout" && key ≠ "locals"

def layoutFault? : Value → Option OptionsError
  | .string _ => none
  | other => some (.wrongType "layout" "string" other.typeName)

def localsFault? : Value → Option OptionsError
  | .map _ | .null => none
  | other => some (.wrongType "locals" "map" other.typeName)

def fieldsFault? (fields : Fields Value) : Option OptionsError :=
  ((fields.get? "layout").bind layoutFault?).or ((fields.get? "locals").bind localsFault?)

def overlaid (options : ViewOptions) (fields : Fields Value) : ViewOptions where
  layout :=
    match fields.get? "layout" with
    | some (.string layout) => layout
    | _ => options.layout
  locals :=
    match fields.get? "locals" with
    | some (.map locals) => ⟨locals⟩
    | some .null => .empty
    | _ => options.locals
  extra := options.extra.overlay (fields.restrict isFree)

variable {options : ViewOptions} {fields upper : Fields Value} {key : String} {value : Value}

/-! One map -/

theorem get?_cons_other {name : String} (different : name ≠ key) (value : Value)
    (fields : Fields Value) : Fields.get? name ((key, value) :: fields) = fields.get? name := by
  rw [Fields.get?, if_neg different]

theorem mergeEntry_free (free : isFree key = true) (options : ViewOptions) (value : Value) :
    options.mergeEntry key value = .ok { options with extra := options.extra.insert key value } := by
  simp only [isFree, Bool.and_eq_true, decide_eq_true_eq] at free
  unfold mergeEntry
  rw [if_neg free.1, if_neg free.2]

theorem layout_absent_above (sorted : Fields.Sorted (("locals", value) :: fields)) :
    fields.get? "layout" = none := by
  rw [← Option.not_isSome_iff_eq_none, Fields.get?_isSome_iff]
  intro member
  obtain ⟨entry, inRest, same⟩ := List.mem_map.mp member
  have above : "locals" < entry.1 := sorted.above entry inRest
  rw [same] at above
  exact absurd above (by decide)

theorem restrict_layout (value : Value) (fields : Fields Value) :
    Fields.restrict isFree (("layout", value) :: fields) = fields.restrict isFree :=
  Fields.restrict_cons_of_dropped (by decide) value fields

theorem restrict_locals (value : Value) (fields : Fields Value) :
    Fields.restrict isFree (("locals", value) :: fields) = fields.restrict isFree :=
  Fields.restrict_cons_of_dropped (by decide) value fields

def merged (options : ViewOptions) (fields : Fields Value) : Except OptionsError ViewOptions :=
  match fieldsFault? fields with
  | some error => .error error
  | none => .ok (options.overlaid fields)

theorem merged_layout (sorted : Fields.Sorted (("layout", value) :: fields))
    (options : ViewOptions) :
    options.merged (("layout", value) :: fields) =
      (options.mergeEntry "layout" value >>= (·.merged fields)) := by
  have absent := sorted.get?_head
  have localsBelow : Fields.get? "locals" (("layout", value) :: fields) = fields.get? "locals" :=
    get?_cons_other (by decide) value fields
  have layoutHere : Fields.get? "layout" (("layout", value) :: fields) = some value := rfl
  cases value with
  | string layout =>
      change _ = { options with layout }.merged fields
      simp only [merged, fieldsFault?, overlaid, localsBelow, layoutHere, restrict_layout, absent,
        layoutFault?, Option.bind_none, Option.bind_some]
  | _ =>
      simp only [merged, fieldsFault?, layoutHere, layoutFault?, Option.bind_some, Option.some_or]
      rfl

theorem merged_locals (sorted : Fields.Sorted (("locals", value) :: fields))
    (options : ViewOptions) :
    options.merged (("locals", value) :: fields) =
      (options.mergeEntry "locals" value >>= (·.merged fields)) := by
  have absent := sorted.get?_head
  have noLayout := layout_absent_above sorted
  have layoutBelow : Fields.get? "layout" (("locals", value) :: fields) = none :=
    (get?_cons_other (by decide) value fields).trans noLayout
  have localsHere : Fields.get? "locals" (("locals", value) :: fields) = some value := rfl
  cases value with
  | map locals =>
      change _ = { options with locals := ⟨locals⟩ }.merged fields
      simp only [merged, fieldsFault?, overlaid, layoutBelow, localsHere, restrict_locals, absent,
        noLayout, localsFault?, Option.bind_none, Option.bind_some]
  | null =>
      change _ = { options with locals := .empty }.merged fields
      simp only [merged, fieldsFault?, overlaid, layoutBelow, localsHere, restrict_locals, absent,
        noLayout, localsFault?, Option.bind_none, Option.bind_some]
  | _ =>
      simp only [merged, fieldsFault?, layoutBelow, localsHere, localsFault?, Option.bind_none,
        Option.bind_some, Option.none_or]
      rfl

theorem merged_free (free : isFree key = true) (options : ViewOptions) (value : Value)
    (fields : Fields Value) :
    options.merged ((key, value) :: fields) =
      (options.mergeEntry key value >>= (·.merged fields)) := by
  rw [mergeEntry_free free]
  simp only [isFree, Bool.and_eq_true, decide_eq_true_eq] at free
  change _ = { options with extra := options.extra.insert key value }.merged fields
  simp only [merged, fieldsFault?, overlaid, get?_cons_other (Ne.symm free.1),
    get?_cons_other (Ne.symm free.2)]
  rw [Fields.restrict_cons_of_kept, Fields.overlay_cons]
  simp [isFree, free]

theorem mergeEntries_eq (sorted : Fields.Sorted fields) (options : ViewOptions) :
    options.mergeEntries fields = options.merged fields := by
  induction fields generalizing options with
  | nil => rfl
  | cons head rest ih =>
      obtain ⟨key, value⟩ := head
      have oneMore : options.merged ((key, value) :: rest) =
          (options.mergeEntry key value >>= (·.merged rest)) := by
        by_cases isLayout : key = "layout"
        · subst isLayout
          exact merged_layout sorted options
        · by_cases isLocals : key = "locals"
          · subst isLocals
            exact merged_locals sorted options
          · exact merged_free (by simp [isFree, isLayout, isLocals]) options value rest
      rw [oneMore, mergeEntries]
      exact congrArg _ (funext (ih sorted.rest))

/-! Faults -/

theorem layoutFault?_eq_some {error : OptionsError} :
    layoutFault? value = some error ↔
      (∀ text, value ≠ .string text) ∧ error = .wrongType "layout" "string" value.typeName := by
  cases value <;> simp [layoutFault?, eq_comm]

theorem layoutFault?_eq_none : layoutFault? value = none ↔ ∃ text, value = .string text := by
  cases value <;> simp [layoutFault?]

theorem localsFault?_eq_some {error : OptionsError} :
    localsFault? value = some error ↔
      value ≠ .null ∧ (∀ fields, value ≠ .map fields) ∧
        error = .wrongType "locals" "map" value.typeName := by
  cases value <;> simp [localsFault?, eq_comm]

theorem fieldsFault?_eq_some {error : OptionsError} :
    fieldsFault? fields = some error ↔ Unmergeable (.map fields) error := by
  unfold fieldsFault?
  rw [Option.or_eq_some_iff, Option.bind_eq_some_iff, Option.bind_eq_none_iff,
    Option.bind_eq_some_iff]
  constructor
  · rintro (⟨layout, given, fault⟩ | ⟨layoutFits, locals, given, fault⟩)
    · obtain ⟨notString, rfl⟩ := layoutFault?_eq_some.mp fault
      exact .layout given notString
    · obtain ⟨notNull, notMap, rfl⟩ := localsFault?_eq_some.mp fault
      have fits (layout : Value) (found : fields.get? "layout" = some layout) :
          ∃ text, layout = .string text := layoutFault?_eq_none.mp (layoutFits layout found)
      exact .locals fits given notNull notMap
  · rintro (⟨_, notMap⟩ | ⟨given, notString⟩ | ⟨layoutFits, given, notNull, notMap⟩)
    · exact absurd rfl (notMap fields)
    · exact .inl ⟨_, given, layoutFault?_eq_some.mpr ⟨notString, rfl⟩⟩
    · exact .inr ⟨fun layout found => layoutFault?_eq_none.mpr (layoutFits layout found), _, given,
        localsFault?_eq_some.mpr ⟨notNull, notMap, rfl⟩⟩

theorem merge_eq_error (ordered : value.Ordered) {error : OptionsError} :
    options.merge value = .error error ↔ Unmergeable value error := by
  have noMap (notNull : value ≠ .null) (notMap : ∀ fields, value ≠ .map fields) :
      (Except.error (.notMap value.typeName) : Except OptionsError ViewOptions) = .error error ↔
        Unmergeable value error := by
    rw [Except.error.injEq]
    constructor
    · rintro rfl
      exact .value notNull notMap
    · rintro (_ | _ | _)
      · rfl
      · exact absurd rfl (notMap _)
      · exact absurd rfl (notMap _)
  cases value with
  | map fields =>
      change options.mergeEntries fields = _ ↔ _
      rw [mergeEntries_eq ordered, merged, ← fieldsFault?_eq_some]
      cases fieldsFault? fields <;> simp
  | null =>
      constructor
      · intro fails
        cases fails
      · rintro ⟨notNull, _⟩
        exact absurd rfl notNull
  | _ => exact noMap (by simp) (by simp)

/-! Two maps -/

theorem merge_map_eq_ok (sorted : Fields.Sorted fields) {result : ViewOptions} :
    options.merge (.map fields) = .ok result ↔
      fieldsFault? fields = none ∧ result = options.overlaid fields := by
  change options.mergeEntries fields = _ ↔ _
  rw [mergeEntries_eq sorted, merged]
  cases fieldsFault? fields <;> simp [eq_comm]

theorem fieldsFault?_overlay (fits : fieldsFault? fields = none)
    (sorted : Fields.Sorted upper) (fitsUpper : fieldsFault? upper = none) :
    fieldsFault? (fields.overlay upper) = none := by
  unfold fieldsFault? at fits fitsUpper ⊢
  rw [Fields.get?_overlay _ _ sorted, Fields.get?_overlay _ _ sorted]
  rw [Option.or_eq_none_iff] at fits fitsUpper ⊢
  constructor
  · cases given : upper.get? "layout" with
    | none => exact fits.1
    | some layout =>
        rw [given] at fitsUpper
        exact fitsUpper.1
  · cases given : upper.get? "locals" with
    | none => exact fits.2
    | some locals =>
        rw [given] at fitsUpper
        exact fitsUpper.2

theorem overlaid_overlaid (fits : fieldsFault? upper = none) (options : ViewOptions)
    (sorted : Fields.Sorted fields) (sortedUpper : Fields.Sorted upper) :
    (options.overlaid fields).overlaid upper = options.overlaid (fields.overlay upper) := by
  unfold fieldsFault? at fits
  rw [Option.or_eq_none_iff] at fits
  simp only [overlaid, Fields.get?_overlay _ _ sortedUpper, Fields.restrict_overlay isFree sorted,
    Fields.overlay_assoc _ (Fields.sorted_restrict sorted), ViewOptions.mk.injEq, and_true]
  constructor
  · cases given : upper.get? "layout" with
    | none => rfl
    | some layout =>
        rw [given] at fits
        obtain ⟨text, rfl⟩ := layoutFault?_eq_none.mp fits.1
        rfl
  · cases given : upper.get? "locals" with
    | none => rfl
    | some locals =>
        rw [given] at fits
        have fitsLocals : localsFault? locals = none := fits.2
        cases locals with
        | map | null => rfl
        | _ => cases fitsLocals

/-! Many values -/

theorem get?_extra_merge (ordered : value.Ordered) {result : ViewOptions}
    (merges : options.merge value = .ok result) (key : String) :
    result.extra.get? key =
      if isFree key = true then (value.given? key).or (options.extra.get? key)
      else options.extra.get? key := by
  cases value with
  | map fields =>
      obtain ⟨-, rfl⟩ := (merge_map_eq_ok ordered).mp merges
      change Fields.get? key (options.extra.overlay (Fields.restrict isFree fields)) = _
      rw [Fields.get?_overlay _ _ (Fields.sorted_restrict ordered), Fields.get?_restrict]
      split
      · rfl
      · rfl
  | null =>
      cases merges
      simp [Value.given?]
  | _ => cases merges

theorem get?_extra_foldlM {values : List Value} (ordered : ∀ value ∈ values, value.Ordered)
    {result : ViewOptions} (merges : values.foldlM merge options = .ok result) (key : String) :
    result.extra.get? key =
      if isFree key = true then
        (values.reverse.findSome? (Value.given? key)).or (options.extra.get? key)
      else options.extra.get? key := by
  induction values generalizing options with
  | nil =>
      cases merges
      simp
  | cons value rest ih =>
      obtain ⟨next, first, others⟩ := Outcome.except_bind_eq_ok.mp merges
      obtain ⟨orderedHere, orderedRest⟩ := List.forall_mem_cons.mp ordered
      rw [ih orderedRest others, get?_extra_merge orderedHere first, List.reverse_cons,
        List.findSome?_append, List.findSome?_singleton]
      split
      · rw [Option.or_assoc]
      · rfl

/-- Null changes nothing, and a value is refused just where it is no map or one of bad fields. Two
maps that can be merged one after the other can be merged as one, the second laid over the first.
However many values are merged into fresh options, `layout` and `locals` never get among the other
keys, and each other key has the last value that it was given. -/
theorem merging_composes :
    (∀ options : ViewOptions, options.merge .null = .ok options) ∧
    (∀ (options : ViewOptions) (value : Value), value.Ordered → ∀ error,
      (options.merge value = .error error ↔ Unmergeable value error)) ∧
    (∀ (options between last : ViewOptions) (fields upper : Fields Value),
      Fields.Sorted fields → Fields.Sorted upper →
      options.merge (.map fields) = .ok between → between.merge (.map upper) = .ok last →
        options.merge (.map (fields.overlay upper)) = .ok last) ∧
    (∀ (layout : String) (values : List Value) (last : ViewOptions),
      (∀ value ∈ values, value.Ordered) → values.foldlM merge (withLayout layout) = .ok last →
        last.extra.get? "layout" = none ∧ last.extra.get? "locals" = none ∧
          ∀ key, key ≠ "layout" → key ≠ "locals" →
            last.extra.get? key = values.reverse.findSome? (Value.given? key)) := by
  refine ⟨fun _ => rfl, fun _ _ ordered _ => merge_eq_error ordered, ?_, ?_⟩
  · intro options between last fields upper sorted sortedUpper first second
    obtain ⟨fits, rfl⟩ := (merge_map_eq_ok sorted).mp first
    obtain ⟨fitsUpper, rfl⟩ := (merge_map_eq_ok sortedUpper).mp second
    refine (merge_map_eq_ok (Fields.sorted_overlay sorted)).mpr ⟨?_, ?_⟩
    · exact fieldsFault?_overlay fits sortedUpper fitsUpper
    · exact overlaid_overlaid fitsUpper options sorted sortedUpper
  · intro layout values last ordered merges
    have found := get?_extra_foldlM ordered merges
    refine ⟨found "layout", found "locals", ?_⟩
    intro key notLayout notLocals
    rw [found, if_pos (by simp [isFree, notLayout, notLocals])]
    exact Option.or_none

/-- Options in two languages, the second without locals. -/
theorem second_language_wins :
    let english : Fields Value :=
      [("lang", .string "en"), ("layout", .string "wide"), ("locals", .map [("n", .null)])]
    let german : Fields Value := [("lang", .string "de"), ("locals", .null)]
    let values : List Value := [.map english, .null, .map german]
    let last : ViewOptions := ⟨"wide", .empty, [("lang", .string "de")]⟩
    Fields.Sorted english ∧ Fields.Sorted german ∧ (∀ value ∈ values, value.Ordered) ∧
    values.foldlM merge (withLayout "default") = .ok last ∧
    (withLayout "default").merge (.map (english.overlay german)) = .ok last ∧
    Fields.get? "lang" last.extra = values.reverse.findSome? (Value.given? "lang") ∧
    (withLayout "default").merge (.map [("layout", .null), ("locals", .bool true)]) =
      .error (.wrongType "layout" "string" "null") := by
  intro english german values last
  have sorted : Fields.Sorted english := by
    unfold Fields.Sorted
    decide
  have sortedUpper : Fields.Sorted german := by
    unfold Fields.Sorted
    decide
  have badSorted : Value.Ordered (.map [("layout", .null), ("locals", .bool true)]) := by
    change Fields.Sorted _
    unfold Fields.Sorted
    decide
  have ordered : ∀ value ∈ values, value.Ordered := by
    simp only [values, List.forall_mem_cons]
    exact ⟨sorted, trivial, sortedUpper, by simp⟩
  have merges : values.foldlM merge (withLayout "default") = .ok last := rfl
  obtain ⟨-, refused, composes, keeps⟩ := merging_composes
  refine ⟨sorted, sortedUpper, ordered, merges, ?_, ?_, ?_⟩
  · exact composes _ _ _ english german sorted sortedUpper rfl rfl
  · exact (keeps "default" values last ordered merges).2.2 "lang" (by decide) (by decide)
  · have given : Fields.get? "layout" [("layout", .null), ("locals", .bool true)] = some Value.null :=
      rfl
    exact (refused _ _ badSorted _).mpr (.layout given (by simp))

end ViewOptions

end ThemeRender
