import Mathlib.Data.List.Basic
import Mathlib.Data.List.Induction
import ThemeRender.Proofs.Theme.Precedence

namespace ThemeRender

namespace Path

theorem parent_mem_components (path : Path) :
    .parent ∈ path.components ↔ ['.', '.'] ∈ Text.splitAt '/' path.text := by
  have steps_iff (pieces : List (List Char)) :
      .parent ∈ steps pieces ↔ ['.', '.'] ∈ pieces := by
    simp only [steps, List.mem_map, List.mem_filter]
    constructor
    · rintro ⟨piece, ⟨member, -⟩, isParent⟩
      unfold component at isParent
      split at isParent
      · rename_i same
        exact same ▸ member
      · cases isParent
    · intro member
      exact ⟨['.', '.'], ⟨member, rfl⟩, rfl⟩
  rw [components_eq, List.mem_append, steps_iff]
  unfold pieces
  split
  · rename_i rest text
    rw [text]
    simp [Lead.components, Text.splitAt]
  · rename_i text
    rw [text]
    decide
  · rename_i rest text
    rw [text]
    simp [Lead.components, Text.splitAt]
  · simp [Lead.components]

theorem parent_mem_join {base path : Path} (climbs : .parent ∈ (base.join path).components) :
    .parent ∈ base.components ∨ .parent ∈ path.components := by
  rw [parent_mem_components] at climbs
  rw [parent_mem_components, parent_mem_components]
  unfold join at climbs
  split at climbs
  · exact .inr climbs
  · split at climbs
    · rename_i slash
      obtain ⟨front, text⟩ := List.getLast?_eq_some_iff.mp slash
      rw [text, List.append_assoc, List.singleton_append, Text.splitAt_append] at climbs
      rw [text, Text.splitAt_append]
      exact (List.mem_append.mp climbs).imp_left (List.mem_append_left _)
    · rw [Text.splitAt_append] at climbs
      exact List.mem_append.mp climbs

theorem mem_of_lead_none {path : Path} (lead : path.pieces.lead = .none) {step : Component}
    (member : step ∈ path.components) : step = .parent ∨ ∃ name, step = .name name := by
  rw [components_eq, lead] at member
  obtain ⟨piece, -, rfl⟩ := List.mem_map.mp member
  unfold component
  split
  · exact .inl rfl
  · exact .inr ⟨piece, rfl⟩

end Path

namespace TemplateFile

theorem parent_mem_candidate {viewsRoot path : Path} {name : String}
    (tried : path ∈ candidates viewsRoot name) (climbs : .parent ∈ path.components) :
    .parent ∈ viewsRoot.components ∨ .parent ∈ (Path.ofString name).components := by
  obtain ⟨suffix, entry, rfl⟩ := List.mem_map.mp tried
  refine (Path.parent_mem_join climbs).imp_right fun inName => ?_
  obtain ⟨-, letter⟩ := suffixes_spelled suffix entry
  have noSlash : '/' ∉ (lastSegment name.toList).2 ++ suffix.toList := by
    rw [List.mem_append, not_or]
    exact ⟨slash_not_mem_lastSegment _,
      (by decide : ∀ suffix ∈ suffixes, '/' ∉ suffix.toList) suffix entry⟩
  have notParent : ['.', '.'] ≠ (lastSegment name.toList).2 ++ suffix.toList := by
    intro same
    have within := List.mem_append_right (lastSegment name.toList).2 letter
    rw [← same] at within
    simp at within
  rw [Path.parent_mem_components] at inName ⊢
  have spelled : (Path.ofString (name ++ suffix)).text = (lastSegment name.toList).1 ++
      ((lastSegment name.toList).2 ++ suffix.toList) := by
    rw [← List.append_assoc, lastSegment_append]
    exact String.toList_append
  have spelled' : (Path.ofString name).text =
      (lastSegment name.toList).1 ++ (lastSegment name.toList).2 :=
    (lastSegment_append name.toList).symm
  rw [spelled] at inName
  rw [spelled']
  rcases lastSegment_front name.toList with none | ends
  · rw [none, List.nil_append, Text.splitAt_of_not_mem noSlash, List.mem_singleton] at inName
    exact absurd inName notParent
  · obtain ⟨base, front⟩ := List.getLast?_eq_some_iff.mp ends
    rw [front, List.append_assoc, List.singleton_append, Text.splitAt_append] at inName ⊢
    rw [Text.splitAt_of_not_mem noSlash] at inName
    rcases List.mem_append.mp inName with before | last
    · exact List.mem_append_left _ before
    · exact absurd (List.mem_singleton.mp last) notParent

end TemplateFile

namespace Place

/-- The place that one more component leads to. A `..` takes back the name before it; it leads
nowhere from the root, and is kept where there is nothing to take back. -/
def follow (place : Place) : Path.Component → Place
  | .root => [.root]
  | .current => place
  | .parent =>
      match place.getLast? with
      | some (.name _) => place.dropLast
      | some .root => place
      | _ => place ++ [.parent]
  | .name name => place ++ [.name name]

def resolved (place : Place) : Place := place.foldl follow []

def ofNames (names : List (List Char)) : Place := names.map .name

def names (place : Place) : List (List Char) :=
  place.filterMap fun
    | .name name => some name
    | _ => none

def climbs (place : Place) : Nat := place.resolved.count .parent

def ResolvedInside (place base : Place) : Prop :=
  ∃ below ≠ [], place.resolved = base.resolved ++ ofNames below

/-- Whether names lead back into `base` after so many `..`: those of `base` that were left come
first, and there are more. -/
def LeadsBack (base : Place) (climbs : Nat) (names : List (List Char)) : Prop :=
  (climbs ≤ base.names.length ∨ .root ∈ base) ∧
    ∃ below ≠ [], names = base.names.drop (base.names.length - climbs) ++ below

theorem resolved_concat (place : Place) (step : Path.Component) :
    resolved (place ++ [step]) = place.resolved.follow step := by
  rw [resolved, List.foldl_concat]
  rfl

theorem foldl_ofNames (base : Place) (names : List (List Char)) :
    (ofNames names).foldl follow base = base ++ ofNames names := by
  induction names generalizing base with
  | nil => rw [ofNames, List.map_nil, List.foldl_nil, List.append_nil]
  | cons name rest ih =>
      change (ofNames rest).foldl follow (base ++ [Path.Component.name name]) = _
      rw [ih, List.append_assoc]
      rfl

theorem follow_parent_name (place : Place) (name : List Char) :
    follow (place ++ [.name name]) .parent = place := by
  rw [follow, List.getLast?_concat]
  exact List.dropLast_concat

theorem follow_parent_root (place : Place) :
    follow (place ++ [.root]) .parent = place ++ [.root] := by
  rw [follow, List.getLast?_concat]

theorem follow_parent_parent (place : Place) :
    follow (place ++ [.parent]) .parent = place ++ [.parent] ++ [.parent] := by
  rw [follow, List.getLast?_concat]

theorem follow_parent_current (place : Place) :
    follow (place ++ [.current]) .parent = place ++ [.current] ++ [.parent] := by
  rw [follow, List.getLast?_concat]

theorem foldl_resolved (place base : Place) :
    place.resolved.foldl follow base = place.foldl follow base := by
  induction place using List.reverseRecOn with
  | nil => rfl
  | append_singleton front step ih =>
      rw [resolved_concat, List.foldl_concat, ← ih]
      cases step with
      | root => rfl
      | current => rfl
      | name name => rw [follow, List.foldl_concat]
      | parent =>
          cases last : (resolved front).getLast? with
          | none =>
              rw [List.getLast?_eq_none_iff.mp last]
              rfl
          | some step =>
              obtain ⟨before, whole⟩ := List.getLast?_eq_some_iff.mp last
              rw [whole]
              cases step with
              | name name =>
                  rw [follow_parent_name, List.foldl_concat]
                  exact (follow_parent_name _ name).symm
              | root =>
                  rw [follow_parent_root, List.foldl_concat]
                  rfl
              | current => rw [follow_parent_current, List.foldl_concat]
              | parent => rw [follow_parent_parent, List.foldl_concat]

theorem parent_not_mem_ofNames (names : List (List Char)) : .parent ∉ ofNames names := by
  intro member
  obtain ⟨name, -, same⟩ := List.mem_map.mp member
  cases same

theorem resolved_of_relative {place : Place}
    (relative : ∀ step ∈ place, step = .parent ∨ ∃ name, step = .name name) :
    ∃ climbs names, place.resolved = List.replicate climbs .parent ++ ofNames names := by
  induction place using List.reverseRecOn with
  | nil => exact ⟨0, [], rfl⟩
  | append_singleton front step ih =>
      obtain ⟨climbs, names, whole⟩ := ih fun step member =>
        relative step (List.mem_append_left _ member)
      rw [resolved_concat, whole]
      rcases relative step (List.mem_append_right _ (List.mem_singleton_self step)) with
        rfl | ⟨name, rfl⟩
      · -- A `..` takes back the last name; without names it is one more to climb.
        cases names using List.reverseRecOn with
        | nil =>
            refine ⟨climbs + 1, [], ?_⟩
            cases climbs with
            | zero => rfl
            | succ climbs =>
                rw [ofNames, List.map_nil, List.append_nil, List.append_nil,
                  List.replicate_succ', follow_parent_parent, ← List.replicate_succ',
                  ← List.replicate_succ']
        | append_singleton names name =>
            refine ⟨climbs, names, ?_⟩
            rw [ofNames, List.map_append, ← List.append_assoc]
            exact follow_parent_name _ name
      · refine ⟨climbs, names ++ [name], ?_⟩
        rw [follow, ofNames, ofNames, List.map_append, List.append_assoc]
        rfl

theorem names_ofNames (names : List (List Char)) : Place.names (ofNames names) = names := by
  induction names with
  | nil => rfl
  | cons name rest ih => exact congrArg (name :: ·) ih

theorem resolved_eq_climbs {place : Place}
    (relative : ∀ step ∈ place, step = .parent ∨ ∃ name, step = .name name) :
    place.resolved = List.replicate place.climbs .parent ++ ofNames place.resolved.names := by
  obtain ⟨count, names, whole⟩ := resolved_of_relative relative
  have counted : place.climbs = count := by
    rw [climbs, whole, List.count_append, List.count_replicate_self,
      List.count_eq_zero.mpr (parent_not_mem_ofNames names), Nat.add_zero]
  have named : Place.names place.resolved = names := by
    have none : Place.names (List.replicate count .parent) = [] := by
      rw [Place.names, List.filterMap_eq_nil_iff]
      intro step member
      rw [List.eq_of_mem_replicate member]
    rw [whole, Place.names, List.filterMap_append]
    exact (congrArg (· ++ _) none).trans (names_ofNames names)
  rw [counted, named, whole]

theorem resolved_ofNames (names : List (List Char)) : (ofNames names).resolved = ofNames names :=
  foldl_ofNames [] names

theorem foldl_climb (lead : Place) (names : List (List Char)) (climbs : Nat)
    (enough : climbs ≤ names.length) :
    (List.replicate climbs .parent).foldl follow (lead ++ ofNames names) =
      lead ++ ofNames (names.take (names.length - climbs)) := by
  induction climbs generalizing names with
  | zero =>
      rw [Nat.sub_zero, List.take_length]
      rfl
  | succ climbs ih =>
      cases names using List.reverseRecOn with
      | nil => cases enough
      | append_singleton front name =>
          have fits : climbs ≤ front.length := by
            rw [List.length_append, List.length_singleton] at enough
            omega
          have shorter : (front ++ [name]).length - (climbs + 1) = front.length - climbs := by
            rw [List.length_append, List.length_singleton]
            omega
          have split : lead ++ ofNames (front ++ [name]) =
              lead ++ ofNames front ++ [.name name] := by
            rw [ofNames, List.map_append, List.append_assoc]
            rfl
          rw [List.replicate_succ, List.foldl_cons, split, follow_parent_name, shorter,
            List.take_append_of_le_length (Nat.sub_le ..)]
          exact ih front fits

theorem foldl_climb_over (names : List (List Char)) (more : Nat) :
    (List.replicate (names.length + more) .parent).foldl follow (ofNames names) =
      List.replicate more .parent := by
  have taken := foldl_climb [] names names.length (Nat.le_refl _)
  rw [List.nil_append, List.nil_append, Nat.sub_self, List.take_zero] at taken
  rw [List.replicate_add, List.foldl_append, taken]
  induction more with
  | zero => rfl
  | succ more ih =>
      rw [List.replicate_succ', List.foldl_concat, ih]
      cases more with
      | zero => rfl
      | succ more => rw [List.replicate_succ', follow_parent_parent]

theorem foldl_climb_to_root (names : List (List Char)) (climbs : Nat) :
    (List.replicate climbs .parent).foldl follow ([.root] ++ ofNames names) =
      [.root] ++ ofNames (names.take (names.length - climbs)) := by
  by_cases enough : climbs ≤ names.length
  · exact foldl_climb [.root] names climbs enough
  · obtain ⟨more, rfl⟩ := Nat.exists_eq_add_of_le (Nat.le_of_not_le enough)
    have taken := foldl_climb [.root] names names.length (Nat.le_refl _)
    rw [Nat.sub_self, List.take_zero] at taken
    rw [List.replicate_add, List.foldl_append, taken, Nat.sub_eq_zero_of_le (Nat.le_add_right ..),
      List.take_zero]
    clear taken enough
    induction more with
    | zero => rfl
    | succ more ih =>
        rw [List.replicate_succ', List.foldl_concat, ih]
        rfl

theorem leadsBack_zero (base : Place) {names : List (List Char)} (some : names ≠ []) :
    LeadsBack base 0 names := by
  refine ⟨.inl (Nat.zero_le _), names, some, ?_⟩
  rw [Nat.sub_zero, List.drop_length, List.nil_append]

theorem ofNames_injective : Function.Injective ofNames :=
  List.map_injective_iff.mpr fun _ _ same => Path.Component.name.inj same

theorem eq_ofNames {place : Place} (named : ∀ step ∈ place, ∃ name, step = .name name) :
    place = ofNames place.names := by
  induction place with
  | nil => rfl
  | cons step rest ih =>
      obtain ⟨⟨name, rfl⟩, later⟩ := List.forall_mem_cons.mp named
      exact congrArg (Path.Component.name name :: ·) (ih later)

theorem mem_executable {place : Place} {step : Path.Component} (member : step ∈ place.executable) :
    step ∈ place ∨ ∃ name, step = .name name := by
  rcases List.mem_append.mp member with front | last
  · exact .inl (List.dropLast_subset place front)
  · exact .inr ⟨_, List.mem_singleton.mp last⟩

structure StartsAt (base lead : Place) : Prop where
  resolved_eq : base.resolved = lead ++ ofNames base.names
  lead_eq : lead = [] ∧ .root ∉ base ∨ lead = [.root] ∧ .root ∈ base

theorem resolvedInside_append_iff {base lead relative : Place} {climbs : Nat}
    {names : List (List Char)} (starts : base.StartsAt lead)
    (climbing : relative.resolved = List.replicate climbs .parent ++ ofNames names) :
    (base ++ relative).ResolvedInside base ↔ base.LeadsBack climbs names := by
  obtain ⟨baseIs, leadIs⟩ := starts
  have whole : resolved (base ++ relative) =
      (List.replicate climbs .parent).foldl follow (lead ++ ofNames base.names) ++
        ofNames names := by
    rw [resolved, List.foldl_append, ← foldl_resolved relative, climbing, List.foldl_append,
      foldl_ofNames]
    exact congrArg (fun start => List.foldl follow start _ ++ _) baseIs
  have back : (List.replicate climbs .parent).foldl follow (lead ++ ofNames base.names) =
        lead ++ ofNames (base.names.take (base.names.length - climbs)) →
      ((base ++ relative).ResolvedInside base ↔ ∃ below ≠ [],
        names = base.names.drop (base.names.length - climbs) ++ below) := by
    intro climbed
    rw [climbed] at whole
    refine exists_congr fun below => and_congr_right fun _ => ?_
    rw [whole, baseIs, List.append_assoc, List.append_assoc, List.append_cancel_left_eq, ofNames,
      ofNames, ofNames, ofNames, ← List.map_append, ← List.map_append]
    refine (ofNames_injective.eq_iff (a := _ ++ _) (b := _ ++ _)).trans ?_
    rw [← List.append_cancel_left_eq (base.names.take (base.names.length - climbs)) names,
      ← List.append_assoc, List.take_append_drop]
  by_cases enough : climbs ≤ base.names.length
  · rw [back (foldl_climb lead base.names climbs enough), LeadsBack,
      and_iff_right (Or.inl enough)]
  · -- With more `..` than names, those of a relative base stay in front, where it has none.
    rcases leadIs with ⟨rfl, relativeBase⟩ | ⟨rfl, absolute⟩
    · constructor
      · rintro ⟨below, -, same⟩
        obtain ⟨more, rfl⟩ := Nat.exists_eq_add_of_lt (Nat.lt_of_not_le enough)
        rw [whole, List.nil_append, Nat.add_assoc, foldl_climb_over, baseIs,
          List.nil_append] at same
        have member : Path.Component.parent ∈ ofNames base.names ++ ofNames below := by
          rw [← same]
          exact List.mem_append_left _ (List.mem_replicate.mpr ⟨Nat.succ_ne_zero more, rfl⟩)
        rcases List.mem_append.mp member with inside | inside
        · exact absurd inside (parent_not_mem_ofNames _)
        · exact absurd inside (parent_not_mem_ofNames _)
      · rintro ⟨fits | absolute, -⟩
        · exact absurd fits enough
        · exact absurd absolute relativeBase
    · rw [back (foldl_climb_to_root base.names climbs), LeadsBack,
        and_iff_right (Or.inr absolute)]

end Place

namespace Path

theorem startsAt_of_plain {path : Path} (plain : .parent ∉ path.components) :
    ∃ lead, Place.StartsAt path.components lead := by
  have named : steps path.pieces.body = Place.ofNames (Place.names (steps path.pieces.body)) := by
    apply Place.eq_ofNames
    intro step member
    obtain ⟨piece, -, rfl⟩ := List.mem_map.mp member
    unfold component at member ⊢
    split
    · rename_i parent
      rw [if_pos parent] at member
      exact absurd (List.mem_append_right _ member) plain
    · exact ⟨piece, rfl⟩
  have noRoot : .root ∉ steps path.pieces.body := by
    rw [named]
    intro member
    obtain ⟨name, -, same⟩ := List.mem_map.mp member
    cases same
  have whole := components_eq path
  have resolvedFrom (lead : Place) (front : Place) (starts : front.foldl Place.follow [] = lead)
      (unnamed : Place.names front = []) :
      Place.resolved (front ++ steps path.pieces.body) =
        lead ++ Place.ofNames (Place.names (front ++ steps path.pieces.body)) := by
    have namesOf : Place.names (front ++ steps path.pieces.body) =
        Place.names (steps path.pieces.body) := by
      rw [Place.names, List.filterMap_append]
      exact congrArg (· ++ _) unnamed
    rw [namesOf, Place.resolved, List.foldl_append, starts]
    conv_lhs =>
      rw [named]
    exact Place.foldl_ofNames lead _
  cases start : path.pieces.lead with
  | root =>
      rw [start] at whole
      refine ⟨[.root], ?_, .inr ⟨rfl, ?_⟩⟩
      · rw [whole]
        exact resolvedFrom [.root] [.root] rfl rfl
      · rw [whole]
        exact List.mem_cons_self
  | current =>
      rw [start] at whole
      refine ⟨[], ?_, .inl ⟨rfl, ?_⟩⟩
      · rw [whole]
        exact resolvedFrom [] [.current] rfl rfl
      · rw [whole]
        simpa [Lead.components] using noRoot
  | none =>
      rw [start] at whole
      refine ⟨[], ?_, .inl ⟨rfl, ?_⟩⟩
      · rw [whole]
        exact resolvedFrom [] [] rfl rfl
      · rw [whole]
        exact noRoot

end Path

theorem localPlace_is_relative {viewsRoot source : Path} {name : List Char}
    (views : viewsRoot.components ≠ []) (named : source.fileName? = some name)
    {step : Path.Component} (member : step ∈ localPlace viewsRoot source) :
    step = .parent ∨ ∃ name, step = .name name := by
  obtain ⟨lead, kept⟩ := components_relativeTo views named
  rw [← kept] at member
  exact Path.mem_of_lead_none lead member

namespace TemplateFile

variable {σ : Type} [Store σ] {store : σ} {viewsRoot tempRoot : Path} {name : String}
  {file : TemplateFile}

/-- With every `..` followed, the artifact of the file of a name is inside the temp root just when
what is kept of its place leads back there, which holds of all that does not climb: files outside
the views root, and files of names without `..`. -/
theorem artifact_inside_iff_leads_back (views : viewsRoot.text ≠ [])
    (plainViews : .parent ∉ viewsRoot.components) (plainTemp : .parent ∉ tempRoot.components)
    (found : find? store viewsRoot name = some file) (compiled : file.dialect.isCompiled = true) :
    let kept := (localPlace viewsRoot file.path).executable
    kept.resolved = List.replicate kept.climbs .parent ++ Place.ofNames kept.resolved.names ∧
    (Place.ResolvedInside (artifactPath viewsRoot tempRoot file.path).components
        tempRoot.components ↔
      Place.LeadsBack tempRoot.components kept.climbs kept.resolved.names) ∧
    (.parent ∉ (Path.ofString name).components ∨ file.path.startsWith viewsRoot = false →
      kept.climbs = 0 ∧
        Place.ResolvedInside (artifactPath viewsRoot tempRoot file.path).components
          tempRoot.components) := by
  intro kept
  obtain ⟨tried, -, spelled⟩ := of_find? found
  obtain ⟨base, named, -⟩ := Dialect.fileName?_of_ofPath? spelled compiled
  have someViews := mt (Path.components_eq_nil_iff _).mp views
  have relative : ∀ step ∈ kept, step = .parent ∨ ∃ name, step = .name name := by
    intro step member
    rcases Place.mem_executable member with kept | isName
    · exact localPlace_is_relative someViews named kept
    · exact .inr isName
  have climbing := Place.resolved_eq_climbs relative
  obtain ⟨lead, starts⟩ := Path.startsAt_of_plain plainTemp
  have inside := Place.resolvedInside_append_iff starts climbing
  rw [← components_artifactPath someViews spelled compiled] at inside
  refine ⟨climbing, inside, fun stays => ?_⟩
  have level : .parent ∉ localPlace viewsRoot file.path := by
    rcases stays with plainName | outside
    · intro member
      have climbs : .parent ∈ file.path.components := by
        unfold localPlace at member
        split at member <;> exact List.drop_subset _ _ member
      exact (parent_mem_candidate tried climbs).elim plainViews plainName
    · rw [localPlace_of_outside outside named]
      simp
  have allNames : kept = Place.ofNames kept.names := by
    apply Place.eq_ofNames
    intro step member
    refine (relative step member).resolve_left ?_
    rintro rfl
    rcases Place.mem_executable member with inPlace | ⟨_, isName⟩
    · exact level inPlace
    · cases isName
  have settled : kept.resolved = kept := by
    rw [allNames, Place.resolved_ofNames]
  have none : kept.climbs = 0 := by
    rw [Place.climbs, settled, allNames]
    exact List.count_eq_zero.mpr (Place.parent_not_mem_ofNames _)
  refine ⟨none, inside.mpr ?_⟩
  rw [none, settled]
  refine Place.leadsBack_zero _ fun noNames => ?_
  rw [noNames] at allNames
  exact List.append_ne_nil_of_right_ne_nil _ (List.cons_ne_nil _ _) allNames

/-! Names that climb -/

def strays : MemoryStore :=
  (MemoryStore.empty.addFile (.ofString "views/../../a.haml") "%p one").addFile
    (.ofString "views/../tmp/a.haml") "%p two"

/-- The artifact of a name that goes through the temp root is there. -/
theorem name_through_temp_stays_inside :
    let root := Path.ofString "tmp"
    let file : TemplateFile := ⟨.ofString "views/../tmp/a.haml", .haml⟩
    find? strays (.ofString "views") "../tmp/a" = some file ∧
      Place.ResolvedInside (artifactPath (.ofString "views") root file.path).components
        root.components := by
  intro root file
  have found : find? strays (.ofString "views") "../tmp/a" = some file := by decide
  have inside := (@artifact_inside_iff_leads_back _ _ _ _ root _ _ (by decide) (by decide)
    (by decide) found rfl).2.1
  exact ⟨found, inside.mpr ⟨.inl (by decide), ["a.haml.php".toList], by decide, by decide⟩⟩

/-- The artifact of a name that climbs is written above the temp root. -/
theorem climbing_name_leaves_temp_root :
    ¬ ∀ (store : MemoryStore) (viewsRoot tempRoot : Path) (name : String) (file : TemplateFile),
      viewsRoot.text ≠ [] → tempRoot.text ≠ [] →
      .parent ∉ viewsRoot.components → .parent ∉ tempRoot.components →
      find? store viewsRoot name = some file → file.dialect.isCompiled = true →
      Place.ResolvedInside (artifactPath viewsRoot tempRoot file.path).components
        tempRoot.components := by
  intro holds
  obtain ⟨below, -, same⟩ := holds strays (.ofString "views") (.ofString "tmp") "../../a"
    ⟨.ofString "views/../../a.haml", .haml⟩ (by decide) (by decide) (by decide) (by decide)
    (by decide) rfl
  have above : Place.resolved (artifactPath (.ofString "views") (.ofString "tmp")
      (.ofString "views/../../a.haml")).components =
        [.parent, .name "a.haml.php".toList] := by
    decide
  rw [above] at same
  cases same

end TemplateFile

end ThemeRender
