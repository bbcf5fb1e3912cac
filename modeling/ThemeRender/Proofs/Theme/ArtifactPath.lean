import ThemeRender.Proofs.Store.Components
import ThemeRender.Store.PathMap
import ThemeRender.Theme.Artifact

namespace ThemeRender

namespace Path

def Inside (path base : Path) : Prop :=
  base.components <+: path.components ∧ base.components ≠ path.components

theorem Inside.startsWith {path base : Path} (inside : path.Inside base) :
    path.startsWith base = true :=
  (startsWith_iff path base).mpr inside.1

/-- Neither of two places is at or above the other. -/
def Apart (first second : Path) : Prop :=
  first.startsWith second = false ∧ second.startsWith first = false

theorem Apart.nonempty {first second : Path} (apart : first.Apart second) :
    first.components ≠ [] ∧ second.components ≠ [] := by
  obtain ⟨notBelow, notAbove⟩ := apart
  constructor
  · intro empty
    rw [startsWith_of_empty second empty] at notAbove
    cases notAbove
  · intro empty
    rw [startsWith_of_empty first empty] at notBelow
    cases notBelow

theorem Apart.not_both {first second path : Path} (apart : first.Apart second)
    (below : path.startsWith first = true) : path.startsWith second = false := by
  obtain ⟨notBelow, notAbove⟩ := apart
  cases other : path.startsWith second with
  | false => rfl
  | true =>
      rw [startsWith_iff] at below other
      rcases List.prefix_or_prefix_of_prefix below other with inner | outer
      · rw [(startsWith_iff second first).mpr inner] at notAbove
        simp at notAbove
      · rw [(startsWith_iff first second).mpr outer] at notBelow
        simp at notBelow

end Path

namespace Dialect

theorem ofExtension?_eq_some {extension : List Char} {dialect : Dialect}
    (found : ofExtension? extension = some dialect) : dialect.extension.toList = extension := by
  have holds := List.find?_some found
  simpa using holds

theorem not_native_of_isCompiled {dialect : Dialect} (compiled : dialect.isCompiled = true) :
    dialect ≠ .native := by
  intro same
  rw [same] at compiled
  simp [isCompiled] at compiled

theorem fileName?_of_ofPath? {path : Path} {dialect : Dialect}
    (found : ofPath? path = some dialect) (compiled : dialect.isCompiled = true) :
    ∃ name, path.fileName? = some name ∧
      Text.dropTail? ('.' :: native.extension.toList) name = none := by
  unfold ofPath? at found
  obtain ⟨extension, isExtension, isDialect⟩ := Option.bind_eq_some_iff.mp found
  obtain ⟨name, named, ends⟩ := Option.bind_eq_some_iff.mp isExtension
  refine ⟨name, named, ?_⟩
  have last : (Text.splitAt '.' name).getLast? = some extension := by
    unfold Path.extensionOf? at ends
    split at ends
    · simp at ends
    · simp at ends
    · simp at ends
    · exact ends
  have spelled := ofExtension?_eq_some isDialect
  unfold Text.dropTail?
  split
  · rename_i isSuffix
    obtain ⟨front, whole⟩ := List.isSuffixOf_iff_suffix.mp isSuffix
    rw [← whole, Text.splitAt_append,
      Text.splitAt_of_not_mem (s := native.extension.toList) (by decide),
      List.getLast?_append] at last
    have same : native.extension.toList = extension := by simpa using last
    rw [← spelled] at same
    cases dialect with
    | jade => exact absurd same (by decide)
    | haml => exact absurd same (by decide)
    | native => exact absurd rfl (not_native_of_isCompiled compiled)
  · rfl

end Dialect

theorem executable_isName {name : List Char} (noSlash : '/' ∉ name)
    (busy : Path.isIdle name = false) :
    '/' ∉ name ++ '.' :: Dialect.native.extension.toList ∧
      Path.isIdle (name ++ '.' :: Dialect.native.extension.toList) = false ∧
      name ++ '.' :: Dialect.native.extension.toList ≠ ['.', '.'] := by
  cases name with
  | nil => simp [Path.isIdle] at busy
  | cons c rest =>
      refine ⟨?_, by simp [Path.isIdle], ?_⟩
      · rw [List.mem_append, not_or]
        exact ⟨noSlash, by decide⟩
      · intro same
        have length := congrArg List.length same
        simp [Dialect.extension] at length

namespace Place

def lastName (place : Place) : List Char :=
  match place.getLast? with
  | some (.name name) => name
  | _ => []

def executable (place : Place) : Place :=
  place.dropLast ++ [.name (place.lastName ++ '.' :: Dialect.native.extension.toList)]

theorem executable_append_name (dirs : Place) (name : List Char) :
    executable (dirs ++ [.name name]) =
      dirs ++ [.name (name ++ '.' :: Dialect.native.extension.toList)] := by
  simp [executable, lastName]

def EndsIn (name : List Char) (place : Place) : Prop :=
  place = [] ∨ ∃ dirs, place = dirs ++ [.name name]

theorem executable_injective {first second : Place} {name other : List Char}
    (ends : first.EndsIn name) (ends' : second.EndsIn other) (some : name ≠ []) (some' : other ≠ [])
    (same : first.executable = second.executable) : first = second := by
  have different {dirs : Place} {name : List Char} (some : name ≠ []) :
      executable [] ≠ executable (dirs ++ [.name name]) := by
    intro equal
    rw [executable_append_name] at equal
    have last := (List.append_inj' equal rfl).2
    exact some (by simpa [lastName] using last)
  rcases ends with rfl | ⟨dirs, rfl⟩
  · rcases ends' with rfl | ⟨dirs', rfl⟩
    · rfl
    · exact absurd same (different some')
  · rcases ends' with rfl | ⟨dirs', rfl⟩
    · exact absurd same.symm (different some)
    · rw [executable_append_name, executable_append_name] at same
      obtain ⟨sameDirs, last⟩ := List.append_inj' same rfl
      have names : name = other := by simpa using last
      rw [sameDirs, names]

end Place

/-- What an artifact keeps of the place of its source: all that comes after the views root, or the
name alone if the source is outside. -/
def localPlace (viewsRoot source : Path) : Place :=
  if source.startsWith viewsRoot then source.components.drop viewsRoot.components.length
  else source.components.drop (source.components.length - 1)

variable {viewsRoot tempRoot source : Path} {name : List Char}

theorem components_eq_localPlace (below : source.startsWith viewsRoot = true) :
    source.components = viewsRoot.components ++ localPlace viewsRoot source := by
  obtain ⟨rest, whole⟩ := (Path.startsWith_iff source viewsRoot).mp below
  simp [localPlace, below, ← whole]

theorem localPlace_of_outside (outside : source.startsWith viewsRoot = false)
    (named : source.fileName? = some name) : localPlace viewsRoot source = [.name name] := by
  obtain ⟨dirs, split⟩ := List.getLast?_eq_some_iff.mp (Path.name_of_fileName? named).1
  simp [localPlace, outside, split]

theorem localPlace_endsIn (named : source.fileName? = some name) :
    (localPlace viewsRoot source).EndsIn name := by
  cases below : source.startsWith viewsRoot with
  | false => exact .inr ⟨[], localPlace_of_outside below named⟩
  | true =>
      have last := (Path.name_of_fileName? named).1
      rw [components_eq_localPlace below, List.getLast?_append] at last
      cases ends : (localPlace viewsRoot source).getLast? with
      | none => exact .inl (List.getLast?_eq_none_iff.mp ends)
      | some step =>
          obtain rfl : step = .name name := by simpa [ends] using last
          obtain ⟨dirs, split⟩ := List.getLast?_eq_some_iff.mp ends
          exact .inr ⟨dirs, split⟩

def relativeTo (viewsRoot source : Path) : Path :=
  match source.stripPrefix? viewsRoot with
  | some relative => relative
  | none => (source.fileName?.map Path.mk).getD source

def executableUnder (tempRoot relative : Path) : Path :=
  let name := relative.fileName?.getD []
  let dotted := '.' :: Dialect.native.extension.toList
  let file := Path.mk ((Text.dropTail? dotted name).getD name ++ dotted)
  match relative.parent? with
  | some dir => (tempRoot.join dir).join file
  | none => tempRoot.join file

theorem artifactPath_eq (viewsRoot tempRoot source : Path) :
    artifactPath viewsRoot tempRoot source =
      executableUnder tempRoot (relativeTo viewsRoot source) :=
  rfl

theorem components_relativeTo (views : viewsRoot.components ≠ [])
    (named : source.fileName? = some name) :
    (relativeTo viewsRoot source).pieces.lead = .none ∧
      (relativeTo viewsRoot source).components = localPlace viewsRoot source := by
  unfold relativeTo
  cases below : source.startsWith viewsRoot with
  | true =>
      obtain ⟨rest, stripped, lead, whole⟩ := Path.stripPrefix?_of_startsWith below views
      rw [components_eq_localPlace below] at whole
      rw [stripped]
      exact ⟨lead, (List.append_cancel_left whole).symm⟩
  | false =>
      have notStripped : source.stripPrefix? viewsRoot = none := by
        simp [Path.stripPrefix?, below]
      obtain ⟨_, noSlash, busy, notParent⟩ := Path.name_of_fileName? named
      rw [notStripped, named, localPlace_of_outside below named]
      exact Path.components_of_name noSlash busy notParent

theorem components_relativeTo_eq (named : source.fileName? = some name) :
    (relativeTo viewsRoot source).components = localPlace viewsRoot source := by
  by_cases views : viewsRoot.components = []
  · have starts := Path.startsWith_of_empty source views
    have stripped : source.stripPrefix? viewsRoot =
        some (.ofPieces ⟨source.pieces.lead, Path.trimIdle source.pieces.body⟩) := by
      simp [Path.stripPrefix?, starts, views]
    have clean : ∀ piece ∈ Path.trimIdle source.pieces.body, '/' ∉ piece := fun piece member =>
      Path.pieces_clean source piece ((Path.trimIdle_isFront _).subset member)
    unfold relativeTo localPlace
    rw [stripped, starts, if_pos rfl, views]
    dsimp only
    rw [Path.components_ofPieces _ clean Path.trimmed_startsBusy, Path.steps_trimIdle,
      Path.components_eq]
    rfl
  · exact (components_relativeTo views named).2

theorem localPlace_eq_nil_iff (named : source.fileName? = some name) :
    localPlace viewsRoot source = [] ↔ source.components = viewsRoot.components := by
  constructor
  · intro none
    cases below : source.startsWith viewsRoot with
    | true => simpa [none] using components_eq_localPlace below
    | false =>
        rw [localPlace_of_outside below named] at none
        cases none
  · intro same
    have below : source.startsWith viewsRoot = true :=
      (Path.startsWith_congr same viewsRoot).trans (Path.startsWith_self viewsRoot)
    simp [localPlace, below, same]

theorem fileName?_relativeTo (named : source.fileName? = some name) :
    (relativeTo viewsRoot source).fileName? =
      if source.components = viewsRoot.components then none else some name := by
  have kept := @components_relativeTo_eq viewsRoot source name named
  have none := @localPlace_eq_nil_iff viewsRoot source name named
  by_cases same : source.components = viewsRoot.components
  · rw [if_pos same, Path.fileName?, kept, none.mpr same]
    rfl
  · obtain ⟨dirs, split⟩ := (localPlace_endsIn named).resolve_left (mt none.mp same)
    rw [if_neg same, Path.fileName?, kept, split, List.getLast?_concat]

theorem fileName?_executableUnder (tempRoot relative : Path)
    (notNative : ∀ name ∈ relative.fileName?,
      Text.dropTail? ('.' :: Dialect.native.extension.toList) name = none) :
    (executableUnder tempRoot relative).fileName? =
      some (relative.fileName?.getD [] ++ '.' :: Dialect.native.extension.toList) := by
  have joined (base : Path) :
      (base.join ⟨relative.fileName?.getD [] ++ '.' :: Dialect.native.extension.toList⟩).fileName? =
        some (relative.fileName?.getD [] ++ '.' :: Dialect.native.extension.toList) := by
    cases named : relative.fileName? with
    | none =>
        rw [Path.fileName?, Option.getD_none,
          Path.components_join_name (by decide) (by decide) (by decide), List.getLast?_concat]
    | some name =>
        obtain ⟨_, noSlash, busy, _⟩ := Path.name_of_fileName? named
        obtain ⟨clean, busyFile, notParent⟩ := executable_isName noSlash busy
        rw [Path.fileName?, Option.getD_some, Path.components_join_name clean busyFile notParent,
          List.getLast?_concat]
  have whole : (Text.dropTail? ('.' :: Dialect.native.extension.toList)
      (relative.fileName?.getD [])).getD (relative.fileName?.getD []) =
        relative.fileName?.getD [] := by
    cases named : relative.fileName? with
    | none => rfl
    | some name => rw [Option.getD_some, notNative name named, Option.getD_none]
  unfold executableUnder
  dsimp only
  rw [whole]
  split
  · exact joined _
  · exact joined _

theorem fileName?_artifactPath {dialect : Dialect}
    (spelled : Dialect.ofPath? source = some dialect) (compiled : dialect.isCompiled = true)
    (named : source.fileName? = some name) :
    (artifactPath viewsRoot tempRoot source).fileName? =
      some ((if source.components = viewsRoot.components then [] else name) ++
        '.' :: Dialect.native.extension.toList) := by
  obtain ⟨base, named', notNative⟩ := Dialect.fileName?_of_ofPath? spelled compiled
  obtain rfl : name = base := Option.some.inj (named.symm.trans named')
  have kept := @fileName?_relativeTo viewsRoot source name named
  rw [artifactPath_eq, fileName?_executableUnder, kept]
  · split <;> rfl
  · rw [kept]
    split
    · rintro _ ⟨⟩
    · rintro _ ⟨⟩
      exact notNative

theorem components_executableUnder {relative : Path} (lead : relative.pieces.lead = .none)
    (ends : Place.EndsIn name relative.components)
    (notNative : Text.dropTail? ('.' :: Dialect.native.extension.toList) name = none) :
    (executableUnder tempRoot relative).components =
      tempRoot.components ++ Place.executable relative.components := by
  unfold executableUnder
  rcases ends with empty | ⟨dirs, split⟩
  · have above : relative.parent? = none := (Path.parent?_eq_none_iff relative).mpr (.inl empty)
    have noName : relative.fileName? = none := by
      simp [Path.fileName?, empty]
    simp only [noName, above, Option.getD_none]
    rw [empty]
    exact Path.components_join_name (by decide) (by decide) (by decide)
  · have named : relative.fileName? = some name := by
      simp [Path.fileName?, split]
    obtain ⟨_, noSlash, busy, _⟩ := Path.name_of_fileName? named
    obtain ⟨clean, busyFile, notParent⟩ := executable_isName noSlash busy
    obtain ⟨dir, above, inside, dirLead⟩ := Path.parent?_of_lead_none lead split
    simp only [above, named, Option.getD_some, notNative, Option.getD_none]
    rw [Path.components_join_name clean busyFile notParent,
      Path.components_join_of_lead_none dirLead, inside, split, Place.executable_append_name,
      List.append_assoc]

/-- The artifact of a source has what is kept of the source's place below the temp root, and its
name with the extension of executables. -/
theorem components_artifactPath {dialect : Dialect} (views : viewsRoot.components ≠ [])
    (spelled : Dialect.ofPath? source = some dialect) (compiled : dialect.isCompiled = true) :
    (artifactPath viewsRoot tempRoot source).components =
      tempRoot.components ++ (localPlace viewsRoot source).executable := by
  obtain ⟨name, named, notNative⟩ := Dialect.fileName?_of_ofPath? spelled compiled
  obtain ⟨lead, kept⟩ := components_relativeTo views named
  rw [artifactPath_eq, components_executableUnder lead ?_ notNative, kept]
  rw [kept]
  exact localPlace_endsIn named

section

variable {first second : Path} {dialect other : Dialect} (views : viewsRoot.components ≠ [])
  (spelled : Dialect.ofPath? first = some dialect) (compiled : dialect.isCompiled = true)
  (spelled' : Dialect.ofPath? second = some other) (compiled' : other.isCompiled = true)

include views spelled compiled spelled' compiled'

theorem artifactPath_same_iff :
    (artifactPath viewsRoot tempRoot first).components =
        (artifactPath viewsRoot tempRoot second).components ↔
      localPlace viewsRoot first = localPlace viewsRoot second := by
  rw [components_artifactPath views spelled compiled,
    components_artifactPath views spelled' compiled', List.append_cancel_left_eq]
  constructor
  · obtain ⟨name, named, -⟩ := Dialect.fileName?_of_ofPath? spelled compiled
    obtain ⟨name', named', -⟩ := Dialect.fileName?_of_ofPath? spelled' compiled'
    exact Place.executable_injective (localPlace_endsIn named) (localPlace_endsIn named')
      (Path.fileName?_ne_nil named) (Path.fileName?_ne_nil named')
  · intro same
    rw [same]

theorem artifactPath_congr_iff (inside : first.Inside viewsRoot) (inside' : second.Inside viewsRoot) :
    (artifactPath viewsRoot tempRoot first).components =
        (artifactPath viewsRoot tempRoot second).components ↔
      first.components = second.components := by
  rw [artifactPath_same_iff views spelled compiled spelled' compiled',
    components_eq_localPlace inside.startsWith, components_eq_localPlace inside'.startsWith,
    List.append_cancel_left_eq]

end

section

variable {dialect : Dialect} (views : viewsRoot.components ≠ [])
  (spelled : Dialect.ofPath? source = some dialect) (compiled : dialect.isCompiled = true)

include views spelled compiled

theorem artifactPath_startsWith :
    (artifactPath viewsRoot tempRoot source).startsWith tempRoot = true :=
  Path.startsWith_of_append (components_artifactPath views spelled compiled)

theorem parent?_artifactPath :
    ∃ dir, (artifactPath viewsRoot tempRoot source).parent? = some dir ∧
      dir.startsWith tempRoot = true := by
  obtain ⟨name, place⟩ : ∃ name, (artifactPath viewsRoot tempRoot source).components =
      tempRoot.components ++ (localPlace viewsRoot source).dropLast ++ [.name name] := by
    rw [components_artifactPath views spelled compiled, Place.executable, ← List.append_assoc]
    exact ⟨_, rfl⟩
  obtain ⟨dir, above, inside⟩ := Path.parent?_of_concat_name place
  exact ⟨dir, above, Path.startsWith_of_append inside⟩

end

end ThemeRender
