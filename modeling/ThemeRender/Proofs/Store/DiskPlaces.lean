import ThemeRender.Proofs.Outcome
import ThemeRender.Proofs.Store.Components
import ThemeRender.Store.Disk
import ThemeRender.Store.PathMap
/-!
The places that paths lead to on a disk. What is on the way decides whether a path leads anywhere;
where it leads then follows from its components alone.
-/

namespace ThemeRender

open ThemeRender.Path (Component)

namespace Location

def step (here : Location) : Component → Location
  | .root => []
  | .current => here
  | .parent => here.dropLast
  | .name text => here ++ [text]

def along (here : Location) (components : Place) : Location :=
  components.foldl step here

/-- Where a component leads to as seen from a directory, as long as it does not lead out of it. -/
def stepInside (here : Location) : Component → Option Location
  | .root => none
  | .current => some here
  | .parent => if here = [] then none else some here.dropLast
  | .name text => some (here ++ [text])

def inside? (components : Place) : Option Location :=
  components.foldlM stepInside []

theorem along_append (here : Location) (first second : Place) :
    along here (first ++ second) = along (along here first) second :=
  List.foldl_append

theorem step_of_stepInside {here there : Location} {component : Component} (base : Location)
    (inside : stepInside here component = some there) :
    step (base ++ here) component = base ++ there := by
  cases component with
  | root => cases inside
  | current =>
      cases inside
      rfl
  | name text =>
      cases inside
      exact List.append_assoc base here [text]
  | parent =>
      unfold stepInside at inside
      dsimp only at inside
      split at inside
      · cases inside
      · rename_i nonempty
        cases inside
        exact List.dropLast_append_of_ne_nil nonempty

theorem along_of_foldlM {components : Place} {here there : Location} (base : Location)
    (inside : components.foldlM stepInside here = some there) :
    along (base ++ here) components = base ++ there := by
  induction components generalizing here with
  | nil =>
      cases inside
      rfl
  | cons component rest ih =>
      obtain ⟨next, first, others⟩ := Option.bind_eq_some_iff.mp inside
      change along (step (base ++ here) component) rest = base ++ there
      rw [step_of_stepInside base first]
      exact ih others

theorem along_of_inside? {components : Place} {there : Location} (base : Location)
    (inside : inside? components = some there) : along base components = base ++ there := by
  have whole := along_of_foldlM base inside
  rwa [List.append_nil] at whole

theorem inside?_names (names : List (List Char)) :
    inside? (names.map .name) = some names := by
  have grows : ∀ here : Location,
      (names.map Component.name).foldlM stepInside here = some (here ++ names) := by
    induction names with
    | nil =>
        intro here
        rw [List.append_nil]
        rfl
    | cons name rest ih =>
        intro here
        have whole := ih (here ++ [name])
        rw [List.append_assoc] at whole
        exact whole
  exact grows []

theorem inside?_concat_name {dirs : Place} {name : List Char} {there : Location}
    (inside : inside? (dirs ++ [.name name]) = some there) :
    ∃ above, inside? dirs = some above ∧ there = above ++ [name] := by
  unfold inside? at inside
  rw [List.foldlM_append] at inside
  obtain ⟨above, leads, last⟩ := Option.bind_eq_some_iff.mp inside
  refine ⟨above, leads, ?_⟩
  cases last
  rfl

theorem mem_of_foldlM {components : Place} {here there : Location}
    (inside : components.foldlM stepInside here = some there) {name : List Char}
    (member : name ∈ there) : name ∈ here ∨ .name name ∈ components := by
  induction components generalizing here with
  | nil =>
      cases inside
      exact .inl member
  | cons component rest ih =>
      obtain ⟨next, first, others⟩ := Option.bind_eq_some_iff.mp inside
      rcases ih others with before | after
      · cases component with
        | root => cases first
        | current =>
            cases first
            exact .inl before
        | name text =>
            cases first
            rcases List.mem_append.mp before with old | new
            · exact .inl old
            · rw [List.mem_singleton.mp new]
              exact .inr List.mem_cons_self
        | parent =>
            unfold stepInside at first
            dsimp only at first
            split at first
            · cases first
            · cases first
              exact .inl (List.dropLast_subset _ before)
      · exact .inr (List.mem_cons_of_mem _ after)

theorem mem_of_inside? {components : Place} {there : Location}
    (inside : inside? components = some there) {name : List Char} (member : name ∈ there) :
    .name name ∈ components :=
  (mem_of_foldlM inside member).resolve_left List.not_mem_nil

end Location

namespace Path

open Location (along)

structure IsName (piece : List Char) : Prop where
  noSlash : '/' ∉ piece
  busy : isIdle piece = false
  notParent : piece ≠ ['.', '.']

instance IsName.decidable (piece : List Char) : Decidable (IsName piece) :=
  decidable_of_iff ('/' ∉ piece ∧ isIdle piece = false ∧ piece ≠ ['.', '.'])
    ⟨fun ⟨noSlash, busy, notParent⟩ => ⟨noSlash, busy, notParent⟩,
      fun ⟨noSlash, busy, notParent⟩ => ⟨noSlash, busy, notParent⟩⟩

theorem isName_of_mem_components {path : Path} {name : List Char}
    (member : .name name ∈ path.components) : IsName name := by
  have inBody : .name name ∈ steps path.pieces.body := by
    rw [components_eq] at member
    cases lead : path.pieces.lead <;> simpa [lead, Lead.components] using member
  obtain ⟨piece, found, busy, same⟩ := mem_steps inBody
  unfold component at same
  split at same
  · simp at same
  · rename_i notParent
    obtain rfl : piece = name := by simpa using same
    exact ⟨pieces_clean path piece found, busy, notParent⟩

theorem along_components (base : Location) (path : Path) :
    along base path.components =
      along (if path.isAbsolute then [] else base) (steps (Text.splitAt '/' path.text)) := by
  obtain ⟨text⟩ := path
  unfold isAbsolute
  rw [components_eq]
  unfold pieces
  split
  · rename_i rest spelled
    subst spelled
    rfl
  · rename_i spelled
    subst spelled
    rfl
  · rename_i rest spelled
    subst spelled
    rfl
  · rename_i notRoot _ _
    have relative : (text.head? == some '/') = false := by
      cases text with
      | nil => rfl
      | cons c rest =>
          have other : c ≠ '/' := fun same => notRoot rest (by rw [same])
          simpa using other
    simp only [relative, Bool.false_eq_true, if_false]
    rfl

/-- The pieces of a path follow those of what it is joined to, but for a blank one after a slash. -/
theorem splitAt_join {base path : Path} (nonempty : base.isEmpty = false)
    (relative : path.isAbsolute = false) :
    ∃ front more, (base.join path).text = base.text ++ more ∧
      (Text.splitAt '/' base.text = front ∨ Text.splitAt '/' base.text = front ++ [[]]) ∧
      Text.splitAt '/' (base.join path).text = front ++ Text.splitAt '/' path.text := by
  obtain ⟨text⟩ := base
  unfold join
  rw [relative, nonempty]
  simp only [Bool.or_self, Bool.false_eq_true, if_false]
  split
  · rename_i last
    obtain ⟨front, rfl⟩ := List.getLast?_eq_some_iff.mp last
    refine ⟨Text.splitAt '/' front, path.text, rfl, .inr ?_, ?_⟩
    · rw [Text.splitAt_append]
      rfl
    · dsimp only
      rw [List.append_assoc, List.singleton_append, Text.splitAt_append]
  · refine ⟨Text.splitAt '/' text, '/' :: path.text, rfl, .inl rfl, ?_⟩
    dsimp only
    rw [Text.splitAt_append]

theorem isAbsolute_join {base path : Path} (nonempty : base.isEmpty = false)
    (relative : path.isAbsolute = false) : (base.join path).isAbsolute = base.isAbsolute := by
  obtain ⟨front, more, spelled, -, -⟩ := splitAt_join nonempty relative
  unfold isAbsolute
  rw [spelled]
  obtain ⟨text⟩ := base
  cases text with
  | nil => cases nonempty
  | cons c rest => rfl

def joinNames (path : Path) (names : List (List Char)) : Path :=
  names.foldl (fun path name => path.join ⟨name⟩) path

theorem components_joinNames {names : List (List Char)} (proper : ∀ name ∈ names, IsName name)
    (path : Path) :
    (path.joinNames names).components = path.components ++ names.map .name := by
  induction names generalizing path with
  | nil => exact (List.append_nil _).symm
  | cons name rest ih =>
      obtain ⟨noSlash, busy, notParent⟩ := proper name List.mem_cons_self
      have others := ih (fun other member => proper other (List.mem_cons_of_mem _ member))
        (path.join ⟨name⟩)
      rw [components_join_name noSlash busy notParent, List.append_assoc] at others
      exact others

end Path

namespace Disk

open Location (along)
open Outcome (except_bind_eq_ok)

variable {disk : Disk} {here place : Location} {pieces : List (List Char)} {path base : Path}

/-! Following a path -/

theorem follow_cons {piece : List Char} {rest : List (List Char)} :
    disk.follow here (piece :: rest) = .ok place ↔
      (∃ mode, disk.get? here = some (.dir mode)) ∧
        if Path.isIdle piece then disk.follow here rest = .ok place
        else if piece = ['.', '.'] then disk.follow here.dropLast rest = .ok place
        else Text.byteLength piece ≤ maxName ∧ disk.follow (here ++ [piece]) rest = .ok place := by
  rw [follow]
  cases found : disk.get? here with
  | none => simp
  | some entry =>
      cases entry with
      | file contents time => simp
      | dir mode =>
          simp only [Option.some.injEq, DiskEntry.dir.injEq, exists_eq', true_and]
          split
          · rfl
          · split
            · rfl
            · split
              · rename_i long
                simp [Nat.not_le.mpr long]
              · rename_i short
                simp [Nat.not_lt.mp short]

theorem follow_along (leads : disk.follow here pieces = .ok place) :
    place = along here (Path.steps pieces) := by
  induction pieces generalizing here with
  | nil =>
      cases leads
      rfl
  | cons piece rest ih =>
      have further := (follow_cons.mp leads).2
      split at further
      · rename_i idle
        rw [Path.steps_cons_idle idle]
        exact ih further
      · rename_i busy
        rw [Path.steps_cons_busy (by simpa using busy)]
        split at further
        · rename_i isParent
          rw [Path.component, if_pos isParent]
          exact ih further
        · rename_i notParent
          rw [Path.component, if_neg notParent]
          exact ih further.2

theorem follow_append (disk : Disk) (here : Location) (first second : List (List Char)) :
    disk.follow here (first ++ second) =
      disk.follow here first >>= fun there => disk.follow there second := by
  induction first generalizing here with
  | nil => rfl
  | cons piece rest ih =>
      rw [List.cons_append, follow, follow]
      cases disk.get? here with
      | none => rfl
      | some entry =>
          cases entry with
          | file contents time => rfl
          | dir mode =>
              dsimp only
              split
              · exact ih here
              · split
                · exact ih here.dropLast
                · split
                  · rfl
                  · exact ih (here ++ [piece])

theorem locate_eq_ok :
    disk.locate path = .ok place ↔
      '\x00' ∉ path.text ∧ path.text ≠ [] ∧ Text.byteLength path.text < maxPath ∧
        disk.follow (if path.isAbsolute then [] else disk.base) (Text.splitAt '/' path.text) =
          .ok place := by
  unfold locate
  by_cases marked : '\x00' ∈ path.text
  · simp [marked]
  · by_cases empty : path.text = []
    · simp [empty, Path.isEmpty]
    · by_cases long : maxPath ≤ Text.byteLength path.text
      · simp [marked, empty, Path.isEmpty, long, Nat.not_lt.mpr long]
      · simp [marked, empty, Path.isEmpty, long, Nat.not_le.mp long]

theorem locate_along (found : disk.locate path = .ok place) :
    place = along disk.base path.components := by
  obtain ⟨-, -, -, leads⟩ := locate_eq_ok.mp found
  rw [Path.along_components]
  exact follow_along leads

theorem locate_below {after : Disk} {root rest : Location} {more : Place}
    (walks : disk.locate base = .ok root) (same : after.base = disk.base)
    (split : path.components = base.components ++ more)
    (inside : Location.inside? more = some rest) (found : after.locate path = .ok place) :
    place = root ++ rest := by
  rw [locate_along found, same, split, Location.along_append, ← locate_along walks,
    Location.along_of_inside? root inside]

theorem locate_of_join (nonempty : base.isEmpty = false) (relative : path.isAbsolute = false)
    (found : disk.locate (base.join path) = .ok place) :
    ∃ above, disk.locate base = .ok above := by
  obtain ⟨unmarked, -, short, leads⟩ := locate_eq_ok.mp found
  obtain ⟨front, more, spelled, split, whole⟩ := Path.splitAt_join nonempty relative
  rw [whole, follow_append, Path.isAbsolute_join nonempty relative] at leads
  obtain ⟨above, reached, further⟩ := except_bind_eq_ok.mp leads
  refine ⟨above, locate_eq_ok.mpr ⟨?_, ?_, ?_, ?_⟩⟩
  · intro marked
    exact unmarked (by rw [spelled]; exact List.mem_append_left _ marked)
  · simpa [Path.isEmpty] using nonempty
  · rw [spelled, Text.byteLength_append] at short
    exact Nat.lt_of_le_of_lt (Nat.le_add_right _ _) short
  · rcases split with same | blank
    · rw [same]
      exact reached
    · rw [blank, follow_append, reached]
      -- the blank piece after a slash asks for a directory, as the piece of the path does
      cases split : Text.splitAt '/' path.text with
      | nil => exact absurd split (Text.splitAt_ne_nil '/' path.text)
      | cons piece rest =>
          rw [split] at further
          exact follow_cons.mpr ⟨(follow_cons.mp further).1, rfl⟩

theorem find_eq_ok {entry : DiskEntry} :
    disk.find path = .ok entry ↔
      ∃ place, disk.locate path = .ok place ∧ disk.get? place = some entry := by
  unfold find
  rw [except_bind_eq_ok]
  refine exists_congr fun place => and_congr_right fun _ => ?_
  cases disk.get? place <;> simp

theorem isFile_iff :
    disk.isFile path = true ↔ ∃ contents time, disk.find path = .ok (.file contents time) := by
  unfold isFile
  split
  · rename_i contents time found
    simp [found]
  · rename_i noFile
    constructor
    · intro absurdity
      cases absurdity
    · rintro ⟨contents, time, found⟩
      exact absurd found (noFile contents time)

theorem read_eq_ok {text : String} :
    Store.read disk path = .ok text ↔ ∃ contents time,
      disk.find path = .ok (.file contents time) ∧ String.fromUTF8? contents = some text := by
  have asked : Store.read disk path = (disk.readText path).mapError FileError.system := rfl
  have mapped {result : Except SystemFault String} :
      result.mapError FileError.system = .ok text ↔ result = .ok text := by
    cases result with
    | error fault => exact iff_of_false nofun nofun
    | ok read =>
        exact ⟨fun same => congrArg _ (Except.ok.inj same),
          fun same => congrArg _ (Except.ok.inj same)⟩
  rw [asked, mapped]
  unfold readText readBytes
  cases found : disk.find path with
  | error fault => simp [bind, Except.bind]
  | ok entry =>
      cases entry with
      | dir mode => simp [bind, Except.bind]
      | file contents time =>
          simp only [bind, Except.bind, Except.ok.injEq, DiskEntry.file.injEq]
          cases decodes : String.fromUTF8? contents <;> simp [decodes]

theorem mem_filesBelow :
    path ∈ disk.filesBelow base ↔ ∃ place names contents time, disk.locate base = .ok place ∧
      (place ++ names, .file contents time) ∈ disk.entries ∧ path = base.joinNames names := by
  unfold filesBelow
  cases found : disk.locate base with
  | error fault => simp
  | ok place =>
      simp only [List.mem_filterMap, Prod.exists]
      constructor
      · rintro ⟨other, entry, member, chosen⟩
        cases entry with
        | dir mode => cases chosen
        | file contents time =>
            dsimp only at chosen
            split at chosen
            · rename_i isFront
              obtain ⟨names, rfl⟩ := List.isPrefixOf_iff_prefix.mp isFront
              rw [List.drop_left] at chosen
              exact ⟨place, names, contents, time, rfl, member, (Option.some.inj chosen).symm⟩
            · cases chosen
      · rintro ⟨_, names, contents, time, same, member, rfl⟩
        cases same
        refine ⟨place ++ names, _, member, ?_⟩
        have isFront : place.isPrefixOf (place ++ names) = true :=
          List.isPrefixOf_iff_prefix.mpr (List.prefix_append place names)
        simp only [isFront, if_true, List.drop_left]
        rfl

end Disk

end ThemeRender
