import ThemeRender.Proofs.Store.MemoryFiles
import ThemeRender.Proofs.Theme.Candidates

namespace ThemeRender

theorem lastSegment_front (name : List Char) :
    (lastSegment name).1 = [] ∨ (lastSegment name).1.getLast? = some '/' := by
  induction name with
  | nil => exact .inl rfl
  | cons c rest ih =>
      unfold lastSegment
      split
      · rename_i slash
        right
        dsimp only
        rcases ih with none | ends
        · have parts := lastSegment_append rest
          rw [none, List.nil_append] at parts
          have absent := slash_not_mem_lastSegment rest
          rw [parts] at absent
          rw [none]
          exact congrArg some ((List.mem_cons.mp slash).resolve_right absent).symm
        · rw [List.getLast?_cons, ends]
          rfl
      · exact .inl rfl

namespace Path

theorem fileName?_of_lastName {front name : List Char}
    (ends : front = [] ∨ front.getLast? = some '/') (noSlash : '/' ∉ name)
    (busy : isIdle name = false) (notParent : name ≠ ['.', '.']) :
    fileName? ⟨front ++ name⟩ = some name := by
  have step : steps (Text.splitAt '/' name) = [.name name] := by
    rw [Text.splitAt_of_not_mem noSlash, steps_cons_busy busy, component, if_neg notParent]
    rfl
  rcases ends with rfl | ends
  · rw [List.nil_append, fileName?, (components_of_name noSlash busy notParent).2]
    rfl
  · obtain ⟨base, rfl⟩ := List.getLast?_eq_some_iff.mp ends
    rw [List.append_assoc, List.singleton_append, fileName?]
    cases base with
    | nil =>
        have whole : components ⟨'/' :: name⟩ = .root :: steps (Text.splitAt '/' name) := rfl
        rw [List.nil_append, whole, step]
        rfl
    | cons c rest =>
        rw [components_append_slash (List.cons_ne_nil c rest), step, List.getLast?_concat]

theorem extensionOf?_append {stem ending : List Char} (some : stem ≠ []) (noPoint : '.' ∉ ending) :
    extensionOf? (stem ++ '.' :: ending) = Option.some ending := by
  have pieces : Text.splitAt '.' (stem ++ '.' :: ending) = Text.splitAt '.' stem ++ [ending] := by
    rw [Text.splitAt_append, Text.splitAt_of_not_mem noPoint]
  have last : (Text.splitAt '.' stem ++ [ending]).getLast? = Option.some ending :=
    List.getLast?_concat ..
  unfold extensionOf?
  rw [pieces]
  split
  · rename_i none
    exact absurd none (by simp)
  · rename_i piece alone
    have same : Text.splitAt '.' stem ++ [ending] = [] ++ [piece] := alone
    exact absurd (List.append_inj' same rfl).1 (Text.splitAt_ne_nil '.' stem)
  · rename_i piece hidden
    have same : Text.splitAt '.' stem ++ [ending] = [[]] ++ [piece] := hidden
    have first := (List.append_inj' same rfl).1
    cases stem with
    | nil => exact absurd rfl some
    | cons c rest =>
        rw [Text.splitAt] at first
        split at first
        · exact absurd (List.cons.inj first).2 (Text.splitAt_ne_nil '.' rest)
        · split at first <;> cases first
  · exact last

end Path

namespace MemoryStore

theorem isFile_addFile (store : MemoryStore) (added path : Path) (contents : String) :
    Store.isFile (store.addFile added contents) path =
      (Store.isFile store path || path.same added) := by
  change ((store.addFile added contents).files.get? path).isSome = _
  rw [get?_addFile]
  by_cases here : path.components = added.components
  · rw [if_pos here, Path.same, here]
    simp
  · rw [if_neg here, Path.same, beq_false_of_ne here, Bool.or_false]
    rfl

theorem isFile_before_addFile {store : MemoryStore} {added : Path}
    (absent : Store.isFile store added = false) (path : Path) (contents : String) :
    Store.isFile store path =
      (Store.isFile (store.addFile added contents) path && !path.same added) := by
  rw [isFile_addFile]
  by_cases here : path.components = added.components
  · have same : Store.isFile store path = Store.isFile store added :=
      congrArg Option.isSome (store.files.get?_congr here)
    rw [same, absent, Path.same, here]
    simp
  · rw [Path.same, beq_false_of_ne here]
    simp

end MemoryStore

namespace TemplateFile

variable {σ : Type} [Store σ] {store after : σ} {viewsRoot : Path} {name : String}

def dialects : List (String × Dialect) :=
  [(".html.jade", .jade), (".html.haml", .haml), (".haml", .haml), (".html.php", .native),
    (".php", .native)]

/-- The files that a name can stand for, in the order in which they are tried. -/
def possible (viewsRoot : Path) (name : String) : List TemplateFile :=
  dialects.map fun (suffix, dialect) => ⟨viewsRoot.join (.ofString (name ++ suffix)), dialect⟩

theorem path_possible (viewsRoot : Path) (name : String) :
    (possible viewsRoot name).map (·.path) = candidates viewsRoot name := rfl

theorem dialects_spelled : ∀ entry ∈ dialects, '/' ∉ entry.1.toList ∧
    ∃ front : List Char, entry.1.toList = front ++ '.' :: entry.2.extension.toList := by
  simp only [dialects, List.forall_mem_cons, List.not_mem_nil, false_implies, implies_true,
    and_true]
  exact ⟨⟨by decide, ".html".toList, rfl⟩, ⟨by decide, ".html".toList, rfl⟩,
    ⟨by decide, [], rfl⟩, ⟨by decide, ".html".toList, rfl⟩, ⟨by decide, [], rfl⟩⟩

theorem join_suffixed (viewsRoot : Path) (name suffix : String) : ∃ front : List Char,
    (front = [] ∨ front.getLast? = some '/') ∧
      viewsRoot.join (.ofString (name ++ suffix)) =
        ⟨front ++ ((lastSegment name.toList).2 ++ suffix.toList)⟩ := by
  have spelled : (Path.ofString (name ++ suffix)).text = (lastSegment name.toList).1 ++
      ((lastSegment name.toList).2 ++ suffix.toList) := by
    rw [← List.append_assoc, lastSegment_append]
    exact String.toList_append
  have ends := lastSegment_front name.toList
  generalize (lastSegment name.toList).1 = before at spelled ends
  unfold Path.join
  split
  · exact ⟨before, ends, congrArg Path.mk spelled⟩
  · split
    · rename_i slash
      refine ⟨viewsRoot.text ++ before, .inr ?_, ?_⟩
      · rcases ends with rfl | ends
        · rw [List.append_nil, slash]
        · rw [List.getLast?_append, ends]
          rfl
      · rw [spelled, List.append_assoc]
    · refine ⟨viewsRoot.text ++ '/' :: before, .inr ?_, ?_⟩
      · rcases ends with rfl | ends
        · exact List.getLast?_concat ..
        · rw [List.getLast?_append, List.getLast?_cons, ends]
          rfl
      · rw [spelled, List.append_assoc]
        rfl

theorem ofPath?_possible (named : (lastSegment name.toList).2 ≠ []) {file : TemplateFile}
    (tried : file ∈ possible viewsRoot name) : Dialect.ofPath? file.path = some file.dialect := by
  obtain ⟨⟨suffix, dialect⟩, entry, rfl⟩ := List.mem_map.mp tried
  obtain ⟨noSlash, stem, suffixed⟩ := dialects_spelled _ entry
  have letter : 'h' ∈ suffix.toList :=
    (suffixes_spelled suffix (List.mem_map_of_mem (f := Prod.fst) entry)).2
  dsimp only at noSlash suffixed ⊢
  generalize lastOf : (lastSegment name.toList).2 = last at named
  have lastNoSlash : '/' ∉ last ++ suffix.toList := by
    rw [← lastOf, List.mem_append, not_or]
    exact ⟨slash_not_mem_lastSegment _, noSlash⟩
  have within : 'h' ∈ last ++ suffix.toList := List.mem_append_right last letter
  have busy : Path.isIdle (last ++ suffix.toList) = false := by
    cases idle : Path.isIdle (last ++ suffix.toList) with
    | false => rfl
    | true =>
        simp only [Path.isIdle, Bool.or_eq_true, List.isEmpty_iff, beq_iff_eq] at idle
        rcases idle with none | point
        · rw [none] at within
          cases within
        · rw [point] at within
          simp at within
  have notParent : last ++ suffix.toList ≠ ['.', '.'] := by
    intro parent
    rw [parent] at within
    simp at within
  obtain ⟨front, ends, path⟩ := join_suffixed viewsRoot name suffix
  rw [lastOf] at path
  have noPoint : '.' ∉ dialect.extension.toList := by
    cases dialect <;> decide
  have some : last ++ stem ≠ [] := fun none => named (List.append_eq_nil_iff.mp none).1
  rw [path, Dialect.ofPath?, Path.extension?,
    Path.fileName?_of_lastName ends lastNoSlash busy notParent, Option.bind_some, suffixed,
    ← List.append_assoc, Path.extensionOf?_append some noPoint]
  exact Dialect.ofExtension?_extension dialect

/-- The file of a name is the first of those tried that is there. -/
theorem find?_eq_find? (named : (lastSegment name.toList).2 ≠ []) :
    find? store viewsRoot name =
      (possible viewsRoot name).find? fun file => Store.isFile store file.path := by
  have known : ∀ file ∈ possible viewsRoot name, ofPath? store file.path =
      if Store.isFile store file.path then some file else none := by
    intro file tried
    rw [ofPath?, ofPath?_possible named tried]
    rfl
  rw [find?, ← path_possible, List.findSome?_map]
  generalize possible viewsRoot name = files at known
  induction files with
  | nil => rfl
  | cons file rest ih =>
      obtain ⟨here, later⟩ := List.forall_mem_cons.mp known
      rw [List.findSome?_cons, List.find?_cons, Function.comp_apply, here]
      cases Store.isFile store file.path with
      | true => rfl
      | false => exact ih later

section

variable {α : Type} {list : List α} {p q r : α → Bool}

theorem find?_changed (more : ∀ a, q a = (p a || r a)) (changed : list.find? q ≠ list.find? p) :
    ∃ earlier a later, list = earlier ++ a :: later ∧ r a = true ∧ list.find? q = some a ∧
      ∀ b, list.find? p = some b → b ∈ later := by
  cases found : list.find? q with
  | none =>
      refine absurd ?_ changed
      rw [found, eq_comm, List.find?_eq_none]
      intro a member holds
      exact List.find?_eq_none.mp found a member (by rw [more, holds, Bool.true_or])
  | some a =>
      obtain ⟨holds, earlier, later, split, before⟩ := List.find?_eq_some_iff_append.mp found
      have skipped : ∀ b ∈ earlier, p b = false := by
        intro b member
        have neither := before b member
        rw [more, Bool.not_or, Bool.and_eq_true_iff, Bool.not_eq_true', Bool.not_eq_true'] at neither
        exact neither.1
      have found' : list.find? p = (a :: later).find? p := by
        have none : earlier.find? p = none :=
          List.find?_eq_none.mpr fun b member => by rw [skipped b member]; exact Bool.false_ne_true
        rw [split, List.find?_append, none]
        rfl
      have new : p a = false := by
        cases old : p a with
        | false => rfl
        | true =>
            refine absurd ?_ changed
            rw [found, found', List.find?_cons_of_pos old]
      rw [more, new, Bool.false_or] at holds
      refine ⟨earlier, a, later, split, holds, rfl, ?_⟩
      intro b other
      rw [found', List.find?_cons_of_neg (by rw [new]; exact Bool.false_ne_true)] at other
      exact List.mem_of_find?_eq_some other

theorem find?_unchanged (fewer : ∀ a, q a = (p a && !r a))
    (kept : ∀ a, list.find? p = some a → r a = false) : list.find? q = list.find? p := by
  have implied : ∀ a, p a = false → q a = false := by
    intro a fails
    rw [fewer, fails, Bool.false_and]
  cases found : list.find? p with
  | none =>
      rw [List.find?_eq_none] at found ⊢
      intro a member holds
      rw [implied a (by simpa using found a member)] at holds
      cases holds
  | some a =>
      obtain ⟨holds, earlier, later, split, before⟩ := List.find?_eq_some_iff_append.mp found
      refine List.find?_eq_some_iff_append.mpr ⟨?_, earlier, later, split, ?_⟩
      · rw [fewer, holds, kept a found]
        rfl
      · intro b member
        rw [implied b (by simpa using before b member)]
        rfl

end

/-- A name whose last segment is not empty stands for no file if none of those tried is there, and
for the first that is there otherwise. A file that is added makes a difference only if it is tried
before the one found so far, and one that is taken away only if it was found. -/
theorem first_in_order_found (named : (lastSegment name.toList).2 ≠ []) :
    (find? store viewsRoot name = none ↔
      ∀ path ∈ candidates viewsRoot name, Store.isFile store path = false) ∧
    (∀ file, find? store viewsRoot name = some file ↔
      ∃ earlier later, possible viewsRoot name = earlier ++ file :: later ∧
        Store.isFile store file.path = true ∧
        ∀ other ∈ earlier, Store.isFile store other.path = false) ∧
    ∀ leads : Path → Bool,
      ((∀ path, Store.isFile after path = (Store.isFile store path || leads path)) →
        find? after viewsRoot name ≠ find? store viewsRoot name →
        ∃ earlier file later, possible viewsRoot name = earlier ++ file :: later ∧
          leads file.path = true ∧ find? after viewsRoot name = some file ∧
          ∀ found, find? store viewsRoot name = some found → found ∈ later) ∧
      ((∀ path, Store.isFile after path = (Store.isFile store path && !leads path)) →
        (∀ found, find? store viewsRoot name = some found → leads found.path = false) →
        find? after viewsRoot name = find? store viewsRoot name) := by
  rw [find?_eq_find? named, find?_eq_find? named]
  refine ⟨?_, fun file => ?_, fun leads => ⟨fun added => ?_, fun removed => ?_⟩⟩
  · rw [← path_possible, List.find?_eq_none, List.forall_mem_map]
    simp only [Bool.not_eq_true]
  · rw [List.find?_eq_some_iff_append]
    simp only [Bool.not_eq_true']
    constructor
    · rintro ⟨isFile, earlier, later, split, before⟩
      exact ⟨earlier, later, split, isFile, before⟩
    · rintro ⟨earlier, later, split, isFile, before⟩
      exact ⟨isFile, earlier, later, split, before⟩
  · exact find?_changed fun file => added file.path
  · exact find?_unchanged fun file => removed file.path

/-! A name with two files -/

def views : Path := .ofString "views"

def home : MemoryStore :=
  MemoryStore.empty.addFile (.ofString "views/home.haml") "%p one"

def homePage : TemplateFile := ⟨.ofString "views/home.haml", .haml⟩

/-- The file in Haml is found with and without one in the native format. -/
theorem home_found_before_native :
    find? home views "home" = some homePage ∧
      find? (home.addFile (.ofString "views/home.php") "two") views "home" = some homePage := by
  have named : (lastSegment "home".toList).2 ≠ [] := by decide
  have found : find? (home.addFile (.ofString "views/home.php") "two") views "home" =
      some homePage :=
    ((@first_in_order_found _ _ _ home _ _ named).2.1 homePage).mpr
      ⟨(possible views "home").take 2, (possible views "home").drop 3, by decide, by decide,
        by decide⟩
  have absent : Store.isFile home (.ofString "views/home.php") = false := by decide
  have same := ((@first_in_order_found _ _ _ home _ _ named).2.2 _).2
    (fun path => MemoryStore.isFile_before_addFile absent path "two") fun other => by
      rw [found]
      rintro ⟨⟩
      decide
  exact ⟨same.trans found, found⟩

end TemplateFile

end ThemeRender
