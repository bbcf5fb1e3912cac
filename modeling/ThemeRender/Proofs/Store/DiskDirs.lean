import ThemeRender.Proofs.Store.DiskChanges

namespace ThemeRender

open ThemeRender.Path (Component steps)

namespace Path

/-! Texts and their pieces -/

theorem joinPieces_splitAt (text : List Char) : joinPieces (Text.splitAt '/' text) = text := by
  induction text with
  | nil => rfl
  | cons c rest ih =>
      rw [Text.splitAt]
      cases pieces : Text.splitAt '/' rest with
      | nil => exact absurd pieces (Text.splitAt_ne_nil '/' rest)
      | cons piece more =>
          rw [pieces] at ih
          split
          · rename_i slash
            rw [slash, joinPieces, ih]
            · rfl
            · simp
          · cases more with
            | nil => exact congrArg (c :: ·) ih
            | cons next others => exact congrArg (c :: ·) ih

theorem joinPieces_isFront {front pieces : List (List Char)} (isFront : front <+: pieces) :
    joinPieces front <+: joinPieces pieces := by
  induction front generalizing pieces with
  | nil => exact List.nil_prefix
  | cons piece rest ih =>
      obtain ⟨more, rfl⟩ := isFront
      cases rest with
      | nil =>
          cases more with
          | nil => exact List.prefix_rfl
          | cons next others => exact List.prefix_append piece _
      | cons next others =>
          have further := ih (List.prefix_append (next :: others) more)
          exact (List.prefix_append_right_inj piece).mpr
            ((List.prefix_cons_inj '/').mpr further)

theorem joinPieces_concat (front : List (List Char)) (last : List Char) :
    last <:+ joinPieces (front ++ [last]) := by
  induction front with
  | nil => exact List.suffix_rfl
  | cons piece rest ih =>
      cases more : rest ++ [last] with
      | nil => simp at more
      | cons next others =>
          rw [more] at ih
          rw [List.cons_append, more]
          exact (ih.trans (List.suffix_cons '/' _)).trans (List.suffix_append piece _)

theorem ofPieces_pieces (path : Path) : ofPieces path.pieces = path := by
  obtain ⟨text⟩ := path
  unfold pieces
  split
  · rename_i rest spelled
    cases spelled
    unfold ofPieces
    dsimp only
    rw [joinPieces_splitAt]
  · rename_i spelled
    cases spelled
    rfl
  · rename_i rest spelled
    cases spelled
    cases split : Text.splitAt '/' rest with
    | nil => exact absurd split (Text.splitAt_ne_nil '/' rest)
    | cons piece more =>
        unfold ofPieces
        dsimp only
        rw [← split, joinPieces_splitAt]
  · unfold ofPieces
    dsimp only
    rw [joinPieces_splitAt]

theorem ofPieces_isFront (lead : Lead) {front body : List (List Char)} (isFront : front <+: body) :
    (ofPieces ⟨lead, front⟩).text <+: (ofPieces ⟨lead, body⟩).text := by
  have joined := joinPieces_isFront isFront
  cases lead with
  | root => exact (List.prefix_cons_inj '/').mpr joined
  | none => exact joined
  | current =>
      cases front with
      | nil =>
          cases body with
          | nil => exact List.prefix_rfl
          | cons piece rest => exact List.prefix_append ['.'] _
      | cons piece rest =>
          obtain ⟨more, rfl⟩ := isFront
          exact (List.prefix_cons_inj '.').mpr ((List.prefix_cons_inj '/').mpr joined)

theorem parent?_isFront {path parent : Path} (above : path.parent? = some parent) :
    parent.text <+: path.text := by
  have kept : ∀ body, body <+: path.pieces.body →
      (ofPieces ⟨path.pieces.lead, body⟩).text <+: path.text := by
    intro body isFront
    have whole := ofPieces_isFront path.pieces.lead isFront
    have same : (⟨path.pieces.lead, path.pieces.body⟩ : Pieces) = path.pieces := rfl
    rwa [same, ofPieces_pieces] at whole
  unfold parent? at above
  dsimp only at above
  split at above
  · cases above
  · cases above
  · rw [← Option.some.inj above]
    exact List.nil_prefix
  · rw [← Option.some.inj above]
    exact kept _ ((trimIdle_isFront _).trans
      ((List.dropLast_prefix _).trans (trimIdle_isFront _)))

theorem steps_splitAt (path : Path) :
    steps (Text.splitAt '/' path.text) = steps path.pieces.body := by
  obtain ⟨text⟩ := path
  unfold pieces
  split
  · rename_i rest spelled
    cases spelled
    rfl
  · rename_i spelled
    cases spelled
    rfl
  · rename_i rest spelled
    cases spelled
    rfl
  · rfl

theorem isAbsolute_iff (path : Path) : path.isAbsolute = true ↔ path.pieces.lead = .root := by
  obtain ⟨text⟩ := path
  unfold isAbsolute pieces
  split
  · rename_i rest spelled
    cases spelled
    simp
  · rename_i spelled
    cases spelled
    simp
  · rename_i rest spelled
    cases spelled
    simp
  · rename_i notRoot _ _
    cases text with
    | nil => simp
    | cons c rest =>
        have other : c ≠ '/' := fun same => notRoot rest (by rw [same])
        simp [other]

theorem lead_unique {lead lead' : Lead} {rest rest' : Place}
    (plain : .root ∉ rest ∧ .current ∉ rest) (plain' : .root ∉ rest' ∧ .current ∉ rest')
    (same : lead.components ++ rest = lead'.components ++ rest') : lead = lead' ∧ rest = rest' := by
  cases lead <;> cases lead' <;> simp_all [Lead.components]
  all_goals
    subst same
    simp at plain'

theorem start_of_components {path other : Path} {more : Place}
    (plain : .root ∉ more ∧ .current ∉ more)
    (split : path.components = other.components ++ more) :
    path.isAbsolute = other.isAbsolute ∧
      steps (Text.splitAt '/' path.text) = steps (Text.splitAt '/' other.text) ++ more := by
  have noRoot := root_not_mem_steps other.pieces.body
  have noCurrent := current_not_mem_steps other.pieces.body
  rw [components_eq, components_eq, List.append_assoc] at split
  obtain ⟨lead, rest⟩ := lead_unique
    ⟨root_not_mem_steps path.pieces.body, current_not_mem_steps path.pieces.body⟩
    ⟨by simp [noRoot, plain.1], by simp [noCurrent, plain.2]⟩ split
  rw [steps_splitAt, steps_splitAt, Bool.eq_iff_iff, isAbsolute_iff, isAbsolute_iff, lead]
  exact ⟨Iff.rfl, rest⟩

theorem splitAt_ofPieces {made : Pieces} (nonempty : made.body ≠ [])
    (clean : ∀ piece ∈ made.body, '/' ∉ piece) :
    ∃ front, Text.splitAt '/' (ofPieces made).text = front ++ made.body := by
  obtain ⟨lead, body⟩ := made
  have joined := splitAt_joinPieces nonempty clean
  cases lead with
  | root =>
      refine ⟨[[]], ?_⟩
      unfold ofPieces
      simp only [Text.splitAt, if_true]
      rw [joined]
      rfl
  | none => exact ⟨[], joined⟩
  | current =>
      cases body with
      | nil => exact absurd rfl nonempty
      | cons piece rest =>
          refine ⟨[['.']], ?_⟩
          unfold ofPieces
          have split := @Text.splitAt_append '/' ['.'] (joinPieces (piece :: rest))
          rw [joined] at split
          exact split

theorem parent?_last_busy {path parent : Path} {dirs : List Component} {name : List Char}
    (above : path.parent? = some parent) (split : parent.components = dirs ++ [.name name]) :
    ∃ front last, Text.splitAt '/' parent.text = front ++ [last] ∧ isIdle last = false := by
  have ends := congrArg List.getLast? split
  rw [List.getLast?_concat] at ends
  unfold parent? at above
  dsimp only at above
  split at above
  · cases above
  · cases above
  · rw [← Option.some.inj above] at ends
    simp [components, pieces, Lead.components, Text.splitAt, isIdle] at ends
  · have made := Option.some.inj above
    cases kept : (trimIdle (trimIdle path.pieces.body).dropLast).getLast? with
    | none =>
        -- no piece is left, so the last component would be that of the lead
        rw [← made, List.getLast?_eq_none_iff.mp kept] at ends
        cases lead : path.pieces.lead <;> rw [lead] at ends <;> cases ends
    | some last =>
        obtain ⟨front, whole⟩ := List.getLast?_eq_some_iff.mp kept
        have clean : ∀ piece ∈ trimIdle (trimIdle path.pieces.body).dropLast, '/' ∉ piece := by
          intro piece member
          apply pieces_clean path piece
          apply (trimIdle_isFront _).subset
          exact List.dropLast_subset _ ((trimIdle_isFront _).subset member)
        obtain ⟨before, pieces⟩ := @splitAt_ofPieces
          ⟨path.pieces.lead, trimIdle (trimIdle path.pieces.body).dropLast⟩
          (by rw [whole]; simp) clean
        refine ⟨before ++ front, last, ?_, trimIdle_last_busy kept⟩
        rw [← made, pieces]
        dsimp only
        rw [whole, List.append_assoc]

theorem splitAt_parent? {path parent : Path} {dirs : List Component} {name : List Char}
    (above : path.parent? = some parent) (split : parent.components = dirs ++ [.name name]) :
    ∃ front, Text.splitAt '/' parent.text = front ++ [name] := by
  obtain ⟨front, last, pieces, busy⟩ := parent?_last_busy above split
  have ends := components_eq parent
  rw [← steps_splitAt, pieces, steps_append, steps_cons_busy busy, steps_nil, split,
    ← List.append_assoc] at ends
  have same := List.append_inj_right' ends rfl
  unfold component at same
  split at same
  · simp at same
  · exact ⟨front, by simpa [pieces] using same.symm⟩

theorem splitAt_join_name (base : Path) {name : List Char} (named : IsName name) :
    ∃ front, Text.splitAt '/' (base.join ⟨name⟩).text = front ++ [name] := by
  have relative := isAbsolute_of_lead_none
    (components_of_name named.noSlash named.busy named.notParent).1
  have alone : Text.splitAt '/' name = [name] := Text.splitAt_of_not_mem named.noSlash
  cases empty : base.isEmpty with
  | true =>
      refine ⟨[], ?_⟩
      unfold join
      rw [empty, Bool.or_true]
      exact alone
  | false =>
      obtain ⟨front, more, -, -, whole⟩ := splitAt_join empty relative
      rw [alone] at whole
      exact ⟨front, whole⟩

end Path

namespace Disk

open Location (along step)
open Outcome (except_bind_eq_ok)

variable {disk after : Disk} {here place : Location} {pieces : List (List Char)}
  {path parent : Path}

def IsDirAt (disk : Disk) (place : Location) : Prop :=
  ∃ mode, disk.get? place = some (.dir mode)

/-- Whether components lead from directory to directory, with no name too long. -/
def Leads (disk : Disk) : Location → Place → Prop
  | here, [] => disk.IsDirAt here
  | here, component :: rest =>
      disk.IsDirAt here ∧ (∀ name, component = .name name → Text.byteLength name ≤ maxName) ∧
        disk.Leads (step here component) rest

theorem follow_dir_iff :
    (∃ place, disk.follow here pieces = .ok place ∧ disk.IsDirAt place) ↔
      disk.Leads here (steps pieces) := by
  induction pieces generalizing here with
  | nil =>
      constructor
      · rintro ⟨place, leads, isDir⟩
        cases leads
        exact isDir
      · intro isDir
        exact ⟨here, rfl, isDir⟩
  | cons piece rest ih =>
      have start {components : Place} (leads : disk.Leads here components) : disk.IsDirAt here := by
        cases components with
        | nil => exact leads
        | cons component more => exact leads.1
      simp only [follow_cons]
      cases idle : Path.isIdle piece with
      | true =>
          -- a blank piece leads on from where it stands, which has to be a directory all the same
          rw [Path.steps_cons_idle idle, ← ih]
          simp only [if_true]
          constructor
          · rintro ⟨place, ⟨-, leads⟩, isDir⟩
            exact ⟨place, leads, isDir⟩
          · rintro ⟨place, leads, isDir⟩
            exact ⟨place, ⟨start (ih.mp ⟨place, leads, isDir⟩), leads⟩, isDir⟩
      | false =>
          rw [Path.steps_cons_busy idle, Leads]
          simp only [Bool.false_eq_true, if_false]
          unfold Path.component
          split
          · rename_i isParent
            simp only [reduceCtorEq, false_implies, implies_true, true_and]
            rw [← ih]
            constructor
            · rintro ⟨place, ⟨here, leads⟩, isDir⟩
              exact ⟨here, place, leads, isDir⟩
            · rintro ⟨here, place, leads, isDir⟩
              exact ⟨place, ⟨here, leads⟩, isDir⟩
          · rename_i notParent
            rw [← ih]
            constructor
            · rintro ⟨place, ⟨here, short, leads⟩, isDir⟩
              exact ⟨here, by rintro _ ⟨⟩; exact short, place, leads, isDir⟩
            · rintro ⟨here, short, place, leads, isDir⟩
              exact ⟨place, ⟨here, short piece rfl, leads⟩, isDir⟩

structure Takes (path : Path) : Prop where
  unmarked : '\x00' ∉ path.text
  short : Text.byteLength path.text < maxPath

def nameLength : Component → Nat
  | .name text => Text.byteLength text
  | _ => 0

structure TakesAll (path : Path) : Prop extends Takes path where
  names : ∀ component ∈ path.components, nameLength component ≤ maxName

theorem Takes.of_front {front : Path} (takes : Takes path) (isFront : front.text <+: path.text) :
    Takes front where
  unmarked marked := takes.unmarked (isFront.subset marked)
  short := by
    obtain ⟨more, whole⟩ := isFront
    have length := takes.short
    rw [← whole, Text.byteLength_append] at length
    omega

theorem TakesAll.parent? (takes : TakesAll path) (above : path.parent? = some parent) :
    TakesAll parent where
  toTakes := takes.toTakes.of_front (Path.parent?_isFront above)
  names component within := by
    rw [Path.components_of_parent? above] at within
    exact takes.names component (List.dropLast_subset _ within)

def start (disk : Disk) (path : Path) : Location :=
  if path.isAbsolute then [] else disk.base

theorem isDir_iff :
    disk.isDir path = true ↔ Takes path ∧ path.text ≠ [] ∧
      disk.Leads (disk.start path) (steps (Text.splitAt '/' path.text)) := by
  rw [← follow_dir_iff]
  unfold isDir
  constructor
  · intro isDir
    split at isDir
    · rename_i mode found
      obtain ⟨place, located, there⟩ := find_eq_ok.mp found
      obtain ⟨unmarked, nonempty, short, leads⟩ := locate_eq_ok.mp located
      exact ⟨⟨unmarked, short⟩, nonempty, place, leads, mode, there⟩
    · cases isDir
  · rintro ⟨takes, nonempty, place, leads, mode, there⟩
    have located := locate_eq_ok.mpr ⟨takes.unmarked, nonempty, takes.short, leads⟩
    rw [find_eq_ok.mpr ⟨place, located, there⟩]

theorem isDir_congr {other : Path} (isDir : disk.isDir path = true)
    (same : other.components = path.components) (takes : Takes other) :
    disk.isDir other = true := by
  obtain ⟨-, nonempty, leads⟩ := isDir_iff.mp isDir
  obtain ⟨absolute, pieces⟩ :=
    @Path.start_of_components other path [] (by simp) (by simpa using same)
  refine isDir_iff.mpr ⟨takes, ?_, ?_⟩
  · rw [Ne, ← Path.components_eq_nil_iff] at nonempty ⊢
    rwa [same]
  · rw [List.append_nil] at pieces
    rw [pieces]
    unfold start at leads ⊢
    rwa [absolute]

section

variable {front : List (List Char)} {name : List Char} (isDir : disk.isDir parent = true)
  (named : Path.IsName name) (split : path.components = parent.components ++ [.name name])
  (spelled : Text.splitAt '/' path.text = front ++ [name]) (takes : Takes path)
  (short : Text.byteLength name ≤ maxName)

include isDir named split spelled takes short

theorem locate_child :
    disk.IsDirAt (along disk.base parent.components) ∧
      disk.locate path = .ok (along disk.base parent.components ++ [name]) := by
  obtain ⟨-, -, leads⟩ := isDir_iff.mp isDir
  obtain ⟨absolute, whole⟩ := Path.start_of_components (by simp) split
  rw [spelled, Path.steps_append, Path.steps_cons_busy named.busy, Path.steps_nil,
    Path.component, if_neg named.notParent] at whole
  have same := List.append_cancel_right whole
  rw [← same] at leads
  obtain ⟨above, reached, isDirAbove⟩ := follow_dir_iff.mpr leads
  have here : along disk.base parent.components = above := by
    rw [Path.along_components, ← same]
    exact (follow_along reached).symm
  rw [here]
  refine ⟨isDirAbove, locate_eq_ok.mpr ⟨takes.unmarked, ?_, takes.short, ?_⟩⟩
  · intro empty
    rw [← Path.components_eq_nil_iff, split] at empty
    simp at empty
  · rw [spelled, follow_append, absolute]
    refine except_bind_eq_ok.mpr ⟨above, reached, follow_cons.mpr ⟨isDirAbove, ?_⟩⟩
    rw [if_neg (by simp [named.busy]), if_neg named.notParent]
    exact ⟨short, rfl⟩

omit isDir split takes short in
theorem not_ending_in_slash :
    (path.text.reverse.dropWhile (· == '/')).reverse = path.text := by
  have ends := Path.joinPieces_concat front name
  rw [← spelled, Path.joinPieces_splitAt] at ends
  obtain ⟨before, whole⟩ := ends
  rw [← whole, List.reverse_append]
  cases backwards : name.reverse with
  | nil =>
      have busy := named.busy
      rw [List.reverse_eq_nil_iff.mp backwards] at busy
      cases busy
  | cons c rest =>
      have other : (c == '/') = false := by
        have member : c ∈ name := List.mem_reverse.mp (by rw [backwards]; exact List.mem_cons_self)
        have different : c ≠ '/' := fun same => named.noSlash (same ▸ member)
        simpa using different
      rw [List.cons_append, List.dropWhile_cons_of_neg (by simp [other]), ← List.cons_append,
        ← backwards, ← List.reverse_append, List.reverse_reverse]

theorem createDirs_child (absent : disk.get? (along disk.base parent.components ++ [name]) = none)
    (mode : Mode) :
    ∃ after, disk.createDirs path mode = .ok after ∧ DirsOnly disk after ∧
      after.isDir path = true ∧ ∀ other, other ≠ along disk.base parent.components ++ [name] →
        after.get? other = disk.get? other := by
  obtain ⟨⟨above, isDirAbove⟩, located⟩ := locate_child isDir named split spelled takes short
  have creates : disk.createDir path mode =
      .ok (disk.put (along disk.base parent.components ++ [name]) (.dir mode)) := by
    unfold createDir
    rw [not_ending_in_slash named spelled]
    refine except_bind_eq_ok.mpr ⟨_, located, ?_⟩
    simp only [absent, List.dropLast_concat, isDirAbove]
  have nonempty : path.isEmpty = false := by
    rw [Bool.eq_false_iff, Ne, Path.isEmpty_iff, split]
    simp
  have made : disk.createDirs path mode =
      .ok (disk.put (along disk.base parent.components ++ [name]) (.dir mode)) := by
    unfold createDirs
    rw [createDirsWithin, if_neg (by simp [nonempty]), creates]
  have kept := createDir_dirsOnly creates
  refine ⟨_, made, kept, ?_, ?_⟩
  · have there : (disk.put (along disk.base parent.components ++ [name]) (.dir mode)).find path =
        .ok (.dir mode) := by
      refine find_eq_ok.mpr ⟨_, kept.locate located, ?_⟩
      rw [get?_put _ _ _ _ (by simp), if_pos rfl]
    unfold Disk.isDir
    rw [there]
  · intro other different
    rw [get?_put _ _ _ _ (by simp), if_neg different]

theorem write_child (absent : disk.get? (along disk.base parent.components ++ [name]) = none)
    (contents : ByteArray) : ∃ after, disk.write path contents = .ok after := by
  obtain ⟨⟨above, isDirAbove⟩, located⟩ := locate_child isDir named split spelled takes short
  refine ⟨{ disk.put (along disk.base parent.components ++ [name])
    (.file contents (disk.clock + 1)) with clock := disk.clock + 1 }, ?_⟩
  unfold write
  refine except_bind_eq_ok.mpr ⟨_, located, ?_⟩
  simp only [absent, List.dropLast_concat, isDirAbove]

end

end Disk

end ThemeRender
