import ThemeRender.Proofs.Text.Splitting
import ThemeRender.Store.Path

namespace ThemeRender.Path

/-! What pieces between slashes stand for -/

def steps (pieces : List (List Char)) : List Component :=
  (pieces.filter (!isIdle ·)).map component

theorem components_eq (path : Path) :
    path.components = path.pieces.lead.components ++ steps path.pieces.body := rfl

@[simp] theorem steps_nil : steps [] = [] := rfl

@[simp] theorem steps_blank : steps [[]] = [] := rfl

@[simp] theorem steps_append (first second : List (List Char)) :
    steps (first ++ second) = steps first ++ steps second := by
  simp [steps]

theorem steps_cons_idle {piece : List Char} (idle : isIdle piece) (rest : List (List Char)) :
    steps (piece :: rest) = steps rest := by
  simp [steps, idle]

theorem steps_cons_busy {piece : List Char} (busy : isIdle piece = false)
    (rest : List (List Char)) : steps (piece :: rest) = component piece :: steps rest := by
  simp [steps, busy]

theorem steps_trimIdle (pieces : List (List Char)) : steps (trimIdle pieces) = steps pieces := by
  induction pieces with
  | nil => rfl
  | cons piece rest ih =>
      unfold trimIdle
      cases kept : trimIdle rest with
      | nil =>
          rw [kept] at ih
          cases idle : isIdle piece with
          | true => simp [steps_cons_idle idle, ← ih]
          | false => simp [steps_cons_busy idle, ← ih]
      | cons next more =>
          rw [kept] at ih
          cases idle : isIdle piece with
          | true => simp only [steps_cons_idle idle, ih]
          | false => simp only [steps_cons_busy idle, ih]

theorem trimIdle_last_busy {pieces : List (List Char)} {last : List Char}
    (ends : (trimIdle pieces).getLast? = some last) : isIdle last = false := by
  induction pieces with
  | nil => simp [trimIdle] at ends
  | cons piece rest ih =>
      unfold trimIdle at ends
      cases kept : trimIdle rest with
      | nil =>
          rw [kept] at ends
          cases idle : isIdle piece with
          | true => simp [idle] at ends
          | false =>
              simp only [idle, Bool.false_eq_true, if_false, List.getLast?_singleton,
                Option.some.injEq] at ends
              rw [← ends, idle]
      | cons next more =>
          rw [kept] at ends ih
          exact ih (by simpa using ends)

theorem trimIdle_eq_nil_iff (pieces : List (List Char)) :
    trimIdle pieces = [] ↔ steps pieces = [] := by
  constructor
  · intro trimmed
    rw [← steps_trimIdle, trimmed, steps_nil]
  · intro none
    cases last : (trimIdle pieces).getLast? with
    | none => exact List.getLast?_eq_none_iff.mp last
    | some piece =>
        have busy := trimIdle_last_busy last
        obtain ⟨front, split⟩ := List.getLast?_eq_some_iff.mp last
        rw [← steps_trimIdle, split, steps_append, steps_cons_busy busy] at none
        simp at none

theorem trimIdle_isFront (pieces : List (List Char)) : trimIdle pieces <+: pieces := by
  induction pieces with
  | nil => simp [trimIdle]
  | cons piece rest ih =>
      unfold trimIdle
      cases kept : trimIdle rest with
      | nil => cases idle : isIdle piece <;> simp
      | cons next more =>
          rw [kept] at ih
          simpa using ih

theorem steps_dropLast_trimIdle (pieces : List (List Char)) :
    steps (trimIdle pieces).dropLast = (steps pieces).dropLast := by
  cases last : (trimIdle pieces).getLast? with
  | none =>
      have trimmed : trimIdle pieces = [] := List.getLast?_eq_none_iff.mp last
      rw [trimmed, (trimIdle_eq_nil_iff pieces).mp trimmed]
      rfl
  | some piece =>
      have busy := trimIdle_last_busy last
      obtain ⟨front, split⟩ := List.getLast?_eq_some_iff.mp last
      have whole : steps pieces = steps front ++ [component piece] := by
        rw [← steps_trimIdle, split, steps_append, steps_cons_busy busy, steps_nil]
      rw [split, whole, List.dropLast_concat, List.dropLast_concat]

theorem steps_dropComponents (count : Nat) (body : List (List Char)) :
    steps (dropComponents count body) = (steps body).drop count := by
  induction body generalizing count with
  | nil => cases count <;> simp [dropComponents]
  | cons piece rest ih =>
      cases idle : isIdle piece with
      | true =>
          cases count with
          | zero =>
              have dropped := ih 0
              simp only [dropComponents, List.drop_zero] at dropped ⊢
              simp [idle, steps_cons_idle idle, dropped]
          | succ count => simp [dropComponents, idle, steps_cons_idle idle, ih]
      | false =>
          cases count with
          | zero => simp [dropComponents, idle]
          | succ count => simp [dropComponents, idle, steps_cons_busy idle, ih]

/-! Texts made of pieces -/

theorem splitAt_joinPieces {pieces : List (List Char)} (some : pieces ≠ [])
    (clean : ∀ piece ∈ pieces, '/' ∉ piece) : Text.splitAt '/' (joinPieces pieces) = pieces := by
  induction pieces with
  | nil => exact absurd rfl some
  | cons piece rest ih =>
      cases rest with
      | nil => exact Text.splitAt_of_not_mem (clean piece (by simp))
      | cons next more =>
          simp only [joinPieces]
          rw [Text.splitAt_append, Text.splitAt_of_not_mem (clean piece (by simp)),
            ih (by simp) (fun p member => clean p (by simp [member]))]
          rfl

theorem steps_splitAt_joinPieces {pieces : List (List Char)}
    (clean : ∀ piece ∈ pieces, '/' ∉ piece) :
    steps (Text.splitAt '/' (joinPieces pieces)) = steps pieces := by
  cases pieces with
  | nil => rfl
  | cons piece rest => rw [splitAt_joinPieces (by simp) clean]

def StartsBusy (pieces : List (List Char)) : Prop :=
  ∀ piece, pieces.head? = some piece → isIdle piece = false

theorem StartsBusy.of_front {front pieces : List (List Char)} (busy : StartsBusy pieces)
    (isFront : front <+: pieces) : StartsBusy front := by
  intro piece first
  obtain ⟨rest, rfl⟩ := isFront
  cases front with
  | nil => simp at first
  | cons head tail => exact busy piece (by simpa using first)

def Plain (text : List Char) : Prop :=
  text.head? ≠ some '/' ∧ text ≠ ['.'] ∧ ¬ ['.', '/'] <+: text

theorem pieces_of_plain {text : List Char} (plain : Plain text) :
    pieces ⟨text⟩ = ⟨.none, Text.splitAt '/' text⟩ := by
  obtain ⟨relative, notPoint, noPoint⟩ := plain
  unfold pieces
  split
  · rename_i rest same
    simp only at same
    simp [same] at relative
  · rename_i same
    exact absurd same notPoint
  · rename_i rest same
    simp only at same
    simp [same] at noPoint
  · rfl

theorem startsBusy_splitAt {text : List Char} (plain : Plain text) (some : text ≠ []) :
    StartsBusy (Text.splitAt '/' text) := by
  obtain ⟨relative, notPoint, noPoint⟩ := plain
  intro piece first
  cases text with
  | nil => exact absurd rfl some
  | cons c rest =>
      have notSlash : c ≠ '/' := by simpa using relative
      simp only [Text.splitAt, notSlash, if_false] at first
      cases pieces : Text.splitAt '/' rest with
      | nil => exact absurd pieces (Text.splitAt_ne_nil '/' rest)
      | cons next more =>
          rw [pieces] at first
          simp only [List.head?_cons, Option.some.injEq] at first
          subst first
          cases next with
          | cons d tail => simp [isIdle]
          | nil =>
              -- the piece is a point only if nothing or a slash comes after it
              have unpointed : c ≠ '.' := by
                intro point
                cases rest with
                | nil => exact notPoint (by rw [point])
                | cons d tail =>
                    by_cases slash : d = '/'
                    · exact noPoint (by simp [point, slash])
                    · simp only [Text.splitAt, slash, if_false] at pieces
                      split at pieces <;> simp at pieces
              simp [isIdle, unpointed]

theorem plain_joinPieces {pieces : List (List Char)} (busy : StartsBusy pieces)
    (clean : ∀ piece ∈ pieces, '/' ∉ piece) : Plain (joinPieces pieces) := by
  cases pieces with
  | nil => simp [Plain, joinPieces]
  | cons piece rest =>
      have firstBusy := busy piece rfl
      have firstClean := clean piece (by simp)
      cases piece with
      | nil => simp [isIdle] at firstBusy
      | cons c tail =>
          have notSlash : c ≠ '/' := by
            intro slash
            simp [slash] at firstClean
          have tailClean : '/' ∉ tail := fun member => firstClean (by simp [member])
          have unpointed : c = '.' → tail ≠ [] := by
            intro point noTail
            simp [isIdle, point, noTail] at firstBusy
          cases tail with
          | nil =>
              have point : c ≠ '.' := fun same => unpointed same rfl
              cases rest with
              | nil => simp [Plain, joinPieces, notSlash, point]
              | cons next more =>
                  simp [Plain, joinPieces, notSlash, Ne.symm point]
          | cons d tail =>
              have next : d ≠ '/' := by
                intro slash
                simp [slash] at tailClean
              cases rest <;> simp [Plain, joinPieces, notSlash, Ne.symm next]

/-! The pieces of a path -/

theorem pieces_clean (path : Path) : ∀ piece ∈ path.pieces.body, '/' ∉ piece := by
  intro piece member
  unfold pieces at member
  split at member
  · exact Text.not_mem_of_mem_splitAt member
  · simp at member
  · exact Text.not_mem_of_mem_splitAt member
  · exact Text.not_mem_of_mem_splitAt member

theorem plain_of_lead_none {path : Path} (lead : path.pieces.lead = .none) :
    Plain path.text := by
  unfold pieces at lead
  split at lead
  · simp at lead
  · simp at lead
  · simp at lead
  · rename_i notRoot notPoint noPoint
    refine ⟨?_, notPoint, ?_⟩
    · intro first
      cases text : path.text with
      | nil => simp [text] at first
      | cons c rest =>
          simp only [text, List.head?_cons, Option.some.injEq] at first
          exact notRoot rest (by rw [text, first])
    · intro isFront
      obtain ⟨rest, text⟩ := isFront
      exact noPoint rest text.symm

theorem pieces_of_lead_none {path : Path} (lead : path.pieces.lead = .none) :
    path.pieces = ⟨.none, Text.splitAt '/' path.text⟩ :=
  pieces_of_plain (plain_of_lead_none lead)

theorem trimmed_startsBusy {path : Path} (lead : path.pieces.lead = .none) :
    StartsBusy (trimIdle path.pieces.body) := by
  have split := pieces_of_lead_none lead
  by_cases empty : path.text = []
  · intro piece first
    rw [split, empty] at first
    simp [Text.splitAt, trimIdle, isIdle] at first
  · have busy := startsBusy_splitAt (plain_of_lead_none lead) empty
    rw [split]
    exact busy.of_front (trimIdle_isFront _)

theorem components_ofPieces (made : Pieces) (clean : ∀ piece ∈ made.body, '/' ∉ piece)
    (busy : made.lead = .none → StartsBusy made.body) :
    (ofPieces made).components = made.lead.components ++ steps made.body := by
  obtain ⟨lead, body⟩ := made
  have joined := steps_splitAt_joinPieces clean
  cases lead with
  | root => simp only [ofPieces, components_eq, pieces, joined]
  | current =>
      cases body with
      | nil => rfl
      | cons piece rest => simp only [ofPieces, components_eq, pieces, joined]
  | none =>
      have plain := plain_joinPieces (busy rfl) clean
      simp only [ofPieces, components_eq, pieces_of_plain plain, joined]

theorem components_of_parent? {path parent : Path} (above : path.parent? = some parent) :
    parent.components = path.components.dropLast := by
  have body := steps_trimIdle path.pieces.body
  have shorter := steps_dropLast_trimIdle path.pieces.body
  have clean : ∀ piece ∈ trimIdle (trimIdle path.pieces.body).dropLast, '/' ∉ piece := by
    intro piece member
    apply pieces_clean path piece
    apply (trimIdle_isFront _).subset
    exact List.dropLast_subset _ ((trimIdle_isFront _).subset member)
  have busy : path.pieces.lead = .none →
      StartsBusy (trimIdle (trimIdle path.pieces.body).dropLast) := by
    intro lead
    apply StartsBusy.of_front _ (trimIdle_isFront _)
    exact (trimmed_startsBusy lead).of_front (List.dropLast_prefix _)
  have kept : ∀ lead, path.pieces.lead = lead → steps path.pieces.body ≠ [] →
      (ofPieces ⟨lead, trimIdle (trimIdle path.pieces.body).dropLast⟩).components =
        path.components.dropLast := by
    intro lead same nonempty
    rw [components_ofPieces _ clean (by rw [← same]; exact busy), steps_trimIdle, shorter,
      components_eq path, same, List.dropLast_append_of_ne_nil nonempty]
  unfold parent? at above
  dsimp only at above
  split at above
  · simp at above
  · simp at above
  · rename_i lead trimmed
    rw [← Option.some.inj above, components_eq path, lead,
      (trimIdle_eq_nil_iff _).mp trimmed]
    rfl
  · rename_i notRoot notNone notCurrent
    rw [← Option.some.inj above]
    apply kept _ rfl
    intro nothing
    have trimmed := (trimIdle_eq_nil_iff _).mpr nothing
    cases lead : path.pieces.lead with
    | root => exact notRoot lead trimmed
    | current => exact notCurrent lead trimmed
    | none => exact notNone lead trimmed

theorem parent?_eq_none_iff (path : Path) :
    path.parent? = none ↔ path.components = [] ∨ path.components = [.root] := by
  have whole := components_eq path
  have empty := trimIdle_eq_nil_iff path.pieces.body
  unfold parent?
  dsimp only
  split
  · rename_i lead trimmed
    simp [whole, lead, empty.mp trimmed, Lead.components]
  · rename_i lead trimmed
    simp [whole, lead, empty.mp trimmed, Lead.components]
  · rename_i lead trimmed
    simp [whole, lead, empty.mp trimmed, Lead.components]
  · rename_i notRoot notNone notCurrent
    have nonempty : steps path.pieces.body ≠ [] := by
      intro nothing
      have trimmed := empty.mpr nothing
      cases lead : path.pieces.lead with
      | root => exact notRoot lead trimmed
      | current => exact notCurrent lead trimmed
      | none => exact notNone lead trimmed
    rw [whole]
    cases path.pieces.lead with
    | root => simp [Lead.components, nonempty]
    | current => simp [Lead.components]
    | none =>
        simp only [Lead.components, List.nil_append, reduceCtorEq, nonempty, false_or, false_iff]
        intro root
        have member : Component.root ∈ steps path.pieces.body := by simp [root]
        simp only [steps, List.mem_map] at member
        obtain ⟨piece, _, same⟩ := member
        unfold component at same
        split at same <;> simp at same

theorem components_eq_nil_iff (path : Path) : path.components = [] ↔ path.text = [] := by
  constructor
  · intro none
    rw [components_eq] at none
    obtain ⟨noLead, noBody⟩ := List.append_eq_nil_iff.mp none
    have lead : path.pieces.lead = .none := by
      cases lead : path.pieces.lead <;> simp [lead, Lead.components] at noLead ⊢
    by_cases empty : path.text = []
    · exact empty
    · have busy := startsBusy_splitAt (plain_of_lead_none lead) empty
      rw [pieces_of_lead_none lead] at noBody
      cases split : Text.splitAt '/' path.text with
      | nil => exact absurd split (Text.splitAt_ne_nil '/' path.text)
      | cons piece rest =>
          rw [split] at busy noBody
          rw [steps_cons_busy (busy piece rfl)] at noBody
          simp at noBody
  · intro empty
    have same : path = ⟨[]⟩ := congrArg Path.mk empty
    rw [same]
    rfl

@[simp] theorem isEmpty_iff (path : Path) : path.isEmpty = true ↔ path.components = [] := by
  rw [components_eq_nil_iff, isEmpty, List.isEmpty_iff]

theorem isEmpty_eq_false {path : Path} (some : path.components ≠ []) : path.isEmpty = false := by
  cases empty : path.isEmpty with
  | false => rfl
  | true => exact absurd ((isEmpty_iff path).mp empty) some

theorem mem_steps {pieces : List (List Char)} {step : Component} (member : step ∈ steps pieces) :
    ∃ piece ∈ pieces, isIdle piece = false ∧ component piece = step := by
  simp only [steps, List.mem_map, List.mem_filter, Bool.not_eq_true'] at member
  obtain ⟨piece, ⟨inPieces, busy⟩, same⟩ := member
  exact ⟨piece, inPieces, busy, same⟩

theorem root_not_mem_steps (pieces : List (List Char)) : .root ∉ steps pieces := by
  intro member
  obtain ⟨piece, _, _, same⟩ := mem_steps member
  unfold component at same
  split at same <;> simp at same

theorem current_not_mem_steps (pieces : List (List Char)) : .current ∉ steps pieces := by
  intro member
  obtain ⟨piece, _, _, same⟩ := mem_steps member
  unfold component at same
  split at same <;> simp at same

theorem lead_eq_none_iff (path : Path) :
    path.pieces.lead = .none ↔ .root ∉ path.components ∧ .current ∉ path.components := by
  have noRoot := root_not_mem_steps path.pieces.body
  have noCurrent := current_not_mem_steps path.pieces.body
  rw [components_eq]
  cases path.pieces.lead <;> simp [Lead.components, noRoot, noCurrent]

theorem isAbsolute_of_lead_none {path : Path} (lead : path.pieces.lead = .none) :
    path.isAbsolute = false := by
  have relative := (plain_of_lead_none lead).1
  simpa [isAbsolute] using relative

theorem name_of_fileName? {path : Path} {name : List Char} (named : path.fileName? = some name) :
    path.components.getLast? = some (.name name) ∧ '/' ∉ name ∧ isIdle name = false ∧
      name ≠ ['.', '.'] := by
  unfold fileName? at named
  split at named
  · rename_i text last
    obtain rfl := Option.some.inj named
    refine ⟨last, ?_⟩
    have member := List.mem_of_getLast? last
    rw [components_eq] at member
    have inSteps : .name text ∈ steps path.pieces.body := by
      cases lead : path.pieces.lead <;> simpa [lead, Lead.components] using member
    obtain ⟨piece, inBody, busy, same⟩ := mem_steps inSteps
    unfold component at same
    split at same
    · simp at same
    · rename_i notParent
      obtain rfl : piece = text := by simpa using same
      exact ⟨pieces_clean path piece inBody, busy, notParent⟩
  · simp at named

theorem fileName?_ne_nil {path : Path} {name : List Char} (named : path.fileName? = some name) :
    name ≠ [] := by
  intro none
  have busy := (name_of_fileName? named).2.2.1
  simp [none, isIdle] at busy

theorem parent?_of_concat_name {path : Path} {dirs : List Component} {name : List Char}
    (split : path.components = dirs ++ [.name name]) :
    ∃ dir, path.parent? = some dir ∧ dir.components = dirs := by
  cases above : path.parent? with
  | none =>
      rcases (parent?_eq_none_iff path).mp above with empty | root
      · simp [empty] at split
      · have last := congrArg List.getLast? (split.symm.trans root)
        simp at last
  | some dir =>
      refine ⟨dir, rfl, ?_⟩
      rw [components_of_parent? above, split, List.dropLast_concat]

theorem parent?_of_lead_none {path : Path} {dirs : List Component} {name : List Char}
    (lead : path.pieces.lead = .none) (split : path.components = dirs ++ [.name name]) :
    ∃ dir, path.parent? = some dir ∧ dir.components = dirs ∧ dir.pieces.lead = .none := by
  have noMarks := (lead_eq_none_iff path).mp lead
  rw [split] at noMarks
  obtain ⟨dir, above, inside⟩ := parent?_of_concat_name split
  refine ⟨dir, above, inside, (lead_eq_none_iff dir).mpr ?_⟩
  rw [inside]
  exact ⟨fun root => noMarks.1 (List.mem_append_left _ root),
    fun current => noMarks.2 (List.mem_append_left _ current)⟩

/-! Joined and stripped paths -/

theorem steps_splitAt_of_lead_none {path : Path} (lead : path.pieces.lead = .none) :
    steps (Text.splitAt '/' path.text) = path.components := by
  rw [components_eq, pieces_of_lead_none lead]
  rfl

theorem components_append_slash {base : List Char} (some : base ≠ []) (rest : List Char) :
    (Path.mk (base ++ '/' :: rest)).components =
      (Path.mk base).components ++ steps (Text.splitAt '/' rest) := by
  by_cases lead : (Path.mk base).pieces.lead = .none
  · obtain ⟨relative, notPoint, noPoint⟩ := plain_of_lead_none lead
    have plain : Plain (base ++ '/' :: rest) := by
      cases base with
      | nil => exact absurd rfl some
      | cons c tail =>
          refine ⟨by simpa using relative, by simp, ?_⟩
          intro isFront
          cases tail with
          | nil =>
              have point : '.' = c := by simpa using isFront
              exact notPoint (by rw [← point])
          | cons d tail =>
              obtain ⟨point, slash⟩ : '.' = c ∧ '/' = d := by simpa using isFront
              exact noPoint (by simp [← point, ← slash])
    rw [components_eq, components_eq, pieces_of_plain plain, pieces_of_lead_none lead]
    simp [Text.splitAt_append]
  · cases base with
    | nil => exact absurd rfl some
    | cons c tail =>
        by_cases root : c = '/'
        · subst root
          simp [components_eq, pieces, Text.splitAt_append]
        · by_cases point : c = '.'
          · subst point
            cases tail with
            | nil => rfl
            | cons d tail =>
                by_cases slash : d = '/'
                · subst slash
                  simp [components_eq, pieces, Text.splitAt_append]
                · refine absurd ?_ lead
                  rw [pieces_of_plain]
                  simp [Plain, Ne.symm slash]
          · refine absurd ?_ lead
            rw [pieces_of_plain]
            simp [Plain, root, point, Ne.symm point]

/-- A path is joined piece by piece: a point it starts with is idle there. -/
theorem components_join {base path : Path} (relative : path.isAbsolute = false)
    (nonempty : base.components ≠ []) :
    (base.join path).components = base.components ++ steps (Text.splitAt '/' path.text) := by
  have someText : base.text ≠ [] := fun empty => nonempty ((components_eq_nil_iff base).mpr empty)
  have notEmpty : base.isEmpty = false := by
    cases empty : base.isEmpty with
    | false => rfl
    | true => exact absurd ((isEmpty_iff base).mp empty) nonempty
  unfold join
  simp only [relative, notEmpty, Bool.or_self, Bool.false_eq_true, if_false]
  split
  · rename_i last
    obtain ⟨front, text⟩ := List.getLast?_eq_some_iff.mp last
    have same : base = ⟨front ++ ['/']⟩ := congrArg Path.mk text
    rw [same, List.append_assoc, List.singleton_append]
    by_cases slash : front = []
    · rw [slash]
      rfl
    · rw [components_append_slash slash, components_append_slash slash]
      simp [Text.splitAt]
  · exact components_append_slash someText path.text

theorem components_join_of_lead_none {base path : Path} (lead : path.pieces.lead = .none) :
    (base.join path).components = base.components ++ path.components := by
  by_cases nonempty : base.components = []
  · have empty : base.isEmpty = true := (isEmpty_iff base).mpr nonempty
    unfold join
    simp only [empty, Bool.or_true, if_true, nonempty, List.nil_append]
  · rw [components_join (isAbsolute_of_lead_none lead) nonempty, steps_splitAt_of_lead_none lead]

theorem components_of_name {name : List Char} (noSlash : '/' ∉ name) (busy : isIdle name = false)
    (notParent : name ≠ ['.', '.']) :
    (Path.mk name).pieces.lead = .none ∧ (Path.mk name).components = [.name name] := by
  have plain : Plain name := by
    refine ⟨fun root => noSlash (List.mem_of_mem_head? root), ?_, ?_⟩
    · intro point
      simp [point, isIdle] at busy
    · intro isFront
      exact noSlash (isFront.subset (by simp))
  have whole := pieces_of_plain plain
  rw [Text.splitAt_of_not_mem noSlash] at whole
  constructor
  · rw [whole]
  · rw [components_eq, whole, steps_cons_busy busy]
    simp [Lead.components, component, notParent]

theorem components_join_name {base : Path} {name : List Char} (noSlash : '/' ∉ name)
    (busy : isIdle name = false) (notParent : name ≠ ['.', '.']) :
    (base.join ⟨name⟩).components = base.components ++ [.name name] := by
  obtain ⟨lead, alone⟩ := components_of_name noSlash busy notParent
  rw [components_join_of_lead_none lead, alone]

theorem startsBusy_dropComponents (count : Nat) (body : List (List Char)) :
    StartsBusy (dropComponents count body) := by
  induction body generalizing count with
  | nil => cases count <;> simp [dropComponents, StartsBusy]
  | cons piece rest ih =>
      cases idle : isIdle piece with
      | true =>
          cases count with
          | zero =>
              have busy := ih 0
              simpa [dropComponents, idle] using busy
          | succ count => simpa [dropComponents, idle] using ih (count + 1)
      | false =>
          cases count with
          | zero => simp [dropComponents, idle, StartsBusy]
          | succ count => simpa [dropComponents, idle] using ih count

theorem dropComponents_suffix (count : Nat) (body : List (List Char)) :
    dropComponents count body <:+ body := by
  induction body generalizing count with
  | nil => cases count <;> simp [dropComponents]
  | cons piece rest ih =>
      cases count with
      | zero => exact List.dropWhile_suffix _
      | succ count =>
          simp only [dropComponents]
          split
          · exact (ih (count + 1)).trans (List.suffix_cons piece rest)
          · exact (ih count).trans (List.suffix_cons piece rest)

theorem startsWith_iff (path base : Path) :
    path.startsWith base = true ↔ base.components <+: path.components := by
  rw [startsWith, List.isPrefixOf_iff_prefix]

theorem startsWith_self (path : Path) : path.startsWith path = true :=
  (startsWith_iff path path).mpr List.prefix_rfl

theorem startsWith_trans {path middle base : Path} (below : path.startsWith middle = true)
    (above : middle.startsWith base = true) : path.startsWith base = true := by
  rw [startsWith_iff] at below above ⊢
  exact above.trans below

theorem startsWith_congr {path other : Path} (same : path.components = other.components)
    (base : Path) : path.startsWith base = other.startsWith base := by
  unfold startsWith
  rw [same]

theorem components_eq_of_startsWith {path other : Path} (below : path.startsWith other = true)
    (above : other.startsWith path = true) : path.components = other.components := by
  rw [startsWith_iff] at below above
  exact above.eq_of_length_le below.length_le

theorem startsWith_or_startsWith {path first second : Path} (below : path.startsWith first = true)
    (below' : path.startsWith second = true) :
    first.startsWith second = true ∨ second.startsWith first = true := by
  rw [startsWith_iff] at below below'
  rw [startsWith_iff, startsWith_iff]
  exact List.prefix_or_prefix_of_prefix below' below

theorem components_ne_of_startsWith {path other base : Path} (inside : other.startsWith base = true)
    (outside : path.startsWith base = false) : path.components ≠ other.components := by
  intro same
  unfold startsWith at inside outside
  rw [same, inside] at outside
  cases outside

theorem startsWith_of_append {path base : Path} {rest : List Component}
    (split : path.components = base.components ++ rest) : path.startsWith base = true := by
  rw [startsWith_iff, split]
  exact List.prefix_append _ _

theorem nonempty_of_startsWith {path base : Path} (starts : path.startsWith base = true)
    (nonempty : base.components ≠ []) : path.components ≠ [] := by
  intro empty
  rw [startsWith_iff, empty, List.prefix_nil] at starts
  exact nonempty starts

theorem startsWith_of_empty {base : Path} (path : Path) (empty : base.components = []) :
    path.startsWith base = true := by
  rw [startsWith_iff, empty]
  exact List.nil_prefix

theorem stripPrefix?_of_startsWith {path base : Path} (starts : path.startsWith base = true)
    (nonempty : base.components ≠ []) :
    ∃ rest, path.stripPrefix? base = some rest ∧ rest.pieces.lead = .none ∧
      path.components = base.components ++ rest.components := by
  have isFront := (startsWith_iff path base).mp starts
  obtain ⟨count, length⟩ : ∃ count, base.components.length = count + 1 :=
    Nat.exists_eq_succ_of_ne_zero (by simpa using nonempty)
  let inBody := if path.pieces.lead = .none then count + 1 else count
  let kept := trimIdle (dropComponents inBody path.pieces.body)
  have clean : ∀ piece ∈ kept, '/' ∉ piece := by
    intro piece member
    apply pieces_clean path piece
    exact (dropComponents_suffix _ _).subset ((trimIdle_isFront _).subset member)
  have busy : StartsBusy kept :=
    (startsBusy_dropComponents _ _).of_front (trimIdle_isFront _)
  have components : (ofPieces ⟨.none, kept⟩).components = path.components.drop (count + 1) := by
    rw [components_ofPieces _ clean (fun _ => busy), steps_trimIdle, steps_dropComponents,
      components_eq path]
    cases lead : path.pieces.lead <;> simp [inBody, lead, Lead.components]
  refine ⟨ofPieces ⟨.none, kept⟩, ?_, ?_, ?_⟩
  · simp only [stripPrefix?, starts, if_true, length]
    rfl
  · have plain := plain_joinPieces busy clean
    rw [show ofPieces ⟨.none, kept⟩ = ⟨joinPieces kept⟩ from rfl, pieces_of_plain plain]
  · rw [components, ← length]
    obtain ⟨rest, whole⟩ := isFront
    rw [← whole, List.drop_left]

end ThemeRender.Path
