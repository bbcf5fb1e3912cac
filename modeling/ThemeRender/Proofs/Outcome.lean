namespace ThemeRender.Outcome

variable {ε σ α β : Type}

theorem bind_ok {first : EStateM ε σ α} {next : α → EStateM ε σ β} {before after : σ} {a : α}
    (runs : first before = .ok a after) : (first >>= next) before = next a after := by
  change EStateM.bind first next before = next a after
  unfold EStateM.bind
  rw [runs]

theorem get_bind (next : σ → EStateM ε σ α) (state : σ) : (get >>= next) state = next state state :=
  rfl

theorem bind_error {first : EStateM ε σ α} {next : α → EStateM ε σ β} {before after : σ}
    {error : ε} (fails : first before = .error error after) :
    (first >>= next) before = .error error after := by
  change EStateM.bind first next before = .error error after
  unfold EStateM.bind
  rw [fails]

theorem bind_ok_iff {first : EStateM ε σ α} {next : α → EStateM ε σ β} {before last : σ} {b : β} :
    (first >>= next) before = .ok b last ↔
      ∃ a after, first before = .ok a after ∧ next a after = .ok b last := by
  cases runs : first before with
  | ok a after =>
      rw [bind_ok runs]
      simp [and_assoc]
  | error error after =>
      rw [bind_error runs]
      simp

theorem of_map_ok {f : α → β} {result : Except ε α} {b : β} (maps : result.map f = .ok b) :
    ∃ a, result = .ok a ∧ f a = b := by
  cases result with
  | error error => cases maps
  | ok a => exact ⟨a, rfl, Except.ok.inj maps⟩

theorem of_map_error {f : α → β} {result : Except ε α} {error : ε}
    (maps : result.map f = .error error) : result = .error error := by
  cases result with
  | error fault => exact congrArg Except.error (Except.error.inj maps)
  | ok a => cases maps

theorem of_mapError {δ : Type} {f : ε → δ} {result : Except ε α} {fault : δ}
    (maps : result.mapError f = .error fault) :
    ∃ error, result = .error error ∧ f error = fault := by
  cases result with
  | error error => exact ⟨error, rfl, Except.error.inj maps⟩
  | ok a => cases maps

theorem of_toOption {result : Except ε α} {a : α} (some : result.toOption = .some a) :
    result = .ok a := by
  cases result with
  | error error => cases some
  | ok b => exact congrArg Except.ok (Option.some.inj some)

theorem of_toBool {result : Except ε α} (succeeds : result.toBool = true) :
    ∃ a, result = .ok a := by
  cases result with
  | error error => cases succeeds
  | ok a => exact ⟨a, rfl⟩

theorem except_bind_eq_ok {first : Except ε α} {next : α → Except ε β} {b : β} :
    first >>= next = .ok b ↔ ∃ a, first = .ok a ∧ next a = .ok b := by
  cases first with
  | error error => simp [bind, Except.bind]
  | ok a => simp [bind, Except.bind]

theorem except_bind_eq_error {first : Except ε α} {next : α → Except ε β} {error : ε} :
    first >>= next = .error error ↔
      first = .error error ∨ ∃ a, first = .ok a ∧ next a = .error error := by
  cases first with
  | error error => simp [bind, Except.bind]
  | ok a => simp [bind, Except.bind]

theorem bind_fails {first : Except ε α} {next : α → Except ε β}
    (fails : ∀ a, first = .ok a → ∃ error, next a = .error error) :
    ∃ error, first >>= next = .error error := by
  cases first with
  | error error => exact ⟨error, rfl⟩
  | ok a => exact fails a rfl

def finalState (action : EStateM ε σ α) (before : σ) : σ :=
  match action before with
  | .ok _ after => after
  | .error _ after => after

section

variable {first : EStateM ε σ α} {next : α → EStateM ε σ β} {before after : σ} {a : α} {error : ε}

theorem finalState_ok (runs : first before = .ok a after) : finalState first before = after := by
  unfold finalState
  rw [runs]

theorem finalState_error (fails : first before = .error error after) :
    finalState first before = after := by
  unfold finalState
  rw [fails]

theorem finalState_bind_ok (runs : first before = .ok a after) :
    finalState (first >>= next) before = finalState (next a) after := by
  unfold finalState
  rw [bind_ok runs]

theorem finalState_bind_error (fails : first before = .error error after) :
    finalState (first >>= next) before = after :=
  finalState_error (bind_error fails)

theorem finalState_bind_trans {Keeps : σ → σ → Prop}
    (trans : ∀ {first second third}, Keeps first second → Keeps second third → Keeps first third)
    (moved : Keeps before (finalState first before))
    (nextMoved : ∀ a after, first before = .ok a after → Keeps after (finalState (next a) after)) :
    Keeps before (finalState (first >>= next) before) := by
  cases result : first before with
  | ok a after =>
      rw [finalState_ok result] at moved
      rw [finalState_bind_ok result]
      exact trans moved (nextMoved a after result)
  | error error after =>
      rw [finalState_error result] at moved
      rw [finalState_bind_error result]
      exact moved

end

def ended (result : Except ε α) (after : σ) : EStateM.Result ε σ α :=
  match result with
  | .ok a => .ok a after
  | .error error => .error error after

def mapState {τ : Type} (f : σ → τ) : EStateM.Result ε σ α → EStateM.Result ε τ α
  | .ok a after => .ok a (f after)
  | .error error after => .error error (f after)

theorem mapState_mapState {τ υ : Type} (f : σ → τ) (g : τ → υ) (result : EStateM.Result ε σ α) :
    mapState g (mapState f result) = mapState (g ∘ f) result := by
  cases result with
  | ok a after => rfl
  | error error after => rfl

theorem finalState_of_mapState {τ : Type} {f : σ → τ} {first : EStateM ε σ α}
    {second : EStateM ε τ α} {before : σ} {after : τ}
    (same : second after = mapState f (first before)) :
    finalState second after = f (finalState first before) := by
  unfold finalState
  rw [same]
  cases first before with
  | ok => rfl
  | error => rfl

/-- A computation does to the images of states what another does to the states. -/
def Mirrors {τ : Type} (f : σ → τ) (first : EStateM ε σ α) (second : EStateM ε τ α) : Prop :=
  ∀ before, second (f before) = mapState f (first before)

namespace Mirrors

variable {τ : Type} {f : σ → τ}

theorem pure (a : α) : Mirrors f (ε := ε) (pure a) (pure a) := fun _ => rfl

theorem modify {change : σ → σ} {change' : τ → τ}
    (same : ∀ before, change' (f before) = f (change before)) :
    Mirrors f (ε := ε) (modify change) (modify change') :=
  fun before => congrArg (EStateM.Result.ok ()) (same before)

theorem throw (error : ε) : Mirrors f (ε := ε) (α := α) (throw error) (throw error) :=
  fun _ => rfl

theorem bind {first : EStateM ε σ α} {second : EStateM ε τ α} {next : α → EStateM ε σ β}
    {next' : α → EStateM ε τ β} (mirrors : Mirrors f first second)
    (nextMirrors : ∀ a, Mirrors f (next a) (next' a)) :
    Mirrors f (first >>= next) (second >>= next') := by
  intro before
  have same := mirrors before
  cases runs : first before with
  | ok a after =>
      rw [runs] at same
      rw [bind_ok same, bind_ok runs]
      exact nextMirrors a after
  | error error after =>
      rw [runs] at same
      rw [bind_error same, bind_error runs]
      rfl

end Mirrors

/-- Two computations come to related results, or neither comes to one. -/
inductive Together {ε δ α β : Type} (Related : α → β → Prop) :
    Except ε α → Except δ β → Prop
  | ok {a : α} {b : β} (related : Related a b) : Together Related (.ok a) (.ok b)
  | error (e : ε) (d : δ) : Together Related (.error e) (.error d)

namespace Together

variable {δ γ : Type} {Related : α → β → Prop}

theorem bind {κ : Type} {After : γ → κ → Prop} {first : Except ε α} {second : Except δ β}
    {next : α → Except ε γ} {nextToo : β → Except δ κ} (together : Together Related first second)
    (nextTogether : ∀ a b, Related a b → Together After (next a) (nextToo b)) :
    Together After (first >>= next) (second >>= nextToo) := by
  cases together with
  | ok related => exact nextTogether _ _ related
  | error e d => exact .error e d

theorem mono {Implied : α → β → Prop} {first : Except ε α} {second : Except δ β}
    (together : Together Related first second) (implies : ∀ a b, Related a b → Implied a b) :
    Together Implied first second := by
  cases together with
  | ok related => exact .ok (implies _ _ related)
  | error e d => exact .error e d

theorem toOption_eq {first : Except ε α} {second : Except δ α}
    (together : Together (· = ·) first second) : first.toOption = second.toOption := by
  cases together with
  | ok same => exact congrArg some same
  | error e d => rfl

end Together

/-- Two computations come to related results, or fail with related errors. -/
inductive Alongside {ε δ α β : Type} (Errors : ε → δ → Prop) (Related : α → β → Prop) :
    Except ε α → Except δ β → Prop
  | ok {a : α} {b : β} (related : Related a b) : Alongside Errors Related (.ok a) (.ok b)
  | error {e : ε} {d : δ} (related : Errors e d) : Alongside Errors Related (.error e) (.error d)

namespace Alongside

variable {δ γ κ : Type} {Errors : ε → δ → Prop} {Related : α → β → Prop} {After : γ → κ → Prop}
  {first : Except ε α} {second : Except δ β}

theorem bind {next : α → Except ε γ} {nextToo : β → Except δ κ}
    (alongside : Alongside Errors Related first second)
    (nextAlongside : ∀ a b, Related a b → Alongside Errors After (next a) (nextToo b)) :
    Alongside Errors After (first >>= next) (second >>= nextToo) := by
  cases alongside with
  | ok related => exact nextAlongside _ _ related
  | error related => exact .error related

theorem map {f : α → γ} {g : β → κ} (alongside : Alongside Errors Related first second)
    (maps : ∀ a b, Related a b → After (f a) (g b)) :
    Alongside Errors After (first.map f) (second.map g) := by
  cases alongside with
  | ok related => exact .ok (maps _ _ related)
  | error related => exact .error related

theorem mono {Implied : α → β → Prop} (alongside : Alongside Errors Related first second)
    (implies : ∀ a b, Related a b → Implied a b) : Alongside Errors Implied first second := by
  cases alongside with
  | ok related => exact .ok (implies _ _ related)
  | error related => exact .error related

theorem mono_errors {Implied : ε → δ → Prop} (alongside : Alongside Errors Related first second)
    (implies : ∀ e d, Errors e d → Implied e d) : Alongside Implied Related first second := by
  cases alongside with
  | ok related => exact .ok related
  | error related => exact .error (implies _ _ related)

theorem together (alongside : Alongside Errors Related first second) :
    Together Related first second := by
  cases alongside with
  | ok related => exact .ok related
  | error related => exact .error _ _

end Alongside

end ThemeRender.Outcome
