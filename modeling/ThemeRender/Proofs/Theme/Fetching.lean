import ThemeRender.Proofs.Page.Stage
import ThemeRender.Proofs.Theme.Compiling
import ThemeRender.Theme.Composition

namespace ThemeRender.Theme

open Outcome (bind_ok bind_error bind_ok_iff finalState finalState_ok finalState_error
  finalState_bind_ok finalState_bind_error)

variable {σ : Type} [Store σ]

theorem findFile_apply (theme : Theme) (name : String) (room : Workroom σ) :
    theme.findFile name room =
      match TemplateFile.find? room.store theme.settings.viewsRoot name with
      | some file => .ok file room
      | none => .error (.missing name (TemplateFile.candidates theme.settings.viewsRoot name))
          room := by
  rw [findFile, Outcome.get_bind]
  cases TemplateFile.find? room.store theme.settings.viewsRoot name with
  | some file => rfl
  | none => rfl

theorem ensureCompiled_of_native {theme : Theme} {file : TemplateFile}
    (native : file.dialect.isCompiled = false) (room : Workroom σ) :
    theme.ensureCompiled file room = .ok file.path room := by
  unfold ensureCompiled
  simp only [native, Bool.not_false, if_true]
  rfl

theorem load_apply (path : Path) (room : Workroom σ) :
    load path room =
      match Store.read room.store path with
      | .error error => .error (.file path error) room
      | .ok source =>
          match Template.parse source with
          | .ok nodes => .ok (source, nodes) room
          | .error errors => .error (.malformed path errors) room := by
  unfold load
  cases reads : Store.read room.store path with
  | error error => exact bind_error (ask_error reads)
  | ok source =>
      refine (bind_ok (ask_ok reads)).trans ?_
      dsimp only
      cases Template.parse source with
      | ok nodes => rfl
      | error errors => rfl

theorem load_of_reads {path : Path} {room : Workroom σ} {source : String}
    (reads : Store.read room.store path = .ok source) :
    load path room =
      match Template.parse source with
      | .ok nodes => .ok (source, nodes) room
      | .error errors => .error (.malformed path errors) room := by
  have applied := load_apply path room
  rw [reads] at applied
  exact applied

theorem findFile_ok_iff {theme : Theme} {name : String} {room after : Workroom σ}
    {file : TemplateFile} :
    theme.findFile name room = .ok file after ↔
      TemplateFile.find? room.store theme.settings.viewsRoot name = some file ∧ after = room := by
  rw [findFile_apply]
  cases TemplateFile.find? room.store theme.settings.viewsRoot name with
  | none => simp
  | some found => simp [eq_comm]

theorem load_ok_iff {path : Path} {room after : Workroom σ} {loaded : String × List Template.Node} :
    load path room = .ok loaded after ↔ Store.read room.store path = .ok loaded.1 ∧
      Template.parse loaded.1 = .ok loaded.2 ∧ after = room := by
  unfold load
  cases reads : Store.read room.store path with
  | error error =>
      rw [bind_error (ask_error reads)]
      simp
  | ok text =>
      rw [bind_ok (ask_ok reads)]
      cases parses : Template.parse text with
      | error errors =>
          constructor
          · intro loads
            cases loads
          · rintro ⟨⟨⟩, parses', -⟩
            rw [parses] at parses'
            cases parses'
      | ok nodes =>
          constructor
          · intro loads
            cases loads
            exact ⟨rfl, parses, rfl⟩
          · rintro ⟨⟨⟩, parses', rfl⟩
            rw [parses] at parses'
            cases parses'
            rfl

theorem finalState_load (path : Path) (room : Workroom σ) : finalState (load path) room = room := by
  unfold finalState
  rw [load_apply]
  cases Store.read room.store path with
  | error error => rfl
  | ok source =>
      dsimp only
      cases Template.parse source with
      | ok nodes => rfl
      | error errors => rfl

def fetch {σ : Type} [Store σ] (theme : Theme) (name : String) :
    EStateM RenderError (Workroom σ) (Path × String × List Template.Node) := do
  let file ← theme.findFile name
  let executable ← theme.ensureCompiled file
  let (source, nodes) ← load executable
  return (executable, source, nodes)

variable {theme : Theme} {name : String} {room : Workroom σ}

theorem finalState_fetch :
    finalState (theme.fetch name) room =
      match TemplateFile.find? room.store theme.settings.viewsRoot name with
      | none => room
      | some file => finalState (theme.ensureCompiled file) room := by
  have finds := theme.findFile_apply name room
  unfold fetch
  cases found : TemplateFile.find? room.store theme.settings.viewsRoot name with
  | none =>
      rw [found] at finds
      exact finalState_bind_error finds
  | some file =>
      rw [found] at finds
      refine (finalState_bind_ok finds).trans ?_
      dsimp only
      cases result : theme.ensureCompiled file room with
      | error error after => rw [finalState_bind_error result, finalState_error result]
      | ok executable after =>
          rw [finalState_bind_ok result, finalState_ok result]
          have loads := finalState_load executable after
          cases loaded : load executable after with
          | error error last =>
              rw [finalState_error loaded] at loads
              rw [finalState_bind_error loaded, loads]
          | ok contents last =>
              rw [finalState_ok loaded] at loads
              rw [finalState_bind_ok loaded, loads]
              rfl

theorem fetch_ok_iff {path : Path} {source : String} {nodes : List Template.Node}
    {after : Workroom σ} :
    theme.fetch name room = .ok (path, source, nodes) after ↔
      ∃ file, TemplateFile.find? room.store theme.settings.viewsRoot name = some file ∧
        theme.ensureCompiled file room = .ok path after ∧
        Store.read after.store path = .ok source ∧ Template.parse source = .ok nodes := by
  unfold fetch
  simp only [bind_ok_iff, findFile_ok_iff]
  constructor
  · rintro ⟨file, _, ⟨found, rfl⟩, executable, middle, compiles, ⟨text, read⟩, last, loads, ends⟩
    cases ends
    obtain ⟨reads, parsed, rfl⟩ := load_ok_iff.mp loads
    exact ⟨file, found, compiles, reads, parsed⟩
  · rintro ⟨file, found, compiles, reads, parsed⟩
    exact ⟨file, room, ⟨found, rfl⟩, path, after, compiles, (source, nodes), after,
      load_ok_iff.mpr ⟨reads, parsed, rfl⟩, rfl⟩

theorem renderNested_succ (theme : Theme) (view? : Option ViewFrame) (levels : Nat)
    (name : String) (locals : Locals) :
    theme.renderNested (σ := σ) view? (levels + 1) name locals =
      Staged.onState (theme.fetch name) >>= fun found =>
        Template.run (hostOver view? (theme.renderNested view? levels)) found.1.display found.2.1
          locals found.2.2 := by
  unfold fetch
  simp only [Staged.onState_bind, bind_assoc]
  rfl

end ThemeRender.Theme
