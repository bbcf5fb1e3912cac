import ThemeRender.Proofs.Theme.Candidates
import ThemeRender.Proofs.Theme.Coherence
import ThemeRender.Proofs.Theme.Direct

namespace ThemeRender

open Outcome (finalState)

/-- Whether nothing but the name of a source tells where its artifact is. -/
def NameOnly (viewsRoot source : Path) : Prop :=
  source.startsWith viewsRoot = false ∨
    ∃ name, source.components = viewsRoot.components ++ [.name name]

/-- Whether two sources have the same name, and their artifacts are told by it alone. -/
structure SharesName (viewsRoot first second : Path) : Prop where
  same : first.fileName? = second.fileName?
  first : NameOnly viewsRoot first
  second : NameOnly viewsRoot second

namespace SharesName

variable {viewsRoot first second : Path} {name other : List Char}

theorem symm (shares : SharesName viewsRoot first second) : SharesName viewsRoot second first :=
  ⟨shares.same.symm, shares.second, shares.first⟩

theorem localPlace_of_nameOnly (named : first.fileName? = some name)
    (nameOnly : NameOnly viewsRoot first) : localPlace viewsRoot first = [.name name] := by
  rcases nameOnly with outside | ⟨spelled, whole⟩
  · exact localPlace_of_outside outside named
  · have below := Path.startsWith_of_append whole
    have last := (Path.name_of_fileName? named).1
    obtain rfl : spelled = name := by simpa [whole] using last
    rw [components_eq_localPlace below] at whole
    exact List.append_cancel_left whole

theorem of_outside (named : first.fileName? = some name) (named' : second.fileName? = some other)
    (outside : first.startsWith viewsRoot = false)
    (same : localPlace viewsRoot first = localPlace viewsRoot second) :
    SharesName viewsRoot first second := by
  have place : localPlace viewsRoot second = [.name name] :=
    same.symm.trans (localPlace_of_outside outside named)
  have names : name = other := by
    rcases @localPlace_endsIn viewsRoot _ _ named' with none | ⟨dirs, split⟩
    · rw [place] at none
      cases none
    · rw [place] at split
      have last := (@List.append_inj' _ [] _ _ _ split rfl).2
      simpa using last
  refine ⟨by rw [named, named', names], .inl outside, ?_⟩
  cases below : second.startsWith viewsRoot with
  | false => exact .inl below
  | true => exact .inr ⟨name, by rw [components_eq_localPlace below, place]⟩

theorem localPlace_same_iff (named : first.fileName? = some name)
    (named' : second.fileName? = some other) (different : first.components ≠ second.components) :
    localPlace viewsRoot first = localPlace viewsRoot second ↔
      SharesName viewsRoot first second := by
  constructor
  · intro same
    cases below : first.startsWith viewsRoot with
    | false => exact of_outside named named' below same
    | true =>
        cases below' : second.startsWith viewsRoot with
        | false => exact (of_outside named' named below' same.symm).symm
        | true =>
            refine absurd ?_ different
            rw [components_eq_localPlace below, components_eq_localPlace below', same]
  · intro shares
    have names := shares.same
    rw [named, named', Option.some_inj] at names
    rw [localPlace_of_nameOnly named shares.first, localPlace_of_nameOnly named' shares.second,
      names]

end SharesName

namespace Theme

variable {σ : Type} [Store σ] {theme : Theme} {store : σ} {name other : String}
  {file second : TemplateFile}

/-- Whether calls for one template keep away from the artifact of another: they neither change it
nor take it for their own. -/
def KeepsFrom (theme : Theme) (file second : TemplateFile) : Prop :=
  ∀ room : Workroom MemoryStore,
    (finalState (theme.ensureCompiled second) room).store.files.get?
        (theme.artifactPath file.path) =
      room.store.files.get? (theme.artifactPath file.path) ∧
    ∀ executable after, theme.ensureCompiled second room = .ok executable after →
      executable.components ≠ (theme.artifactPath file.path).components

theorem keepsFrom_of_different (compiled : second.dialect.isCompiled = true)
    (different : (theme.artifactPath file.path).components ≠
      (theme.artifactPath second.path).components) : theme.KeepsFrom file second := by
  intro room
  refine ⟨ensureCompiled_frame compiled room different, ?_⟩
  intro executable after succeeds
  rw [executable_of_ensureCompiled compiled succeeds]
  exact different.symm

/-- Two sources that names stand for have one artifact just when they have the same name and each
of them is outside the views root or directly in it. In all other cases calls for the one keep away
from the artifact of the other. -/
theorem artifact_shared_iff_name_only (views : theme.settings.viewsRoot.text ≠ [])
    (found : TemplateFile.find? store theme.settings.viewsRoot name = some file)
    (found' : TemplateFile.find? store theme.settings.viewsRoot other = some second)
    (compiled : file.dialect.isCompiled = true) (compiled' : second.dialect.isCompiled = true)
    (different : file.path.components ≠ second.path.components) :
    ((theme.artifactPath file.path).components = (theme.artifactPath second.path).components ↔
      SharesName theme.settings.viewsRoot file.path second.path) ∧
    (¬ SharesName theme.settings.viewsRoot file.path second.path →
      theme.KeepsFrom file second ∧ theme.KeepsFrom second file) := by
  obtain ⟨-, -, spelled⟩ := TemplateFile.of_find? found
  obtain ⟨-, -, spelled'⟩ := TemplateFile.of_find? found'
  obtain ⟨base, named, -⟩ := Dialect.fileName?_of_ofPath? spelled compiled
  obtain ⟨base', named', -⟩ := Dialect.fileName?_of_ofPath? spelled' compiled'
  have shared : (theme.artifactPath file.path).components =
      (theme.artifactPath second.path).components ↔
        SharesName theme.settings.viewsRoot file.path second.path :=
    (artifactPath_same_iff (mt (Path.components_eq_nil_iff _).mp views) spelled compiled spelled'
      compiled').trans (SharesName.localPlace_same_iff named named' different)
  refine ⟨shared, ?_⟩
  intro apart
  have artifacts := mt shared.mp apart
  exact ⟨keepsFrom_of_different compiled' artifacts,
    keepsFrom_of_different compiled (Ne.symm artifacts)⟩

/-! Files of one name -/

/-- A theme with two files of one name, and two more of that name outside the views root. -/
def cards : MemoryStore :=
  [("./views/_card.haml", "%p one"), ("./views/posts/_card.haml", "%p two"),
    ("/a/_card.haml", "%p three"), ("/b/_card.haml", "%p four")].foldl
    (fun store (path, contents) => store.addFile (.ofString path) contents) .empty

def cardFile (path : String) : TemplateFile := ⟨.ofString path, .haml⟩

theorem nested_card_keeps_from_card :
    let file := cardFile "./views/_card.haml"
    let second := cardFile "./views/posts/_card.haml"
    TemplateFile.find? cards standard.settings.viewsRoot "_card" = some file ∧
    TemplateFile.find? cards standard.settings.viewsRoot "posts/_card" = some second ∧
    file.path.fileName? = second.path.fileName? ∧
    (standard.artifactPath file.path).components ≠
      (standard.artifactPath second.path).components ∧
    standard.KeepsFrom file second ∧ standard.KeepsFrom second file := by
  intro file second
  have found : TemplateFile.find? cards standard.settings.viewsRoot "_card" = some file := by
    decide +kernel
  have found' : TemplateFile.find? cards standard.settings.viewsRoot "posts/_card" =
      some second := by
    decide +kernel
  have views : standard.settings.viewsRoot.text ≠ [] := by decide
  obtain ⟨shared, apart⟩ := artifact_shared_iff_name_only views found found' rfl rfl
    (by decide +kernel)
  have nested : ¬ SharesName standard.settings.viewsRoot file.path second.path := by
    rintro ⟨-, -, outside | ⟨name, whole⟩⟩
    · revert outside
      decide +kernel
    · have length := congrArg List.length whole
      revert length
      rw [List.length_append, List.length_singleton]
      decide +kernel
  exact ⟨found, found', by decide +kernel, mt shared.mp nested, apart nested⟩

/-- Absolute names lead to sources that have one artifact: the second page is made from the first
one's. -/
theorem absolute_cards_share_artifact :
    (¬ ∀ (theme : Theme) (store : MemoryStore) (name other : String)
        (file second : TemplateFile),
      theme.settings.viewsRoot.text ≠ [] →
      TemplateFile.find? store theme.settings.viewsRoot name = some file →
      TemplateFile.find? store theme.settings.viewsRoot other = some second →
      file.dialect.isCompiled = true → second.dialect.isCompiled = true →
      file.path.components ≠ second.path.components →
      (theme.artifactPath file.path).components ≠
        (theme.artifactPath second.path).components) ∧
    (PageCall.pages standard htmlErrorPage (.ofStore cards)
        [.fragment "/a/card" .empty, .fragment "/b/card" .empty]).map Prod.snd =
      ["<p>three</p>\n".toUTF8.toList, "<p>three</p>\n".toUTF8.toList] := by
  constructor
  · intro holds
    refine holds standard cards "/a/_card" "/b/_card" (cardFile "/a/_card.haml")
      (cardFile "/b/_card.haml") (by decide) ?_ ?_ rfl rfl ?_ ?_ <;> decide +kernel
  · decide +kernel

end Theme

end ThemeRender
