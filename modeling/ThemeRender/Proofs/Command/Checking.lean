import ThemeRender.Command.Run
import ThemeRender.Proofs.Markup.Complaints
import ThemeRender.Proofs.Template.ErrorPlaces

namespace ThemeRender

namespace Command

open Template (AtBlankEnd)

/-! Findings -/

theorem mapM_isSome_iff {α β : Type} (f : α → Option β) (list : List α) :
    (list.mapM f).isSome ↔ ∀ a ∈ list, (f a).isSome := by
  induction list with
  | nil => simp
  | cons a rest ih =>
      rw [List.mapM_cons, List.forall_mem_cons, ← ih]
      cases f a with
      | none => simp
      | some b => cases rest.mapM f <;> simp

theorem Finding.text?_isSome_iff (finding : Finding) :
    finding.text?.isSome ↔ ∀ report ∈ finding.reports, report.span.Forward := by
  have shown (report : Report) :
      (Report.render? report finding.source).isSome ↔ report.span.Forward :=
    report.render?_isSome_iff finding.source
  simp only [← shown, ← mapM_isSome_iff]
  unfold Finding.text?
  cases finding.reports.mapM (Report.render? · finding.source) with
  | none => rfl
  | some texts => rfl

theorem Finding.text?_eq_none_iff (finding : Finding) :
    finding.text? = none ↔ ∃ report ∈ finding.reports, ¬ report.span.Forward := by
  have shown := not_congr finding.text?_isSome_iff
  rw [Bool.not_eq_true, Option.isSome_eq_false_iff, Option.isNone_iff_eq_none] at shown
  simpa only [not_forall, exists_prop] using shown

theorem Finding.isClean_eq_false (finding : Finding) (unshowable : finding.text? = none) :
    finding.isClean = false := by
  obtain ⟨report, member, -⟩ := finding.text?_eq_none_iff.mp unshowable
  unfold isClean
  rw [List.isEmpty_eq_false_iff]
  exact List.ne_nil_of_mem member

theorem Finding.ofExecutable_text? (file source : String) :
    (Finding.ofExecutable file source).text? = none ↔ ∃ error, AtBlankEnd source error := by
  rw [Finding.text?_eq_none_iff]
  unfold ofExecutable
  cases parses : Template.parse source with
  | ok nodes =>
      constructor
      · rintro ⟨report, member, -⟩
        cases member
      · rintro ⟨error, blankEnd⟩
        obtain ⟨errors, fails, -⟩ := blankEnd.mem_errors
        rw [parses] at fails
        cases fails
  | error errors =>
      constructor
      · rintro ⟨report, member, backward⟩
        obtain ⟨error, found, rfl⟩ := List.mem_map.mp member
        obtain ⟨-, -, inOrder⟩ := Template.span_of_parse_error parses found
        exact ⟨error, Classical.not_not.mp (mt inOrder.mpr backward)⟩
      · rintro ⟨error, blankEnd⟩
        obtain ⟨errors', fails, member⟩ := blankEnd.mem_errors
        rw [parses] at fails
        cases fails
        exact ⟨_, List.mem_map_of_mem member, Nat.not_le.mpr blankEnd.stop_lt_start⟩

/-- The text that is read as a template when a file is checked. -/
inductive Checked (compilers : Compilers) (dialect : Dialect) (path : Path) (source : String) :
    String → Prop
  | executed (none : compilers.compiler? dialect = none) :
      Checked compilers dialect path source source
  | compiled {compiler : Compiler} {text : String}
      (registered : compilers.compiler? dialect = some compiler)
      (compiles : compiler source path = .ok text) : Checked compilers dialect path source text

theorem Checked.eq_source {compilers : Compilers} {dialect : Dialect} {path : Path}
    {source text : String} (none : compilers.compiler? dialect = none)
    (checked : Checked compilers dialect path source text) : text = source := by
  cases checked with
  | executed => rfl
  | compiled registered =>
      rw [none] at registered
      cases registered

theorem Checked.compiles {compilers : Compilers} {dialect : Dialect} {compiler : Compiler}
    {path : Path} {source text : String} (registered : compilers.compiler? dialect = some compiler)
    (checked : Checked compilers dialect path source text) : compiler source path = .ok text := by
  cases checked with
  | executed none =>
      rw [registered] at none
      cases none
  | compiled registered' compiles =>
      rw [registered] at registered'
      cases registered'
      exact compiles

theorem Finding.ofTemplate_text? (dialect : Dialect) (path : Path) (source : String) :
    (Finding.ofTemplate .standard dialect path source).text? = none ↔
      ∃ text error, Checked .standard dialect path source text ∧ AtBlankEnd text error := by
  unfold ofTemplate
  cases registered : Compilers.standard.compiler? dialect with
  | none =>
      dsimp only
      rw [Finding.ofExecutable_text?]
      constructor
      · rintro ⟨error, blankEnd⟩
        exact ⟨source, error, .executed registered, blankEnd⟩
      · rintro ⟨text, error, checked, blankEnd⟩
        rw [checked.eq_source registered] at blankEnd
        exact ⟨error, blankEnd⟩
  | some compiler =>
      dsimp only
      cases compiles : compiler source path with
      | ok compiled =>
          dsimp only
          rw [Finding.ofExecutable_text?]
          constructor
          · rintro ⟨error, blankEnd⟩
            exact ⟨compiled, error, .compiled registered compiles, blankEnd⟩
          · rintro ⟨text, error, checked, blankEnd⟩
            cases compiles.symm.trans (checked.compiles registered)
            exact ⟨error, blankEnd⟩
      | error fault =>
          rw [Finding.text?_eq_none_iff]
          constructor
          · rintro ⟨report, member, backward⟩
            rw [List.mem_singleton] at member
            subst member
            exact absurd (Compilers.standard_forward registered compiles) backward
          · rintro ⟨text, error, checked, -⟩
            cases compiles.symm.trans (checked.compiles registered)

/-! The check -/

/-- Whether something is wrong with a file that cannot be shown. -/
def Unshowable (theme : Theme) (disk : Disk) (path : Path) : Prop :=
  ∃ dialect source, Dialect.ofPath? path = some dialect ∧ Store.read disk path = .ok source ∧
    (Finding.ofTemplate theme.compilers dialect path source).text? = none

theorem Tally.add_stuck_iff (theme : Theme) (disk : Disk) (tally : Tally) (path : Path) :
    (tally.add theme disk path).stuck = true ↔ tally.stuck = true ∨ Unshowable theme disk path := by
  unfold Tally.add Unshowable
  cases spelled : Dialect.ofPath? path with
  | none => simp
  | some dialect =>
      cases stuck : tally.stuck with
      | true => simp [stuck]
      | false =>
          cases reads : Store.read disk path with
          | error error => simp [stuck, Tally.fail]
          | ok source =>
              have clean := (Finding.ofTemplate theme.compilers dialect path source).isClean_eq_false
              cases shows : (Finding.ofTemplate theme.compilers dialect path source).text? with
              | none => simp [clean shows, shows]
              | some text =>
                  simp only [Bool.false_eq_true, if_false, shows]
                  split
                  · simp [shows]
                  · simp [shows, Tally.fail]

theorem stuck_foldl_iff (theme : Theme) (disk : Disk) (tally : Tally) (paths : List Path) :
    (paths.foldl (Tally.add theme disk) tally).stuck = true ↔
      tally.stuck = true ∨ ∃ path ∈ paths, Unshowable theme disk path := by
  induction paths generalizing tally with
  | nil => simp
  | cons path rest ih =>
      rw [List.foldl_cons, ih, Tally.add_stuck_iff, or_assoc]
      simp only [List.mem_cons, exists_eq_or_imp]

theorem check_stuck_iff (theme : Theme) (disk : Disk) :
    (check theme disk).code = stuckCode ↔
      ∃ path ∈ disk.filesBelow theme.settings.viewsRoot, Unshowable theme disk path := by
  have folded := stuck_foldl_iff theme disk ⟨0, 0, "", false⟩
    (disk.filesBelow theme.settings.viewsRoot)
  simp only [Bool.false_eq_true, false_or] at folded
  rw [← folded]
  unfold check
  dsimp only
  split
  · rename_i stuck
    simp [stuck]
  · rename_i notStuck
    simp only [notStuck]
    split <;> decide

/-- The ends of an error's place are at characters of the template, or at its end. Every error is
shown in the template unless it is at the end of a tag whose code ends in blanks: that one ends
before it starts. Such tags are always found. A check cannot go on just when one of them is in a
template or in the compiled form of one. -/
theorem errors_shown_unless_at_blank_end (source : String) (settings : Settings) (disk : Disk) :
    (∀ errors, Template.parse source = .error errors → ∀ error ∈ errors,
      Text.IsBoundary source.toList error.span.start ∧
      Text.IsBoundary source.toList error.span.stop ∧
      (error.span.start ≤ error.span.stop ↔ ¬ AtBlankEnd source error) ∧
      ∀ file, ((Report.ofSyntaxError file error).render? source).isSome ↔
        ¬ AtBlankEnd source error) ∧
    (∀ error, AtBlankEnd source error →
      ∃ errors, Template.parse source = .error errors ∧ error ∈ errors) ∧
    ((check ⟨settings, .standard⟩ disk).code = stuckCode ↔
      ∃ path ∈ disk.filesBelow settings.viewsRoot, ∃ dialect source text error,
        Dialect.ofPath? path = some dialect ∧ Store.read disk path = .ok source ∧
        Checked .standard dialect path source text ∧ AtBlankEnd text error) := by
  refine ⟨?_, fun _ blankEnd => blankEnd.mem_errors, ?_⟩
  · intro errors fails error member
    obtain ⟨start, stop, inOrder⟩ := Template.span_of_parse_error fails member
    exact ⟨start, stop, inOrder, fun file => (Report.render?_isSome_iff _ source).trans inOrder⟩
  · rw [check_stuck_iff]
    unfold Unshowable
    simp only [Finding.ofTemplate_text?, exists_and_left]

def bareIf : String := "<% if %>"

def bareIfDisk : Disk where
  entries := [(["views".toList], .dir 0o755),
    (["views".toList, "index.php".toList], .file bareIf.toUTF8 1)]
  base := []
  clock := 1

def errorSpans (source : String) : List Span :=
  match Template.parse source with
  | .ok _ => []
  | .error errors => errors.map (·.span)

theorem bareIf_not_shown :
    ∃ error, Template.parse bareIf = .error [error] ∧ error.span = ⟨6, 5⟩ ∧
      (∀ file, (Report.ofSyntaxError file error).render? bareIf = none) ∧
      (check ⟨.default, .standard⟩ bareIfDisk).code = stuckCode := by
  have spans : errorSpans bareIf = [⟨6, 5⟩] := by decide +kernel
  unfold errorSpans at spans
  split at spans
  · cases spans
  · rename_i errors parses
    obtain ⟨error, rfl, span⟩ := List.map_eq_singleton_iff.mp spans
    refine ⟨error, parses, span, ?_, by decide +kernel⟩
    intro file
    rw [← Option.not_isSome_iff_eq_none, Report.render?_isSome_iff]
    change ¬ error.span.start ≤ error.span.stop
    rw [span]
    decide

end Command

/-! Checks that find nothing -/

theorem Template.parse_errors_ne_nil {source : String} {errors : List Template.SyntaxError}
    (fails : Template.parse source = .error errors) : errors ≠ [] := by
  unfold Template.parse at fails
  split at fails
  · rw [← Except.error.inj fails]
    exact List.cons_ne_nil _ _
  · unfold Template.Progress.finish at fails
    split at fails
    · obtain ⟨error, -, rfl⟩ : ∃ error, _ ∧ [error] = errors := by
        cases ends : Template.Assembly.finish _ with
        | ok nodes =>
            rw [ends] at fails
            cases fails
        | error error =>
            rw [ends] at fails
            exact ⟨error, ends, Except.error.inj fails⟩
      exact List.cons_ne_nil _ _
    · rename_i some
      rw [← Except.error.inj fails]
      simpa using some

namespace Command

/-! One template -/

theorem Finding.ofExecutable_isClean (file source : String) :
    (Finding.ofExecutable file source).isClean = true ↔
      ∃ nodes, Template.parse source = .ok nodes := by
  unfold isClean ofExecutable
  dsimp only
  cases parses : Template.parse source with
  | ok nodes => simp
  | error errors => simp [Template.parse_errors_ne_nil parses]

theorem Finding.ofTemplate_isClean (compilers : Compilers) (dialect : Dialect) (path : Path)
    (source : String) :
    (Finding.ofTemplate compilers dialect path source).isClean = true ↔
      ∃ text nodes, Checked compilers dialect path source text ∧
        Template.parse text = .ok nodes := by
  unfold ofTemplate
  cases registered : compilers.compiler? dialect with
  | none =>
      dsimp only
      rw [Finding.ofExecutable_isClean]
      constructor
      · rintro ⟨nodes, parses⟩
        exact ⟨source, nodes, .executed registered, parses⟩
      · rintro ⟨text, nodes, checked, parses⟩
        rw [checked.eq_source registered] at parses
        exact ⟨nodes, parses⟩
  | some compiler =>
      dsimp only
      cases compiles : compiler source path with
      | ok compiled =>
          dsimp only
          rw [Finding.ofExecutable_isClean]
          constructor
          · rintro ⟨nodes, parses⟩
            exact ⟨compiled, nodes, .compiled registered compiles, parses⟩
          · rintro ⟨text, nodes, checked, parses⟩
            cases compiles.symm.trans (checked.compiles registered)
            exact ⟨nodes, parses⟩
      | error fault =>
          constructor
          · intro clean
            cases clean
          · rintro ⟨text, nodes, checked, -⟩
            cases compiles.symm.trans (checked.compiles registered)

/-! All templates -/

/-- Whether nothing is wrong with a file, if it is a template by its name. -/
def Passes (theme : Theme) (disk : Disk) (path : Path) : Prop :=
  ∀ dialect, Dialect.ofPath? path = some dialect → ∃ source, Store.read disk path = .ok source ∧
    (Finding.ofTemplate theme.compilers dialect path source).isClean = true

def Tally.Spotless (tally : Tally) : Prop :=
  tally.stuck = false ∧ tally.failed = 0

theorem Tally.fail_not_spotless (tally : Tally) (text : String) : ¬ (tally.fail text).Spotless :=
  fun spotless => Nat.succ_ne_zero _ spotless.2

theorem Tally.add_spotless_iff (theme : Theme) (disk : Disk) (tally : Tally) (path : Path) :
    (tally.add theme disk path).Spotless ↔ tally.Spotless ∧ Passes theme disk path := by
  unfold Tally.add Passes
  cases spelled : Dialect.ofPath? path with
  | none => simp
  | some dialect =>
      cases stuck : tally.stuck with
      | true => simp [Spotless, stuck]
      | false =>
          cases reads : Store.read disk path with
          | error error => simp [Tally.fail_not_spotless]
          | ok source =>
              cases clean : (Finding.ofTemplate theme.compilers dialect path source).isClean with
              | true => simp [Spotless, clean, stuck]
              | false =>
                  simp only [clean, Bool.false_eq_true, if_false]
                  cases (Finding.ofTemplate theme.compilers dialect path source).text? with
                  | some text => simp [Tally.fail_not_spotless, clean]
                  | none => simp [Spotless, clean]

theorem foldl_spotless_iff (theme : Theme) (disk : Disk) (tally : Tally) (paths : List Path) :
    (paths.foldl (Tally.add theme disk) tally).Spotless ↔
      tally.Spotless ∧ ∀ path ∈ paths, Passes theme disk path := by
  induction paths generalizing tally with
  | nil => simp
  | cons path rest ih =>
      rw [List.foldl_cons, ih, Tally.add_spotless_iff, and_assoc, List.forall_mem_cons]

theorem check_code_eq_zero_iff (theme : Theme) (disk : Disk) :
    (check theme disk).code = 0 ↔
      ∀ path ∈ disk.filesBelow theme.settings.viewsRoot, Passes theme disk path := by
  have folded := foldl_spotless_iff theme disk ⟨0, 0, "", false⟩
    (disk.filesBelow theme.settings.viewsRoot)
  have start : (⟨0, 0, "", false⟩ : Tally).Spotless := ⟨rfl, rfl⟩
  simp only [start, true_and] at folded
  rw [← folded]
  unfold check Tally.Spotless
  dsimp only
  split
  · rename_i stuck
    simp [stuck, stuckCode]
  · rename_i notStuck
    simp only [Bool.not_eq_true] at notStuck
    simp [notStuck]

end Command

end ThemeRender
