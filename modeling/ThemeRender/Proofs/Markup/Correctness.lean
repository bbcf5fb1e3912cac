import ThemeRender.Markup.Compiler
import ThemeRender.Proofs.Markup.Emitted
import ThemeRender.Proofs.Markup.LineText

namespace ThemeRender.Markup

open Outcome (except_bind_eq_ok)
open Template

/-! From emitted text to a run -/

theorem Scan.finish_nil {scan : Scan} (clean : Text.Lacks tagOpen scan.lead)
    (closed : scan.blocks = []) :
    scan.finish [] = .ok ⟨⟨[], scan.nodes ++ textNodes scan.lead⟩, []⟩ := by
  unfold finish
  have noTag := Text.cut?_of_lacks clean
  have only : segmentsFrom (Text.byteLength scan.done) scan.atLineStart scan.lead =
      .ok (textSegment scan.lead) := by
    rw [segmentsFrom]
    split
    · rfl
    · rename_i found
      rw [show Text.cut? tagOpen scan.lead = none from noTag] at found
      cases found
  rw [List.append_nil, only]
  simp only [Except.map, progress, closed, foldl_textSegment]

theorem parse_of_finish {text : List Char} {progress : Progress}
    (finished : Scan.start.finish text = .ok progress) :
    parse (String.ofList text) = progress.finish := by
  have read : (segments text).map (·.foldl Progress.step .start) = .ok progress := finished
  unfold parse
  rw [String.toList_ofList]
  cases cut : segments text with
  | error error =>
      rw [cut] at read
      cases read
  | ok found =>
      rw [cut] at read
      cases read
      rfl

/-- What is emitted for a page tree can be read and runs as the tree does. -/
theorem emitted_runs_as_tree {items : List Item} {text : List Char}
    (fits : ∀ construct ∈ constructsOf items, construct.Fits)
    (emitted : emit items = .ok text) :
    ∃ nodes, parse (String.ofList text) = .ok nodes ∧
      ∀ (σ : Type) (host : Host σ) (label : String) (locals : Locals),
        run host label (String.ofList text) locals nodes = runPage host label locals items := by
  have emits := emits_items items 0 text fits emitted
  obtain ⟨next, reaches, ready, blocks, runs⟩ := emits.renders.body [] []
  refine ⟨next.nodes ++ textNodes next.lead, ?_, ?_⟩
  · have whole := reaches.goesOn []
    rw [List.append_nil, Scan.finish_nil ready.clean blocks] at whole
    rw [parse_of_finish whole]
    rfl
  · intro σ host label locals
    have whole := runs σ host ⟨label, [], locals, []⟩ []
    rw [List.append_nil] at whole
    unfold run
    rw [String.toList_ofList]
    exact whole

/-! From a source to a page tree -/

/-- The page tree of a source. A native template has none. -/
def pageOf (dialect : Dialect) (source : String) : Except Complaint (List Item) := do
  let trees ← LineTree.ofSource source.toList
  match dialect with
  | .haml => Haml.readForest trees
  | .jade => Jade.readForest trees
  | .native => return []

variable {dialect : Dialect} {compiler : Compiler} {source text : String} {path : Path}
  {items : List Item}

theorem page_of_compileWith {read : List LineTree → Except Complaint (List Item)}
    (onLine : ∀ {trees items}, LineTree.FlatForest trees → read trees = .ok items →
      ItemsOnLine items)
    (compiled : compileWith dialect read source path = .ok text) :
    ∃ items contents, LineTree.ofSource source.toList >>= read = .ok items ∧ ItemsOnLine items ∧
      emit items = .ok contents ∧ text = String.ofList contents := by
  obtain ⟨trees, built, emitted⟩ := except_bind_eq_ok.mp (compileWith_eq_ok.mp compiled)
  obtain ⟨items, reads, emitted⟩ := except_bind_eq_ok.mp emitted
  refine ⟨items, text.toList, ?_, onLine (LineTree.flat_ofSource built) reads, emitted, ?_⟩
  · exact except_bind_eq_ok.mpr ⟨trees, built, reads⟩
  · exact String.ofList_toList.symm

theorem page_of_compiled (registered : Compilers.standard.compiler? dialect = some compiler)
    (compiled : compiler source path = .ok text) :
    ∃ items contents, pageOf dialect source = .ok items ∧ ItemsOnLine items ∧
      emit items = .ok contents ∧ text = String.ofList contents := by
  cases dialect with
  | haml =>
      cases registered
      exact page_of_compileWith (Haml.onLine_readForest _) compiled
  | jade =>
      cases registered
      exact page_of_compileWith (Jade.onLine_readForest _) compiled
  | native => cases registered

/-! Pages that can be put into templates -/

def IsExpression (code : List Char) : Prop :=
  ∃ value, readCode readOutput code = .ok value

/-- The code is a name that is no keyword, the word `in` and an expression. -/
def IsBinding (code : List Char) : Prop :=
  ∃ name items, readCode readBinding code = .ok (name, items)

instance (code : List Char) : Decidable (IsExpression code) :=
  match reads : readCode readOutput code with
  | .ok value => .isTrue ⟨value, reads⟩
  | .error _ => .isFalse fun ⟨_, other⟩ => by
      rw [reads] at other
      cases other

instance (code : List Char) : Decidable (IsBinding code) :=
  match reads : readCode readBinding code with
  | .ok (name, items) => .isTrue ⟨name, items, reads⟩
  | .error _ => .isFalse fun ⟨_, _, other⟩ => by
      rw [reads] at other
      cases other

/-- No text holds a tag, and all code is what it should be and ends no tag. -/
structure Embeddable (items : List Item) : Prop where
  literals : ∀ construct ∈ constructsOf items, ∀ literal ∈ construct.literals,
    Text.Lacks tagOpen literal
  codes : ∀ construct ∈ constructsOf items, ∀ code ∈ construct.codes,
    IsExpression code ∧ Text.Lacks tagClose code
  bindings : ∀ construct ∈ constructsOf items, ∀ binding ∈ construct.bindings,
    IsBinding binding ∧ Text.Lacks tagClose binding

instance (items : List Item) : Decidable (Embeddable items) :=
  decidable_of_iff (_ ∧ _ ∧ _)
    ⟨fun ⟨literals, codes, bindings⟩ => ⟨literals, codes, bindings⟩,
      fun embeddable => ⟨embeddable.literals, embeddable.codes, embeddable.bindings⟩⟩

theorem Inline.OnLine.flat {inline : Inline} (onLine : inline.OnLine) :
    ∀ code ∈ inline.codes, Text.Flat code := by
  cases inline with
  | none => exact List.forall_mem_nil _
  | text pieces => exact Markup.OnLine.codes onLine
  | output code => exact List.forall_mem_singleton.mpr onLine

theorem AttrValue.OnLine.flat {value : AttrValue} (onLine : value.OnLine) :
    ∀ code ∈ value.codes, Text.Flat code := by
  cases value with
  | literal pieces => exact Markup.OnLine.codes onLine
  | expr code => exact List.forall_mem_singleton.mpr onLine
  | flag => exact List.forall_mem_nil _

theorem Element.OnLine.flat {element : Element} (onLine : element.OnLine) :
    ∀ code ∈ element.codes, Text.Flat code := by
  intro code member
  rcases List.mem_append.mp member with inAttrs | inLine
  · obtain ⟨attr, within, inValue⟩ := List.mem_flatMap.mp inAttrs
    exact (onLine.attrs attr within).2.flat code inValue
  · exact onLine.inline.flat code inLine

theorem Construct.OnLine.flat_codes {construct : Construct} (onLine : construct.OnLine) :
    ∀ code ∈ construct.codes, Text.Flat code := by
  cases construct with
  | element element => exact Element.OnLine.flat onLine
  | text pieces => exact Markup.OnLine.codes onLine
  | output expr | code expr => exact List.forall_mem_singleton.mpr onLine
  | control control => cases control with
    | ifBegin condition => exact List.forall_mem_singleton.mpr onLine
    | elseBegin | forBegin _ => exact List.forall_mem_nil _
  | comment _ | doctype _ | raw _ => exact List.forall_mem_nil _

theorem Construct.OnLine.flat_bindings {construct : Construct} (onLine : construct.OnLine) :
    ∀ binding ∈ construct.bindings, Text.Flat binding := by
  cases construct with
  | control control => cases control with
    | forBegin binding => exact List.forall_mem_singleton.mpr onLine
    | ifBegin _ | elseBegin => exact List.forall_mem_nil _
  | _ => exact List.forall_mem_nil _

theorem Embeddable.fits (embeddable : Embeddable items) (onLine : ItemsOnLine items) :
    ∀ construct ∈ constructsOf items, construct.Fits := by
  intro construct member
  have single := onLine construct member
  refine ⟨single, embeddable.literals construct member, ?_, ?_⟩
  · intro code within
    obtain ⟨reads, closed⟩ := embeddable.codes construct member code within
    exact ⟨reads, closed, single.flat_codes code within⟩
  · intro binding within
    obtain ⟨⟨name, value, reads⟩, closed⟩ := embeddable.bindings construct member binding within
    exact ⟨⟨_, reads⟩, closed, single.flat_bindings binding within⟩

/-- The template of an embeddable page can be read, and for any host and locals it makes the calls,
writes the text and fails as the page tree does. -/
theorem compiled_runs_as_page (registered : Compilers.standard.compiler? dialect = some compiler)
    (compiled : compiler source path = .ok text) (page : pageOf dialect source = .ok items)
    (embeddable : Embeddable items) :
    ∃ nodes, parse text = .ok nodes ∧
      ∀ (σ : Type) (host : Host σ) (label : String) (locals : Locals),
        run host label text locals nodes = runPage host label locals items := by
  obtain ⟨found, contents, foundPage, onLine, emitted, rfl⟩ := page_of_compiled registered compiled
  have same : found = items := Except.ok.inj (foundPage.symm.trans page)
  subst same
  exact emitted_runs_as_tree (embeddable.fits onLine) emitted

def menu : String :=
  "%ul#menu\n" ++
  "  - if pages\n" ++
  "    - for page in pages\n" ++
  "      %li\x7b:title => page\x7d Go to #\x7bpage\x7d\n" ++
  "  - else\n" ++
  "    = empty()\n"

theorem menu_runs_as_page :
    ∃ text items nodes, compileHaml menu (.ofString "menu.haml") = .ok text ∧
      pageOf .haml menu = .ok items ∧ parse text = .ok nodes ∧
      ∀ (σ : Type) (host : Host σ) (label : String) (locals : Locals),
        run host label text locals nodes = runPage host label locals items := by
  have compiles : (compileHaml menu (.ofString "menu.haml")).toBool = true := by decide +kernel
  have embeds : (match pageOf .haml menu with
      | .ok items => decide (Embeddable items)
      | .error _ => false) = true := by decide +kernel
  cases compiled : compileHaml menu (.ofString "menu.haml") with
  | error error =>
      rw [compiled] at compiles
      cases compiles
  | ok text =>
      cases page : pageOf .haml menu with
      | error error =>
          rw [page] at embeds
          cases embeds
      | ok items =>
          rw [page] at embeds
          obtain ⟨nodes, parses, runs⟩ :=
            compiled_runs_as_page rfl compiled page (of_decide_eq_true embeds)
          exact ⟨text, items, nodes, rfl, rfl, parses, runs⟩

end ThemeRender.Markup
