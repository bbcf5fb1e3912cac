import Mathlib.Data.List.Forall2
import ThemeRender.Proofs.Markup.Correctness
import ThemeRender.Proofs.Markup.QuotedValues
import ThemeRender.Proofs.Markup.SpelledElements
/-!
Open tags of a template, read back. Each value is the text up to the next double quote, so a value
with a double quote in it does not stay what it is; nothing is escaped. The names of attributes that
are written between quotes can hold what ends a name in a tag.
-/

namespace ThemeRender.Markup

/-! ## Attributes of tags -/

structure TagAttr where
  name : List Char
  value : List Char
deriving DecidableEq

def TagAttr.template (attr : TagAttr) : List Char :=
  quotedAttr attr.name attr.value

def endsName (c : Char) : Bool :=
  Text.isBlank c || c == '=' || c == '>'

/-- What the rule `name="value"` reads an attribute from: the value is the text up to the next double
quote. -/
def readTagAttr? : List Char → Option (TagAttr × List Char)
  | ' ' :: s =>
      match s.dropWhile (!endsName ·) with
      | '=' :: '"' :: t =>
          (Text.cutWhere? (· == '"') t).map fun found =>
            (⟨s.takeWhile (!endsName ·), found.1⟩, found.2)
      | _ => none
  | _ => none

theorem length_of_cutWhere? {p : Char → Bool} {s before after : List Char}
    (cut : Text.cutWhere? p s = some (before, after)) : after.length < s.length := by
  rw [Text.cutWhere?_eq] at cut
  have part := (List.dropWhile_suffix (l := s) (!p ·)).length_le
  split at cut
  · cases cut
  · rename_i same
    cases cut
    rw [same, List.length_cons] at part
    exact part

theorem length_of_readTagAttr? {s rest : List Char} {attr : TagAttr}
    (reads : readTagAttr? s = some (attr, rest)) : rest.length < s.length := by
  unfold readTagAttr? at reads
  split at reads
  · rename_i tail
    have part := (List.dropWhile_suffix (l := tail) (!endsName ·)).length_le
    split at reads
    · rename_i t same
      obtain ⟨⟨value, after⟩, cut, found⟩ := Option.map_eq_some_iff.mp reads
      cases found
      have further := length_of_cutWhere? cut
      rw [same] at part
      simp only [List.length_cons] at part ⊢
      omega
    · cases reads
  · cases reads

def readTagAttrs (s : List Char) : List TagAttr × List Char :=
  match _first : readTagAttr? s with
  | none => ([], s)
  | some (attr, rest) =>
      let found := readTagAttrs rest
      (attr :: found.1, found.2)
termination_by s.length
decreasing_by exact length_of_readTagAttr? _first

def readOpenTag? : List Char → Option (List Char × List TagAttr)
  | '<' :: s =>
      let found := readTagAttrs (s.dropWhile (!endsName ·))
      if endsTag found.2 then some (s.takeWhile (!endsName ·), found.1) else none
  | _ => none

structure TagAttr.Fits (attr : TagAttr) : Prop where
  name : ∀ c ∈ attr.name, endsName c = false
  value : '"' ∉ attr.value

theorem TagAttr.fits_iff {attr : TagAttr} :
    (attr.name.all (!endsName ·) = true ∧ '"' ∉ attr.value) ↔ attr.Fits := by
  simp only [List.all_eq_true, Bool.not_eq_true']
  exact ⟨fun both => ⟨both.1, both.2⟩, fun fits => ⟨fits.name, fits.value⟩⟩

instance (attr : TagAttr) : Decidable attr.Fits :=
  decidable_of_iff _ TagAttr.fits_iff

theorem readTagAttr?_template {attr : TagAttr} (fits : attr.Fits) (rest : List Char) :
    readTagAttr? (attr.template ++ rest) = some (attr, rest) := by
  obtain ⟨name, value⟩ := attr
  have whole : (TagAttr.mk name value).template ++ rest =
      ' ' :: (name ++ '=' :: '"' :: (value ++ '"' :: rest)) := by
    simp [TagAttr.template, quotedAttr]
  have letters : ∀ c ∈ name, (!endsName c) = true := by
    intro c member
    rw [fits.name c member]
    rfl
  have stops : ∀ c, ('=' :: '"' :: (value ++ '"' :: rest)).head? = some c →
      (!endsName c) = false := by
    rintro c ⟨⟩
    decide
  have inside : ∀ c ∈ value, (!(c == '"')) = true := by
    intro c member
    have other : c ≠ '"' := by
      rintro rfl
      exact fits.value member
    simpa using other
  have quote : ∀ c, ('"' :: rest).head? = some c → (!(c == '"')) = false := by
    rintro c ⟨⟩
    decide
  rw [whole, readTagAttr?, Text.dropWhile_exact letters stops, Text.takeWhile_exact letters stops]
  change (Text.cutWhere? _ (value ++ '"' :: rest)).map _ = _
  rw [Text.cutWhere?_eq, Text.dropWhile_exact inside quote, Text.takeWhile_exact inside quote]
  rfl

theorem cases_of_endsTag {rest : List Char} (ends : endsTag rest = true) :
    ∃ more, rest = '>' :: more ∨ rest = ' ' :: '/' :: '>' :: more := by
  rcases Bool.or_eq_true_iff.mp ends with bracket | slash
  · obtain ⟨more, same⟩ := List.isPrefixOf_iff_prefix.mp bracket
    exact ⟨more, .inl same.symm⟩
  · obtain ⟨more, same⟩ := List.isPrefixOf_iff_prefix.mp slash
    exact ⟨more, .inr same.symm⟩

theorem readTagAttr?_of_endsTag {rest : List Char} (ends : endsTag rest = true) :
    readTagAttr? rest = none := by
  obtain ⟨more, rfl | rfl⟩ := cases_of_endsTag ends <;> rfl

theorem readTagAttrs_templates {attrs : List TagAttr} (fit : ∀ attr ∈ attrs, attr.Fits)
    {rest : List Char} (ends : endsTag rest = true) :
    readTagAttrs (attrs.flatMap TagAttr.template ++ rest) = (attrs, rest) := by
  induction attrs with
  | nil =>
      rw [readTagAttrs, List.flatMap_nil, List.nil_append]
      split
      · rfl
      · rename_i reads
        rw [readTagAttr?_of_endsTag ends] at reads
        cases reads
  | cons attr more ih =>
      rw [List.forall_mem_cons] at fit
      have first := readTagAttr?_template fit.1 (more.flatMap TagAttr.template ++ rest)
      rw [readTagAttrs, List.flatMap_cons, List.append_assoc]
      split
      · rename_i reads
        rw [first] at reads
        cases reads
      · rename_i found left reads
        rw [first] at reads
        cases reads
        rw [ih fit.2]

theorem head_templates {attrs : List TagAttr} {rest : List Char} (ends : endsTag rest = true) :
    ∀ c, (attrs.flatMap TagAttr.template ++ rest).head? = some c → endsName c = true := by
  intro c first
  cases attrs with
  | nil =>
      obtain ⟨more, rfl | rfl⟩ := cases_of_endsTag ends
      · cases first
        decide
      · cases first
        decide
  | cons attr more =>
      cases first
      decide

theorem readOpenTag?_templates {tag : List Char} {attrs : List TagAttr}
    (letters : ∀ c ∈ tag, endsName c = false) (fit : ∀ attr ∈ attrs, attr.Fits)
    {rest : List Char} (ends : endsTag rest = true) :
    readOpenTag? ('<' :: (tag ++ (attrs.flatMap TagAttr.template ++ rest))) = some (tag, attrs) := by
  have within : ∀ c ∈ tag, (!endsName c) = true := by
    intro c member
    rw [letters c member]
    rfl
  have stops : ∀ c, (attrs.flatMap TagAttr.template ++ rest).head? = some c →
      (!endsName c) = false := by
    intro c first
    rw [head_templates ends c first]
    rfl
  rw [readOpenTag?, Text.dropWhile_exact within stops, Text.takeWhile_exact within stops,
    readTagAttrs_templates fit ends]
  exact if_pos ends

theorem not_endsName_of_nameChar {c : Char} (letter : isNameChar c = true) :
    endsName c = false := by
  have noEquals : c ≠ '=' := by
    rintro rfl
    cases letter
  have noBracket : c ≠ '>' := by
    rintro rfl
    cases letter
  simp [endsName, not_blank_of_nameChar letter, noEquals, noBracket]

/-! ## Quoted attributes of elements -/

def Piece.isText : Piece → Bool
  | .text _ => true
  | .expr _ => false

def Attr.quoted? (attr : Attr) : Option TagAttr :=
  match attr.value with
  | .literal pieces =>
      if pieces.all Piece.isText then some ⟨attr.name, templateOfPieces pieces⟩ else none
  | _ => none

def Quotes : List Attr → List TagAttr → Prop :=
  List.Forall₂ fun attr found => attr.quoted? = some found

theorem Attr.of_quoted? {attr : Attr} {found : TagAttr} (quoted : attr.quoted? = some found) :
    ∃ pieces, attr = ⟨found.name, .literal pieces⟩ ∧ found.value = templateOfPieces pieces := by
  obtain ⟨name, value⟩ := attr
  unfold Attr.quoted? at quoted
  dsimp only at quoted
  split at quoted
  · rename_i pieces
    split at quoted
    · cases quoted
      exact ⟨pieces, rfl, rfl⟩
    · cases quoted
  · cases quoted

namespace Quotes

variable {attrs : List Attr} {found : List TagAttr}

theorem of_mapM (quoted : attrs.mapM Attr.quoted? = some found) : Quotes attrs found := by
  induction attrs generalizing found with
  | nil =>
      cases quoted
      exact .nil
  | cons attr rest ih =>
      rw [List.mapM_cons] at quoted
      obtain ⟨first, quotedFirst, quoted⟩ := Option.bind_eq_some_iff.mp quoted
      obtain ⟨more, quotedMore, same⟩ := Option.bind_eq_some_iff.mp quoted
      cases same
      exact .cons quotedFirst (ih quotedMore)

theorem filter (quotes : Quotes attrs found) (p : List Char → Bool) :
    Quotes (attrs.filter (p ·.name)) (found.filter (p ·.name)) := by
  refine List.rel_filter ?_ quotes
  intro attr quoted same
  obtain ⟨pieces, rfl, -⟩ := Attr.of_quoted? same
  rfl

theorem template (quotes : Quotes attrs found) :
    attrs.flatMap Attr.template = found.flatMap TagAttr.template := by
  induction quotes with
  | nil => rfl
  | @cons attr quoted rest more same _ ih =>
      obtain ⟨pieces, rfl, value⟩ := Attr.of_quoted? same
      rw [List.flatMap_cons, List.flatMap_cons, ih, TagAttr.template, value]
      rfl

theorem classes (quotes : Quotes attrs found) :
    attrs.filterMap (·.value.classTemplate?) = found.map TagAttr.value := by
  induction quotes with
  | nil => rfl
  | @cons attr quoted rest more same _ ih =>
      obtain ⟨pieces, rfl, value⟩ := Attr.of_quoted? same
      rw [List.map_cons, ← ih, value]
      rfl

end Quotes

/-! ## Merging -/

def classWords (shorthands : Shorthands) (attrs : List TagAttr) : List (List Char) :=
  shorthands.classes ++ (attrs.filter (·.name = "class".toList)).map TagAttr.value

def idValue? (shorthands : Shorthands) (attrs : List TagAttr) : Option (List Char) :=
  (attrs.find? (·.name = "id".toList)).map TagAttr.value |>.or shorthands.id?

def isOther (attr : TagAttr) : Bool :=
  attr.name ≠ "id".toList ∧ attr.name ≠ "class".toList

def mergedAttrs (shorthands : Shorthands) (attrs : List TagAttr) : List TagAttr :=
  let words := classWords shorthands attrs
  (idValue? shorthands attrs).toList.map (TagAttr.mk "id".toList) ++
    (if words = [] then [] else [⟨"class".toList, joinWords words⟩]) ++ attrs.filter isOther

section

variable {element : Element} {found : List TagAttr}

theorem Element.idTemplate_quoted (quotes : Quotes element.attrs found) :
    element.idTemplate = ((idValue? element.shorthands found).toList.map
      (TagAttr.mk "id".toList)).flatMap TagAttr.template := by
  have ids := quotes.filter (· = "id".toList)
  unfold Element.idTemplate idValue?
  -- The first id among the attributes is that among what they are quoted as.
  rw [← List.head?_filter, ← List.head?_filter]
  generalize element.attrs.filter (·.name = "id".toList) = explicit at ids
  have named : ∀ attr ∈ found.filter (·.name = "id".toList), attr.name = "id".toList := by
    intro attr member
    simpa using List.of_mem_filter member
  generalize found.filter (·.name = "id".toList) = written at ids named
  cases ids with
  | nil =>
      cases element.shorthands.id? with
      | none => rfl
      | some id => exact (List.append_nil (TagAttr.mk "id".toList id).template).symm
  | @cons attr quoted rest more same _ =>
      obtain ⟨pieces, rfl, value⟩ := Attr.of_quoted? same
      rw [named quoted List.mem_cons_self]
      change quotedAttr "id".toList (templateOfPieces pieces) = quotedAttr _ quoted.value ++ []
      rw [value, List.append_nil]

theorem Element.classTemplate_quoted (quotes : Quotes element.attrs found) :
    element.classTemplate = (if classWords element.shorthands found = [] then []
      else [⟨"class".toList, joinWords (classWords element.shorthands found)⟩]).flatMap
        TagAttr.template := by
  have explicit := (quotes.filter (· = "class".toList)).classes
  unfold Element.classTemplate classWords
  dsimp only
  rw [explicit]
  split
  · rename_i none
    rw [if_pos none]
    rfl
  · rename_i some
    rw [if_neg some, List.flatMap_singleton]
    rfl

theorem Element.head_quoted (quotes : Quotes element.attrs found) :
    element.head = element.tag ++
      (mergedAttrs element.shorthands found).flatMap TagAttr.template := by
  have others := (quotes.filter fun name => name ≠ "id".toList ∧ name ≠ "class".toList).template
  unfold Element.head mergedAttrs
  dsimp only
  rw [element.idTemplate_quoted quotes, element.classTemplate_quoted quotes, others]
  simp only [List.flatMap_append, List.append_assoc]
  rfl

end

/-- The attributes that are found are those that are written out, with the shorthands among them. -/
structure Merges (shorthands : Shorthands) (attrs found : List TagAttr) : Prop where
  once : (found.map TagAttr.name).Nodup
  id : ∀ value, ⟨"id".toList, value⟩ ∈ found ↔ ⟨"id".toList, value⟩ ∈ attrs ∨
    (∀ attr ∈ attrs, attr.name ≠ "id".toList) ∧ shorthands.id? = some value
  classes : ∀ value, ⟨"class".toList, value⟩ ∈ found ↔
    classWords shorthands attrs ≠ [] ∧ value = joinWords (classWords shorthands attrs)
  others : found.filter isOther = attrs.filter isOther

section

variable {shorthands : Shorthands} {attrs : List TagAttr} {attr : TagAttr}

theorem mem_mergedAttrs : attr ∈ mergedAttrs shorthands attrs ↔
    (∃ value, idValue? shorthands attrs = some value ∧ attr = ⟨"id".toList, value⟩) ∨
      (classWords shorthands attrs ≠ [] ∧
        attr = ⟨"class".toList, joinWords (classWords shorthands attrs)⟩) ∨
      (attr ∈ attrs ∧ isOther attr = true) := by
  unfold mergedAttrs
  dsimp only
  rw [List.append_assoc, List.mem_append, List.mem_append, List.mem_filter]
  refine or_congr ?_ (or_congr ?_ Iff.rfl)
  · simp [eq_comm]
  · split
    · rename_i none
      simp [none]
    · rename_i some
      simp [some]

theorem idValue?_eq_some (distinct : (attrs.map TagAttr.name).Nodup) {value : List Char} :
    idValue? shorthands attrs = some value ↔ ⟨"id".toList, value⟩ ∈ attrs ∨
      (∀ attr ∈ attrs, attr.name ≠ "id".toList) ∧ shorthands.id? = some value := by
  unfold idValue?
  cases found : attrs.find? (·.name = "id".toList) with
  | none =>
      have absent : ∀ attr ∈ attrs, attr.name ≠ "id".toList := by
        simpa using List.find?_eq_none.mp found
      have notMember : ⟨"id".toList, value⟩ ∉ attrs := fun member => absent _ member rfl
      constructor
      · exact fun same => .inr ⟨absent, same⟩
      · rintro (member | ⟨-, same⟩)
        · exact absurd member notMember
        · exact same
  | some attr =>
      have member := List.mem_of_find?_eq_some found
      have named : attr.name = "id".toList := by simpa using List.find?_some found
      constructor
      · intro same
        cases same
        rw [← named]
        exact .inl member
      · rintro (other | ⟨absent, -⟩)
        · have same := List.inj_on_of_nodup_map distinct member other named
          rw [same]
          rfl
        · exact absurd named (absent attr member)

theorem nodup_mergedAttrs (distinct : (attrs.map TagAttr.name).Nodup) :
    ((mergedAttrs shorthands attrs).map TagAttr.name).Nodup := by
  have others : ((attrs.filter isOther).map TagAttr.name).Nodup :=
    distinct.sublist (List.filter_sublist.map _)
  have apart : ∀ name ∈ (attrs.filter isOther).map TagAttr.name,
      name ≠ "id".toList ∧ name ≠ "class".toList := by
    intro name member
    obtain ⟨attr, within, rfl⟩ := List.mem_map.mp member
    simpa [isOther] using List.of_mem_filter within
  have noId : "id".toList ∉ (attrs.filter isOther).map TagAttr.name := fun member =>
    (apart _ member).1 rfl
  have noClass : "class".toList ∉ (attrs.filter isOther).map TagAttr.name := fun member =>
    (apart _ member).2 rfl
  unfold mergedAttrs
  dsimp only
  generalize attrs.filter isOther = rest at others noId noClass
  cases idValue? shorthands attrs with
  | none =>
      split
      · exact others
      · exact List.nodup_cons.mpr ⟨noClass, others⟩
  | some id =>
      split
      · exact List.nodup_cons.mpr ⟨noId, others⟩
      · have different : "id".toList ≠ "class".toList := by decide
        refine List.nodup_cons.mpr ⟨?_, List.nodup_cons.mpr ⟨noClass, others⟩⟩
        exact List.not_mem_cons_of_ne_of_not_mem different noId

theorem mergedAttrs_merges (distinct : (attrs.map TagAttr.name).Nodup) :
    Merges shorthands attrs (mergedAttrs shorthands attrs) where
  once := nodup_mergedAttrs distinct
  id := by
    intro value
    rw [mem_mergedAttrs, ← idValue?_eq_some distinct]
    simp [isOther]
  classes := by
    intro value
    rw [mem_mergedAttrs]
    simp [isOther]
  others := by
    have noId : ((idValue? shorthands attrs).toList.map (TagAttr.mk "id".toList)).filter isOther =
        [] := by
      simp [isOther]
    have noClass (value : List Char) : isOther ⟨"class".toList, value⟩ = false := by
      simp [isOther]
    unfold mergedAttrs
    dsimp only
    rw [List.filter_append, List.filter_append, noId, List.filter_filter]
    simp only [Bool.and_self]
    split
    · rfl
    · rw [List.filter_cons_of_neg (Bool.eq_false_iff.mp (noClass _))]
      rfl

theorem quote_not_mem_joinWords {words : List (List Char)} (none : ∀ word ∈ words, '"' ∉ word) :
    '"' ∉ joinWords words := by
  fun_induction joinWords words with
  | case1 => exact List.not_mem_nil
  | case2 word => exact none word List.mem_cons_self
  | case3 word rest _ ih =>
      rw [List.forall_mem_cons] at none
      intro member
      rcases List.mem_append.mp member with first | later
      · exact none.1 first
      · exact ih none.2 (List.mem_of_ne_of_mem (by decide) later)

end

theorem Element.fits_mergedAttrs {element : Element} (onLine : element.OnLine)
    {attrs : List TagAttr} (fit : ∀ attr ∈ attrs, attr.Fits) :
    ∀ attr ∈ mergedAttrs element.shorthands attrs, attr.Fits := by
  have shorthand {name : List Char}
      (member : name ∈ element.shorthands.id?.toList ++ element.shorthands.classes) :
      '"' ∉ name :=
    not_mem_of_nameChars (onLine.shorthands name member) (by decide)
  intro attr member
  rcases mem_mergedAttrs.mp member with ⟨value, same, rfl⟩ | ⟨-, rfl⟩ | ⟨written, -⟩
  · refine TagAttr.fits_iff.mp ⟨rfl, ?_⟩
    rcases Option.or_eq_some_iff.mp same with found | ⟨-, found⟩
    · obtain ⟨explicit, first, same⟩ := Option.map_eq_some_iff.mp found
      cases same
      exact (fit explicit (List.mem_of_find?_eq_some first)).value
    · exact shorthand (List.mem_append_left _ (Option.mem_toList.mpr found))
  · refine TagAttr.fits_iff.mp ⟨rfl, quote_not_mem_joinWords fun word member => ?_⟩
    rcases List.mem_append.mp member with short | explicit
    · exact shorthand (List.mem_append_right _ short)
    · obtain ⟨attr, within, rfl⟩ := List.mem_map.mp explicit
      exact (fit attr (List.mem_of_mem_filter within)).value
  · exact fit attr written

/-! ## Whole sources -/

variable {dialect : Dialect} {rules : LineRules} {source output : String} {path : Path}
  {items : List Item} {element : Element}

theorem Holds.emitted_element {text : List Char} (holds : Holds (Item.IsElement element) items)
    (emitted : emit items = .ok text) :
    ∃ before depth rest, text = before ++ (List.replicate (2 * depth) ' ' ++
      '<' :: (element.head ++ rest)) ∧ Text.Whole before ∧ endsTag rest = true := by
  obtain ⟨⟨construct, number, span, nested⟩, depth, own, is, emittedItem, part⟩ :=
    holds.emitted emitted
  cases is
  obtain ⟨rest, ends, rfl⟩ := emitItem_element emittedItem
  obtain ⟨before, after, rfl, whole⟩ := part
  refine ⟨before, depth, rest ++ after, by simp, whole, ?_⟩
  obtain ⟨more, rfl | rfl⟩ := cases_of_endsTag ends <;> rfl

theorem ElementOf.written {line : Line} (own : ElementOf dialect line element) :
    ∃ rest, WrittenIn element.attrs line.text rest := by
  cases dialect with
  | haml => exact Haml.writtenIn_of_readElement own
  | jade =>
      obtain ⟨-, head, readsHead, starts⟩ := own
      rw [starts.attrs]
      exact Jade.writtenIn_of_readHead readsHead
  | native => exact own.elim

/-- Each element of a source that is compiled is read from a line, with its attributes one after the
other, and has its open tag in the template. Where the attributes are quoted literals with distinct
names, and nothing in the names or values would end them, reading the tag gives back just these
attributes, with the shorthands among them. -/
theorem quoted_attributes_read_back {compiler : Compiler}
    (registered : Compilers.standard.compiler? dialect = some compiler)
    (ruled : lineRules? dialect = some rules) (compiled : compiler source path = .ok output)
    (page : pageOf dialect source = .ok items) (holds : Holds (Item.IsElement element) items) :
    (∃ line nested rest, ⟨.markup, .mk line nested⟩ ∈ LineTree.sourcePlaces rules source.toList ∧
      ElementOf dialect line element ∧ WrittenIn element.attrs line.text rest) ∧
    ∃ before depth text,
      output.toList = before ++ (List.replicate (2 * depth) ' ' ++ text) ∧ Text.Whole before ∧
        ∀ attrs, element.attrs.mapM Attr.quoted? = some attrs →
          (attrs.map TagAttr.name).Nodup → (∀ attr ∈ attrs, attr.Fits) →
            readOpenTag? text = some (element.tag, mergedAttrs element.shorthands attrs) ∧
              Merges element.shorthands attrs (mergedAttrs element.shorthands attrs) := by
  obtain ⟨found, contents, samePage, onLines, emitted, rfl⟩ := page_of_compiled registered compiled
  cases page.symm.trans samePage
  have onLine : element.OnLine := onLines _ holds.mem_constructsOf
  obtain ⟨before, depth, rest, rfl, whole, ends⟩ := holds.emitted_element emitted
  obtain ⟨line, nested, placed, own⟩ := element_of_page ruled page holds
  obtain ⟨left, written⟩ := own.written
  refine ⟨⟨line, nested, left, placed, own, written⟩, before, depth, _, String.toList_ofList, whole,
    ?_⟩
  intro attrs quoted distinct fit
  have letters : ∀ c ∈ element.tag, endsName c = false := fun c member =>
    not_endsName_of_nameChar (onLine.tag c member)
  have reads := readOpenTag?_templates letters (element.fits_mergedAttrs onLine fit) ends
  rw [element.head_quoted (Quotes.of_mapM quoted), List.append_assoc]
  exact ⟨reads, mergedAttrs_merges distinct⟩

/-- A class that is written out follows the shorthand class. -/
theorem shorthands_read_back_with_quoted : ∃ output before depth text,
    compileHaml "%a#go.btn\x7b:href => '/p', class: \"big\"\x7d Go" (.ofString "views/a.haml") =
        .ok output ∧
      output.toList = before ++ (List.replicate (2 * depth) ' ' ++ text) ∧
      readOpenTag? text = some (['a'], [⟨"id".toList, "go".toList⟩,
        ⟨"class".toList, "btn big".toList⟩, ⟨"href".toList, "/p".toList⟩]) := by
  let source := "%a#go.btn\x7b:href => '/p', class: \"big\"\x7d Go"
  let attrs : List TagAttr := [⟨"href".toList, "/p".toList⟩, ⟨"class".toList, "big".toList⟩]
  have compiles : (compileHaml source (.ofString "views/a.haml")).toBool = true := by
    decide +kernel
  have found : ((pageOf .haml source).toOption.any fun items => items.any fun item =>
      item.element?.any fun element => element.tag == ['a'] &&
        (element.shorthands.id? == some "go".toList &&
          (element.shorthands.classes == ["btn".toList] &&
            element.attrs.mapM Attr.quoted? == some attrs))) = true := by
    decide +kernel
  obtain ⟨output, compiled⟩ := Outcome.of_toBool compiles
  obtain ⟨items, element, page, holds, is⟩ := exists_element found
  simp only [Bool.and_eq_true, beq_iff_eq] at is
  obtain ⟨tag, id, classes, quoted⟩ := is
  have shorthands : element.shorthands = ⟨some "go".toList, ["btn".toList]⟩ := by
    rw [← id, ← classes]
  have merged : mergedAttrs element.shorthands attrs = [⟨"id".toList, "go".toList⟩,
      ⟨"class".toList, "btn big".toList⟩, ⟨"href".toList, "/p".toList⟩] := by
    rw [shorthands]
    decide
  obtain ⟨-, before, depth, text, split, -, reads⟩ :=
    @quoted_attributes_read_back .haml _ _ _ _ _ _ _ rfl rfl compiled page holds
  obtain ⟨reads, -⟩ := reads attrs quoted (by decide) (by decide)
  rw [tag, merged] at reads
  exact ⟨output, before, depth, text, compiled, split, reads⟩

/-- A double quote in a value ends it in the tag, and what follows is read as another attribute. In a
name that is quoted, a blank, an equals sign or an angle bracket ends the name. -/
theorem quote_in_value_ends_it :
    (pageOf .haml "%p(a='x\" b=\"y')").toOption.map (·.map fun item => match item.construct with
      | .element element => element.attrs.mapM Attr.quoted?
      | _ => none) = some [some [⟨['a'], "x\" b=\"y".toList⟩]] ∧
    (compileHaml "%p(a='x\" b=\"y')" (.ofString "views/a.haml")).toOption =
      some "<p a=\"x\" b=\"y\"></p>\n" ∧
    readOpenTag? "<p a=\"x\" b=\"y\"></p>\n".toList =
      some (['p'], [⟨['a'], ['x']⟩, ⟨['b'], ['y']⟩]) ∧
    ∀ separator ∈ [' ', '=', '>'],
      (compileHaml (String.ofList ("%p\x7b\"a".toList ++ separator :: "b\" => \"x\"\x7d".toList))
        (.ofString "views/a.haml")).toOption =
          some (String.ofList ("<p a".toList ++ separator :: "b=\"x\"></p>\n".toList)) ∧
      readOpenTag? ("<p a".toList ++ separator :: "b=\"x\"></p>\n".toList) = none := by
  refine ⟨by decide +kernel, by decide +kernel, by decide +kernel, ?_⟩
  intro separator member
  simp only [List.mem_cons, List.not_mem_nil, or_false] at member
  rcases member with rfl | rfl | rfl <;> decide +kernel

end ThemeRender.Markup
