import Mathlib.Data.List.Nodup
import ThemeRender.Proofs.Markup.LineReaders
import ThemeRender.Proofs.Markup.SourceLines
/-!
Two sources that differ in one line, which is indented alike in both. Their lines are nested alike,
and what reading makes of that line decides what it makes of the source.
-/

namespace ThemeRender.Markup

open Outcome (Alongside except_bind_eq_ok)

/-! ## Lines -/

/-- Lines with the same number and the same indentation. They have the same text, except for the
line with the number `n`, which is `raw` in the one source and `rawToo` in the other. -/
structure Beside (n : Nat) (raw rawToo : List Char) (line other : Line) : Prop where
  number : other.number = line.number
  indent : other.indent = line.indent
  elsewhere : line.number ≠ n → line.text = other.text
  here : line.number = n → line.text = Text.trimStart (Text.trimEnd raw) ∧
    other.text = Text.trimStart (Text.trimEnd rawToo)

variable {n : Nat} {raw rawToo : List Char}

section

variable {number offset offsetToo : Nat}

abbrev BesideUnmoved (n : Nat) (raw rawToo : List Char) : Line → Line → Prop :=
  Line.Reindented (Beside n raw rawToo) id Set.univ

theorem Beside.moved {own : List Char} (other : number ≠ n) :
    Beside n raw rawToo (.ofRaw number offset own) (.ofRaw number offsetToo own) :=
  ⟨rfl, rfl, fun _ => rfl, fun same => absurd same other⟩

theorem Beside.replaced (busy : raw.all Text.isBlank = false)
    (busyToo : rawToo.all Text.isBlank = false) (indent : indentation rawToo = indentation raw) :
    Beside n raw rawToo (.ofRaw n offset raw) (.ofRaw n offset rawToo) := by
  refine ⟨rfl, ?_, fun other => absurd rfl other, fun _ => ⟨rfl, rfl⟩⟩
  change ((Text.trimEnd rawToo).takeWhile _).length = ((Text.trimEnd raw).takeWhile _).length
  rw [Text.takeWhile_trimEnd busy, Text.takeWhile_trimEnd busyToo]
  exact congrArg List.length indent

theorem lineOf?_beside {own ownToo : List Char} (indent : indentation ownToo = indentation own)
    (blank : ownToo.all Text.isBlank = own.all Text.isBlank)
    (beside : Beside n raw rawToo (.ofRaw number offset own) (.ofRaw number offsetToo ownToo)) :
    Alongside (Echoes (Beside n raw rawToo))
      (fun line? lineToo? => List.Forall₂ (BesideUnmoved n raw rawToo) line?.toList lineToo?.toList)
      (lineOf? number offset own) (lineOf? number offsetToo ownToo) := by
  cases all : own.all Text.isBlank with
  | true =>
      rw [lineOf?_blank all, lineOf?_blank (blank.trans all)]
      exact .ok .nil
  | false =>
      have mixed : Mixed ownToo ↔ Mixed own := by
        change '\t' ∈ indentation ownToo ∧ ' ' ∈ indentation ownToo ↔ _
        rw [indent]
        rfl
      rw [lineOf?_of_busy all, lineOf?_of_busy (blank.trans all)]
      by_cases tabs : Mixed own
      · rw [if_pos tabs, if_pos (mixed.mpr tabs)]
        exact .error (.whole beside _)
      · rw [if_neg tabs, if_neg (mt mixed.mp tabs)]
        exact .ok (.cons ⟨beside, trivial, beside.indent⟩ .nil)

theorem linesFrom_moved {raws : List (List Char)} (past : n < number) :
    Alongside (Echoes (Beside n raw rawToo)) (List.Forall₂ (BesideUnmoved n raw rawToo))
      (linesFrom number offset raws) (linesFrom number offsetToo raws) := by
  induction raws generalizing number offset offsetToo with
  | nil => exact .ok .nil
  | cons own rest ih =>
      rw [linesFrom, linesFrom]
      apply (lineOf?_beside rfl rfl (.moved past.ne')).bind
      intro line? lineToo? first
      apply (ih (by omega)).bind
      intro lines linesToo more
      exact .ok (List.rel_append first more)

end

/-- The sources differ in one raw line, which is not blank and is indented alike in both. -/
structure OneLineApart (source sourceToo : List Char) (above : List (List Char))
    (raw rawToo : List Char) (below : List (List Char)) : Prop where
  split : Text.lines source = above ++ raw :: below
  splitToo : Text.lines sourceToo = above ++ rawToo :: below
  indent : indentation rawToo = indentation raw
  busy : raw.all Text.isBlank = false
  busyToo : rawToo.all Text.isBlank = false

section

variable {source sourceToo : List Char} {above below : List (List Char)}

theorem linesFrom_beside (indent : indentation rawToo = indentation raw)
    (busy : raw.all Text.isBlank = false) (busyToo : rawToo.all Text.isBlank = false)
    {number offset : Nat} (here : n = number + above.length) :
    Alongside (Echoes (Beside n raw rawToo)) (List.Forall₂ (BesideUnmoved n raw rawToo))
      (linesFrom number offset (above ++ raw :: below))
      (linesFrom number offset (above ++ rawToo :: below)) := by
  induction above generalizing number offset with
  | nil =>
      rw [List.length_nil, Nat.add_zero] at here
      subst here
      rw [List.nil_append, List.nil_append, linesFrom, linesFrom]
      apply (lineOf?_beside indent (busyToo.trans busy.symm) (.replaced busy busyToo indent)).bind
      intro line? lineToo? first
      apply (linesFrom_moved (Nat.lt_succ_self n)).bind
      intro lines linesToo more
      exact .ok (List.rel_append first more)
  | cons earlier rest ih =>
      rw [List.length_cons] at here
      rw [List.cons_append, List.cons_append, linesFrom, linesFrom]
      apply (lineOf?_beside rfl rfl (.moved (by omega))).bind
      intro line? lineToo? first
      apply (ih (by omega)).bind
      intro lines linesToo more
      exact .ok (List.rel_append first more)

theorem OneLineApart.shaped (apart : OneLineApart source sourceToo above raw rawToo below) :
    Alongside (Echoes (Beside (above.length + 1) raw rawToo))
      (Shaped (Beside (above.length + 1) raw rawToo)) (LineTree.ofSource source)
      (LineTree.ofSource sourceToo) := by
  rw [LineTree.ofSource, LineTree.ofSource, apart.split, apart.splitToo]
  apply (linesFrom_beside apart.indent apart.busy apart.busyToo (Nat.add_comm _ _)).bind
  intro lines linesToo alike
  exact forest_shaped (strictMono_id.strictMonoOn _) alike (firstIndent_reindented alike)

end

/-! ## Trees -/

variable {rules : LineRules} {within : Line → Context} {At : Line → Line → Prop}
  {trees treesToo : List LineTree} {line other : Line} {nested nestedToo : List LineTree}

namespace LineTree

mutual

def lines : LineTree → List Line
  | mk line nested => line :: forestLines nested

def forestLines : List LineTree → List Line
  | [] => []
  | tree :: rest => lines tree ++ forestLines rest

end

mutual

theorem map_places (rules : LineRules) (context : Context) :
    ∀ tree : LineTree, (places rules context tree).map (·.tree.line) = lines tree
  | mk line nested => by
      rw [places, lines, List.map_cons, map_forestPlaces rules _ nested]
      rfl

theorem map_forestPlaces (rules : LineRules) (context : Context) :
    ∀ trees : List LineTree,
      (forestPlaces rules context trees).map (·.tree.line) = forestLines trees
  | [] => rfl
  | tree :: rest => by
      rw [forestPlaces, forestLines, List.map_append, map_places rules context tree,
        map_forestPlaces rules context rest]

end

def numbers (trees : List LineTree) : List Nat :=
  (forestLines trees).map Line.number

theorem numbers_cons {rest : List LineTree} :
    numbers (.mk line nested :: rest) = line.number :: numbers nested ++ numbers rest := by
  rw [numbers, forestLines, lines, List.map_append]
  rfl

theorem mem_numbers {rules : LineRules} {context : Context} {placed : Placed}
    (member : placed ∈ forestPlaces rules context trees) :
    placed.tree.line.number ∈ numbers trees := by
  rw [numbers, ← map_forestPlaces rules context trees, List.map_map]
  exact List.mem_map_of_mem member

theorem nodup_numbers {source : List Char} (built : ofSource source = .ok trees) :
    (numbers trees).Nodup := by
  obtain ⟨lines, readsLines, built⟩ := except_bind_eq_ok.mp built
  have sorted := sorted_linesFrom readsLines
  rw [← @lines_forestPlaces Haml.lineRules _ _ _ built .markup, map_forestPlaces] at sorted
  exact List.pairwise_map.mpr (sorted.imp Nat.ne_of_lt)

end LineTree

theorem Shaped.parallel_of_absent (shaped : Shaped (Beside n raw rawToo) trees treesToo)
    (absent : n ∉ LineTree.numbers trees) :
    Parallel within (Beside n raw rawToo) trees treesToo ∧
      ∀ base, LineTree.rawForest base trees = LineTree.rawForest base treesToo := by
  induction shaped with
  | nil => exact ⟨.nil, fun _ => rfl⟩
  | @cons line other place nested nestedToo rest restToo inside after ihInside ihAfter =>
      rw [LineTree.numbers_cons, List.mem_append, List.mem_cons, not_or, not_or] at absent
      obtain ⟨⟨notHere, notInside⟩, notAfter⟩ := absent
      obtain ⟨parallelInside, sameInside⟩ := ihInside notInside
      obtain ⟨parallelAfter, sameAfter⟩ := ihAfter notAfter
      have same := place.elsewhere (Ne.symm notHere)
      refine ⟨.cons place same (fun _ => ?_) parallelInside parallelAfter, fun base => ?_⟩
      · cases inside with
        | nil => rfl
        | @cons first firstToo placeFirst =>
            change LineTree.rawForest first.indent _ = LineTree.rawForest firstToo.indent _
            rw [placeFirst.indent]
            exact sameInside first.indent
      · rw [LineTree.rawForest, LineTree.rawForest, LineTree.rawLines, LineTree.rawLines,
          sameInside, sameAfter, same, place.indent]

/-- Trees that correspond except for one tree on each side, which no line over it takes as text. -/
inductive ApartFrom (within : Line → Context) (At : Line → Line → Prop) (own ownToo : LineTree) :
    List LineTree → List LineTree → Prop
  | here {rest restToo : List LineTree} (after : Parallel within At rest restToo) :
      ApartFrom within At own ownToo (own :: rest) (ownToo :: restToo)
  | inside {top topToo : Line} (place : At top topToo) (same : top.text = topToo.text)
      (reads : within top = .markup ∨ within top = .dropped)
      {under underToo rest restToo : List LineTree}
      (deeper : ApartFrom within At own ownToo under underToo)
      (after : Parallel within At rest restToo) :
      ApartFrom within At own ownToo (.mk top under :: rest) (.mk topToo underToo :: restToo)
  | after {tree treeToo : LineTree} {rest restToo : List LineTree}
      (first : Parallel within At [tree] [treeToo])
      (later : ApartFrom within At own ownToo rest restToo) :
      ApartFrom within At own ownToo (tree :: rest) (treeToo :: restToo)

/-- The rules by which lines are read. The lines under a document type are read as well, although
they are left out of the page. -/
def LineRules.reading (rules : LineRules) : LineRules where
  within line := if rules.within line = .dropped then .markup else rules.within line
  plain? := rules.plain?
  remark? := rules.remark?
  isSilent := rules.isSilent

theorem LineRules.of_reading (markup : rules.reading.within line = .markup) :
    rules.within line = .markup ∨ rules.within line = .dropped := by
  change (if rules.within line = .dropped then .markup else rules.within line) = _ at markup
  split at markup
  · rename_i dropped
    exact .inr dropped
  · exact .inl markup

theorem LineRules.text_of_reading (text : rules.reading.within line = .text) :
    rules.within line = .text := by
  change (if rules.within line = .dropped then .markup else rules.within line) = _ at text
  split at text
  · cases text
  · exact text

theorem Shaped.apart (shaped : Shaped (Beside n raw rawToo) trees treesToo)
    (nodup : (LineTree.numbers trees).Nodup)
    (placed : ⟨.markup, .mk line nested⟩ ∈ LineTree.forestPlaces rules.reading .markup trees)
    (holds : n ∈ LineTree.numbers [.mk line nested]) :
    n ∈ LineTree.numbers trees ∧ (LineTree.numbers [.mk line nested]).Nodup ∧
      ∃ other nestedToo, Beside n raw rawToo line other ∧
      Shaped (Beside n raw rawToo) nested nestedToo ∧
      ApartFrom rules.within (Beside n raw rawToo) (.mk line nested) (.mk other nestedToo) trees
        treesToo := by
  induction shaped with
  | nil => cases placed
  | @cons top topToo place under underToo rest restToo inside after ihInside ihAfter =>
      rw [LineTree.numbers_cons, List.nodup_append] at nodup
      obtain ⟨nodupTree, nodupRest, disjoint⟩ := nodup
      rw [LineTree.numbers_cons]
      rw [LineTree.forestPlaces, LineTree.places] at placed
      rcases List.mem_append.mp placed with first | later
      · rcases List.mem_cons.mp first with root | inner
        · cases root
          rw [LineTree.numbers_cons] at holds
          have member : n ∈ line.number :: LineTree.numbers nested :=
            (List.mem_append.mp holds).resolve_right List.not_mem_nil
          have absent : n ∉ LineTree.numbers rest :=
            fun alsoAfter => disjoint n member n alsoAfter rfl
          have nodupOwn : (LineTree.numbers [.mk line nested]).Nodup := by
            rw [LineTree.numbers_cons]
            exact (List.append_nil _).symm ▸ nodupTree
          exact ⟨List.mem_append_left _ member, nodupOwn, topToo, underToo, place, inside,
            .here (after.parallel_of_absent absent).1⟩
        · change _ ∈ LineTree.forestPlaces rules.reading (rules.reading.within top) under at inner
          have markup := LineTree.markup_of_forestPlaces inner
          rw [markup] at inner
          obtain ⟨member, nodupOwn, other, nestedToo, beside, shaped, apart⟩ :=
            ihInside nodupTree.of_cons inner
          have notTop : top.number ≠ n :=
            fun same => (List.nodup_cons.mp nodupTree).1 (same ▸ member)
          have within := List.mem_cons_of_mem top.number member
          have absent : n ∉ LineTree.numbers rest :=
            fun alsoAfter => disjoint n within n alsoAfter rfl
          exact ⟨List.mem_append_left _ within, nodupOwn, other, nestedToo, beside, shaped,
            .inside place (place.elsewhere notTop) (LineRules.of_reading markup) apart
              (after.parallel_of_absent absent).1⟩
      · obtain ⟨member, nodupOwn, other, nestedToo, beside, shaped, apart⟩ :=
          ihAfter nodupRest later
        have absent : n ∉ LineTree.numbers [.mk top under] := by
          rw [LineTree.numbers_cons]
          intro alsoHere
          rcases List.mem_append.mp alsoHere with here | none
          · exact disjoint n here n member rfl
          · exact List.not_mem_nil none
        have first : Shaped (Beside n raw rawToo) [.mk top under] [.mk topToo underToo] :=
          .cons place inside .nil
        exact ⟨List.mem_append_right _ member, nodupOwn, other, nestedToo, beside, shaped,
          .after (first.parallel_of_absent absent).1 apart⟩

/-! ## Reading -/

/-- A relation of what is read from lines that correspond, which holds of what is read from all
lines if it holds of what is read from one of them. -/
structure CarriedUp (At : Line → Line → Prop)
    (R : Except Complaint (List Item) → Except Complaint (List Item) → Prop) : Prop where
  before {items itemsToo more moreToo : Except Complaint (List Item)} (carried : R items itemsToo)
    (alike : ReadAlike At more moreToo) :
    R (do let first ← items; let last ← more; pure (first ++ last))
      (do let first ← itemsToo; let last ← moreToo; pure (first ++ last))
  after {items itemsToo more moreToo : Except Complaint (List Item)}
    (alike : ReadAlike At items itemsToo) (carried : R more moreToo) :
    R (do let first ← items; let last ← more; pure (first ++ last))
      (do let first ← itemsToo; let last ← moreToo; pure (first ++ last))
  around {own ownToo : Except Complaint Construct} (echoed : Echoed At own ownToo)
    {line other : Line} (place : At line other) {items itemsToo : Except Complaint (List Item)}
    (carried : R items itemsToo) :
    R (do let construct ← own; let nested ← items; pure [.ofLine line construct nested])
      (do let construct ← ownToo; let nested ← itemsToo; pure [.ofLine other construct nested])

theorem carriedUp_alike : CarriedUp At (ReadAlike At) where
  before := ReadAlike.append
  after := ReadAlike.append
  around {own ownToo} echoed {line other} place {items itemsToo} carried := by
    apply echoed.bind
    intro construct _
    exact carried.nest construct place

/-- If the second reading comes to anything, then the first comes to this complaint. -/
def Blames (complaint : Complaint) (first second : Except Complaint (List Item)) : Prop :=
  ∀ items, second = .ok items → first = .error complaint

theorem carriedUp_blames (complaint : Complaint) : CarriedUp At (Blames complaint) where
  before {items itemsToo more moreToo} blames alike := by
    intro all reads
    obtain ⟨first, readsFirst, -⟩ := except_bind_eq_ok.mp reads
    rw [blames first readsFirst]
    rfl
  after {items itemsToo more moreToo} alike blames := by
    intro all reads
    obtain ⟨first, readsFirst, reads⟩ := except_bind_eq_ok.mp reads
    obtain ⟨last, readsLast, -⟩ := except_bind_eq_ok.mp reads
    rw [blames last readsLast]
    rw [readsFirst] at alike
    cases alike with
    | ok matched => rfl
  around {own ownToo} echoed {line other} place {items itemsToo} blames := by
    intro all reads
    obtain ⟨construct, readsOwn, reads⟩ := except_bind_eq_ok.mp reads
    obtain ⟨nested, readsNested, -⟩ := except_bind_eq_ok.mp reads
    rw [blames nested readsNested]
    rw [readsOwn] at echoed
    cases echoed with
    | ok same => rfl

theorem ApartFrom.carried {read : LineTree → Except Complaint (List Item)}
    {readAll : List LineTree → Except Complaint (List Item)}
    {alone : Line → Except Complaint Construct} (reader : LineReader within alone read readAll)
    {R : Except Complaint (List Item) → Except Complaint (List Item) → Prop}
    (carriedUp : CarriedUp At R) {own ownToo : LineTree} (holds : R (read own) (read ownToo))
    (apart : ApartFrom within At own ownToo trees treesToo) :
    R (readAll trees) (readAll treesToo) := by
  induction apart with
  | here after =>
      rw [reader.cons, reader.cons]
      exact carriedUp.before holds (reader.alike after)
  | inside place same reads deeper after ih =>
      have readsToo := reads
      rw [reader.within_eq same] at readsToo
      rw [reader.cons, reader.cons, reader.nests reads, reader.nests readsToo]
      have around := carriedUp.around (reader.echoed place same) place ih
      exact carriedUp.before around (reader.alike after)
  | @after tree treeToo rest restToo first later ih =>
      have single (tree : LineTree) : readAll [tree] = read tree := by
        rw [reader.cons, reader.nil]
        cases read tree with
        | error complaint => rfl
        | ok items => exact congrArg Except.ok (List.append_nil items)
      have alike := reader.alike first
      rw [single, single] at alike
      rw [reader.cons, reader.cons]
      exact carriedUp.after alike ih

/-! ## Whole sources -/

namespace LineTree

theorem exists_place {source : List Char} {above below : List (List Char)}
    (split : Text.lines source = above ++ raw :: below) (busy : raw.all Text.isBlank = false)
    (built : ofSource source = .ok trees) (rules : LineRules) (context : Context) :
    ∃ placed ∈ forestPlaces rules context trees, placed.tree.line.number = above.length + 1 ∧
      placed.tree.line.text = Text.trimStart (Text.trimEnd raw) := by
  obtain ⟨lines, readsLines, built⟩ := except_bind_eq_ok.mp built
  rw [split] at readsLines
  obtain ⟨first, last, -, readsLast, rfl⟩ := linesFrom_append readsLines
  obtain ⟨more, -, ⟨blank, -⟩ | ⟨-, rfl⟩⟩ := linesFrom_cons_ok readsLast
  · rw [blank] at busy
    cases busy
  · have flattened := @lines_forestPlaces rules _ _ _ built context
    have member : Line.ofRaw (1 + above.length) (0 + Text.byteLength above.flatten) raw ∈
        (forestPlaces rules context trees).map (·.tree.line) := by
      rw [flattened]
      simp
    obtain ⟨placed, among, same⟩ := List.mem_map.mp member
    refine ⟨placed, among, ?_, ?_⟩
    · rw [same]
      exact Nat.add_comm _ _
    · rw [same]
      rfl

theorem text_of_number {source : List Char} {above below : List (List Char)} {placed : Placed}
    (split : Text.lines source = above ++ raw :: below) (busy : raw.all Text.isBlank = false)
    (member : placed ∈ sourcePlaces rules source)
    (number : placed.tree.line.number = above.length + 1) :
    placed.tree.line.text = Text.trimStart (Text.trimEnd raw) := by
  rw [sourcePlaces] at member
  cases built : ofSource source with
  | error complaint =>
      rw [built] at member
      cases member
  | ok trees =>
      rw [built] at member
      obtain ⟨other, among, numberToo, text⟩ := exists_place split busy built rules .markup
      have inLines {placed : Placed} (member : placed ∈ forestPlaces rules .markup trees) :
          placed.tree.line ∈ forestLines trees := by
        rw [← map_forestPlaces rules .markup trees]
        exact List.mem_map_of_mem member
      rw [List.inj_on_of_nodup_map (nodup_numbers built) (inLines member) (inLines among)
        (number.trans numberToo.symm), text]

end LineTree

section

variable {dialect : Dialect} {source sourceToo : String} {path pathToo : Path}
  {above below : List (List Char)}
  {alone : Line → Except Complaint Construct} {read : LineTree → Except Complaint (List Item)}
  {readAll : List LineTree → Except Complaint (List Item)}

/-- If one of the sources is compiled, then the other is refused for what is complained of in the
line, or in a line over it. -/
theorem OneLineApart.refused
    (apart : OneLineApart source.toList sourceToo.toList above raw rawToo below)
    (reader : LineReader rules.within alone read readAll) {output : String}
    (compiled : compileWith dialect readAll sourceToo pathToo = .ok output)
    (placed : ⟨.markup, .mk line nested⟩ ∈ LineTree.sourcePlaces rules.reading source.toList)
    (holds : above.length + 1 ∈ LineTree.numbers [.mk line nested]) {complaint : Complaint}
    (fails : read (.mk line nested) = .error complaint) :
    compileWith dialect readAll source path = .error ⟨dialect, path, complaint⟩ := by
  obtain ⟨treesToo, builtToo, emitted⟩ := except_bind_eq_ok.mp (compileWith_eq_ok.mp compiled)
  obtain ⟨items, reads, -⟩ := except_bind_eq_ok.mp emitted
  have shaped := apart.shaped
  rw [builtToo] at shaped
  generalize built : LineTree.ofSource source.toList = trees? at shaped
  cases shaped with
  | @ok trees _ shaped =>
      rw [LineTree.sourcePlaces, built] at placed
      obtain ⟨-, -, other, nestedToo, -, -, apart⟩ :=
        shaped.apart (LineTree.nodup_numbers built) placed holds
      have blames : Blames complaint (read (.mk line nested)) (read (.mk other nestedToo)) :=
        fun _ _ => fails
      have refused := apart.carried reader (carriedUp_blames complaint) blames items reads
      refine compileWith_eq_error.mpr ⟨rfl, rfl, ?_⟩
      rw [built]
      change readAll trees >>= emit = _
      rw [refused]
      rfl

/-- If the line is read alike in both sources, then both are compiled to the same template, or both
are refused for the same fault. -/
theorem OneLineApart.alongside
    (apart : OneLineApart source.toList sourceToo.toList above raw rawToo below)
    (reader : LineReader rules.within alone read readAll)
    (markup : ∀ placed ∈ LineTree.sourcePlaces rules.reading source.toList,
      placed.tree.line.number = above.length + 1 → placed.context = .markup)
    (readsAlike : ∀ line other nested nestedToo,
      Beside (above.length + 1) raw rawToo line other → line.number = above.length + 1 →
      Parallel rules.within (Beside (above.length + 1) raw rawToo) nested nestedToo →
      ReadAlike (Beside (above.length + 1) raw rawToo) (read (.mk line nested))
        (read (.mk other nestedToo))) :
    Alongside (CompileErrorsEcho (Beside (above.length + 1) raw rawToo) dialect path) (· = ·)
      (compileWith dialect readAll source path)
      (compileWith dialect readAll sourceToo pathToo) := by
  apply compileWith_alongside
  have shaped := apart.shaped
  rw [LineTree.sourcePlaces] at markup
  generalize built : LineTree.ofSource source.toList = trees? at shaped markup
  generalize LineTree.ofSource sourceToo.toList = treesToo? at shaped
  cases shaped with
  | error echoes => exact .error echoes
  | @ok trees treesToo shaped =>
      obtain ⟨⟨context, line, nested⟩, placed, number, -⟩ :=
        LineTree.exists_place apart.split apart.busy built rules.reading .markup
      obtain rfl : context = .markup := markup _ placed number
      have number : line.number = above.length + 1 := number
      have holds : above.length + 1 ∈ LineTree.numbers [.mk line nested] := by
        rw [LineTree.numbers_cons, number]
        exact List.mem_cons_self
      obtain ⟨-, nodup, other, nestedToo, beside, inside, apart⟩ :=
        shaped.apart (LineTree.nodup_numbers built) placed holds
      have absent : above.length + 1 ∉ LineTree.numbers nested := by
        rw [LineTree.numbers_cons, number] at nodup
        exact (List.nodup_cons.mp (List.nodup_append.mp nodup).1).1
      have alike := readsAlike line other nested nestedToo beside number
        (inside.parallel_of_absent absent).1
      exact (apart.carried reader carriedUp_alike alike).emit

end

end ThemeRender.Markup
