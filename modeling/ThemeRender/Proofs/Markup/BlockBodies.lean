import ThemeRender.Proofs.Markup.KeptLines
import ThemeRender.Proofs.Markup.Shapes
/-!
Blocks that are copied as they are. The lines nested in a filter, in a comment of Jade and under a tag
of raw text with a dot are in the template one after the other, all at one depth. Nested and flattened
again, the lines of such a body are then those of the source without the blank ones, each without
the indentation of the first.
-/

/-! Copied blocks -/

namespace ThemeRender.Markup

open Outcome (except_bind_eq_ok of_map_ok)

/-- The item is raw lines, among them those of the block, as they are or one step deeper. -/
inductive Item.Copies (block : List (List Char)) : Item → Prop
  | even {lines : List (List Char)} {line : Nat} {span : Span} {nested : List Item}
      (part : block <:+: lines) : Copies block (.mk (.raw lines) line span nested)
  | deeper {lines : List (List Char)} {line : Nat} {span : Span} {nested : List Item}
      (part : Haml.indented block <:+: lines) : Copies block (.mk (.raw lines) line span nested)

theorem lineAt_succ (depth : Nat) (text : List Char) :
    lineAt depth (' ' :: ' ' :: text) = lineAt (depth + 1) text := by
  have wider : List.replicate (2 * (depth + 1)) ' ' = List.replicate (2 * depth) ' ' ++ [' ', ' '] :=
    List.replicate_add _ _ _
  unfold lineAt
  rw [wider]
  simp

theorem flatMap_indented (depth : Nat) (block : List (List Char)) :
    (Haml.indented block).flatMap (lineAt depth) = block.flatMap (lineAt (depth + 1)) := by
  unfold Haml.indented
  rw [List.flatMap_map]
  exact List.flatMap_congr fun text _ => lineAt_succ depth text

theorem linePart_flatMap {block lines : List (List Char)} (part : block <:+: lines) (depth : Nat) :
    Text.LinePart (block.flatMap (lineAt depth)) (lines.flatMap (lineAt depth)) := by
  obtain ⟨before, after, rfl⟩ := part
  refine ⟨before.flatMap (lineAt depth), after.flatMap (lineAt depth), ?_, ?_⟩
  · rw [List.flatMap_append, List.flatMap_append]
  · exact Text.whole_flatMap fun line _ => whole_lineAt depth line

theorem Item.Copies.emitted {block : List (List Char)} {item : Item} (copies : item.Copies block)
    {depth : Nat} {text : List Char} (emitted : emitItem depth item = .ok text) :
    ∃ within, Text.LinePart (block.flatMap (lineAt within)) text := by
  cases copies with
  | even part =>
      rw [emitItem] at emitted
      cases emitted
      exact ⟨depth, linePart_flatMap part depth⟩
  | deeper part =>
      rw [emitItem] at emitted
      cases emitted
      have lines := linePart_flatMap part depth
      rw [flatMap_indented] at lines
      exact ⟨depth + 1, lines⟩

theorem lines_of_copies {block : List (List Char)} {items : List Item}
    (copies : Holds (Item.Copies block) items) (flat : ∀ text ∈ block, Text.Flat text)
    {text : List Char} (emitted : emit items = .ok text) :
    ∃ depth, block.map (lineAt depth) <:+: Text.lines text := by
  obtain ⟨item, within, own, copiesOwn, emittedOwn, part⟩ := copies.emitted emitted
  obtain ⟨depth, inner⟩ := copiesOwn.emitted emittedOwn
  have rows : ∀ row ∈ block.map (List.replicate (2 * depth) ' ' ++ ·), Text.Flat row := by
    rw [List.forall_mem_map]
    intro row member
    exact (Text.flat_blanks _).append (flat row member)
  have lines := Text.lines_rows rows
  rw [List.flatMap_map, List.map_map] at lines
  have whole : Text.Whole (block.flatMap (lineAt depth)) :=
    Text.whole_flatMap fun line _ => whole_lineAt depth line
  have inText := (inner.trans part).lines_within whole
  exact ⟨depth, lines ▸ inText⟩

theorem LineTree.rawNested_ne_nil {line : Line} {nested : List LineTree} (some : nested ≠ []) :
    LineTree.rawNested (.mk line nested) ≠ [] := by
  cases nested with
  | nil => exact absurd rfl some
  | cons first rest =>
      obtain ⟨line, nested⟩ := first
      exact List.cons_ne_nil _ _

namespace Haml

theorem isFilter_of_copied {line : Line} (copied : within line = .copied) :
    isFilter line.text = true := by
  unfold within at copied
  split at copied
  · cases copied
  · rename_i name text
    rw [text]
    rfl
  · cases copied
  · cases copied

theorem copies_own {line : Line} {nested : List LineTree} {own : List Item}
    (copied : within line = .copied) (reads : readTree (.mk line nested) = .ok own) :
    Holds (Item.Copies (LineTree.rawNested (.mk line nested))) own := by
  have filter := isFilter_of_copied copied
  obtain ⟨name, text⟩ := eq_of_isFilter filter
  rw [readTree] at reads
  split at reads
  · rename_i silent
    rw [text] at silent
    cases silent
  · obtain ⟨construct, readsConstruct, reads⟩ := except_bind_eq_ok.mp reads
    cases reads
    unfold readConstruct at readsConstruct
    rw [text] at readsConstruct
    obtain ⟨lines, checks, rfl⟩ := of_map_ok readsConstruct
    rcases filterLines_part (of_check checks) with part | part
    · exact .here (.even part)
    · exact .here (.deeper part)

end Haml

namespace Jade

theorem head_of_copied {line : Line} (noComment : ∀ rest, line.text ≠ '/' :: '/' :: rest)
    (copied : within line = .copied) :
    readSimple line = .ok none ∧ ∃ head, readHead line = .ok head ∧ head.rest = ['.'] ∧
      head.tag ∈ rawTextTags := by
  rw [within_of_noComment noComment] at copied
  unfold withinShown at copied
  split at copied
  · cases copied
  · rename_i head simple readsHead
    unfold Head.within at copied
    split at copied
    · rename_i dot
      split at copied
      · rename_i raw
        exact ⟨simple, head, readsHead, dot, List.contains_iff_mem.mp raw⟩
      · cases copied
    · cases copied
  · cases copied

theorem copies_own {line : Line} {nested : List LineTree} {own : List Item}
    (copied : within line = .copied) (some : nested ≠ [])
    (reads : readTree (.mk line nested) = .ok own) :
    Holds (Item.Copies (LineTree.rawNested (.mk line nested))) own := by
  rw [readTree.eq_def] at reads
  dsimp only at reads
  split at reads
  · rename_i text
    rw [within, text] at copied
    cases copied
  · cases reads
    have busy : (LineTree.rawNested (.mk line nested)).isEmpty = false := by
      simpa using LineTree.rawNested_ne_nil some
    unfold readComment
    rw [busy]
    exact .inside rfl (.here (.even List.infix_rfl))
  · rename_i notHidden noComment
    obtain ⟨noSimple, head, readsHead, dot, raw⟩ := head_of_copied noComment copied
    obtain ⟨construct?, simple, reads⟩ := except_bind_eq_ok.mp reads
    cases noSimple.symm.trans simple
    dsimp only at reads
    split at reads
    · obtain ⟨headToo, readsToo, reads⟩ := except_bind_eq_ok.mp reads
      cases readsHead.symm.trans readsToo
      rw [if_pos dot] at reads
      obtain ⟨body, readsBody, same⟩ := except_bind_eq_ok.mp reads
      cases same
      unfold readTextBlock at readsBody
      rw [if_pos raw] at readsBody
      cases readsBody
      exact .inside rfl (.here (.even List.infix_rfl))
    · cases reads

end Jade

/-! Their lines in the source -/

variable {rules : LineRules} {context : Context} {lines : List Line} {trees : List LineTree}

theorem LineTree.rawNested_eq {nested : List LineTree}
    (flattened : (forestPlaces rules context nested).map (·.tree.line) = lines) (line : Line) :
    rawNested (mk line nested) = lines.map (Line.beyond (firstIndent lines)) := by
  cases nested with
  | nil =>
      cases flattened
      rfl
  | cons first rest =>
      obtain ⟨own, below⟩ := first
      change rawForest own.indent _ = _
      have head : firstIndent lines = own.indent := by
        rw [← flattened]
        rfl
      rw [rawForest_eq rules context, head, ← flattened, List.map_map]
      rfl

theorem Line.IsOf.beyond {line : Line} {raw : List Char} (isOf : line.IsOf raw)
    (busy : raw.all Text.isBlank = false) (spaces : ∀ c ∈ indentation raw, c = ' ') {base : Nat}
    (deep : base ≤ (indentation raw).length) :
    line.beyond base = (Text.trimEnd raw).drop base := by
  have indented : Text.trimEnd raw =
      List.replicate (indentation raw).length ' ' ++ Text.trimStart (Text.trimEnd raw) := by
    rw [← List.eq_replicate_of_mem spaces, indentation, ← Text.takeWhile_trimEnd busy]
    exact List.takeWhile_append_dropWhile.symm
  rw [Line.beyond, isOf.1, isOf.2]
  conv_rhs => rw [indented, List.drop_append_of_le_length (by simpa using deep), List.drop_replicate]

/-! Bodies -/

/-- How deep the first raw line is that is not blank. -/
def bodyIndent (body : List (List Char)) : Nat :=
  ((busyRaws body).head?.map fun raw => (indentation raw).length).getD 0

/-- Raw lines that are nested in the one before them, up to the raw lines `below`. They are indented
with spaces, and none is less deep than the first; all this leaves blank ones out. -/
structure NestedIn (head : List Char) (body below : List (List Char)) : Prop where
  deeper : ∀ raw ∈ busyRaws body, (indentation head).length < (indentation raw).length
  even : ∀ raw ∈ busyRaws body, bodyIndent body ≤ (indentation raw).length
  spaces : ∀ raw ∈ busyRaws body, ∀ c ∈ indentation raw, c = ' '
  ends : ∀ raw ∈ (busyRaws below).head?, (indentation raw).length ≤ (indentation head).length

/-- A block as it is copied: the raw lines that are not blank, without the blanks at their ends and
without the indentation of the first. -/
def blockLines (body : List (List Char)) : List (List Char) :=
  (busyRaws body).map fun raw => (Text.trimEnd raw).drop (bodyIndent body)

theorem NestedIn.beyond {head : List Char} {body below : List (List Char)}
    (nestedIn : NestedIn head body below) (held : List.Forall₂ Line.IsOf lines (busyRaws body)) :
    lines.map (Line.beyond (firstIndent lines)) = blockLines body := by
  have base : firstIndent lines = bodyIndent body := by
    unfold firstIndent bodyIndent
    generalize busyRaws body = raws at held
    cases held with
    | nil => rfl
    | cons isOf _ => exact isOf.1
  rw [base, blockLines, ← List.forall₂_eq_eq_eq, List.forall₂_map_left_iff,
    List.forall₂_map_right_iff, List.forall₂_iff_zip]
  refine ⟨held.length_eq, ?_⟩
  intro line raw member
  have isOf := List.forall₂_zip held member
  have among := (List.of_mem_zip member).2
  have busy : raw.all Text.isBlank = false := by
    simpa using (List.mem_filter.mp among).2
  exact isOf.beyond busy (nestedIn.spaces raw among) (nestedIn.even raw among)

theorem split_at_number {first last before after : List Line} {line : Line}
    (split : first ++ last = before ++ line :: after)
    (sorted : (first ++ last).Pairwise fun line other => line.number < other.number)
    (within : ∀ other ∈ first, other.number ≤ line.number)
    (past : ∀ other ∈ last, line.number < other.number) :
    first = before ++ [line] ∧ last = after := by
  rw [split, List.pairwise_append, List.pairwise_cons] at sorted
  obtain ⟨-, ⟨pastToo, -⟩, ordered⟩ := sorted
  have withinToo : ∀ other ∈ before ++ [line], other.number ≤ line.number := by
    intro other member
    rcases List.mem_append.mp member with earlier | own
    · exact (ordered other earlier line List.mem_cons_self).le
    · rw [List.mem_singleton.mp own]
  have splitToo : first ++ last = (before ++ [line]) ++ after := by
    rw [split, List.append_assoc]
    rfl
  have parted {part rest : List Line} (within : ∀ other ∈ part, other.number ≤ line.number)
      (past : ∀ other ∈ rest, line.number < other.number) :
      (part ++ rest).takeWhile (·.number ≤ line.number) = part ∧
        (part ++ rest).dropWhile (·.number ≤ line.number) = rest := by
    have kept : ∀ other ∈ part, decide (other.number ≤ line.number) = true :=
      fun other member => decide_eq_true (within other member)
    have ends : ∀ other, rest.head? = some other →
        decide (other.number ≤ line.number) = false :=
      fun other head => decide_eq_false (Nat.not_le.mpr (past other (List.mem_of_mem_head? head)))
    exact ⟨Text.takeWhile_exact kept ends, Text.dropWhile_exact kept ends⟩
  obtain ⟨taken, dropped⟩ := parted within past
  obtain ⟨takenToo, droppedToo⟩ := parted withinToo pastToo
  rw [splitToo] at taken dropped
  exact ⟨taken.symm.trans takenToo, dropped.symm.trans droppedToo⟩

theorem exists_raw {held : List (List Char)} (isOf : List.Forall₂ Line.IsOf lines held)
    {line : Line} (member : line ∈ lines) : ∃ raw ∈ held, line.IsOf raw := by
  induction isOf with
  | nil => cases member
  | cons here _ ih =>
      rcases List.mem_cons.mp member with rfl | later
      · exact ⟨_, List.mem_cons_self, here⟩
      · obtain ⟨raw, among, isOf⟩ := ih later
        exact ⟨raw, List.mem_cons_of_mem _ among, isOf⟩

theorem NestedIn.flattened {head : List Char} {above body below : List (List Char)}
    (nestedIn : NestedIn head body below) {level : Nat} {line : Line} {nested : List LineTree}
    (reads : linesFrom 1 0 (above ++ head :: (body ++ below)) = .ok lines)
    (built : LineTree.forest level lines = .ok trees)
    (member : ⟨context, .mk line nested⟩ ∈ LineTree.forestPlaces rules .markup trees)
    (number : line.number = above.length + 1) :
    List.Forall₂ Line.IsOf
      ((LineTree.forestPlaces rules (rules.under context line) nested).map (·.tree.line))
      (busyRaws body) := by
  obtain ⟨before, after, split, flattened⟩ := LineTree.nested_eq_takeWhile built member
  -- which lines are those of the body is known by their numbers
  have sorted := sorted_linesFrom reads
  obtain ⟨aboveLines, rest, readsAbove, readsRest, rfl⟩ := linesFrom_append reads
  change linesFrom _ _ ([head] ++ (body ++ below)) = _ at readsRest
  obtain ⟨own, inner, readsOwn, readsInner, rfl⟩ := linesFrom_append readsRest
  obtain ⟨upTo, rfl⟩ : aboveLines ++ own = before ++ [line] ∧ inner = after := by
    rw [← List.append_assoc] at split sorted
    refine split_at_number split sorted ?_ ?_
    · intro other among
      rcases List.mem_append.mp among with earlier | here
      · have := number_of_linesFrom readsAbove earlier
        omega
      · have := number_of_linesFrom readsOwn here
        rw [List.length_singleton] at this
        omega
    · intro other later
      have := number_of_linesFrom readsInner later
      rw [List.length_singleton] at this
      omega
  have isOf : line.IsOf head := by
    have among : line ∈ aboveLines ++ own := by
      rw [upTo]
      simp
    rcases List.mem_append.mp among with earlier | here
    · have := number_of_linesFrom readsAbove earlier
      omega
    · obtain ⟨raw, only, isOf⟩ := exists_raw (linesFrom_busyRaws readsOwn) here
      rw [List.mem_singleton.mp (List.mem_of_mem_filter only)] at isOf
      exact isOf
  obtain ⟨bodyLines, belowLines, readsBody, readsBelow, rfl⟩ := linesFrom_append readsInner
  have held := linesFrom_busyRaws readsBody
  have heldBelow := linesFrom_busyRaws readsBelow
  have exactly : (bodyLines ++ belowLines).takeWhile (line.indent < ·.indent) = bodyLines := by
    apply Text.takeWhile_exact
    · intro other among
      obtain ⟨raw, busy, isOfRaw⟩ := exists_raw held among
      have deeper := nestedIn.deeper raw busy
      rw [← isOfRaw.1, ← isOf.1] at deeper
      exact decide_eq_true deeper
    · intro next head
      have ends := nestedIn.ends
      generalize busyRaws below = raws at heldBelow ends
      cases heldBelow with
      | nil => cases head
      | @cons _ raw _ _ isOfRaw _ =>
          cases head
          have notDeeper := ends raw rfl
          rw [← isOfRaw.1, ← isOf.1] at notDeeper
          exact decide_eq_false (Nat.not_lt.mpr notDeeper)
  rw [flattened, exactly]
  exact held

/-! Whole sources -/

section

variable {dialect : Dialect} {source : String} {path : Path} {output : String}
  {above body below : List (List Char)} {head : List Char} {line : Line} {nested : List LineTree}

theorem flat_blockLines (split : Text.lines source.toList = above ++ head :: (body ++ below)) :
    ∀ text ∈ blockLines body, Text.Flat text := by
  unfold blockLines
  rw [List.forall_mem_map]
  intro raw busy
  have member : raw ∈ Text.lines source.toList := by
    rw [split]
    simp [List.mem_of_mem_filter busy]
  exact (Text.flat_trimEnd member).subset (List.drop_subset _ _)

theorem compileWith_copies {read : LineTree → Except Complaint (List Item)}
    {readAll : List LineTree → Except Complaint (List Item)}
    (reaches : ∀ (trees : List LineTree) {items : List Item} {line : Line}
      {nested : List LineTree}, readAll trees = .ok items →
      ⟨.markup, .mk line nested⟩ ∈ LineTree.forestPlaces rules .markup trees →
      ∃ own, read (.mk line nested) = .ok own ∧ Reaches own items)
    (copiesOwn : ∀ {line : Line} {nested : List LineTree} {own : List Item},
      rules.within line = .copied → nested ≠ [] → read (.mk line nested) = .ok own →
      Holds (Item.Copies (LineTree.rawNested (.mk line nested))) own)
    (compiled : compileWith dialect readAll source path = .ok output)
    (split : Text.lines source.toList = above ++ head :: (body ++ below))
    (placed : ⟨.markup, .mk line nested⟩ ∈ LineTree.sourcePlaces rules source.toList)
    (number : line.number = above.length + 1) (copies : rules.within line = .copied)
    (nestedIn : NestedIn head body below) :
    ∃ depth, (blockLines body).map (lineAt depth) <:+: Text.lines output.toList := by
  obtain ⟨trees, built, emitted⟩ := except_bind_eq_ok.mp (compileWith_eq_ok.mp compiled)
  obtain ⟨items, reads, emitted⟩ := except_bind_eq_ok.mp emitted
  rw [LineTree.sourcePlaces, built] at placed
  obtain ⟨lines, readsLines, built⟩ := except_bind_eq_ok.mp built
  rw [split] at readsLines
  have block : LineTree.rawNested (.mk line nested) = blockLines body := by
    rw [LineTree.rawNested_eq rfl]
    exact nestedIn.beyond (nestedIn.flattened readsLines built placed number)
  -- nothing may be nested in the block, which then has no item of its own
  by_cases empty : nested = []
  · rw [empty] at block
    rw [← block]
    exact ⟨0, List.nil_infix⟩
  · obtain ⟨own, readsOwn, reachesOwn⟩ := reaches trees reads placed
    have copied := reachesOwn _ (copiesOwn copies empty readsOwn)
    rw [block] at copied
    exact lines_of_copies copied (flat_blockLines split) emitted

end

/-- The body of a block that is copied is in the template, one line for each of its own that is not
blank: the blanks at the end are left out, and the indentation of the first is replaced by that of the
template. The block has to be read as one, rather than be hidden, left out or part of another. -/
theorem compiled_copies_blocks {dialect : Dialect} {compiler : Compiler} {rules : LineRules}
    {source : String} {path : Path} {output : String} {above body below : List (List Char)}
    {head : List Char} {line : Line} {nested : List LineTree}
    (registered : Compilers.standard.compiler? dialect = some compiler)
    (ruled : lineRules? dialect = some rules) (compiled : compiler source path = .ok output)
    (split : Text.lines source.toList = above ++ head :: (body ++ below))
    (placed : ⟨.markup, .mk line nested⟩ ∈ LineTree.sourcePlaces rules source.toList)
    (number : line.number = above.length + 1) (copies : rules.within line = .copied)
    (nestedIn : NestedIn head body below) :
    ∃ depth, (blockLines body).map (lineAt depth) <:+: Text.lines output.toList := by
  cases dialect with
  | haml =>
      cases registered
      cases ruled
      exact compileWith_copies Haml.reaches_forest (fun copied _ => Haml.copies_own copied)
        compiled split placed number copies nestedIn
  | jade =>
      cases registered
      cases ruled
      exact compileWith_copies Jade.reaches_forest Jade.copies_own compiled split placed number
        copies nestedIn
  | native => cases ruled

/-- The body of a script with a blank line and with blanks at an end. -/
theorem script_copied_in_section : ∃ output depth,
    compileHaml "%div\n  :javascript\n    a;\n\n      b;  \n    c;\n  %p end\n"
        (.ofString "views/a.haml") = .ok output ∧
      ["a;".toList, "  b;".toList, "c;".toList].map (lineAt depth) <:+:
        Text.lines output.toList := by
  let source := "%div\n  :javascript\n    a;\n\n      b;  \n    c;\n  %p end\n"
  let body := ["    a;\n".toList, "\n".toList, "      b;  \n".toList, "    c;\n".toList]
  have compiles : (compileHaml source (.ofString "views/a.haml")).toBool = true := by
    decide +kernel
  have placed : ((LineTree.sourcePlaces Haml.lineRules source.toList).any fun placed =>
      placed.context == .markup && (placed.tree.line.number == 2 &&
        Haml.within placed.tree.line == .copied)) = true := by
    decide +kernel
  have spaces : ((busyRaws body).all fun raw => (indentation raw).all (· == ' ')) = true := by
    decide +kernel
  have nestedIn : NestedIn "  :javascript\n".toList body ["  %p end\n".toList] :=
    ⟨by decide +kernel, by decide +kernel, by simpa using spaces, by decide +kernel⟩
  have lines : blockLines body = ["a;".toList, "  b;".toList, "c;".toList] := by
    decide +kernel
  cases compiled : compileHaml source (.ofString "views/a.haml") with
  | error error =>
      rw [compiled] at compiles
      cases compiles
  | ok output =>
      obtain ⟨⟨context, line, nested⟩, member, is⟩ := List.any_eq_true.mp placed
      obtain ⟨markup, is⟩ := Bool.and_eq_true_iff.mp is
      obtain ⟨second, copies⟩ := Bool.and_eq_true_iff.mp is
      cases beq_iff_eq.mp markup
      have split : Text.lines source.toList =
          ["%div\n".toList] ++ "  :javascript\n".toList :: (body ++ ["  %p end\n".toList]) := by
        decide +kernel
      obtain ⟨depth, copied⟩ := @compiled_copies_blocks .haml _ Haml.lineRules _ _ _ _ _ _ _ line
        nested rfl rfl compiled split member (beq_iff_eq.mp second) (beq_iff_eq.mp copies) nestedIn
      rw [lines] at copied
      exact ⟨output, depth, rfl, copied⟩

/-- Whatever the three lines of a body with a blank one should be written as, two are written; and
the blanks at the end of a line are not. -/
theorem blanks_of_plain_block_left_out :
    (compileHaml ":plain\n  a\n\n  b" (.ofString "views/a.haml")).toOption = some "a\nb\n" ∧
      (∀ written : List (List Char), written.length = 3 →
        ¬written <:+: Text.lines "a\nb\n".toList) ∧
      (compileHaml ":plain\n  a  " (.ofString "views/a.haml")).toOption = some "a\n" ∧
      ∀ depth, lineAt depth "a  ".toList ∉ Text.lines "a\n".toList := by
  refine ⟨by decide +kernel, ?_, by decide +kernel, ?_⟩
  · intro written three part
    have shorter := part.length_le
    rw [three] at shorter
    exact absurd shorter (by decide +kernel)
  · intro depth member
    have same : lineAt depth "a  ".toList = "a\n".toList := by
      simpa [Text.lines] using member
    have long := congrArg List.length same
    simp [lineAt] at long

end ThemeRender.Markup
