import Mathlib.Data.List.Chain
import ThemeRender.Proofs.Markup.Words
import ThemeRender.Proofs.Outcome

namespace ThemeRender.Markup

open Outcome (of_map_ok of_map_error)

/-! ## One step of the reading -/

variable {literal rest inner : List Char}

theorem mark_cons {c : Char} {s : List Char} :
    exprOpen <+: c :: s ↔ c = '#' ∧ s.head? = some '\x7b' := by
  cases s with
  | nil => simp [exprOpen, List.cons_prefix_cons]
  | cons d rest => simp [exprOpen, List.cons_prefix_cons, eq_comm]

theorem piecesAfter_of_cut_none {s : List Char} (noMark : Text.cut? exprOpen s = none) :
    piecesAfter literal s = .ok (textPiece (literal ++ s)) := by
  rw [piecesAfter]
  split
  · rfl
  · simp_all

theorem piecesAfter_of_cut {s before after : List Char}
    (cut : Text.cut? exprOpen s = some (before, after)) :
    piecesAfter literal s =
      if before.getLast? = some '\\' then piecesAfter (literal ++ before.dropLast ++ exprOpen) after
      else
        match Text.cut? exprClose after with
        | none => .error .unterminatedInterpolation
        | some (inner, rest) =>
            if (Text.trim inner).isEmpty then .error .emptyInterpolation
            else
              (piecesAfter [] rest).map fun pieces =>
                textPiece (literal ++ before) ++ .expr (Text.trim inner) :: pieces := by
  rw [piecesAfter]
  split
  · simp_all
  · rename_i found
    rw [cut] at found
    cases found
    split
    · rfl
    · split
      · rename_i closes
        rw [closes]
      · rename_i closes
        rw [closes]

@[simp] theorem piecesAfter_nil : piecesAfter literal [] = .ok (textPiece literal) := by
  rw [piecesAfter_of_cut_none rfl, List.append_nil]

theorem piecesAfter_char {c : Char} (unmarked : ¬ exprOpen <+: c :: rest)
    (unescaping : c = '\\' → ¬ exprOpen <+: rest) :
    piecesAfter literal (c :: rest) = piecesAfter (literal ++ [c]) rest := by
  have cutCons : Text.cut? exprOpen (c :: rest) =
      (Text.cut? exprOpen rest).map fun parts => (c :: parts.1, parts.2) := by
    rw [Text.cut?, if_neg (mt List.isPrefixOf_iff_prefix.mp unmarked)]
  cases cut : Text.cut? exprOpen rest with
  | none =>
      rw [piecesAfter_of_cut_none cut, piecesAfter_of_cut_none (by rw [cutCons, cut]; rfl)]
      simp
  | some parts =>
      obtain ⟨before, after⟩ := parts
      rw [piecesAfter_of_cut cut, piecesAfter_of_cut (by rw [cutCons, cut]; rfl)]
      cases before with
      | nil =>
          have other : c ≠ '\\' := by
            rintro rfl
            refine unescaping rfl ⟨after, ?_⟩
            simpa using (Text.cut?_eq_some cut).symm
          simp [other]
      | cons d more => simp

theorem piecesAfter_escaped :
    piecesAfter literal ('\\' :: exprOpen ++ rest) = piecesAfter (literal ++ exprOpen) rest := by
  have cut : Text.cut? exprOpen ('\\' :: exprOpen ++ rest) = some (['\\'], rest) :=
    Text.cut?_mark (s := ['\\']) (by decide) (by decide) rest
  rw [piecesAfter_of_cut cut]
  simp

theorem cut?_exprOpen : Text.cut? exprOpen (exprOpen ++ rest) = some ([], rest) :=
  Text.cut?_mark (s := []) (by decide) Text.lacks_nil rest

theorem piecesAfter_expr (closes : '\x7d' ∉ inner) :
    piecesAfter literal (exprOpen ++ inner ++ exprClose ++ rest) =
      if (Text.trim inner).isEmpty then .error .emptyInterpolation
      else
        (piecesAfter [] rest).map fun pieces =>
          textPiece literal ++ .expr (Text.trim inner) :: pieces := by
  have cutClose : Text.cut? exprClose (inner ++ exprClose ++ rest) = some (inner, rest) := by
    rw [List.append_assoc]
    exact Text.cut?_char closes rest
  rw [List.append_assoc, List.append_assoc, ← List.append_assoc inner,
    piecesAfter_of_cut cut?_exprOpen, cutClose]
  simp

theorem piecesAfter_unterminated {after : List Char} (unclosed : '\x7d' ∉ after) :
    piecesAfter literal (exprOpen ++ after) = .error .unterminatedInterpolation := by
  rw [piecesAfter_of_cut cut?_exprOpen, exprClose, Text.cut?_of_not_mem unclosed]
  rfl

/-! ## Writing pieces -/

/-- A text with a backslash before every mark. -/
def escapeMarks : List Char → List Char
  | '#' :: '\x7b' :: rest => '\\' :: exprOpen ++ escapeMarks rest
  | c :: rest => c :: escapeMarks rest
  | [] => []

def Piece.spelling : Piece → List Char
  | .text contents => escapeMarks contents
  | .expr code => exprOpen ++ code ++ exprClose

def spellingOf (pieces : List Piece) : List Char :=
  pieces.flatMap Piece.spelling

/-- A piece that interpolation can yield: a text is not empty, and code is what stands between
blanks up to the first end of an expression. -/
def Piece.Neat : Piece → Prop
  | .text contents => contents ≠ []
  | .expr code => code ≠ [] ∧ Text.trim code = code ∧ '\x7d' ∉ code

/-- A backslash at the end of a text would escape the expression after it. -/
def Piece.MayPrecede : Piece → Piece → Prop
  | .text _, .text _ => False
  | .text contents, .expr _ => contents.getLast? ≠ some '\\'
  | .expr _, _ => True

instance : DecidablePred Piece.Neat
  | .text contents => inferInstanceAs (Decidable (contents ≠ []))
  | .expr code => inferInstanceAs (Decidable (code ≠ [] ∧ Text.trim code = code ∧ '\x7d' ∉ code))

instance : DecidableRel Piece.MayPrecede
  | .text _, .text _ => isFalse id
  | .text contents, .expr _ => inferInstanceAs (Decidable (contents.getLast? ≠ some '\\'))
  | .expr _, _ => isTrue trivial

structure WellSplit (pieces : List Piece) : Prop where
  neat : ∀ piece ∈ pieces, piece.Neat
  apart : pieces.IsChain Piece.MayPrecede

theorem WellSplit.tail {piece : Piece} {pieces : List Piece} (well : WellSplit (piece :: pieces)) :
    WellSplit pieces where
  neat found member := well.neat found (List.mem_cons_of_mem _ member)
  apart := well.apart.tail

theorem wellSplit_textPiece (contents : List Char) : WellSplit (textPiece contents) := by
  cases contents with
  | nil => exact ⟨fun _ member => (List.not_mem_nil member).elim, .nil⟩
  | cons c rest =>
      refine ⟨fun piece member => ?_, .singleton _⟩
      rw [List.mem_singleton.mp member]
      exact List.cons_ne_nil c rest

theorem wellSplit_expr {code : List Char} {pieces : List Piece} (neat : (Piece.expr code).Neat)
    (well : WellSplit pieces) : WellSplit (.expr code :: pieces) where
  neat := List.forall_mem_cons.mpr ⟨neat, well.neat⟩
  apart := List.isChain_cons.mpr ⟨fun _ _ => trivial, well.apart⟩

theorem wellSplit_textPiece_expr {contents code : List Char} {pieces : List Piece}
    (unescaping : contents.getLast? ≠ some '\\') (well : WellSplit (.expr code :: pieces)) :
    WellSplit (textPiece contents ++ .expr code :: pieces) := by
  cases contents with
  | nil => exact well
  | cons c rest =>
      exact ⟨List.forall_mem_cons.mpr ⟨List.cons_ne_nil c rest, well.neat⟩,
        .cons_cons unescaping well.apart⟩

/-! ## Reading what was written -/

/-- No mark arises where two texts meet, and none of the second is escaped by the first. -/
structure Seamless (before s : List Char) : Prop where
  unmarked : before.getLast? = some '#' → s.head? ≠ some '\x7b'
  unescaping : before.getLast? = some '\\' → ¬ exprOpen <+: s

theorem Seamless.of_cons {c : Char} {before s : List Char} (seamless : Seamless (c :: before) s) :
    Seamless before s := by
  cases before with
  | nil => exact ⟨fun none => (nomatch none), fun none => (nomatch none)⟩
  | cons d more => exact ⟨seamless.unmarked, seamless.unescaping⟩

theorem seamless_nil (before : List Char) : Seamless before [] :=
  ⟨fun _ none => (nomatch none), fun _ marked => (nomatch List.prefix_nil.mp marked)⟩

theorem seamless_mark {before : List Char} (unescaping : before.getLast? ≠ some '\\')
    (s : List Char) : Seamless before (exprOpen ++ s) :=
  ⟨fun _ other => (nomatch other), fun escaping => (unescaping escaping).elim⟩

theorem seamless_escape (before s : List Char) : Seamless before ('\\' :: s) :=
  ⟨fun _ other => (nomatch other), fun _ marked => (nomatch (mark_cons.mp marked).1)⟩

variable {s more : List Char}

theorem head_escapeMarks :
    (escapeMarks s ++ more).head? = some '\x7b' → (s ++ more).head? = some '\x7b' := by
  fun_cases escapeMarks s with
  | case1 rest => exact nofun
  | case2 c rest other => exact id
  | case3 => exact id

theorem not_mark_escapeMarks (seamless : Seamless s more) (some : s ≠ []) :
    ¬ exprOpen <+: escapeMarks s ++ more := by
  fun_cases escapeMarks s with
  | case1 rest => exact fun marked => nomatch (mark_cons.mp marked).1
  | case2 c rest other =>
      intro marked
      obtain ⟨rfl, starts⟩ := mark_cons.mp marked
      have next := head_escapeMarks starts
      cases rest with
      | nil => exact seamless.unmarked rfl next
      | cons d rest =>
          obtain rfl := Option.some.inj next
          exact other rest rfl rfl
  | case3 => exact absurd rfl some

theorem piecesAfter_escapeMarks (seamless : Seamless s more) :
    piecesAfter literal (escapeMarks s ++ more) = piecesAfter (literal ++ s) more := by
  fun_induction escapeMarks s generalizing literal with
  | case1 rest ih =>
      have escaped := @piecesAfter_escaped literal (escapeMarks rest ++ more)
      rw [List.append_assoc, escaped, ih seamless.of_cons.of_cons, List.append_assoc]
      rfl
  | case2 c rest other ih =>
      have unmarked : ¬ exprOpen <+: escapeMarks (c :: rest) ++ more :=
        not_mark_escapeMarks seamless (List.cons_ne_nil c rest)
      rw [List.cons_append, piecesAfter_char, ih seamless.of_cons, List.append_assoc]
      · rfl
      · rwa [escapeMarks.eq_2 c rest other] at unmarked
      · rintro rfl
        cases rest with
        | nil => exact seamless.unescaping rfl
        | cons d rest => exact not_mark_escapeMarks seamless.of_cons (List.cons_ne_nil d rest)
  | case3 => rw [List.nil_append, List.append_nil]

theorem seamless_spelling {contents : List Char} {pieces : List Piece}
    (well : WellSplit (.text contents :: pieces)) : Seamless contents (spellingOf pieces) := by
  cases pieces with
  | nil => exact seamless_nil contents
  | cons piece rest =>
      have apart := (List.isChain_cons_cons.mp well.apart).1
      cases piece with
      | text _ => exact apart.elim
      | expr code =>
          rw [spellingOf, List.flatMap_cons, Piece.spelling, List.append_assoc, List.append_assoc]
          exact seamless_mark apart _

theorem piecesAfter_spellingOf {pieces : List Piece}
    (well : WellSplit (textPiece literal ++ pieces)) :
    piecesAfter literal (spellingOf pieces) = .ok (textPiece literal ++ pieces) := by
  induction pieces generalizing literal with
  | nil => rw [List.append_nil]; exact piecesAfter_nil
  | cons piece rest ih =>
      cases piece with
      | text contents =>
          cases literal with
          | cons c more => exact (List.isChain_cons_cons.mp well.apart).1.elim
          | nil =>
              have some : contents ≠ [] := well.neat (.text contents) List.mem_cons_self
              have asPiece : textPiece contents = [.text contents] := by simp [textPiece, some]
              have next := @ih contents (by rw [asPiece]; exact well)
              rw [asPiece] at next
              exact (piecesAfter_escapeMarks (seamless_spelling well)).trans next
      | expr code =>
          obtain ⟨some, trimmed, closes⟩ : (Piece.expr code).Neat :=
            well.neat (.expr code) (List.mem_append_right _ List.mem_cons_self)
          have wellRest : WellSplit rest := by
            refine WellSplit.tail ⟨fun found member => ?_, well.apart.right_of_append⟩
            exact well.neat found (List.mem_append_right _ member)
          have busy : code.isEmpty = false := by simpa using some
          have reads := @piecesAfter_expr literal (spellingOf rest) code closes
          have next := @ih [] wellRest
          rw [trimmed, busy, next] at reads
          exact reads

theorem interpolate_spellingOf {pieces : List Piece} (well : WellSplit pieces) :
    interpolate (spellingOf pieces) = .ok pieces :=
  @piecesAfter_spellingOf [] pieces well

/-! ## What a text is read as -/

theorem unescaping_append {first second : List Char} (unescaping : first.getLast? ≠ some '\\')
    (unescapingToo : second.getLast? ≠ some '\\') : (first ++ second).getLast? ≠ some '\\' := by
  rw [List.getLast?_append, ne_eq, Option.or_eq_some_iff]
  rintro (inSecond | ⟨-, inFirst⟩)
  · exact unescapingToo inSecond
  · exact unescaping inFirst

theorem wellSplit_piecesAfter {pieces : List Piece} (unescaping : literal.getLast? ≠ some '\\')
    (reads : piecesAfter literal s = .ok pieces) : WellSplit pieces := by
  fun_induction piecesAfter literal s generalizing pieces with
  | case1 literal s noOpen =>
      cases reads
      exact wellSplit_textPiece _
  | case2 literal s before after opened escaped ih =>
      exact ih (by simp [exprOpen]) reads
  | case3 => cases reads
  | case4 => cases reads
  | case5 literal s before after opened notEscaped inner rest closed code some =>
      rename_i ih
      obtain ⟨more, readsMore, rfl⟩ := of_map_ok reads
      have absent : '\x7d' ∉ inner := Text.not_mem_before_cut? closed
      have neat : (Piece.expr code).Neat := by
        refine ⟨by simpa using some, Text.trim_trim inner, fun member => absent ?_⟩
        exact (Text.trim_isInfix inner).subset member
      exact wellSplit_textPiece_expr (unescaping_append unescaping notEscaped)
        (wellSplit_expr neat (ih (by simp) readsMore))

theorem wellSplit_of_interpolate {pieces : List Piece} (reads : interpolate s = .ok pieces) :
    WellSplit pieces :=
  wellSplit_piecesAfter (by simp) reads

/-! ## Where reading fails -/

/-- Reading passes over the text: expressions that open in it end in it, and every other mark in it
is escaped. -/
inductive Passed : List Char → Prop
  | nil : Passed []
  | escaped {rest : List Char} (passed : Passed rest) : Passed ('\\' :: exprOpen ++ rest)
  | expr {inner rest : List Char} (closes : '\x7d' ∉ inner) (passed : Passed rest) :
      Passed (exprOpen ++ inner ++ exprClose ++ rest)
  | char {c : Char} {rest : List Char} (unmarked : ¬ exprOpen <+: c :: rest)
      (unescaping : c = '\\' → ¬ exprOpen <+: rest) (passed : Passed rest) : Passed (c :: rest)

/-- No expression can be read after its mark: it does not end, or only blanks stand before its
end. -/
def Unfinished (after : List Char) : Prop :=
  '\x7d' ∉ after ∨
    ∃ blanks rest, after = blanks ++ exprClose ++ rest ∧ ∀ c ∈ blanks, Text.isBlank c = true

theorem passed_of_lacks (lacks : Text.Lacks exprOpen s) : Passed s := by
  induction s with
  | nil => exact .nil
  | cons c rest ih =>
      have lacksRest : Text.Lacks exprOpen rest := lacks.of_append_right (s := [c])
      refine .char (fun marked => lacks marked.isInfix) (fun _ marked => ?_) (ih lacksRest)
      exact lacksRest marked.isInfix

theorem Seamless.of_append {first before s : List Char} (seamless : Seamless (first ++ before) s) :
    Seamless before s := by
  induction first with
  | nil => exact seamless
  | cons c rest ih => exact ih seamless.of_cons

theorem not_mark_append {before : List Char} (some : before ≠ [])
    (unmarked : ¬ exprOpen <+: before) (seamless : Seamless before s) :
    ¬ exprOpen <+: before ++ s := by
  match before with
  | [] => exact absurd rfl some
  | [c] =>
      intro marked
      obtain ⟨rfl, starts⟩ := mark_cons.mp marked
      exact seamless.unmarked rfl starts
  | c :: d :: rest =>
      intro marked
      obtain ⟨rfl, starts⟩ := mark_cons.mp marked
      exact unmarked (mark_cons.mpr ⟨rfl, starts⟩)

theorem not_mark_after_escape {c : Char} {rest : List Char}
    (unescaping : c = '\\' → ¬ exprOpen <+: rest) (seamless : Seamless (c :: rest) s)
    (escape : c = '\\') : ¬ exprOpen <+: rest ++ s := by
  cases rest with
  | nil => exact seamless.unescaping (congrArg some escape)
  | cons d rest =>
      exact not_mark_append (List.cons_ne_nil d rest) (unescaping escape) seamless.of_cons

theorem Passed.append {before : List Char} (passed : Passed before) (passedAfter : Passed s)
    (seamless : Seamless before s) : Passed (before ++ s) := by
  induction passed with
  | nil => exact passedAfter
  | escaped passed ih =>
      rw [List.append_assoc]
      exact .escaped (ih seamless.of_append)
  | expr closes passed ih =>
      rw [List.append_assoc]
      exact .expr closes (ih seamless.of_append)
  | @char c rest unmarked unescaping passed ih =>
      exact .char (not_mark_append (List.cons_ne_nil c rest) unmarked seamless)
        (not_mark_after_escape unescaping seamless) (ih seamless.of_cons)

/-! ## The template of a text -/

def templateOf (s : List Char) : Except CompileFault (List Char) :=
  (interpolate s).map templateOfPieces

theorem template_piecesAfter_append (front literal s : List Char) :
    (piecesAfter (front ++ literal) s).map templateOfPieces =
      ((piecesAfter literal s).map templateOfPieces).map (front ++ ·) := by
  fun_induction piecesAfter literal s with
  | case1 literal s noOpen =>
      rw [piecesAfter_of_cut_none noOpen]
      simp [Except.map, templateOfPieces_textPiece]
  | case2 literal s before after opened escaped ih =>
      rw [piecesAfter_of_cut opened, if_pos escaped, ← ih]
      simp
  | case3 literal s before after opened escaped closed =>
      rw [piecesAfter_of_cut opened, if_neg escaped, closed]
      rfl
  | case4 literal s before after opened escaped inner rest closed code none =>
      have blank : (Text.trim inner).isEmpty = true := none
      rw [piecesAfter_of_cut opened, if_neg escaped, closed]
      simp only [if_pos blank]
      rfl
  | case5 literal s before after opened escaped inner rest closed code some =>
      have busy : ¬ (Text.trim inner).isEmpty = true := some
      rw [piecesAfter_of_cut opened, if_neg escaped, closed]
      simp only [if_neg busy]
      cases piecesAfter [] rest with
      | error fault => rfl
      | ok pieces =>
          have fronts (contents : List Char) :
              templateOfPieces (textPiece contents ++ .expr code :: pieces) =
                contents ++ templateOfPieces (.expr code :: pieces) := by
            rw [templateOfPieces, List.flatMap_append]
            exact congrArg (· ++ _) (templateOfPieces_textPiece contents)
          refine congrArg Except.ok ?_
          rw [List.append_assoc front]
          exact (fronts _).trans
            ((List.append_assoc _ _ _).trans (congrArg (front ++ ·) (fronts _).symm))

theorem template_piecesAfter (literal s : List Char) :
    (piecesAfter literal s).map templateOfPieces = (templateOf s).map (literal ++ ·) := by
  have appended := template_piecesAfter_append literal [] s
  rwa [List.append_nil] at appended

theorem templateOf_of_lacks (lacks : Text.Lacks exprOpen s) : templateOf s = .ok s := by
  rw [templateOf, interpolate_of_lacks lacks]
  exact congrArg Except.ok (templateOfPieces_textPiece s)

theorem templateOf_nil : templateOf [] = .ok [] :=
  templateOf_of_lacks Text.lacks_nil

theorem templateOf_char {c : Char} (unmarked : ¬ exprOpen <+: c :: rest)
    (unescaping : c = '\\' → ¬ exprOpen <+: rest) :
    templateOf (c :: rest) = (templateOf rest).map (c :: ·) := by
  rw [templateOf, interpolate, piecesAfter_char unmarked unescaping]
  exact template_piecesAfter [c] rest

theorem templateOf_escaped :
    templateOf ('\\' :: exprOpen ++ rest) = (templateOf rest).map (exprOpen ++ ·) := by
  rw [templateOf, interpolate, piecesAfter_escaped]
  exact template_piecesAfter exprOpen rest

theorem templateOf_expr (closes : '\x7d' ∉ inner) :
    templateOf (exprOpen ++ inner ++ exprClose ++ rest) =
      if (Text.trim inner).isEmpty then .error .emptyInterpolation
      else (templateOf rest).map (outputTag (Text.trim inner) ++ ·) := by
  rw [templateOf, interpolate, piecesAfter_expr closes]
  split
  · rfl
  · rw [templateOf, interpolate]
    cases piecesAfter [] rest with
    | error fault => rfl
    | ok pieces => rfl

theorem map_bind_append (front : List Char) (first second : Except CompileFault (List Char)) :
    (do let a ← first; let b ← second; pure (a ++ b)).map (front ++ ·) =
      (do let a ← first.map (front ++ ·); let b ← second; pure (a ++ b)) := by
  cases first with
  | error fault => rfl
  | ok a =>
      cases second with
      | error fault => rfl
      | ok b => exact congrArg Except.ok (List.append_assoc front a b).symm

/-- A text that is passed over is read on its own, and then what meets it without a seam. -/
theorem templateOf_append {before : List Char} (passed : Passed before)
    (seamless : Seamless before s) :
    templateOf (before ++ s) =
      (do let a ← templateOf before; let b ← templateOf s; pure (a ++ b)) := by
  induction passed with
  | nil =>
      rw [List.nil_append, templateOf_nil]
      cases templateOf s with
      | error fault => rfl
      | ok template => rfl
  | escaped passed ih =>
      rw [List.append_assoc, templateOf_escaped, templateOf_escaped, ih seamless.of_append,
        map_bind_append]
  | expr closes passed ih =>
      rw [List.append_assoc, templateOf_expr closes, templateOf_expr closes, ih seamless.of_append]
      split
      · rfl
      · exact map_bind_append _ _ _
  | @char c rest unmarked unescaping passed ih =>
      have unmarkedBoth := not_mark_append (List.cons_ne_nil c rest) unmarked seamless
      have unescapingBoth := not_mark_after_escape unescaping seamless
      rw [templateOf_char unmarked unescaping]
      exact (templateOf_char unmarkedBoth unescapingBoth).trans
        (ih seamless.of_cons ▸ map_bind_append [c] _ _)

theorem seamless_blanks (width : Nat) (s : List Char) : Seamless (List.replicate width ' ') s := by
  have blank {c : Char} (last : (List.replicate width ' ').getLast? = some c) : c = ' ' :=
    List.eq_of_mem_replicate (List.mem_of_getLast? last)
  exact ⟨fun mark => absurd (blank mark) (by decide),
    fun escape => absurd (blank escape) (by decide)⟩

theorem lacks_blanks (width : Nat) : Text.Lacks exprOpen (List.replicate width ' ') :=
  Text.lacks_of_not_mem (Text.not_mem_blanks (by decide) width)

theorem Passed.indented {before : List Char} (passed : Passed before) (width : Nat) :
    Passed (List.replicate width ' ' ++ before) :=
  (passed_of_lacks (lacks_blanks width)).append passed (seamless_blanks width before)

theorem templateOf_indented (width : Nat) (s : List Char) :
    templateOf (List.replicate width ' ' ++ s) =
      (templateOf s).map (List.replicate width ' ' ++ ·) := by
  rw [templateOf_append (passed_of_lacks (lacks_blanks width)) (seamless_blanks width s),
    templateOf_of_lacks (lacks_blanks width)]
  cases templateOf s with
  | error fault => rfl
  | ok template => rfl

/-! ## Where reading fails -/

theorem interpolate_unfinished {after : List Char} (unfinished : Unfinished after) :
    ∃ fault, interpolate (exprOpen ++ after) = .error fault := by
  rcases unfinished with unclosed | ⟨blanks, rest, rfl, blank⟩
  · exact ⟨_, piecesAfter_unterminated unclosed⟩
  · have closes : '\x7d' ∉ blanks := fun member => nomatch blank _ member
    have none : (Text.trim blanks).isEmpty = true :=
      List.isEmpty_iff.mpr ((Text.trim_eq_nil_iff blanks).mpr (List.all_eq_true.mpr blank))
    refine ⟨.emptyInterpolation, ?_⟩
    rw [← List.append_assoc, ← List.append_assoc, interpolate, piecesAfter_expr closes, if_pos none]

theorem interpolate_of_opens {before after : List Char} (passed : Passed before)
    (unescaped : before.getLast? ≠ some '\\') (unfinished : Unfinished after) :
    ∃ fault, interpolate (before ++ exprOpen ++ after) = .error fault := by
  obtain ⟨fault, fails⟩ := interpolate_unfinished unfinished
  have template := templateOf_append passed (seamless_mark unescaped after)
  have failsToo : ∃ fault, templateOf (before ++ (exprOpen ++ after)) = .error fault := by
    rw [template, templateOf.eq_1 (exprOpen ++ after), fails]
    exact Outcome.bind_fails fun a _ => ⟨fault, rfl⟩
  obtain ⟨fault, fails⟩ := failsToo
  rw [List.append_assoc]
  exact ⟨fault, Outcome.of_map_error fails⟩

theorem opens_of_piecesAfter {fault : CompileFault} (fails : piecesAfter literal s = .error fault) :
    ∃ before after, s = before ++ exprOpen ++ after ∧ Passed before ∧
      before.getLast? ≠ some '\\' ∧ Unfinished after := by
  fun_induction piecesAfter literal s with
  | case1 => cases fails
  | case2 literal s before after opened escaped ih =>
      obtain ⟨passedOver, rest, rfl, passed, unescaped, unfinished⟩ := ih fails
      obtain ⟨front, rfl⟩ := List.getLast?_eq_some_iff.mp escaped
      have lacks : Text.Lacks exprOpen front := (Text.lacks_before_cut? opened).of_append_left
      have whole := Text.cut?_eq_some opened
      refine ⟨front ++ ('\\' :: exprOpen ++ passedOver), rest, ?_, ?_, ?_, unfinished⟩
      · simpa using whole
      · exact (passed_of_lacks lacks).append (.escaped passed) (seamless_escape front _)
      · rw [← List.append_assoc]
        exact unescaping_append (by simp [exprOpen]) unescaped
  | case3 literal s before after opened escaped closed =>
      exact ⟨before, after, Text.cut?_eq_some opened,
        passed_of_lacks (Text.lacks_before_cut? opened), escaped,
        .inl (Text.not_mem_of_cut?_none closed)⟩
  | case4 literal s before after opened escaped inner rest closed code none =>
      refine ⟨before, after, Text.cut?_eq_some opened,
        passed_of_lacks (Text.lacks_before_cut? opened), escaped, .inr ⟨inner, rest, ?_, ?_⟩⟩
      · exact Text.cut?_eq_some closed
      · have blank : Text.trim inner = [] := List.isEmpty_iff.mp none
        exact List.all_eq_true.mp ((Text.trim_eq_nil_iff inner).mp blank)
  | case5 literal s before after opened escaped inner rest closed code some =>
      rename_i ih
      obtain ⟨passedOver, later, rfl, passed, unescaped, unfinished⟩ := ih (of_map_error fails)
      have whole := Text.cut?_eq_some opened
      rw [Text.cut?_eq_some closed] at whole
      have lacks := Text.lacks_before_cut? opened
      have absent : '\x7d' ∉ inner := Text.not_mem_before_cut? closed
      refine ⟨before ++ (exprOpen ++ inner ++ exprClose ++ passedOver), later, ?_, ?_, ?_,
        unfinished⟩
      · simpa using whole
      · apply (passed_of_lacks lacks).append (.expr absent passed)
        rw [List.append_assoc, List.append_assoc]
        exact seamless_mark escaped _
      · rw [← List.append_assoc]
        exact unescaping_append (by simp [exprClose]) unescaped

/-- Interpolation undoes its notation: pieces that are well split are read back from how they are
written, whatever is read is well split, and what cannot be read is a text in which an expression
opens that has no end or nothing in it. -/
theorem interpolate_undoes_spelling :
    (∀ pieces, WellSplit pieces → interpolate (spellingOf pieces) = .ok pieces) ∧
      (∀ s pieces, interpolate s = .ok pieces → WellSplit pieces) ∧
      ∀ s, (∃ fault, interpolate s = .error fault) ↔
        ∃ before after, s = before ++ exprOpen ++ after ∧ Passed before ∧
          before.getLast? ≠ some '\\' ∧ Unfinished after := by
  refine ⟨fun pieces well => interpolate_spellingOf well,
    fun s pieces reads => wellSplit_of_interpolate reads, fun s => ⟨?_, ?_⟩⟩
  · rintro ⟨fault, fails⟩
    exact opens_of_piecesAfter fails
  · rintro ⟨before, after, rfl, passed, unescaped, unfinished⟩
    exact interpolate_of_opens passed unescaped unfinished

theorem marked_text_read_back :
    interpolate (spellingOf [.text "#\x7ba\\ #".toList, .expr "x".toList, .expr "y z".toList]) =
      .ok [.text "#\x7ba\\ #".toList, .expr "x".toList, .expr "y z".toList] :=
  interpolate_undoes_spelling.1 _ ⟨by decide, by decide⟩

end ThemeRender.Markup
