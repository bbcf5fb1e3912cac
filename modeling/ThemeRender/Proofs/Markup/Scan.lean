import ThemeRender.Markup.Emission
import ThemeRender.Proofs.Template.Related
import ThemeRender.Proofs.Template.TagCode
import ThemeRender.Proofs.Text.Lines
import ThemeRender.Proofs.Text.Marks
import ThemeRender.Template.Parse
import ThemeRender.Template.Segment
/-!
How far a template has been read, and how each kind of text takes the reading further. The text
before the next tag is not a node yet: the tag may still take the end of it away. Of the tags that a
compiler writes, an output tag leaves the text around it as it is; a line of code takes its
indentation and its line break with it.
-/

/-! Tags split off the text -/

namespace ThemeRender.Markup

open Template

theorem lacks_padded {code : List Char} (closed : Text.Lacks tagClose code) :
    Text.Lacks tagClose (' ' :: code ++ [' ']) := by
  apply Text.Lacks.append
  · exact closed.cons (by decide)
  · decide
  · exact .inr (by decide)

theorem cut?_padded {code : List Char} (closed : Text.Lacks tagClose code) (rest : List Char) :
    Text.cut? tagClose (' ' :: (code ++ ' ' :: '%' :: '>' :: rest)) =
      some (' ' :: code ++ [' '], rest) := by
  have split : ' ' :: (code ++ ' ' :: '%' :: '>' :: rest) =
      (' ' :: code ++ [' ']) ++ '%' :: '>' :: rest := by simp
  rw [split]
  exact Text.cut?_mark (by decide) (lacks_padded closed) rest

theorem outputTag_append (code rest : List Char) :
    outputTag code ++ rest =
      '<' :: '%' :: '=' :: ' ' :: (code ++ ' ' :: '%' :: '>' :: rest) := by
  simp [outputTag]

theorem codeTag_append (code rest : List Char) :
    codeTag code ++ rest = '<' :: '%' :: ' ' :: (code ++ ' ' :: '%' :: '>' :: rest) := by
  simp [codeTag]

theorem offset_of_rest (done : List Char) {s : List Char} (before rest : List Char)
    (whole : s = before ++ rest) :
    Text.byteLength done + Text.byteLength s - Text.byteLength rest =
      Text.byteLength (done ++ before) := by
  subst whole
  simp only [Text.byteLength_append]
  omega

theorem segmentsFrom_output (done : List Char) {lead code : List Char}
    (clean : Text.Lacks tagOpen lead) (closed : Text.Lacks tagClose code) (atLineStart : Bool)
    (rest : List Char) :
    segmentsFrom (Text.byteLength done) atLineStart (lead ++ (outputTag code ++ rest)) =
      (segmentsFrom (Text.byteLength (done ++ (lead ++ outputTag code))) false rest).map
        fun segments => textSegment lead ++ .tag .output (' ' :: code ++ [' '])
          (Text.byteLength (done ++ (lead ++ ['<', '%', '='])))
          ⟨Text.byteLength (done ++ lead),
            Text.byteLength (done ++ (lead ++ outputTag code))⟩ :: segments := by
  have opens := @Text.cut?_mark '<' '%' _ (by decide) clean
    ('=' :: ' ' :: (code ++ ' ' :: '%' :: '>' :: rest))
  rw [← outputTag_append] at opens
  have afterTag := offset_of_rest done (lead ++ outputTag code) rest (List.append_assoc _ _ _).symm
  have beforeCode := @offset_of_rest done (lead ++ (outputTag code ++ rest))
    (lead ++ ['<', '%', '=']) (' ' :: (code ++ ' ' :: '%' :: '>' :: rest))
    (by simp [outputTag_append])
  rw [segmentsFrom_cut opens (cut?_padded closed rest), Text.byteLength_append done lead]
  simp only [TagKind.ofText, wholeLine?, if_true, afterTag, beforeCode]

/-! A line of code -/

/-- What has been read of a line is nothing, or all of the lines before it. -/
def EndsLine (atLineStart : Bool) (lead : List Char) : Prop :=
  (lead = [] ∧ atLineStart = true) ∨ lead.getLast? = some '\n'

theorem withoutIndent?_append {atLineStart : Bool} {lead : List Char}
    (ends : EndsLine atLineStart lead) (width : Nat) :
    withoutIndent? atLineStart (lead ++ List.replicate width ' ') = some lead := by
  induction lead generalizing atLineStart with
  | nil =>
      rcases ends with ⟨_, rfl⟩ | impossible
      · cases width with
        | zero => rfl
        | succ width =>
            simp [List.replicate_succ, withoutIndent?, isIndent]
      · cases impossible
  | cons c rest ih =>
      rcases ends with ⟨impossible, _⟩ | last
      · cases impossible
      have endsAfter : EndsLine (c == '\n') rest := by
        cases rest with
        | nil =>
            left
            simpa using last
        | cons d more =>
            right
            simpa using last
      -- as the lead ends a line, it cannot be the indentation of one
      have feed : '\n' ∈ c :: rest := List.mem_of_getLast? last
      have notIndent : ((c :: (rest ++ List.replicate width ' ')).all isIndent) = false := by
        rw [Bool.eq_false_iff, Ne, List.all_eq_true]
        intro all
        have := all '\n' (List.mem_append_left (List.replicate width ' ') feed)
        exact absurd this (by decide)
      rw [List.cons_append, withoutIndent?, notIndent, Bool.and_false, if_neg (by simp),
        ih endsAfter]
      rfl

theorem lacks_indented {lead : List Char} (clean : Text.Lacks tagOpen lead)
    (width : Nat) : Text.Lacks tagOpen (lead ++ List.replicate width ' ') := by
  apply clean.append
  · exact Text.lacks_of_not_mem (Text.not_mem_blanks (by decide) width)
  · right
    cases width with
    | zero => simp
    | succ width => simp [List.replicate_succ]

theorem segmentsFrom_codeLine (done : List Char) {lead code : List Char} {atLineStart : Bool}
    (clean : Text.Lacks tagOpen lead) (ends : EndsLine atLineStart lead)
    (closed : Text.Lacks tagClose code) (depth : Nat) (rest : List Char) :
    segmentsFrom (Text.byteLength done) atLineStart
        (lead ++ (lineAt depth (codeTag code) ++ rest)) =
      (segmentsFrom (Text.byteLength (done ++ (lead ++ lineAt depth (codeTag code)))) true
        rest).map
        fun segments => textSegment lead ++ .tag .code (' ' :: code ++ [' '])
          (Text.byteLength (done ++ (lead ++ List.replicate (2 * depth) ' ' ++ ['<', '%'])))
          ⟨Text.byteLength (done ++ (lead ++ List.replicate (2 * depth) ' ')),
            Text.byteLength (done ++ (lead ++ List.replicate (2 * depth) ' ' ++ codeTag code))⟩ ::
              segments := by
  have split : lead ++ (lineAt depth (codeTag code) ++ rest) =
      (lead ++ List.replicate (2 * depth) ' ') ++ (codeTag code ++ '\n' :: rest) := by
    simp [lineAt]
  have opens := @Text.cut?_mark '<' '%' _ (by decide)
    (lacks_indented clean (2 * depth))
    (' ' :: (code ++ ' ' :: '%' :: '>' :: '\n' :: rest))
  rw [← codeTag_append, ← split] at opens
  have afterLine := offset_of_rest done (lead ++ lineAt depth (codeTag code)) rest
    (List.append_assoc _ _ _).symm
  have afterTag := @offset_of_rest done (lead ++ (lineAt depth (codeTag code) ++ rest))
    (lead ++ List.replicate (2 * depth) ' ' ++ codeTag code) ('\n' :: rest) (by simp [split])
  have beforeCode := @offset_of_rest done (lead ++ (lineAt depth (codeTag code) ++ rest))
    (lead ++ List.replicate (2 * depth) ' ' ++ ['<', '%'])
    (' ' :: (code ++ ' ' :: '%' :: '>' :: '\n' :: rest)) (by simp [split, codeTag_append])
  have line : wholeLine? .code atLineStart (lead ++ List.replicate (2 * depth) ' ')
      ('\n' :: rest) = some (lead, rest) := by
    simp [wholeLine?, withoutIndent?_append ends, afterLineBreak?]
  rw [segmentsFrom_cut opens (cut?_padded closed ('\n' :: rest)),
    Text.byteLength_append done (lead ++ List.replicate (2 * depth) ' ')]
  have kind (s : List Char) : TagKind.ofText (' ' :: s) = (.code, ' ' :: s) := rfl
  simp only [kind, line, afterLine, afterTag, beforeCode]

/-! Reading on -/

/-- A place in a template. -/
structure Scan where
  done : List Char
  /-- The text after it, in which no tag has come yet. -/
  lead : List Char
  atLineStart : Bool
  blocks : List OpenBlock
  nodes : List Node

namespace Scan

def start : Scan := ⟨[], [], true, [], []⟩

def text (scan : Scan) : List Char :=
  scan.done ++ scan.lead

def line (scan : Scan) : Nat :=
  scan.text.count '\n' + 1

def progress (scan : Scan) : Progress :=
  ⟨⟨scan.blocks, scan.nodes⟩, []⟩

def finish (scan : Scan) (rest : List Char) : Except SyntaxError Progress :=
  (segmentsFrom (Text.byteLength scan.done) scan.atLineStart (scan.lead ++ rest)).map
    (·.foldl Progress.step scan.progress)

/-- Reading goes on over a text to `next`, whatever comes after it. -/
structure Reaches (scan : Scan) (s : List Char) (next : Scan) : Prop where
  grows : next.text = scan.text ++ s
  goesOn : ∀ rest, scan.finish (s ++ rest) = next.finish rest

theorem Reaches.trans {scan middle next : Scan} {s t : List Char} (first : scan.Reaches s middle)
    (second : middle.Reaches t next) : scan.Reaches (s ++ t) next where
  grows := by rw [second.grows, first.grows, List.append_assoc]
  goesOn := by
    intro rest
    rw [List.append_assoc, first.goesOn, second.goesOn]

theorem Reaches.line {scan next : Scan} {s : List Char} (reaches : scan.Reaches s next) :
    next.line = scan.line + s.count '\n' := by
  unfold Scan.line
  rw [reaches.grows, List.count_append]
  omega

/-! Text and tags -/

theorem reaches_text (scan : Scan) (s : List Char) :
    scan.Reaches s { scan with lead := scan.lead ++ s } where
  grows := (List.append_assoc _ _ _).symm
  goesOn := by
    intro rest
    unfold finish
    rw [List.append_assoc]
    rfl

theorem foldl_textSegment (contents : List Char) (blocks : List OpenBlock) (nodes : List Node) :
    (textSegment contents).foldl Progress.step ⟨⟨blocks, nodes⟩, []⟩ =
      ⟨⟨blocks, nodes ++ textNodes contents⟩, []⟩ := by
  cases contents with
  | nil => simp [textSegment, textNodes]
  | cons c rest => rfl

theorem foldl_tag (scan : Scan) (tag : Segment) (result : Except SyntaxError (List Segment)) :
    (result.map fun segments => textSegment scan.lead ++ tag :: segments).map
        (·.foldl Progress.step scan.progress) =
      result.map (·.foldl Progress.step
        (Progress.step ⟨⟨scan.blocks, scan.nodes ++ textNodes scan.lead⟩, []⟩ tag)) := by
  cases result with
  | error error => rfl
  | ok segments =>
      simp only [Except.map, List.foldl_append, List.foldl_cons, progress, foldl_textSegment]

theorem step_output {code : List Char} {value : Spanned Expr}
    (reads : readCode readOutput code = .ok value) (progress : Progress) (offset : Nat)
    (span : Span) :
    progress.step (.tag .output code offset span) =
      progress.push (.output (value.shift offset)) := by
  unfold Progress.step
  simp only [reads]

theorem step_code {code : List Char} {directive : Directive}
    (reads : readCode readDirective code = .ok directive) {progress : Progress} {offset : Nat}
    {span : Span} {assembly : Assembly}
    (applies : progress.assembly.apply (directive.shift offset) span = .ok assembly) :
    progress.step (.tag .code code offset span) = { progress with assembly } := by
  unfold Progress.step
  simp only [reads]
  rw [applies]

def outputValue (scan : Scan) (value : Spanned Expr) : Spanned Expr :=
  (value.shift 1).shift (Text.byteLength (scan.text ++ ['<', '%', '=']))

theorem reaches_output {scan : Scan} {code : List Char} {value : Spanned Expr}
    (clean : Text.Lacks tagOpen scan.lead) (closed : Text.Lacks tagClose code)
    (reads : readCode readOutput code = .ok value) :
    scan.Reaches (outputTag code)
      ⟨scan.text ++ outputTag code, [], false, scan.blocks,
        scan.nodes ++ (textNodes scan.lead ++ [.output (scan.outputValue value)])⟩ where
  grows := List.append_nil _
  goesOn := by
    intro rest
    unfold finish
    rw [segmentsFrom_output scan.done clean closed, foldl_tag,
      step_output (readOutput_padded reads)]
    simp only [text, outputValue, Progress.push, Assembly.push, progress, List.append_assoc,
      List.nil_append]

def codeOffset (scan : Scan) (depth : Nat) : Nat :=
  Text.byteLength (scan.text ++ (List.replicate (2 * depth) ' ' ++ ['<', '%']))

def codeSpan (scan : Scan) (depth : Nat) (code : List Char) : Span :=
  ⟨Text.byteLength (scan.done ++ (scan.lead ++ List.replicate (2 * depth) ' ')),
    Text.byteLength (scan.done ++ (scan.lead ++ List.replicate (2 * depth) ' ' ++ codeTag code))⟩

theorem reaches_codeLine {scan : Scan} {code : List Char} {directive : Directive} {depth : Nat}
    {assembly : Assembly} (clean : Text.Lacks tagOpen scan.lead)
    (ends : EndsLine scan.atLineStart scan.lead) (closed : Text.Lacks tagClose code)
    (reads : readCode readDirective (' ' :: code ++ [' ']) = .ok directive)
    (applies : Assembly.apply (directive.shift (scan.codeOffset depth)) (scan.codeSpan depth code)
      ⟨scan.blocks, scan.nodes ++ textNodes scan.lead⟩ = .ok assembly) :
    scan.Reaches (lineAt depth (codeTag code))
      ⟨scan.text ++ lineAt depth (codeTag code), [], true, assembly.blocks, assembly.nodes⟩ where
  grows := List.append_nil _
  goesOn := by
    intro rest
    have offset : Text.byteLength (scan.done ++
        (scan.lead ++ List.replicate (2 * depth) ' ' ++ ['<', '%'])) = scan.codeOffset depth := by
      simp only [codeOffset, text, List.append_assoc]
    unfold finish
    rw [segmentsFrom_codeLine scan.done clean ends closed, foldl_tag, offset,
      step_code reads applies]
    simp only [text, List.append_assoc, List.nil_append, progress]

/-! The lines of expressions -/

theorem lineOf_within (scope : Scope) {before middle : List Char} (after : List Char) {span : Span}
    (flat : Text.Flat middle) (past : Text.byteLength before ≤ span.start)
    (ends : span.start ≤ Text.byteLength before + Text.byteLength middle) :
    (scope.over (before ++ middle ++ after)).lineOf span = before.count '\n' + 1 :=
  Text.lineAt_within after flat past ends

theorem lineOf_output (scan : Scan) {code : List Char} {value : Spanned Expr}
    (flat : Text.Flat code) (reads : readCode readOutput code = .ok value) (scope : Scope)
    (rest : List Char) :
    (scope.over (scan.text ++ outputTag code ++ rest)).lineOf (scan.outputValue value).span =
      scan.line := by
  have starts := start_of_readOutput reads
  have tag : Text.Flat (outputTag code) :=
    (Text.Flat.append (by decide) flat).append (by decide)
  have size : Text.byteLength (outputTag code) = 4 + Text.byteLength code + 3 := by
    rw [outputTag, Text.byteLength_append, Text.byteLength_append]
    rfl
  have place : (scan.outputValue value).span.start =
      value.span.start + 1 + (Text.byteLength scan.text + 3) := by
    simp only [outputValue, Spanned.shift, Span.shift, Text.byteLength_append]
    rfl
  apply lineOf_within scope rest tag
  · omega
  · omega

theorem lineOf_codeLine (scan : Scan) {code : List Char} {depth : Nat} {span : Span}
    (flat : Text.Flat code) (starts : span.start ≤ Text.byteLength code + 1) (scope : Scope)
    (rest : List Char) :
    (scope.over (scan.text ++ lineAt depth (codeTag code) ++ rest)).lineOf
        (span.shift (scan.codeOffset depth)) = scan.line := by
  have tag : Text.Flat (List.replicate (2 * depth) ' ' ++ codeTag code) := by
    apply Text.Flat.append
    · exact Text.flat_blanks _
    · exact (Text.Flat.append (by decide) flat).append (by decide)
  have size : Text.byteLength (codeTag code) = 3 + Text.byteLength code + 3 := by
    rw [codeTag, Text.byteLength_append, Text.byteLength_append]
    rfl
  have place : (span.shift (scan.codeOffset depth)).start = span.start +
      (Text.byteLength scan.text + (Text.byteLength (List.replicate (2 * depth) ' ') + 2)) := by
    simp only [codeOffset, Span.shift, Text.byteLength_append]
    rfl
  have source : scan.text ++ lineAt depth (codeTag code) ++ rest =
      scan.text ++ (List.replicate (2 * depth) ' ' ++ codeTag code) ++ ('\n' :: rest) := by
    simp [lineAt]
  rw [source]
  apply lineOf_within scope ('\n' :: rest) tag
  · omega
  · rw [Text.byteLength_append]
    omega

end Scan

end ThemeRender.Markup
