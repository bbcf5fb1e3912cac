import ThemeRender.Template.Tag
import ThemeRender.Text.Cut
/-!
Splitting a template into text and tags. A code or comment tag that is alone on its line takes the
line with it: the blanks before it and the line break after it belong to no text.
-/

namespace ThemeRender.Template

inductive Segment where
  | text (contents : List Char)
  /-- `offset` is where the code starts in the template, `span` the whole tag. -/
  | tag (kind : TagKind) (code : List Char) (offset : Nat) (span : Span)

def isIndent (c : Char) : Bool :=
  c == ' ' || c == '\t'

/-- A run of text without the blanks that start its last line. The first line of the run is only
started in it if `atLineStart`. `none` if the last line holds anything else. -/
def withoutIndent? (atLineStart : Bool) : List Char → Option (List Char)
  | [] => if atLineStart then some [] else none
  | c :: rest =>
      if atLineStart && (c :: rest).all isIndent then some []
      else (withoutIndent? (c == '\n') rest).map (c :: ·)

/-- The text after a line break; the end of the template breaks a line too. -/
def afterLineBreak? : List Char → Option (List Char)
  | [] => some []
  | '\n' :: rest => some rest
  | '\r' :: '\n' :: rest => some rest
  | _ => none

theorem length_afterLineBreak?_le {s rest : List Char} (h : afterLineBreak? s = some rest) :
    rest.length ≤ s.length := by
  unfold afterLineBreak? at h
  split at h
  · cases h
    exact Nat.le_refl _
  · cases h
    exact Nat.le_succ _
  · cases h
    exact Nat.le_add_right _ 2
  · cases h

def wholeLine? (kind : TagKind) (atLineStart : Bool) (before after : List Char) :
    Option (List Char × List Char) :=
  if kind = .output then none
  else
    match withoutIndent? atLineStart before, afterLineBreak? after with
    | some before, some after => some (before, after)
    | _, _ => none

theorem length_of_wholeLine? {kind : TagKind} {atLineStart : Bool}
    {before after before' after' : List Char}
    (h : wholeLine? kind atLineStart before after = some (before', after')) :
    after'.length ≤ after.length := by
  unfold wholeLine? at h
  split at h
  · simp at h
  · split at h
    · simp only [Option.some.injEq, Prod.mk.injEq] at h
      obtain ⟨rfl, rfl⟩ := h
      exact length_afterLineBreak?_le ‹_›
    · simp at h

def textSegment (contents : List Char) : List Segment :=
  if contents.isEmpty then [] else [.text contents]

theorem length_ofText_le (s : List Char) : (TagKind.ofText s).2.length ≤ s.length := by
  unfold TagKind.ofText
  split <;> simp

def tagOpen : List Char := ['<', '%']

def tagClose : List Char := ['%', '>']

def segmentsFrom (offset : Nat) (atLineStart : Bool) (s : List Char) :
    Except SyntaxError (List Segment) :=
  match _hopen : Text.cut? tagOpen s with
  | none => .ok (textSegment s)
  | some (before, opened) =>
      let start := offset + Text.byteLength before
      let kind := (TagKind.ofText opened).1
      let inner := (TagKind.ofText opened).2
      let codeStart := offset + Text.byteLength s - Text.byteLength inner
      match _hclose : Text.cut? tagClose inner with
      | none => .error ⟨⟨start, offset + Text.byteLength s⟩, .unterminatedTag⟩
      | some (code, after) =>
          let stop := offset + Text.byteLength s - Text.byteLength after
          let tag := Segment.tag kind code codeStart ⟨start, stop⟩
          match _hline : wholeLine? kind atLineStart before after with
          | some (before, next) =>
              (segmentsFrom (offset + Text.byteLength s - Text.byteLength next) true next).map
                fun segments => textSegment before ++ tag :: segments
          | none =>
              (segmentsFrom stop false after).map
                fun segments => textSegment before ++ tag :: segments
termination_by s.length
decreasing_by
  · have opened := Text.length_lt_of_cut? (by decide) _hopen
    have closed := Text.length_lt_of_cut? (by decide) _hclose
    have line := length_of_wholeLine? _hline
    have kind : inner.length ≤ _ := length_ofText_le _
    omega
  · have opened := Text.length_lt_of_cut? (by decide) _hopen
    have closed := Text.length_lt_of_cut? (by decide) _hclose
    have kind : inner.length ≤ _ := length_ofText_le _
    omega

theorem segmentsFrom_cut {s before opened code after : List Char}
    (opens : Text.cut? tagOpen s = some (before, opened))
    (closes : Text.cut? tagClose (TagKind.ofText opened).2 = some (code, after)) (offset : Nat)
    (atLineStart : Bool) :
    segmentsFrom offset atLineStart s =
      match wholeLine? (TagKind.ofText opened).1 atLineStart before after with
      | some (before', next) =>
          (segmentsFrom (offset + Text.byteLength s - Text.byteLength next) true next).map
            fun segments => textSegment before' ++ .tag (TagKind.ofText opened).1 code
              (offset + Text.byteLength s - Text.byteLength (TagKind.ofText opened).2)
              ⟨offset + Text.byteLength before,
                offset + Text.byteLength s - Text.byteLength after⟩ :: segments
      | none =>
          (segmentsFrom (offset + Text.byteLength s - Text.byteLength after) false after).map
            fun segments => textSegment before ++ .tag (TagKind.ofText opened).1 code
              (offset + Text.byteLength s - Text.byteLength (TagKind.ofText opened).2)
              ⟨offset + Text.byteLength before,
                offset + Text.byteLength s - Text.byteLength after⟩ :: segments := by
  rw [segmentsFrom]
  split
  · rename_i none
    rw [opens] at none
    cases none
  · rename_i found
    rw [opens] at found
    cases found
    simp only
    split
    · rename_i none
      rw [closes] at none
      cases none
    · rename_i found
      rw [closes] at found
      cases found
      split
      · rename_i line
        rw [line]
      · rename_i line
        rw [line]

def segments (source : List Char) : Except SyntaxError (List Segment) :=
  segmentsFrom 0 true source

end ThemeRender.Template
