import Mathlib.Data.List.Forall2
import ThemeRender.Markup.LineTree
import ThemeRender.Proofs.Outcome
import ThemeRender.Proofs.Text.Lines
import ThemeRender.Proofs.Text.Positions

namespace ThemeRender.Markup

open Outcome (except_bind_eq_ok)

def Line.ofRaw (number offset : Nat) (raw : List Char) : Line :=
  let indent := (Text.trimEnd raw).takeWhile Text.isBlank
  let text := Text.trimStart (Text.trimEnd raw)
  let start := offset + Text.byteLength indent
  ⟨number, indent.length, text, ⟨start, start + Text.byteLength text⟩⟩

def Mixed (raw : List Char) : Prop :=
  '\t' ∈ raw.takeWhile Text.isBlank ∧ ' ' ∈ raw.takeWhile Text.isBlank

instance (raw : List Char) : Decidable (Mixed raw) :=
  inferInstanceAs (Decidable (_ ∧ _))

def busyFrom (number : Nat) (raws : List (List Char)) : List (List Char × Nat) :=
  (raws.zipIdx number).filter fun raw => !raw.1.all Text.isBlank

/-- A line as it was read from a raw line with its number. The indentation is counted in characters,
the place in bytes. -/
structure Line.Reads (source : List Char) (line : Line) (raw : List Char × Nat) : Prop where
  number : line.number = raw.2
  indent : line.indent = (raw.1.takeWhile Text.isBlank).length
  text : line.text = Text.trimStart (Text.trimEnd raw.1)
  span : line.span.Covers source line.text
  place : Text.lineAt source line.span.start = raw.2

theorem lineOf?_blank {raw : List Char} (blank : raw.all Text.isBlank = true)
    (number offset : Nat) : lineOf? number offset raw = .ok none := by
  have none := (Text.trimStart_trimEnd_eq_nil_iff raw).mpr blank
  unfold lineOf?
  dsimp only
  rw [if_pos (by rw [none]; rfl)]

variable {source before raw after : List Char} {number : Nat}

theorem lineOf?_busy (whole : source = before ++ raw ++ after)
    (counted : before.count '\n' + 1 = number) (flat : Text.Flat (Text.trimEnd raw))
    (busy : raw.all Text.isBlank = false) (unmixed : ¬ Mixed raw) :
    ∃ line : Line, lineOf? number (Text.byteLength before) raw = .ok (some line) ∧
      line.Reads source (raw, number) := by
  have some : Text.trimStart (Text.trimEnd raw) ≠ [] := by
    intro none
    rw [(Text.trimStart_trimEnd_eq_nil_iff raw).mp none] at busy
    cases busy
  have indent := Text.takeWhile_trimEnd busy
  have parts : raw.takeWhile Text.isBlank ++ Text.trimStart (Text.trimEnd raw) =
      Text.trimEnd raw := by
    rw [← indent]
    exact List.takeWhile_append_dropWhile
  obtain ⟨tail, kept⟩ := Text.trimEnd_isFront raw
  have sourceParts : source = before ++ Text.trimEnd raw ++ (tail ++ after) := by
    rw [whole, ← List.append_assoc, List.append_assoc before _ tail, kept]
  let start := Text.byteLength before + Text.byteLength (raw.takeWhile Text.isBlank)
  let line : Line := ⟨number, (raw.takeWhile Text.isBlank).length,
    Text.trimStart (Text.trimEnd raw),
    ⟨start, start + Text.byteLength (Text.trimStart (Text.trimEnd raw))⟩⟩
  refine ⟨line, ?_, ⟨rfl, rfl, rfl, ⟨?_, rfl⟩, ?_⟩⟩
  · unfold lineOf?
    dsimp only
    rw [indent, if_neg (by simpa using some)]
    exact if_neg unmixed
  · refine ⟨before ++ raw.takeWhile Text.isBlank, tail ++ after, ?_, Text.byteLength_append _ _⟩
    rw [sourceParts, ← parts]
    simp only [List.append_assoc, line]
  · have within : Text.byteLength (raw.takeWhile Text.isBlank) ≤
        Text.byteLength (Text.trimEnd raw) := by
      rw [← parts, Text.byteLength_append]
      exact Nat.le_add_right _ _
    rw [sourceParts, ← counted]
    exact Text.lineAt_within _ flat (Nat.le_add_right _ _) (Nat.add_le_add_left within _)

theorem linesFrom_reads {rest : List Char} (whole : source = before ++ rest)
    (counted : Text.lines rest ≠ [] → before.count '\n' + 1 = number)
    (unmixed : ∀ raw ∈ Text.lines rest, raw.all Text.isBlank = false → ¬ Mixed raw) :
    ∃ lines, linesFrom number (Text.byteLength before) (Text.lines rest) = .ok lines ∧
      List.Forall₂ (Line.Reads source) lines (busyFrom number (Text.lines rest)) := by
  generalize split : Text.lines rest = raws at counted unmixed
  induction raws generalizing before rest number with
  | nil => exact ⟨[], rfl, .nil⟩
  | cons raw more ih =>
      obtain ⟨after, parts, same, feed⟩ := Text.lines_eq_cons split
      have here : before.count '\n' + 1 = number := counted (List.cons_ne_nil _ _)
      have flat : Text.Flat (Text.trimEnd raw) :=
        Text.flat_trimEnd (s := rest) (by rw [split]; exact List.mem_cons_self)
      have wholeToo : source = before ++ raw ++ after := by
        rw [whole, parts, List.append_assoc]
      have next : more ≠ [] → (before ++ raw).count '\n' + 1 = number + 1 := by
        intro some
        rw [List.count_append, feed some, here]
      obtain ⟨later, readsMore, alike⟩ := ih wholeToo same.symm next
        (fun other member => unmixed other (List.mem_cons_of_mem _ member))
      rw [Text.byteLength_append] at readsMore
      cases busy : raw.all Text.isBlank with
      | true =>
          refine ⟨later, ?_, ?_⟩
          · rw [linesFrom, lineOf?_blank busy, readsMore]
            rfl
          · rw [busyFrom, List.zipIdx_cons, List.filter_cons_of_neg (by simp [busy])]
            exact alike
      | false =>
          obtain ⟨line, readsLine, reads⟩ := lineOf?_busy wholeToo here flat busy
            (unmixed raw List.mem_cons_self busy)
          refine ⟨line :: later, ?_, ?_⟩
          · rw [linesFrom, readsLine, readsMore]
            rfl
          · rw [busyFrom, List.zipIdx_cons, List.filter_cons_of_pos (by simp [busy])]
            exact .cons reads alike

/-! Lines that have been read -/

section

variable {offset : Nat} {raws rawsAfter : List (List Char)} {lines : List Line}

def busyRaws (raws : List (List Char)) : List (List Char) :=
  raws.filter fun raw => !raw.all Text.isBlank

def indentation (raw : List Char) : List Char :=
  raw.takeWhile Text.isBlank

theorem lineOf?_of_busy (busy : raw.all Text.isBlank = false) (number offset : Nat) :
    lineOf? number offset raw =
      if Mixed raw then .error ((Line.ofRaw number offset raw).complain .mixedIndentation)
      else .ok (some (.ofRaw number offset raw)) := by
  have some : ¬(Text.trimStart (Text.trimEnd raw)).isEmpty = true := by
    rw [List.isEmpty_iff, Text.trimStart_trimEnd_eq_nil_iff, busy]
    exact Bool.false_ne_true
  unfold lineOf?
  dsimp only
  rw [if_neg some, Line.ofRaw, Text.takeWhile_trimEnd busy]
  exact if_congr Iff.rfl rfl rfl

theorem lineOf?_ok {line? : Option Line} (reads : lineOf? number offset raw = .ok line?) :
    raw.all Text.isBlank = true ∧ line? = none ∨
      raw.all Text.isBlank = false ∧ line? = some (.ofRaw number offset raw) := by
  cases blank : raw.all Text.isBlank with
  | true =>
      rw [lineOf?_blank blank] at reads
      exact .inl ⟨rfl, (Except.ok.inj reads).symm⟩
  | false =>
      rw [lineOf?_of_busy blank] at reads
      split at reads
      · cases reads
      · exact .inr ⟨rfl, (Except.ok.inj reads).symm⟩

theorem linesFrom_append (reads : linesFrom number offset (raws ++ rawsAfter) = .ok lines) :
    ∃ first last, linesFrom number offset raws = .ok first ∧
      linesFrom (number + raws.length) (offset + Text.byteLength raws.flatten) rawsAfter =
        .ok last ∧ lines = first ++ last := by
  induction raws generalizing number offset lines with
  | nil => exact ⟨[], lines, rfl, reads, rfl⟩
  | cons raw rest ih =>
      rw [List.cons_append, linesFrom] at reads
      obtain ⟨line?, readsLine, reads⟩ := except_bind_eq_ok.mp reads
      obtain ⟨more, readsMore, same⟩ := except_bind_eq_ok.mp reads
      cases same
      obtain ⟨first, last, readsFirst, readsLast, rfl⟩ := ih readsMore
      refine ⟨line?.toList ++ first, last, ?_, ?_, ?_⟩
      · rw [linesFrom, readsLine, readsFirst]
        rfl
      · rw [List.length_cons, List.flatten_cons, Text.byteLength_append, ← Nat.add_assoc,
          Nat.add_right_comm, ← Nat.add_assoc]
        exact readsLast
      · exact (List.append_assoc _ _ _).symm

theorem linesFrom_cons_ok (reads : linesFrom number offset (raw :: raws) = .ok lines) :
    ∃ more, linesFrom (number + 1) (offset + Text.byteLength raw) raws = .ok more ∧
      (raw.all Text.isBlank = true ∧ lines = more ∨
        raw.all Text.isBlank = false ∧ lines = .ofRaw number offset raw :: more) := by
  rw [linesFrom] at reads
  obtain ⟨line?, readsLine, reads⟩ := except_bind_eq_ok.mp reads
  obtain ⟨more, readsMore, same⟩ := except_bind_eq_ok.mp reads
  cases same
  rcases lineOf?_ok readsLine with ⟨blank, rfl⟩ | ⟨busy, rfl⟩
  · exact ⟨more, readsMore, .inl ⟨blank, rfl⟩⟩
  · exact ⟨more, readsMore, .inr ⟨busy, rfl⟩⟩

theorem numbers_linesFrom (reads : linesFrom number offset raws = .ok lines) :
    (lines.map Line.number).Sublist (List.range' number raws.length) := by
  induction raws generalizing number offset lines with
  | nil =>
      cases reads
      exact List.Sublist.slnil
  | cons raw rest ih =>
      obtain ⟨more, readsMore, here⟩ := linesFrom_cons_ok reads
      rw [List.length_cons, List.range'_succ]
      rcases here with ⟨-, rfl⟩ | ⟨-, rfl⟩
      · exact (ih readsMore).cons number
      · exact (ih readsMore).cons_cons number

theorem number_of_linesFrom (reads : linesFrom number offset raws = .ok lines) {line : Line}
    (member : line ∈ lines) : number ≤ line.number ∧ line.number < number + raws.length :=
  List.mem_range'_1.mp ((numbers_linesFrom reads).subset (List.mem_map_of_mem member))

theorem sorted_linesFrom (reads : linesFrom number offset raws = .ok lines) :
    lines.Pairwise fun line other => line.number < other.number :=
  List.pairwise_map.mp (List.Pairwise.sublist (numbers_linesFrom reads) List.pairwise_lt_range')

def Line.IsOf (line : Line) (raw : List Char) : Prop :=
  line.indent = (indentation raw).length ∧ line.text = Text.trimStart (Text.trimEnd raw)

theorem linesFrom_busyRaws (reads : linesFrom number offset raws = .ok lines) :
    List.Forall₂ Line.IsOf lines (busyRaws raws) := by
  induction raws generalizing number offset lines with
  | nil =>
      cases reads
      exact .nil
  | cons raw rest ih =>
      obtain ⟨more, readsMore, here⟩ := linesFrom_cons_ok reads
      rcases here with ⟨blank, rfl⟩ | ⟨busy, rfl⟩
      · rw [busyRaws, List.filter_cons_of_neg (by simp [blank])]
        exact ih readsMore
      · rw [busyRaws, List.filter_cons_of_pos (by simp [busy])]
        refine .cons ⟨?_, rfl⟩ (ih readsMore)
        exact congrArg List.length (Text.takeWhile_trimEnd busy)

end

end ThemeRender.Markup
