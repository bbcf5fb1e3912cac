import Mathlib.Data.List.DropRight
import ThemeRender.Text.Blank
import ThemeRender.Text.Cut
import ThemeRender.Text.Span

namespace ThemeRender.Text

def Flat (s : List Char) : Prop :=
  '\n' ∉ s

instance (s : List Char) : Decidable (Flat s) :=
  inferInstanceAs (Decidable ('\n' ∉ s))

theorem Flat.nil : Flat [] := List.not_mem_nil

theorem Flat.subset {s part : List Char} (flat : Flat s) (within : part ⊆ s) : Flat part :=
  fun member => flat (within member)

theorem Flat.append {s t : List Char} (first : Flat s) (second : Flat t) : Flat (s ++ t) := by
  intro member
  rcases List.mem_append.mp member with before | after
  · exact first before
  · exact second after

theorem Flat.cons {c : Char} {s : List Char} (other : c ≠ '\n') (flat : Flat s) :
    Flat (c :: s) := by
  intro member
  rcases List.mem_cons.mp member with same | later
  · exact other same.symm
  · exact flat later

theorem Flat.of_cons {c : Char} {s : List Char} (flat : Flat (c :: s)) : Flat s :=
  flat.subset (List.subset_cons_self c s)

theorem Flat.head {c : Char} {s : List Char} (flat : Flat (c :: s)) : c ≠ '\n' := by
  intro same
  exact flat (same ▸ List.mem_cons_self)

theorem Flat.count {s : List Char} (flat : Flat s) : s.count '\n' = 0 :=
  List.count_eq_zero.mpr flat

/-! Indentation -/

theorem not_mem_blanks {c : Char} (other : c ≠ ' ') (width : Nat) :
    c ∉ List.replicate width ' ' :=
  fun member => other (List.eq_of_mem_replicate member)

theorem flat_blanks (width : Nat) : Flat (List.replicate width ' ') :=
  not_mem_blanks (by decide) width

/-! Trimming -/

theorem trimEnd_isFront (s : List Char) : trimEnd s <+: s := by
  induction s with
  | nil => exact List.prefix_refl []
  | cons c rest ih =>
      rw [trimEnd]
      split
      · split
        · exact List.nil_prefix
        · exact List.cons_prefix_cons.mpr ⟨rfl, List.nil_prefix⟩
      · exact List.cons_prefix_cons.mpr ⟨rfl, ih⟩

theorem trim_isInfix (s : List Char) : trim s <:+: s :=
  (trimEnd_isFront _).isInfix.trans (List.dropWhile_suffix _).isInfix

theorem Flat.trim {s : List Char} (flat : Flat s) : Flat (trim s) :=
  flat.subset (trim_isInfix s).subset

theorem trimEnd_append_blank {c : Char} (blank : isBlank c = true) (s : List Char) :
    trimEnd (s ++ [c]) = trimEnd s := by
  induction s with
  | nil => simp [trimEnd, blank]
  | cons d rest ih => rw [List.cons_append, trimEnd, ih, trimEnd]

theorem trimEnd_append_of_busy {t : List Char} (busy : trimEnd t ≠ []) (s : List Char) :
    trimEnd (s ++ t) = s ++ trimEnd t := by
  induction s with
  | nil => rfl
  | cons c rest ih =>
      rw [List.cons_append, trimEnd, ih]
      cases same : rest ++ trimEnd t with
      | nil => exact absurd (List.append_eq_nil_iff.mp same).2 busy
      | cons d more => rw [List.cons_append, same]

theorem trimEnd_append_of_blank {t : List Char} (blank : trimEnd t = []) (s : List Char) :
    trimEnd (s ++ t) = trimEnd s := by
  induction s with
  | nil => exact blank
  | cons c rest ih => rw [List.cons_append, trimEnd, ih, trimEnd]

theorem trimEnd_cons_of_not_blank {c : Char} (busy : isBlank c = false) (s : List Char) :
    trimEnd (c :: s) = c :: trimEnd s := by
  rw [trimEnd, busy]
  cases trimEnd s <;> rfl

theorem trimEnd_blank_cons {c : Char} (blank : isBlank c = true) (s : List Char) :
    trimEnd (c :: s) = [] ∧ trimEnd s = [] ∨
      trimEnd (c :: s) = c :: trimEnd s ∧ trimEnd s ≠ [] := by
  rw [trimEnd, blank]
  cases trimEnd s <;> simp

theorem trimEnd_trimEnd (s : List Char) : trimEnd (trimEnd s) = trimEnd s := by
  induction s with
  | nil => rfl
  | cons c rest ih =>
      rw [trimEnd]
      split
      · split
        · rfl
        · rename_i busy
          rw [trimEnd_cons_of_not_blank (by simpa using busy)]
          rfl
      · rename_i same
        rw [trimEnd, ih]
        split
        · contradiction
        · rfl

theorem trimEnd_append_of_kept {s : List Char} (kept : trimEnd s = s) (t : List Char) :
    trimEnd (s ++ t) = s ++ trimEnd t := by
  by_cases blank : trimEnd t = []
  · rw [trimEnd_append_of_blank blank, blank, kept, List.append_nil]
  · exact trimEnd_append_of_busy blank s

theorem trimEnd_of_not_blank {s : List Char} (busy : ∀ c ∈ s, isBlank c = false) :
    trimEnd s = s := by
  induction s with
  | nil => rfl
  | cons c rest ih =>
      rw [List.forall_mem_cons] at busy
      rw [trimEnd_cons_of_not_blank busy.1, ih busy.2]

theorem trimEnd_of_trim {s : List Char} (trimmed : trim s = s) : trimEnd s = s := by
  rw [← trimmed]
  exact trimEnd_trimEnd _

theorem not_blank_of_trim {c : Char} {s rest : List Char} (trimmed : trim s = c :: rest) :
    isBlank c = false := by
  obtain ⟨more, same⟩ := trimEnd_isFront (trimStart s)
  have stops := List.head?_dropWhile_not isBlank s
  rw [← trimStart, ← same, ← trim, trimmed] at stops
  exact stops

theorem trimStart_cons_of_not_blank {c : Char} (busy : isBlank c = false) (s : List Char) :
    trimStart (c :: s) = c :: s := by
  simp [trimStart, busy]

theorem trimStart_append_of_blank {s : List Char} (blank : ∀ c ∈ s, isBlank c = true)
    (t : List Char) : trimStart (s ++ t) = trimStart t :=
  List.dropWhile_append_of_pos blank

theorem trim_cons_of_blank {c : Char} (blank : isBlank c = true) (s : List Char) :
    trim (c :: s) = trim s := by
  rw [trim, trimStart, List.dropWhile_cons_of_pos blank]
  rfl

theorem trimEnd_of_trim_nil {s : List Char} (blank : trim s = []) : trimEnd s = [] := by
  induction s with
  | nil => rfl
  | cons c rest ih =>
      cases isBlank : Text.isBlank c with
      | true =>
          rw [trim_cons_of_blank isBlank] at blank
          rw [trimEnd, ih blank, isBlank]
          rfl
      | false =>
          rw [trim, trimStart_cons_of_not_blank isBlank] at blank
          exact blank

theorem trim_ne_nil_of_kept {word after : List Char}
    (kept : trimEnd (word ++ after) = word ++ after) (some : after ≠ []) : trim after ≠ [] := by
  intro blank
  have ends := kept
  rw [trimEnd_append_of_blank (trimEnd_of_trim_nil blank)] at ends
  have shorter := (trimEnd_isFront word).length_le
  rw [ends, List.length_append] at shorter
  have := List.length_pos_iff.mpr some
  omega

theorem trim_trimEnd (s : List Char) : trim (trimEnd s) = trim s := by
  unfold trim
  induction s with
  | nil => rfl
  | cons c rest ih =>
      cases blank : isBlank c with
      | false =>
          rw [trimEnd_cons_of_not_blank blank, trimStart_cons_of_not_blank blank,
            trimStart_cons_of_not_blank blank, trimEnd_cons_of_not_blank blank,
            trimEnd_cons_of_not_blank blank, trimEnd_trimEnd]
      | true =>
          have skip (t : List Char) : trimStart (c :: t) = trimStart t := by
            simp [trimStart, blank]
          rcases trimEnd_blank_cons blank rest with ⟨none, noneToo⟩ | ⟨kept, -⟩
          · rw [none, skip, ← ih, noneToo]
          · rw [kept, skip, skip, ih]

theorem trimEnd_eq_nil_iff (s : List Char) : trimEnd s = [] ↔ s.all isBlank = true := by
  induction s with
  | nil => simp
  | cons c rest ih =>
      rw [List.all_cons, Bool.and_eq_true, ← ih]
      cases blank : isBlank c with
      | false => simp [trimEnd_cons_of_not_blank blank]
      | true =>
          rcases trimEnd_blank_cons blank rest with ⟨none, noneToo⟩ | ⟨kept, some⟩
          · simp [none, noneToo]
          · simp [kept, some]

theorem takeWhile_trimEnd {s : List Char} (busy : s.all isBlank = false) :
    (trimEnd s).takeWhile isBlank = s.takeWhile isBlank := by
  induction s with
  | nil => simp at busy
  | cons c rest ih =>
      cases blank : isBlank c with
      | false =>
          rw [trimEnd_cons_of_not_blank blank]
          simp [blank]
      | true =>
          rw [List.all_cons, blank, Bool.true_and] at busy
          rcases trimEnd_blank_cons blank rest with ⟨-, none⟩ | ⟨kept, -⟩
          · rw [(trimEnd_eq_nil_iff rest).mp none] at busy
            cases busy
          · rw [kept, List.takeWhile_cons_of_pos blank, List.takeWhile_cons_of_pos blank, ih busy]

theorem trim_eq_nil_iff (s : List Char) : trim s = [] ↔ s.all isBlank = true := by
  constructor
  · intro blank
    exact (trimEnd_eq_nil_iff s).mp (trimEnd_of_trim_nil blank)
  · intro blank
    rw [← trim_trimEnd, (trimEnd_eq_nil_iff s).mpr blank, trim_nil]

@[simp] theorem trim_trim (s : List Char) : trim (trim s) = trim s := by
  have skipped : trimStart (trimStart s) = trimStart s := by
    induction s with
    | nil => rfl
    | cons c rest ih =>
        cases blank : isBlank c with
        | false => rw [trimStart_cons_of_not_blank blank, trimStart_cons_of_not_blank blank]
        | true =>
            have skip : trimStart (c :: rest) = trimStart rest := List.dropWhile_cons_of_pos blank
            rw [skip, ih]
  conv_lhs => rw [trim.eq_1 s, trim_trimEnd, trim, skipped]
  rfl

theorem trimStart_trimEnd_eq_nil_iff (s : List Char) :
    trimStart (trimEnd s) = [] ↔ s.all isBlank = true := by
  constructor
  · intro none
    rw [← trimEnd_eq_nil_iff, ← trimEnd_trimEnd, trimEnd_eq_nil_iff, List.all_eq_true]
    exact List.dropWhile_eq_nil_iff.mp none
  · intro blank
    rw [(trimEnd_eq_nil_iff s).mpr blank, trimStart_nil]

/-! The line on which a text ends -/

def lastLine (s : List Char) : List Char :=
  s.rtakeWhile (· ≠ '\n')

theorem lastLine_suffix (s : List Char) : lastLine s <:+ s :=
  List.rtakeWhile_suffix _ s

theorem Flat.lastLine {s : List Char} (flat : Flat s) : lastLine s = s := by
  unfold Text.lastLine
  rw [List.rtakeWhile_eq_self_iff]
  intro c member
  simp only [ne_eq, decide_eq_true_eq]
  rintro rfl
  exact flat member

theorem lastLine_append (s t : List Char) :
    lastLine (s ++ t) = if '\n' ∈ t then lastLine t else lastLine s ++ t := by
  unfold lastLine List.rtakeWhile
  rw [List.reverse_append, List.takeWhile_append]
  by_cases feed : '\n' ∈ t
  · rw [if_pos feed, if_neg]
    intro whole
    have same := (List.takeWhile_prefix _).eq_of_length whole
    have none := List.takeWhile_eq_self_iff.mp same '\n' (List.mem_reverse.mpr feed)
    simp at none
  · rw [if_neg feed, if_pos, List.reverse_append, List.reverse_reverse]
    congr 1
    rw [List.takeWhile_eq_self_iff]
    intro c member
    simp only [ne_eq, decide_eq_true_eq]
    rintro rfl
    exact feed (List.mem_reverse.mp member)

/-! The lines of a text -/

theorem line_of_mem_lines {s line : List Char} (member : line ∈ lines s) :
    ∃ body, Flat body ∧ (line = body ∨ line = body ++ ['\n']) := by
  induction s generalizing line with
  | nil => cases member
  | cons c rest ih =>
      rw [lines] at member
      split at member
      · rename_i feed
        rcases List.mem_cons.mp member with rfl | later
        · exact ⟨[], Flat.nil, .inr (by rw [feed]; rfl)⟩
        · exact ih later
      · rename_i noFeed
        split at member
        · rw [List.mem_singleton.mp member]
          exact ⟨[c], Flat.cons noFeed Flat.nil, .inl rfl⟩
        · rename_i first more found
          rw [found] at ih
          rcases List.mem_cons.mp member with rfl | later
          · obtain ⟨body, flat, ends⟩ := ih List.mem_cons_self
            refine ⟨c :: body, Flat.cons noFeed flat, ?_⟩
            rcases ends with rfl | rfl
            · exact .inl rfl
            · exact .inr rfl
          · exact ih (List.mem_cons_of_mem _ later)

theorem lines_eq_cons {s line : List Char} {more : List (List Char)} (split : lines s = line :: more) :
    ∃ after, s = line ++ after ∧ more = lines after ∧ (more ≠ [] → line.count '\n' = 1) := by
  induction s generalizing line more with
  | nil => cases split
  | cons c rest ih =>
      rw [lines] at split
      split at split
      · rename_i feed
        cases split
        exact ⟨rest, rfl, rfl, fun _ => by rw [feed]; rfl⟩
      · rename_i noFeed
        split at split
        · rename_i none
          cases split
          have whole := flatten_lines rest
          rw [none] at whole
          exact ⟨rest, rfl, none.symm, fun some => absurd rfl some⟩
        · rename_i first others found
          cases split
          obtain ⟨after, whole, same, feed⟩ := ih found
          refine ⟨after, by rw [whole]; rfl, same, ?_⟩
          intro some
          rw [List.count_cons_of_ne noFeed]
          exact feed some

theorem flat_trimEnd {s line : List Char} (member : line ∈ lines s) : Flat (trimEnd line) := by
  obtain ⟨body, flat, rfl | rfl⟩ := line_of_mem_lines member
  · exact flat.subset (trimEnd_isFront _).subset
  · rw [trimEnd_append_blank (by decide)]
    exact flat.subset (trimEnd_isFront _).subset

/-! The line of a place -/

theorem takeBytes_zero (s : List Char) : takeBytes 0 s = [] := by
  cases s with
  | nil => rfl
  | cons c rest =>
      have positive := c.utf8Size_pos
      rw [takeBytes, if_neg (by omega)]

theorem takeBytes_within (before middle after : List Char) {offset : Nat}
    (past : byteLength before ≤ offset)
    (ends : offset ≤ byteLength before + byteLength middle) :
    ∃ part, part <+: middle ∧ takeBytes offset (before ++ middle ++ after) = before ++ part := by
  induction before generalizing offset with
  | cons c rest ih =>
      simp only [byteLength_cons] at past ends
      obtain ⟨part, within, same⟩ := @ih (offset - c.utf8Size) (by omega) (by omega)
      refine ⟨part, within, ?_⟩
      rw [List.cons_append, List.cons_append, takeBytes, if_pos (by omega), same]
      rfl
  | nil =>
      simp only [List.nil_append, byteLength_nil, Nat.zero_add] at ends ⊢
      clear past
      induction middle generalizing offset with
      | nil =>
          rw [byteLength_nil, Nat.le_zero] at ends
          exact ⟨[], List.nil_prefix, by rw [ends, takeBytes_zero]⟩
      | cons c rest ih =>
          rw [byteLength_cons] at ends
          rw [List.cons_append, takeBytes]
          split
          · obtain ⟨part, within, same⟩ := @ih (offset - c.utf8Size) (by omega)
            exact ⟨c :: part, List.cons_prefix_cons.mpr ⟨rfl, within⟩, by rw [same]⟩
          · exact ⟨[], List.nil_prefix, rfl⟩

theorem lineAt_within {before middle : List Char} (after : List Char) {offset : Nat}
    (flat : Flat middle) (past : byteLength before ≤ offset)
    (ends : offset ≤ byteLength before + byteLength middle) :
    lineAt (before ++ middle ++ after) offset = before.count '\n' + 1 := by
  obtain ⟨part, within, same⟩ := takeBytes_within before middle after past ends
  rw [lineAt, same, List.count_append, (flat.subset within.subset).count]

end ThemeRender.Text
