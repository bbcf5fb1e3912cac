import Mathlib.Data.List.Infix
import ThemeRender.Proofs.Text.Splitting
import ThemeRender.Text.Html
import ThemeRender.Theme.Page
/-!
The page of an error, read as markup: its tags in order, each with the text after it. The tags are
the same for every error, and its title and its message are the only texts that differ. Escaped text
is read back first: an entity is read as the character it stands for, so what was escaped comes back
whatever it holds, entities and parts of entities included.
-/

/-! Escaped text read back -/

namespace ThemeRender.Text

def markupChars : List Char := ['&', '<', '>', '"', '\'']

/-- A text with the five entities replaced by what they stand for. -/
def readEntities : List Char → List Char
  | '&' :: 'a' :: 'm' :: 'p' :: ';' :: rest => '&' :: readEntities rest
  | '&' :: 'l' :: 't' :: ';' :: rest => '<' :: readEntities rest
  | '&' :: 'g' :: 't' :: ';' :: rest => '>' :: readEntities rest
  | '&' :: 'q' :: 'u' :: 'o' :: 't' :: ';' :: rest => '"' :: readEntities rest
  | '&' :: '#' :: '3' :: '9' :: ';' :: rest => '\'' :: readEntities rest
  | c :: rest => c :: readEntities rest
  | [] => []

def unescapeHtml (text : String) : String :=
  String.ofList (readEntities text.toList)

theorem htmlEntity_of_not_mem {c : Char} (plain : c ∉ markupChars) : htmlEntity c = [c] := by
  simp only [markupChars, List.mem_cons, List.not_mem_nil, or_false, not_or] at plain
  obtain ⟨notAnd, notLess, notGreater, notQuote, notApostrophe⟩ := plain
  unfold htmlEntity
  split <;> first | rfl | contradiction

theorem readEntities_cons {c : Char} (notAnd : c ≠ '&') (rest : List Char) :
    readEntities (c :: rest) = c :: readEntities rest := by
  rw [readEntities]
  all_goals
    intros
    contradiction

theorem readEntities_htmlEntity_append (c : Char) (rest : List Char) :
    readEntities (htmlEntity c ++ rest) = c :: readEntities rest := by
  by_cases markup : c ∈ markupChars
  · simp only [markupChars, List.mem_cons, List.not_mem_nil, or_false] at markup
    rcases markup with rfl | rfl | rfl | rfl | rfl <;> rfl
  · rw [htmlEntity_of_not_mem markup, List.singleton_append]
    refine readEntities_cons (fun same => markup ?_) rest
    simp [same, markupChars]

theorem readEntities_flatMap_htmlEntity (s : List Char) : readEntities (s.flatMap htmlEntity) = s := by
  induction s with
  | nil => rfl
  | cons c rest ih => rw [List.flatMap_cons, readEntities_htmlEntity_append, ih]

theorem unescapeHtml_escapeHtml (s : String) : unescapeHtml (escapeHtml s) = s := by
  rw [unescapeHtml, escapeHtml, String.toList_ofList, readEntities_flatMap_htmlEntity,
    String.ofList_toList]

theorem escapeHtml_injective : Function.Injective escapeHtml :=
  Function.LeftInverse.injective unescapeHtml_escapeHtml

theorem not_mem_flatMap_htmlEntity {c : Char} (markup : c ∈ markupChars) (notAnd : c ≠ '&')
    (s : List Char) : c ∉ s.flatMap htmlEntity := by
  intro member
  obtain ⟨written, -, inEntity⟩ := List.mem_flatMap.mp member
  by_cases special : written ∈ markupChars
  · simp only [markupChars, List.mem_cons, List.not_mem_nil, or_false] at markup special
    rcases special with rfl | rfl | rfl | rfl | rfl <;>
      rcases markup with rfl | rfl | rfl | rfl | rfl <;> revert inEntity notAnd <;> decide
  · rw [htmlEntity_of_not_mem special, List.mem_singleton] at inEntity
    exact special (inEntity ▸ markup)

theorem htmlEntity_of_mem {c : Char} (markup : c ∈ markupChars) :
    ∃ name, htmlEntity c = '&' :: name ∧ '&' ∉ name := by
  simp only [markupChars, List.mem_cons, List.not_mem_nil, or_false] at markup
  rcases markup with rfl | rfl | rfl | rfl | rfl <;> exact ⟨_, rfl, by decide⟩

theorem suffix_of_not_mem {a : Char} {name rest after : List Char} (absent : a ∉ name)
    (suffix : a :: after <:+ name ++ rest) : a :: after <:+ rest := by
  induction name with
  | nil => exact suffix
  | cons b name ih =>
      rw [List.mem_cons, not_or] at absent
      rcases List.suffix_cons_iff.mp suffix with same | later
      · exact absurd (List.cons.inj same).1 absent.1
      · exact ih absent.2 later

theorem suffix_of_htmlEntity_append {c : Char} {rest after : List Char}
    (suffix : '&' :: after <:+ htmlEntity c ++ rest) :
    '&' :: after <:+ rest ∨ c ∈ markupChars ∧ '&' :: after = htmlEntity c ++ rest := by
  by_cases markup : c ∈ markupChars
  · obtain ⟨name, entity, single⟩ := htmlEntity_of_mem markup
    rw [entity, List.cons_append] at suffix ⊢
    rcases List.suffix_cons_iff.mp suffix with same | later
    · exact .inr ⟨markup, same⟩
    · exact .inl (suffix_of_not_mem single later)
  · have other : '&' ≠ c := fun same => markup (same ▸ by decide)
    rw [htmlEntity_of_not_mem markup] at suffix
    exact .inl (suffix_of_not_mem (by simpa using other) suffix)

theorem htmlEntity_prefix_of_suffix {s after : List Char}
    (suffix : '&' :: after <:+ s.flatMap htmlEntity) :
    ∃ c ∈ markupChars, htmlEntity c <+: '&' :: after := by
  induction s with
  | nil => simp at suffix
  | cons c rest ih =>
      rw [List.flatMap_cons] at suffix
      rcases suffix_of_htmlEntity_append suffix with later | ⟨markup, whole⟩
      · exact ih later
      · exact ⟨c, markup, whole ▸ List.prefix_append ..⟩

end ThemeRender.Text

/-! The page -/

namespace ThemeRender

namespace Text

/-- A tag without its brackets, and the text after it. -/
abbrev Tagged := String × String

def readPiece (piece : List Char) : Tagged :=
  match cutWhere? (· == '>') piece with
  | some (tag, text) => (String.ofList tag, String.ofList (readEntities text))
  | none => (String.ofList piece, "")

/-- The tags of a page with their texts, the entities read. What stands before the first tag is the
text of an empty one. -/
def readPage (page : String) : List Tagged :=
  match splitAt '<' page.toList with
  | [] => []
  | lead :: pieces => ("", String.ofList (readEntities lead)) :: pieces.map readPiece

def textsAfter (tag : String) (page : String) : List String :=
  ((readPage page).filter (·.1 == tag)).map (·.2)

def writeTagged (tagged : Tagged) : List Char :=
  '<' :: tagged.1.toList ++ '>' :: (escapeHtml tagged.2).toList

def IsTag (tag : String) : Prop :=
  '<' ∉ tag.toList ∧ '>' ∉ tag.toList

theorem readPiece_append {tagged : Tagged} (tag : IsTag tagged.1) :
    readPiece (tagged.1.toList ++ '>' :: (escapeHtml tagged.2).toList) = tagged := by
  have within : ∀ c ∈ tagged.1.toList, (!(c == '>')) = true := fun c member => by
    simpa using fun same : c = '>' => tag.2 (same ▸ member)
  have ends : ∀ c, ('>' :: (escapeHtml tagged.2).toList).head? = some c → (!(c == '>')) = false := by
    simp
  rw [readPiece, cutWhere?_eq, takeWhile_exact within ends, dropWhile_exact within ends]
  exact Prod.ext String.ofList_toList (unescapeHtml_escapeHtml tagged.2)

theorem splitAt_flatMap_writeTagged (lead : List Char) (plain : '<' ∉ lead) {tags : List Tagged}
    (allTags : ∀ tagged ∈ tags, IsTag tagged.1) :
    splitAt '<' (lead ++ tags.flatMap writeTagged) =
      lead :: tags.map fun tagged => tagged.1.toList ++ '>' :: (escapeHtml tagged.2).toList := by
  induction tags generalizing lead with
  | nil => simpa using splitAt_of_not_mem plain
  | cons tagged tags ih =>
      have textPlain : '<' ∉ (escapeHtml tagged.2).toList := by
        rw [escapeHtml, String.toList_ofList]
        exact not_mem_flatMap_htmlEntity (by decide) (by decide) _
      have piecePlain : '<' ∉ tagged.1.toList ++ '>' :: (escapeHtml tagged.2).toList := by
        simpa [textPlain] using (allTags tagged (by simp)).1
      rw [List.flatMap_cons, writeTagged, List.cons_append, List.cons_append, splitAt_append,
        splitAt_of_not_mem plain,
        ih _ piecePlain fun later member => allTags later (by simp [member])]
      rfl

theorem readPage_flatMap_writeTagged {tags : List Tagged}
    (allTags : ∀ tagged ∈ tags, IsTag tagged.1) :
    readPage (String.ofList (tags.flatMap writeTagged)) = ("", "") :: tags := by
  have pieces := splitAt_flatMap_writeTagged [] (by simp) allTags
  have same : (tags.map fun tagged => tagged.1.toList ++ '>' :: (escapeHtml tagged.2).toList).map
      readPiece = tags := by
    rw [List.map_map]
    exact (List.map_congr_left fun tagged member => readPiece_append (allTags tagged member)).trans
      (List.map_id' tags)
  rw [readPage, String.toList_ofList, ← List.nil_append (tags.flatMap writeTagged), pieces]
  exact congrArg (_ :: ·) same

end Text

open Text

def errorPageTags (title message : String) : List Tagged :=
  [("!DOCTYPE html", "\n"), ("html", "\n"), ("head", "\n  "),
    ("meta charset=\"utf-8\"", "\n  "), ("title", title), ("/title", "\n"), ("/head", "\n"),
    ("body class=\"render-error\"", "\n  "), ("h1", title), ("/h1", "\n  "), ("p", message),
    ("/p", "\n"), ("/body", "\n"), ("/html", "\n")]

theorem htmlErrorPage_eq (title message : String) :
    htmlErrorPage title message =
      String.ofList ((errorPageTags title message).flatMap writeTagged) := by
  have feed : escapeHtml "\n" = "\n" := by rfl
  have indent : escapeHtml "\n  " = "\n  " := by rfl
  apply String.toList_injective
  simp [htmlErrorPage, errorPageTags, writeTagged, feed, indent, String.join, toString]

theorem isTag_of_mem_errorPageTags {title message : String} {tagged : Tagged}
    (member : tagged ∈ errorPageTags title message) : IsTag tagged.1 := by
  have named : tagged.1 ∈ (errorPageTags title message).map (·.1) :=
    List.mem_map_of_mem member
  -- The texts have no part in the tags.
  have all : ∀ tag ∈ (errorPageTags "" "").map (·.1), IsTag tag := by
    unfold IsTag
    decide
  exact all _ named

theorem escaping_lossless_and_error_page_readable :
    (∀ s : String, unescapeHtml (escapeHtml s) = s ∧
      (∀ c ∈ ['<', '>', '"', '\''], c ∉ (escapeHtml s).toList) ∧
      ∀ before after, (escapeHtml s).toList = before ++ '&' :: after →
        ∃ c ∈ markupChars, htmlEntity c <+: '&' :: after) ∧
    Function.Injective escapeHtml ∧
    (∀ a b : String, escapeHtml (a ++ b) = escapeHtml a ++ escapeHtml b) ∧
    ∀ title message : String,
      readPage (htmlErrorPage title message) = ("", "") :: errorPageTags title message ∧
      textsAfter "title" (htmlErrorPage title message) = [title] ∧
      textsAfter "h1" (htmlErrorPage title message) = [title] ∧
      textsAfter "p" (htmlErrorPage title message) = [message] := by
  refine ⟨fun s => ⟨unescapeHtml_escapeHtml s, fun c listed => ?_, fun before after written => ?_⟩,
    escapeHtml_injective, escapeHtml_append, fun title message => ?_⟩
  · rw [escapeHtml, String.toList_ofList]
    refine not_mem_flatMap_htmlEntity (List.mem_cons_of_mem _ listed) (fun same => ?_) _
    subst same
    revert listed
    decide
  · rw [escapeHtml, String.toList_ofList] at written
    exact htmlEntity_prefix_of_suffix (written ▸ List.suffix_append before ('&' :: after))
  · have read : readPage (htmlErrorPage title message) = ("", "") :: errorPageTags title message := by
      rw [htmlErrorPage_eq]
      exact readPage_flatMap_writeTagged fun tagged member => isTag_of_mem_errorPageTags member
    refine ⟨read, ?_, ?_, ?_⟩ <;>
      rw [textsAfter, read, errorPageTags] <;> rfl

end ThemeRender
