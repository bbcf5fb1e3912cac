import ThemeRender.Markup.HamlLines
import ThemeRender.Proofs.Markup.AttributeText
import ThemeRender.Proofs.Markup.ListEnd

namespace ThemeRender.Markup

open Outcome (except_bind_eq_ok of_map_ok)

variable {s rest : List Char}

theorem rest_readShorthands {found all : Shorthands} (reads : readShorthands found s = .ok (all, rest)) :
    rest <:+ s := by
  fun_induction readShorthands found s with
  | case1 found c tail letter ih =>
      have further := (ih reads).trans (List.dropWhile_suffix _)
      exact further.trans (List.suffix_append ['.', c] tail)
  | case2 =>
      cases reads
      exact List.suffix_rfl
  | case3 => cases reads
  | case4 found c tail letter id _ ih =>
      have further := (ih reads).trans (List.dropWhile_suffix _)
      exact further.trans (List.suffix_append ['#', c] tail)
  | case5 =>
      cases reads
      exact List.suffix_rfl
  | case6 =>
      cases reads
      exact List.suffix_rfl

theorem rest_readString {quote : Char} {contents : List Char}
    (reads : readString quote s = .ok (contents, rest)) : rest <:+ s := by
  obtain ⟨part, rfl, -⟩ := readString_part reads
  exact List.suffix_append part rest

theorem rest_readValue {terminators : List Char} {value : AttrValue}
    (reads : readValue terminators s = .ok (value, rest)) : rest <:+ s := by
  have bare (s : List Char) : (spanExpr terminators 0 none s).2 <:+ s :=
    ⟨_, spanExpr_append terminators 0 none s⟩
  unfold readValue at reads
  dsimp only at reads
  split at reads
  · split at reads
    · cases reads
    · cases reads
      exact bare []
  · split at reads
    · split at reads
      · cases reads
      · rename_i contents after readsString
        split at reads
        · cases reads
        · cases reads
          exact (rest_readString readsString).trans (List.suffix_cons _ _)
    · split at reads
      · cases reads
      · cases reads
        exact bare _

theorem rest_readList {attrs : List Attr} (reads : readList s = .ok (attrs, rest)) : rest <:+ s := by
  obtain ⟨body, rfl, -⟩ := readList_part reads
  exact (List.suffix_cons ')' rest).trans (List.suffix_append body _)

theorem rest_readHashName {c : Char} {found : HashName} (reads : readHashName c s = .ok found) :
    found.rest <:+ c :: s := by
  unfold readHashName at reads
  split at reads
  · obtain ⟨contents, readsString, rfl⟩ := of_map_ok reads
    exact (rest_readString readsString).trans (List.suffix_cons c s)
  · cases reads
    dsimp only
    split
    · exact (List.dropWhile_suffix _).trans (List.suffix_cons c s)
    · exact List.dropWhile_suffix _

theorem skipSpaces_suffix (s : List Char) : skipSpaces s <:+ s :=
  List.dropWhile_suffix _

theorem skipSeparators_suffix (s : List Char) : skipSeparators s <:+ s :=
  List.dropWhile_suffix _

theorem suffix_of_afterHashSign? (sign : afterHashSign? s = some rest) : rest <:+ s := by
  unfold afterHashSign? at sign
  split at sign
  · cases sign
    exact List.suffix_cons ':' rest
  · cases sign
    exact List.suffix_append ['=', '>'] rest
  · cases sign

theorem rest_readHashValue {found : HashName} {value : AttrValue}
    (reads : readHashValue found = .ok (value, rest)) : rest <:+ found.rest := by
  unfold readHashValue at reads
  split at reads
  · cases reads
  · dsimp only at reads
    split at reads
    · exact (rest_readValue reads).trans ((skipSpaces_suffix _).trans (skipSpaces_suffix _))
    · split at reads
      · cases reads
      · rename_i tail sign
        exact (rest_readValue reads).trans ((skipSpaces_suffix tail).trans
          ((suffix_of_afterHashSign? sign).trans (skipSpaces_suffix _)))

theorem rest_readHash {attrs : List Attr} (reads : readHash s = .ok (attrs, rest)) : rest <:+ s := by
  fun_induction readHash s generalizing attrs with
  | case1 => cases reads
  | case2 s tail start =>
      cases reads
      have here := skipSeparators_suffix s
      rw [start] at here
      exact (List.suffix_cons _ _).trans here
  | case3 => cases reads
  | case4 => cases reads
  | case5 s c tail start notEnd name readsName value after readsValue ih =>
      obtain ⟨⟨more, left⟩, readsMore, same⟩ := of_map_ok reads
      cases same
      have here := skipSeparators_suffix s
      rw [start] at here
      have named := (rest_readHashName readsName).trans here
      exact ((ih readsMore).trans (rest_readHashValue readsValue)).trans named

namespace Haml

theorem rest_readAttributes {count : Nat} {attrs : List Attr}
    (reads : readAttributes count s = .ok (attrs, rest)) : rest <:+ s := by
  induction count generalizing s attrs with
  | zero =>
      cases reads
      exact List.suffix_rfl
  | succ count ih =>
      rw [readAttributes.eq_def] at reads
      dsimp only at reads
      split at reads
      · obtain ⟨⟨first, after⟩, readsList, reads⟩ := except_bind_eq_ok.mp reads
        obtain ⟨⟨more, left⟩, readsMore, same⟩ := except_bind_eq_ok.mp reads
        cases same
        exact ((ih readsMore).trans (rest_readList readsList)).trans (List.suffix_cons _ _)
      · obtain ⟨⟨first, after⟩, readsHash, reads⟩ := except_bind_eq_ok.mp reads
        obtain ⟨⟨more, left⟩, readsMore, same⟩ := except_bind_eq_ok.mp reads
        cases same
        exact ((ih readsMore).trans (rest_readHash readsHash)).trans (List.suffix_cons _ _)
      · cases reads
        exact List.suffix_rfl

theorem rest_readTag (text : List Char) : (readTag text).2 <:+ text := by
  unfold readTag
  split
  · exact (List.dropWhile_suffix _).trans (List.suffix_cons _ _)
  · exact List.suffix_rfl

end Haml

end ThemeRender.Markup
