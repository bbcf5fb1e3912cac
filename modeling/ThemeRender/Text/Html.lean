/-!
Text inside HTML. The five characters that mean something in markup are written as entities, so the
written text holds none of `<`, `>`, `"` and `'`.
-/

namespace ThemeRender.Text

def htmlEntity (c : Char) : List Char :=
  match c with
  | '&' => "&amp;".toList
  | '<' => "&lt;".toList
  | '>' => "&gt;".toList
  | '"' => "&quot;".toList
  | '\'' => "&#39;".toList
  | _ => [c]

def escapeHtml (text : String) : String :=
  String.ofList (text.toList.flatMap htmlEntity)

theorem escapeHtml_append (a b : String) : escapeHtml (a ++ b) = escapeHtml a ++ escapeHtml b := by
  simp [escapeHtml, String.toList_append, String.ofList_append]

end ThemeRender.Text
