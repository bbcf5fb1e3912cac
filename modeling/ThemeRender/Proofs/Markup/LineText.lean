import ThemeRender.Markup.HamlLines
import ThemeRender.Markup.JadeLines
import ThemeRender.Proofs.Markup.AttributeText
import ThemeRender.Proofs.Markup.SourceLines

namespace ThemeRender.Markup

open Outcome (except_bind_eq_ok of_map_ok)

/-! Lines and trees -/

theorem flat_linesFrom {number offset : Nat} {raws : List (List Char)} {lines : List Line}
    (flat : ∀ raw ∈ raws, Text.Flat (Text.trimEnd raw))
    (reads : linesFrom number offset raws = .ok lines) :
    ∀ line ∈ lines, Text.Flat line.text := by
  induction raws generalizing number offset lines with
  | nil =>
      cases reads
      intro line member
      cases member
  | cons raw rest ih =>
      rw [List.forall_mem_cons] at flat
      obtain ⟨more, readsMore, here⟩ := linesFrom_cons_ok reads
      have flatMore := ih flat.2 readsMore
      rcases here with ⟨-, rfl⟩ | ⟨-, rfl⟩
      · exact flatMore
      · exact List.forall_mem_cons.mpr ⟨flat_dropWhile flat.1 _, flatMore⟩

mutual

def LineTree.Flat : LineTree → Prop
  | .mk line nested => Text.Flat line.text ∧ LineTree.FlatForest nested

def LineTree.FlatForest : List LineTree → Prop
  | [] => True
  | tree :: rest => tree.Flat ∧ LineTree.FlatForest rest

end

theorem LineTree.flat_forest {level : Nat} {lines : List Line} {trees : List LineTree}
    (flat : ∀ line ∈ lines, Text.Flat line.text) (built : forest level lines = .ok trees) :
    FlatForest trees := by
  fun_induction forest level lines generalizing trees with
  | case1 =>
      cases built
      trivial
  | case2 => cases built
  | case3 level line rest here deeper others =>
      rename_i ihDeeper ihOthers
      obtain ⟨nested, builtNested, built⟩ := except_bind_eq_ok.mp built
      obtain ⟨siblings, builtSiblings, same⟩ := except_bind_eq_ok.mp built
      cases same
      have flatRest (line : Line) (member : line ∈ rest) : Text.Flat line.text :=
        flat line (List.mem_cons_of_mem _ member)
      refine ⟨⟨flat line List.mem_cons_self, ?_⟩, ?_⟩
      · exact ihDeeper (fun line member => flatRest line (List.takeWhile_subset _ member))
          builtNested
      · exact ihOthers (fun line member => flatRest line (List.dropWhile_subset _ member))
          builtSiblings

theorem LineTree.flat_ofSource {source : List Char} {trees : List LineTree}
    (built : ofSource source = .ok trees) : FlatForest trees := by
  obtain ⟨lines, readsLines, built⟩ := except_bind_eq_ok.mp built
  apply flat_forest (flat_linesFrom _ readsLines) built
  intro raw member
  exact Text.flat_trimEnd member

mutual

theorem LineTree.flat_rawLines (base : Nat) : ∀ tree : LineTree, tree.Flat →
    ∀ text ∈ rawLines base tree, Text.Flat text
  | .mk line nested => by
      intro flat text member
      rw [rawLines] at member
      rcases List.mem_cons.mp member with rfl | later
      · exact (Text.flat_blanks _).append flat.1
      · exact LineTree.flat_rawForest base nested flat.2 text later

theorem LineTree.flat_rawForest (base : Nat) : ∀ trees : List LineTree, FlatForest trees →
    ∀ text ∈ rawForest base trees, Text.Flat text
  | [] => by
      intro flat text member
      cases member
  | tree :: rest => by
      intro flat text member
      rw [rawForest] at member
      rcases List.mem_append.mp member with first | later
      · exact LineTree.flat_rawLines base tree flat.1 text first
      · exact LineTree.flat_rawForest base rest flat.2 text later

end

theorem LineTree.flat_rawNested {line : Line} {nested : List LineTree}
    (flat : FlatForest nested) : ∀ text ∈ rawNested (.mk line nested), Text.Flat text := by
  unfold rawNested
  split
  · intro text member
    cases member
  · rename_i first rest same
    have flatAll : FlatForest (first :: rest) := by
      rw [← same]
      exact flat
    exact flat_rawForest _ _ flatAll

/-! Words and codes -/

theorem flat_cutWhere? {p : Char → Bool} {s before after : List Char} (flat : Text.Flat s)
    (cut : Text.cutWhere? p s = some (before, after)) : Text.Flat before ∧ Text.Flat after := by
  induction s generalizing before with
  | nil => cases cut
  | cons c rest ih =>
      rw [Text.cutWhere?] at cut
      split at cut
      · cases cut
        exact ⟨Text.Flat.nil, flat.of_cons⟩
      · obtain ⟨⟨first, second⟩, cutRest, same⟩ := Option.map_eq_some_iff.mp cut
        cases same
        obtain ⟨flatFirst, flatSecond⟩ := ih flat.of_cons cutRest
        exact ⟨Text.Flat.cons flat.head flatFirst, flatSecond⟩

theorem flat_firstWord {text : List Char} (flat : Text.Flat text) :
    Text.Flat (firstWord text).2 := by
  unfold firstWord
  split
  · rename_i cut
    exact (flat_cutWhere? flat cut).2.trim
  · exact Text.Flat.nil

theorem onLine_ofCode {line : List Char} (flat : Text.Flat line) :
    (Construct.ofCode line).OnLine := by
  have flatRest := flat_firstWord flat.trim
  unfold Construct.ofCode
  dsimp only
  split
  · exact flatRest
  · split
    · trivial
    · split
      · exact flatRest
      · exact flat.trim

theorem of_check {α : Type} {line : Line} {result : Except CompileFault α} {a : α}
    (checks : line.check result = .ok a) : result = .ok a := by
  cases result with
  | error fault => cases checks
  | ok b =>
      cases checks
      rfl

/-! Items -/

theorem constructsOf_append (first second : List Item) :
    constructsOf (first ++ second) = constructsOf first ++ constructsOf second := by
  induction first with
  | nil => rfl
  | cons item rest ih => rw [List.cons_append, constructsOf, constructsOf, ih, List.append_assoc]

def ItemsOnLine (items : List Item) : Prop :=
  ∀ construct ∈ constructsOf items, construct.OnLine

theorem ItemsOnLine.nil : ItemsOnLine [] := by
  intro construct member
  cases member

theorem ItemsOnLine.append {first second : List Item} (onLine : ItemsOnLine first)
    (onLineMore : ItemsOnLine second) : ItemsOnLine (first ++ second) := by
  intro construct member
  rw [constructsOf_append] at member
  rcases List.mem_append.mp member with before | after
  · exact onLine construct before
  · exact onLineMore construct after

theorem ItemsOnLine.single {line : Line} {construct : Construct} {nested : List Item}
    (onLine : construct.OnLine) (onLineNested : ItemsOnLine nested) :
    ItemsOnLine [.ofLine line construct nested] := by
  intro found member
  rw [constructsOf, constructsOf, List.append_nil, Item.ofLine, Item.constructs] at member
  rcases List.mem_cons.mp member with rfl | within
  · exact onLine
  · exact onLineNested found within

/-! Haml -/

namespace Haml

theorem onLine_readAttributes {count : Nat} {s rest : List Char} {attrs : List Attr}
    (flat : Text.Flat s) (reads : readAttributes count s = .ok (attrs, rest)) :
    AttrsOnLine attrs ∧ Text.Flat rest := by
  have join {first second : List Attr} (onLine : AttrsOnLine first)
      (onLineMore : AttrsOnLine second) : AttrsOnLine (first ++ second) := by
    intro attr member
    rcases List.mem_append.mp member with before | after
    · exact onLine attr before
    · exact onLineMore attr after
  induction count generalizing s attrs with
  | zero =>
      cases reads
      exact ⟨AttrsOnLine.nil, flat⟩
  | succ count ih =>
      rw [readAttributes.eq_def] at reads
      dsimp only at reads
      split at reads
      · obtain ⟨⟨first, after⟩, readsList, reads⟩ := except_bind_eq_ok.mp reads
        obtain ⟨⟨more, left⟩, readsMore, same⟩ := except_bind_eq_ok.mp reads
        cases same
        obtain ⟨onLine, flatAfter⟩ := onLine_readList flat.of_cons readsList
        obtain ⟨onLineMore, flatRest⟩ := ih flatAfter readsMore
        exact ⟨join onLine onLineMore, flatRest⟩
      · obtain ⟨⟨first, after⟩, readsHash, reads⟩ := except_bind_eq_ok.mp reads
        obtain ⟨⟨more, left⟩, readsMore, same⟩ := except_bind_eq_ok.mp reads
        cases same
        obtain ⟨onLine, flatAfter⟩ := onLine_readHash flat.of_cons readsHash
        obtain ⟨onLineMore, flatRest⟩ := ih flatAfter readsMore
        exact ⟨join onLine onLineMore, flatRest⟩
      · cases reads
        exact ⟨AttrsOnLine.nil, flat⟩

theorem onLine_readInline {line : Line} {rest : List Char} {inline : Inline}
    (flat : Text.Flat rest) (reads : readInline line rest = .ok inline) : inline.OnLine := by
  unfold readInline at reads
  split at reads
  · dsimp only at reads
    split at reads
    · cases reads
    · cases reads
      exact flat.of_cons.trim
  · split at reads
    · cases reads
      trivial
    · split at reads
      · obtain ⟨pieces, checks, same⟩ := of_map_ok reads
        cases same
        exact onLine_interpolate flat.trim (of_check checks)
      · cases reads

theorem onLine_readElement {line : Line} {element : Element} (flat : Text.Flat line.text)
    (reads : readElement line = .ok element) : element.OnLine := by
  have tagParts : (∀ c ∈ (readTag line.text).1, isNameChar c = true) ∧
      Text.Flat (readTag line.text).2 := by
    unfold readTag
    split
    · rename_i tail text
      rw [text] at flat
      exact ⟨nameChars_takeWhile _, flat_dropWhile flat.of_cons _⟩
    · have letters : ∀ c ∈ "div".toList, isNameChar c = true :=
        List.all_eq_true.mp rfl
      exact ⟨letters, flat⟩
  unfold readElement at reads
  dsimp only at reads
  obtain ⟨⟨shorthands, afterShorthands⟩, readsShorthands, reads⟩ := except_bind_eq_ok.mp reads
  obtain ⟨⟨attrs, afterAttrs⟩, readsAttrs, reads⟩ := except_bind_eq_ok.mp reads
  obtain ⟨onLineShorthands, flatShorthands⟩ := @onLine_readShorthands _ _ ⟨none, []⟩ _
    (by simp [Shorthands.OnLine]) tagParts.2 (of_check readsShorthands)
  obtain ⟨onLineAttrs, flatAttrs⟩ := onLine_readAttributes flatShorthands (of_check readsAttrs)
  dsimp only at reads
  split at reads
  · obtain ⟨inline, readsInline, same⟩ := except_bind_eq_ok.mp reads
    cases same
    exact ⟨tagParts.1, onLineShorthands, onLineAttrs,
      onLine_readInline flatAttrs.of_cons readsInline⟩
  · obtain ⟨inline, readsInline, same⟩ := except_bind_eq_ok.mp reads
    cases same
    exact ⟨tagParts.1, onLineShorthands, onLineAttrs, onLine_readInline flatAttrs readsInline⟩

theorem flat_filterLines {name : List Char} {body lines : List (List Char)}
    (flat : ∀ text ∈ body, Text.Flat text) (reads : filterLines name body = .ok lines) :
    ∀ text ∈ lines, Text.Flat text := by
  have flatIndented : ∀ text ∈ indented body, Text.Flat text := by
    intro text member
    obtain ⟨line, within, rfl⟩ := List.mem_map.mp member
    exact Text.Flat.cons (by decide) (Text.Flat.cons (by decide) (flat line within))
  have between {opening closing : List Char} (flatOpening : Text.Flat opening)
      (flatClosing : Text.Flat closing) :
      ∀ text ∈ opening :: indented body ++ [closing], Text.Flat text := by
    intro text member
    rcases List.mem_append.mp member with before | last
    · rcases List.mem_cons.mp before with rfl | within
      · exact flatOpening
      · exact flatIndented text within
    · rw [List.mem_singleton.mp last]
      exact flatClosing
  unfold filterLines at reads
  dsimp only at reads
  split at reads
  · cases reads
    exact flat
  · split at reads
    · cases reads
      exact between (by decide) (by decide)
    · split at reads
      · cases reads
        exact between (by decide) (by decide)
      · cases reads

theorem flat_doctypeOf {text : List Char} (flat : Text.Flat text) : Text.Flat (doctypeOf text) := by
  unfold doctypeOf
  dsimp only
  split
  · decide
  · exact flat.trim

theorem onLine_readConstruct {line : Line} {raw : List (List Char)} {construct : Construct}
    (flat : Text.Flat line.text) (flatRaw : ∀ text ∈ raw, Text.Flat text)
    (reads : readConstruct line raw = .ok construct) : construct.OnLine := by
  unfold readConstruct at reads
  split at reads
  · rename_i rest text
    rw [text] at flat
    cases reads
    exact flat_doctypeOf flat.of_cons.of_cons.of_cons
  · obtain ⟨lines, checks, same⟩ := of_map_ok reads
    cases same
    exact flat_filterLines flatRaw (of_check checks)
  · rename_i rest text
    rw [text] at flat
    obtain ⟨pieces, checks, same⟩ := of_map_ok reads
    cases same
    exact onLine_interpolate flat.of_cons (of_check checks)
  · rename_i rest text
    rw [text] at flat
    cases reads
    exact flat.of_cons.trim
  · rename_i rest text
    rw [text] at flat
    dsimp only at reads
    split at reads
    · cases reads
    · cases reads
      exact flat.of_cons.trim
  · rename_i rest text
    rw [text] at flat
    split at reads
    · cases reads
    · cases reads
      exact onLine_ofCode flat.of_cons
  · split at reads
    · obtain ⟨element, readsElement, same⟩ := of_map_ok reads
      cases same
      exact onLine_readElement flat readsElement
    · obtain ⟨pieces, checks, same⟩ := of_map_ok reads
      cases same
      exact onLine_interpolate flat (of_check checks)

mutual

theorem onLine_readTree : ∀ (tree : LineTree) {items : List Item}, tree.Flat →
    readTree tree = .ok items → ItemsOnLine items
  | .mk line nested, items, flat, reads => by
      rw [readTree] at reads
      split at reads
      · cases reads
        exact ItemsOnLine.nil
      · obtain ⟨construct, readsConstruct, reads⟩ := except_bind_eq_ok.mp reads
        have onLine := onLine_readConstruct flat.1 (LineTree.flat_rawNested flat.2) readsConstruct
        split at reads
        · cases reads
          exact ItemsOnLine.single onLine ItemsOnLine.nil
        · obtain ⟨inner, readsNested, same⟩ := except_bind_eq_ok.mp reads
          cases same
          exact ItemsOnLine.single onLine (onLine_readForest nested flat.2 readsNested)

theorem onLine_readForest : ∀ (trees : List LineTree) {items : List Item},
    LineTree.FlatForest trees → readForest trees = .ok items → ItemsOnLine items
  | [], items, flat, reads => by
      cases reads
      exact ItemsOnLine.nil
  | tree :: rest, items, flat, reads => by
      rw [readForest] at reads
      obtain ⟨first, readsFirst, reads⟩ := except_bind_eq_ok.mp reads
      obtain ⟨more, readsMore, same⟩ := except_bind_eq_ok.mp reads
      cases same
      exact (onLine_readTree tree flat.1 readsFirst).append
        (onLine_readForest rest flat.2 readsMore)

end

end Haml

/-! Jade -/

namespace Jade

theorem flat_readCodeAfter {line : Line} {text code : List Char} (flat : Text.Flat text)
    (reads : readCodeAfter line text = .ok code) : Text.Flat code := by
  unfold readCodeAfter at reads
  dsimp only at reads
  split at reads
  · cases reads
  · cases reads
    exact flat.trim

theorem onLine_readKeyword {line : Line} {construct : Construct} (flat : Text.Flat line.text)
    (reads : readKeyword line = .ok (some construct)) : construct.OnLine := by
  have flatRest := flat_firstWord flat
  unfold readKeyword at reads
  dsimp only at reads
  split at reads
  · cases reads
    change Text.Flat (if _ then _ else _)
    split
    · decide
    · exact flatRest
  · split at reads
    · cases reads
      trivial
    · split at reads
      · split at reads
        · cases reads
        · cases reads
          exact onLine_ofCode flat
      · cases reads

structure Head.OnLine (head : Head) : Prop where
  tag : ∀ c ∈ head.tag, isNameChar c = true
  shorthands : head.shorthands.OnLine
  attrs : AttrsOnLine head.attrs
  rest : Text.Flat head.rest

theorem onLine_readHead {line : Line} {head : Head} (flat : Text.Flat line.text)
    (reads : readHead line = .ok head) : head.OnLine := by
  unfold readHead at reads
  dsimp only at reads
  obtain ⟨⟨shorthands, afterShorthands⟩, readsShorthands, reads⟩ := except_bind_eq_ok.mp reads
  obtain ⟨onLineShorthands, flatShorthands⟩ := @onLine_readShorthands _ _ ⟨none, []⟩ _
    (by simp [Shorthands.OnLine]) (flat_dropWhile flat _) (of_check readsShorthands)
  have letters : ∀ c ∈ (if (line.text.takeWhile isNameChar).isEmpty then "div".toList
      else line.text.takeWhile isNameChar), isNameChar c = true := by
    split
    · exact List.all_eq_true.mp rfl
    · exact nameChars_takeWhile _
  dsimp only at reads
  split at reads
  · obtain ⟨⟨attrs, afterAttrs⟩, readsAttrs, same⟩ := except_bind_eq_ok.mp reads
    cases same
    obtain ⟨onLineAttrs, flatAttrs⟩ := onLine_readList flatShorthands.of_cons (of_check readsAttrs)
    exact ⟨letters, onLineShorthands, onLineAttrs, flatAttrs⟩
  · cases reads
    exact ⟨letters, onLineShorthands, AttrsOnLine.nil, flatShorthands⟩

theorem onLine_readInline {line : Line} {tag rest : List Char} {inline : Inline}
    (flat : Text.Flat rest) (reads : readInline line tag rest = .ok inline) : inline.OnLine := by
  unfold readInline at reads
  split at reads
  · cases reads
    trivial
  · obtain ⟨code, readsCode, same⟩ := of_map_ok reads
    cases same
    exact flat_readCodeAfter flat.of_cons readsCode
  · obtain ⟨pieces, checks, same⟩ := of_map_ok reads
    cases same
    exact onLine_interpolate flat.of_cons (of_check checks)
  · cases reads
  · cases reads

theorem onLine_readElement {line : Line} {head : Head} {element : Element} (onLine : head.OnLine)
    (reads : readElement line head = .ok element) : element.OnLine := by
  have flat := onLine.rest
  unfold readElement at reads
  dsimp only at reads
  split at reads
  · rename_i rest slash
    rw [slash] at flat
    obtain ⟨inline, readsInline, same⟩ := except_bind_eq_ok.mp reads
    cases same
    exact ⟨onLine.tag, onLine.shorthands, onLine.attrs,
      onLine_readInline flat.of_cons readsInline⟩
  · obtain ⟨inline, readsInline, same⟩ := except_bind_eq_ok.mp reads
    cases same
    exact ⟨onLine.tag, onLine.shorthands, onLine.attrs, onLine_readInline flat readsInline⟩

theorem onLine_readSimple {line : Line} {construct : Construct} (flat : Text.Flat line.text)
    (reads : readSimple line = .ok (some construct)) : construct.OnLine := by
  have text {rest : List Char} (flat : Text.Flat rest)
      (reads : (line.check (interpolate rest)).map (some <| .text ·) = .ok (some construct)) :
      construct.OnLine := by
    obtain ⟨pieces, checks, same⟩ := of_map_ok reads
    cases same
    exact onLine_interpolate flat (of_check checks)
  unfold readSimple at reads
  split at reads
  · rename_i rest bar
    rw [bar] at flat
    exact text flat.of_cons.of_cons reads
  · rename_i rest _ bar
    rw [bar] at flat
    exact text flat.of_cons reads
  · rename_i rest bracket
    rw [bracket] at flat
    exact text flat reads
  · rename_i rest sign
    rw [sign] at flat
    obtain ⟨code, readsCode, same⟩ := of_map_ok reads
    cases same
    exact flat_readCodeAfter flat.of_cons readsCode
  · rename_i rest sign
    rw [sign] at flat
    split at reads
    · cases reads
    · cases reads
      exact onLine_ofCode flat.of_cons
  · exact onLine_readKeyword flat reads

theorem onLine_readTextBlock {line : Line} {tag : List Char} {body : List (List Char)}
    {items : List Item} (flat : ∀ text ∈ body, Text.Flat text)
    (reads : readTextBlock line tag body = .ok items) : ItemsOnLine items := by
  unfold readTextBlock at reads
  split at reads
  · cases reads
    exact ItemsOnLine.single flat ItemsOnLine.nil
  · induction body generalizing items with
    | nil =>
        cases reads
        exact ItemsOnLine.nil
    | cons text rest ih =>
        rw [List.mapM_cons] at reads
        obtain ⟨item, readsItem, reads⟩ := except_bind_eq_ok.mp reads
        obtain ⟨more, readsMore, same⟩ := except_bind_eq_ok.mp reads
        cases same
        obtain ⟨pieces, checks, rfl⟩ := of_map_ok readsItem
        have onLine := onLine_interpolate (flat text List.mem_cons_self) (of_check checks)
        have first : ItemsOnLine [.ofLine line (.text pieces) []] :=
          ItemsOnLine.single onLine ItemsOnLine.nil
        have others := ih (fun text member => flat text (List.mem_cons_of_mem _ member)) readsMore
        exact first.append others

theorem onLine_readComment {line : Line} {text : List Char} {body : List (List Char)}
    (flat : Text.Flat text) (flatBody : ∀ text ∈ body, Text.Flat text) :
    ItemsOnLine [readComment line text body] := by
  unfold readComment
  apply ItemsOnLine.single
  · exact flat.trim
  · split
    · exact ItemsOnLine.nil
    · exact ItemsOnLine.single flatBody ItemsOnLine.nil

mutual

theorem onLine_readTree : ∀ (tree : LineTree) {items : List Item}, tree.Flat →
    readTree tree = .ok items → ItemsOnLine items
  | .mk line nested, items, flat, reads => by
      have flatText := flat.1
      have flatRaw := @LineTree.flat_rawNested line nested flat.2
      rw [readTree] at reads
      split at reads
      · cases reads
        exact ItemsOnLine.nil
      · rename_i rest _ slashes
        rw [slashes] at flatText
        cases reads
        exact onLine_readComment flatText.of_cons.of_cons flatRaw
      · obtain ⟨construct?, readsSimple, reads⟩ := except_bind_eq_ok.mp reads
        cases construct? with
        | some construct =>
            obtain ⟨inner, readsNested, same⟩ := except_bind_eq_ok.mp reads
            cases same
            exact ItemsOnLine.single (onLine_readSimple flat.1 readsSimple)
              (onLine_readForest nested flat.2 readsNested)
        | none =>
            dsimp only at reads
            split at reads
            · obtain ⟨head, readsHead, reads⟩ := except_bind_eq_ok.mp reads
              have onLine := onLine_readHead flat.1 readsHead
              split at reads
              · obtain ⟨body, readsBody, same⟩ := except_bind_eq_ok.mp reads
                cases same
                apply ItemsOnLine.single _ (onLine_readTextBlock flatRaw readsBody)
                exact ⟨onLine.tag, onLine.shorthands, onLine.attrs, trivial⟩
              · obtain ⟨element, readsElement, reads⟩ := except_bind_eq_ok.mp reads
                obtain ⟨inner, readsNested, same⟩ := except_bind_eq_ok.mp reads
                cases same
                exact ItemsOnLine.single (onLine_readElement onLine readsElement)
                  (onLine_readForest nested flat.2 readsNested)
            · cases reads

theorem onLine_readForest : ∀ (trees : List LineTree) {items : List Item},
    LineTree.FlatForest trees → readForest trees = .ok items → ItemsOnLine items
  | [], items, flat, reads => by
      cases reads
      exact ItemsOnLine.nil
  | tree :: rest, items, flat, reads => by
      rw [readForest] at reads
      obtain ⟨first, readsFirst, reads⟩ := except_bind_eq_ok.mp reads
      obtain ⟨more, readsMore, same⟩ := except_bind_eq_ok.mp reads
      cases same
      exact (onLine_readTree tree flat.1 readsFirst).append
        (onLine_readForest rest flat.2 readsMore)

end

end Jade

end ThemeRender.Markup
