import ThemeRender.Markup.Piece
/-!
The attributes of an element: shorthand classes and ids, lists in parentheses and hashes in braces.
Readers take the text from where they start and give back what is left of it, which is never longer.
-/

namespace ThemeRender.Markup

inductive AttrValue where
  | literal (pieces : List Piece)
  | expr (code : List Char)
  /-- An attribute without a value. -/
  | flag
deriving DecidableEq, Repr

structure Attr where
  name : List Char
  value : AttrValue
deriving DecidableEq, Repr

def isNameChar (c : Char) : Bool :=
  c.isAlphanum || c == '-' || c == '_'

def isAttrNameChar (c : Char) : Bool :=
  isNameChar c || c == ':' || c == '@' || c == '.'

def skipSpaces (s : List Char) : List Char :=
  s.dropWhile fun c => c == ' ' || c == '\t'

theorem length_dropWhile_le (p : Char → Bool) (s : List Char) :
    (s.dropWhile p).length ≤ s.length :=
  (List.dropWhile_suffix p).length_le

/-! Shorthands -/

structure Shorthands where
  id? : Option (List Char)
  classes : List (List Char)

def readShorthands (found : Shorthands) (s : List Char) :
    Except CompileFault (Shorthands × List Char) :=
  match s with
  | '.' :: c :: rest =>
      if isNameChar c then
        readShorthands { found with classes := found.classes ++ [c :: rest.takeWhile isNameChar] }
          (rest.dropWhile isNameChar)
      else .ok (found, s)
  | '#' :: c :: rest =>
      if isNameChar c then
        let id := c :: rest.takeWhile isNameChar
        if found.id?.isSome then .error (.secondId id)
        else readShorthands { found with id? := some id } (rest.dropWhile isNameChar)
      else .ok (found, s)
  | _ => .ok (found, s)
termination_by s.length
decreasing_by
  all_goals
    have := length_dropWhile_le isNameChar rest
    simp only [List.length_cons]
    omega

/-! Values -/

/-- The contents of a string after its opening quote, and the text after it. A backslash stands for
the character after it. -/
def readString (quote : Char) : List Char → Except CompileFault (List Char × List Char)
  | [] => .error (.unterminatedString quote)
  | c :: rest =>
      if c = '\\' then
        match rest with
        | [] => .error (.unterminatedString quote)
        | d :: rest => (readString quote rest).map fun found => (d :: found.1, found.2)
      else if c = quote then .ok ([], rest)
      else (readString quote rest).map fun found => (c :: found.1, found.2)

private theorem ok_of_map {α β : Type} {f : α → β} {x : Except CompileFault α} {b : β}
    (h : x.map f = .ok b) : ∃ a, x = .ok a ∧ f a = b := by
  cases x with
  | error => simp [Except.map] at h
  | ok a => exact ⟨a, rfl, by simpa [Except.map] using h⟩

theorem length_of_readString {quote : Char} {s contents rest : List Char}
    (h : readString quote s = .ok (contents, rest)) : rest.length ≤ s.length := by
  fun_induction readString quote s generalizing contents
  all_goals try simp at h
  · rename_i ih
    obtain ⟨⟨contents', rest'⟩, found, same⟩ := ok_of_map h
    simp only [Prod.mk.injEq] at same
    have := ih (same.2 ▸ found)
    simp only [List.length_cons]
    omega
  · simp_all
  · rename_i ih
    obtain ⟨⟨contents', rest'⟩, found, same⟩ := ok_of_map h
    simp only [Prod.mk.injEq] at same
    have := ih (same.2 ▸ found)
    simp only [List.length_cons]
    omega

def prepend (c : Char) (found : List Char × List Char) : List Char × List Char :=
  (c :: found.1, found.2)

/-- The part of a text that belongs to an expression, and the rest. `depth` brackets are open, and
so is the string started by `quote?`. -/
def spanExpr (terminators : List Char) (depth : Nat) (quote? : Option Char) :
    List Char → List Char × List Char
  | [] => ([], [])
  | c :: rest =>
      match quote? with
      | some quote =>
          if c = '\\' then
            match rest with
            | [] => ([c], [])
            | d :: rest => prepend c (prepend d (spanExpr terminators depth quote? rest))
          else prepend c (spanExpr terminators depth (if c = quote then none else quote?) rest)
      | none =>
          if c = '"' ∨ c = '\'' then prepend c (spanExpr terminators depth (some c) rest)
          else if c ∈ ['(', '[', '\x7b'] then prepend c (spanExpr terminators (depth + 1) none rest)
          else if c ∈ [')', ']', '\x7d'] ∧ 0 < depth then
            prepend c (spanExpr terminators (depth - 1) none rest)
          else if depth = 0 ∧ c ∈ terminators then ([], c :: rest)
          else prepend c (spanExpr terminators depth none rest)

theorem spanExpr_append (terminators : List Char) (depth : Nat) (quote? : Option Char)
    (s : List Char) :
    (spanExpr terminators depth quote? s).1 ++ (spanExpr terminators depth quote? s).2 = s := by
  fun_induction spanExpr terminators depth quote? s <;> simp_all [prepend]

theorem length_spanExpr_le (terminators : List Char) (depth : Nat) (quote? : Option Char)
    (s : List Char) : (spanExpr terminators depth quote? s).2.length ≤ s.length := by
  have := congrArg List.length (spanExpr_append terminators depth quote? s)
  simp only [List.length_append] at this
  omega

def readValue (terminators : List Char) (s : List Char) :
    Except CompileFault (AttrValue × List Char) :=
  let bare : Except CompileFault (AttrValue × List Char) :=
    let found := spanExpr terminators 0 none s
    let code := Text.trim found.1
    if code.isEmpty then .error .missingAttributeValue else .ok (.expr code, found.2)
  match s with
  | [] => bare
  | c :: rest =>
      if c = '"' ∨ c = '\'' then
        match readString c rest with
        | .error fault => .error fault
        | .ok (contents, rest) =>
            match interpolate contents with
            | .error fault => .error fault
            | .ok pieces => .ok (.literal pieces, rest)
      else bare

theorem length_of_readValue {terminators s rest : List Char} {value : AttrValue}
    (h : readValue terminators s = .ok (value, rest)) : rest.length ≤ s.length := by
  have bare (s : List Char) := length_spanExpr_le terminators 0 none s
  unfold readValue at h
  dsimp only at h
  split at h
  · split at h
    · simp at h
    · simp only [Except.ok.injEq, Prod.mk.injEq] at h
      rw [← h.2]
      exact bare []
  · split at h
    · split at h
      · simp at h
      · rename_i found
        have := length_of_readString found
        split at h
        · simp at h
        · simp only [Except.ok.injEq, Prod.mk.injEq] at h
          rw [← h.2]
          exact Nat.le_succ_of_le this
    · split at h
      · simp at h
      · simp only [Except.ok.injEq, Prod.mk.injEq] at h
        rw [← h.2]
        exact bare _

/-! Lists -/

def skipSeparators (s : List Char) : List Char :=
  s.dropWhile fun c => Text.isBlank c || c == ','

def readListValue (s : List Char) : Except CompileFault (AttrValue × List Char) :=
  match skipSpaces s with
  | '=' :: rest => readValue [' ', '\t', ',', ')'] (skipSpaces rest)
  | rest => .ok (.flag, rest)

theorem length_of_readListValue {s rest : List Char} {value : AttrValue}
    (h : readListValue s = .ok (value, rest)) : rest.length ≤ s.length := by
  have spaces (t : List Char) : (skipSpaces t).length ≤ t.length := length_dropWhile_le _ t
  have here := spaces s
  unfold readListValue at h
  split at h
  · rename_i tail found
    have := length_of_readValue h
    have := spaces tail
    simp only [found, List.length_cons] at here
    omega
  · simp only [Except.ok.injEq, Prod.mk.injEq] at h
    rw [← h.2]
    exact here

/-- Reads `a="x" b=expr, flag)` after the opening parenthesis, to after the closing one. -/
def readList (s : List Char) : Except CompileFault (List Attr × List Char) :=
  match _start : skipSeparators s with
  | [] => .error .unterminatedAttributes
  | c :: rest =>
      if c = ')' then .ok ([], rest)
      else if isAttrNameChar c then
        let name := c :: rest.takeWhile isAttrNameChar
        match _value : readListValue (rest.dropWhile isAttrNameChar) with
        | .error fault => .error fault
        | .ok (value, after) =>
            (readList after).map fun found => (⟨name, value⟩ :: found.1, found.2)
      else .error (.missingAttributeName c)
termination_by s.length
decreasing_by
  have separators := length_dropWhile_le (fun c => Text.isBlank c || c == ',') s
  have name := length_dropWhile_le isAttrNameChar rest
  have value := length_of_readListValue _value
  rw [show s.dropWhile (fun c => Text.isBlank c || c == ',') = c :: _ from _start] at separators
  simp only [List.length_cons] at separators
  omega

/-- The name of an attribute in a hash, whether a colon has been read with it, and the rest. -/
structure HashName where
  name : List Char
  separated : Bool
  rest : List Char

/-- A quoted name, or a bare one, which may have a colon in front and takes colons after it. -/
def readHashName (c : Char) (rest : List Char) : Except CompileFault HashName :=
  if c = '"' ∨ c = '\'' then
    (readString c rest).map fun found => ⟨found.1, false, found.2⟩
  else
    let bare := if c = ':' then rest else c :: rest
    let raw := bare.takeWhile isAttrNameChar
    .ok ⟨(raw.reverse.dropWhile (· == ':')).reverse, raw.getLast? == some ':',
      bare.dropWhile isAttrNameChar⟩

theorem length_of_readHashName {c : Char} {rest : List Char} {found : HashName}
    (h : readHashName c rest = .ok found) (named : found.name ≠ []) :
    found.rest.length ≤ rest.length := by
  unfold readHashName at h
  split at h
  · obtain ⟨contents, read, same⟩ := ok_of_map h
    subst same
    exact length_of_readString read
  · simp only [Except.ok.injEq] at h
    subst h
    split
    · exact length_dropWhile_le _ _
    · rename_i notColon
      simp only [notColon, if_false, List.takeWhile_cons, List.dropWhile_cons] at named ⊢
      split
      · exact length_dropWhile_le _ _
      · simp_all

def afterHashSign? : List Char → Option (List Char)
  | ':' :: rest => some rest
  | '=' :: '>' :: rest => some rest
  | _ => none

theorem length_of_afterHashSign? {s rest : List Char} (h : afterHashSign? s = some rest) :
    rest.length < s.length := by
  unfold afterHashSign? at h
  split at h
  · cases h
    exact Nat.lt_succ_self _
  · cases h
    exact Nat.lt_add_of_pos_right (Nat.zero_lt_two)
  · cases h

def readHashValue (found : HashName) : Except CompileFault (AttrValue × List Char) :=
  if found.name.isEmpty then .error .missingHashName
  else
    let rest := skipSpaces found.rest
    if found.separated then readValue [',', '\x7d'] (skipSpaces rest)
    else
      match afterHashSign? rest with
      | none => .error (.missingHashColon found.name)
      | some rest => readValue [',', '\x7d'] (skipSpaces rest)

theorem length_of_readHashValue {found : HashName} {value : AttrValue} {rest : List Char}
    (h : readHashValue found = .ok (value, rest)) :
    found.name ≠ [] ∧ rest.length ≤ found.rest.length := by
  have spaces (t : List Char) : (skipSpaces t).length ≤ t.length := length_dropWhile_le _ t
  unfold readHashValue at h
  split at h
  · simp at h
  · rename_i named
    refine ⟨by simpa using named, ?_⟩
    have first := spaces found.rest
    dsimp only at h
    split at h
    · have := length_of_readValue h
      have := spaces (skipSpaces found.rest)
      omega
    · split at h
      · simp at h
      · rename_i tail sign
        have := length_of_readValue h
        have := spaces tail
        have := length_of_afterHashSign? sign
        omega

/-- Reads `a: "x", "data-b" => expr}` after the opening brace, to after the closing one. -/
def readHash (s : List Char) : Except CompileFault (List Attr × List Char) :=
  match _start : skipSeparators s with
  | [] => .error .unterminatedHash
  | c :: rest =>
      if c = '\x7d' then .ok ([], rest)
      else
        match _name : readHashName c rest with
        | .error fault => .error fault
        | .ok name =>
            match _value : readHashValue name with
            | .error fault => .error fault
            | .ok (value, after) =>
                (readHash after).map fun found => (⟨name.name, value⟩ :: found.1, found.2)
termination_by s.length
decreasing_by
  have separators := length_dropWhile_le (fun c => Text.isBlank c || c == ',') s
  have value := length_of_readHashValue _value
  have name := length_of_readHashName _name value.1
  rw [show s.dropWhile (fun c => Text.isBlank c || c == ',') = c :: _ from _start] at separators
  simp only [List.length_cons] at separators
  omega

end ThemeRender.Markup
