import ThemeRender.Data.JsonFault
import ThemeRender.Data.Value
import ThemeRender.Text.Digits
/-!
Reading a value from JSON text. Numbers are rounded to the nearest double, of two fields with one
name the later stays, and nesting is limited.
-/

namespace ThemeRender.JsonReader

/-- A reader's answer is what it found with the text after it. -/
abbrev Attempt := Except JsonFailure

/-- The text at `rest` cannot be read past its first byte. -/
def stopAt {α : Type} (fault : JsonFault) (rest : List Char) : Attempt α :=
  .error ⟨fault, rest, 1⟩

def stopBefore {α : Type} (fault : JsonFault) (rest : List Char) : Attempt α :=
  .error ⟨fault, rest, 0⟩

def isGap (c : Char) : Bool :=
  c == ' ' || c == '\n' || c == '\t' || c == '\r'

def skipGap (s : List Char) : List Char :=
  s.dropWhile isGap

def readWord : List Char → List Char → Attempt (List Char)
  | [], rest => .ok rest
  | _ :: _, [] => stopAt .endOfValue []
  | c :: word, d :: rest => if c = d then readWord word rest else stopAt .expectedIdent (d :: rest)

/-! Numbers -/

def takeDigits (s : List Char) : List Char × List Char :=
  (s.takeWhile Char.isDigit, s.dropWhile Char.isDigit)

/-- The largest exponent that is read as a number. -/
def maxExponent : Nat := 2147483647

/-- The digits of an exponent; `none` once it is past `maxExponent`. -/
def readExponentDigits (exponent : Nat) : List Char → Option Nat × List Char
  | [] => (some exponent, [])
  | c :: rest =>
      if c.isDigit then
        let next := exponent * 10 + (c.toNat - '0'.toNat)
        if maxExponent < next then (none, rest) else readExponentDigits next rest
      else (some exponent, c :: rest)

def finish (negative : Bool) (mantissa : Nat) (exponent : Int) (rest : List Char) :
    Attempt (Value × List Char) :=
  if Decimal.nearestBitsOfScientific mantissa exponent = Decimal.infinityBits then
    stopBefore .numberOutOfRange rest
  else .ok (.number (Decimal.ofScientific negative mantissa exponent), rest)

def readExponent (negative : Bool) (mantissa : Nat) (scale : Int) (s : List Char) :
    Attempt (Value × List Char) :=
  let (down, digits) :=
    match s with
    | '+' :: rest => (false, rest)
    | '-' :: rest => (true, rest)
    | _ => (false, s)
  match digits with
  | [] => stopAt .endOfValue []
  | c :: rest =>
      if c.isDigit then
        match readExponentDigits (c.toNat - '0'.toNat) rest with
        | (some exponent, rest) =>
            finish negative mantissa (scale + if down then -Int.ofNat exponent else Int.ofNat exponent) rest
        | (none, rest) =>
            if mantissa ≠ 0 ∧ !down then stopBefore .numberOutOfRange rest
            else .ok (.number (Decimal.ofScientific negative 0 0), rest.dropWhile Char.isDigit)
      else stopAt .invalidNumber (c :: rest)

def readFraction (negative : Bool) (whole s : List Char) :
    Attempt (Value × List Char) :=
  match s with
  | '.' :: rest =>
      let (digits, rest) := takeDigits rest
      if digits.isEmpty then
        stopAt (if rest.isEmpty then .endOfValue else .invalidNumber) rest
      else
        let mantissa := Nat.ofDigitChars 10 (whole ++ digits) 0
        let scale := -Int.ofNat digits.length
        match rest with
        | 'e' :: rest | 'E' :: rest => readExponent negative mantissa scale rest
        | _ => finish negative mantissa scale rest
  | 'e' :: rest | 'E' :: rest =>
      readExponent negative (Nat.ofDigitChars 10 whole 0) 0 rest
  | _ => finish negative (Nat.ofDigitChars 10 whole 0) 0 s

def readNumber (negative : Bool) (s : List Char) : Attempt (Value × List Char) :=
  match s with
  | [] => stopAt .endOfValue []
  | c :: rest =>
      if c = '0' then
        if (rest.head?.map Char.isDigit).getD false then stopAt .invalidNumber rest
        else readFraction negative ['0'] rest
      else if c.isDigit then
        let (digits, rest) := takeDigits rest
        readFraction negative (c :: digits) rest
      else stopAt .invalidNumber (c :: rest)

/-! Strings -/

/-- The number of four hexadecimal digits. Four bytes are taken in any case. -/
def readHex (s : List Char) : Attempt (Nat × List Char) :=
  if Text.byteLength s < 4 then stopBefore .endOfString []
  else
    match s with
    | a :: b :: c :: d :: rest =>
        if [a, b, c, d].all (Text.isDigitOf 16) then .ok (Text.numberOf 16 [a, b, c, d], rest)
        else .error ⟨.invalidEscape, s, 4⟩
    | _ => .error ⟨.invalidEscape, s, 4⟩

/-- The character of a `\u` escape; one past the basic plane is written as a pair. -/
def readUnicode (s : List Char) : Attempt (Char × List Char) := do
  let (lead, rest) ← readHex s
  if 0xDC00 ≤ lead ∧ lead ≤ 0xDFFF then stopBefore .loneSurrogate rest
  else if lead < 0xD800 ∨ 0xDBFF < lead then .ok (Char.ofNat lead, rest)
  else
    match rest with
    | [] => stopBefore .endOfString []
    | '\\' :: [] => stopBefore .endOfString []
    | '\\' :: 'u' :: rest =>
        let (trail, rest) ← readHex rest
        if trail < 0xDC00 ∨ 0xDFFF < trail then stopBefore .loneSurrogate rest
        else .ok (Char.ofNat (0x10000 + (lead - 0xD800) * 0x400 + (trail - 0xDC00)), rest)
    | '\\' :: rest => stopAt .endOfHexEscape rest
    | _ => stopAt .endOfHexEscape rest

def readEscape (s : List Char) : Attempt (Char × List Char) :=
  match s with
  | [] => stopBefore .endOfString []
  | '"' :: rest => .ok ('"', rest)
  | '\\' :: rest => .ok ('\\', rest)
  | '/' :: rest => .ok ('/', rest)
  | 'b' :: rest => .ok ('\x08', rest)
  | 'f' :: rest => .ok ('\x0c', rest)
  | 'n' :: rest => .ok ('\n', rest)
  | 'r' :: rest => .ok ('\r', rest)
  | 't' :: rest => .ok ('\t', rest)
  | 'u' :: rest => readUnicode rest
  | _ => stopAt .invalidEscape s

/-- The contents of a string up to its closing quote. `fuel` bounds the number of characters. -/
def readString : Nat → List Char → Attempt (List Char × List Char)
  | 0, _ => stopBefore .endOfString []
  | _ + 1, [] => stopBefore .endOfString []
  | fuel + 1, c :: rest =>
      if c = '"' then .ok ([], rest)
      else if c = '\\' then do
        let (escaped, rest) ← readEscape rest
        let (more, rest) ← readString fuel rest
        .ok (escaped :: more, rest)
      else if c.toNat < 0x20 then stopAt .controlCharacter (c :: rest)
      else do
        let (more, rest) ← readString fuel rest
        .ok (c :: more, rest)

def readText (s : List Char) : Attempt (String × List Char) := do
  let (contents, rest) ← readString (s.length + 1) s
  .ok (String.ofList contents, rest)

/-! Values. Every call has less fuel than its caller, and twice the length of the text is enough. -/

mutual

/-- A value. `depth` is the number of lists and objects that may still be opened, and one more. -/
def readValue : Nat → Nat → List Char → Attempt (Value × List Char)
  | 0, _, s => stopBefore .tooDeep s
  | fuel + 1, depth, s =>
      match skipGap s with
      | [] => stopAt .endOfValue []
      | 'n' :: rest => (readWord "ull".toList rest).map (Value.null, ·)
      | 't' :: rest => (readWord "rue".toList rest).map (Value.bool true, ·)
      | 'f' :: rest => (readWord "alse".toList rest).map (Value.bool false, ·)
      | '-' :: rest => readNumber true rest
      | '"' :: rest => (readText rest).map fun (text, rest) => (Value.string text, rest)
      | '[' :: rest =>
          if depth ≤ 1 then stopAt .tooDeep ('[' :: rest)
          else (readItems fuel (depth - 1) true rest).map fun (items, rest) => (Value.list items, rest)
      | '\x7b' :: rest =>
          if depth ≤ 1 then stopAt .tooDeep ('\x7b' :: rest)
          else
            (readMembers fuel (depth - 1) true rest).map fun (members, rest) =>
              (Value.map (Fields.ofList members), rest)
      | c :: rest =>
          if c.isDigit then readNumber false (c :: rest) else stopAt .expectedValue (c :: rest)

def readItems : Nat → Nat → Bool → List Char → Attempt (List Value × List Char)
  | 0, _, _, s => stopBefore .tooDeep s
  | fuel + 1, depth, isFirst, s =>
      match skipGap s with
      | [] => stopAt .endOfList []
      | ']' :: rest => .ok ([], rest)
      | ',' :: rest =>
          if isFirst then do
            let (item, rest) ← readValue fuel depth (',' :: rest)
            let (items, rest) ← readItems fuel depth false rest
            .ok (item :: items, rest)
          else
            match skipGap rest with
            | [] => stopAt .endOfValue []
            | ']' :: rest => stopAt .trailingComma (']' :: rest)
            | rest => do
                let (item, rest) ← readValue fuel depth rest
                let (items, rest) ← readItems fuel depth false rest
                .ok (item :: items, rest)
      | rest =>
          if isFirst then do
            let (item, rest) ← readValue fuel depth rest
            let (items, rest) ← readItems fuel depth false rest
            .ok (item :: items, rest)
          else stopAt .expectedListCommaOrEnd rest

def readMembers : Nat → Nat → Bool → List Char → Attempt (List (String × Value) × List Char)
  | 0, _, _, s => stopBefore .tooDeep s
  | fuel + 1, depth, isFirst, s =>
      match skipGap s with
      | [] => stopAt .endOfObject []
      | '\x7d' :: rest => .ok ([], rest)
      | '"' :: rest =>
          if isFirst then readMember fuel depth rest
          else stopAt .expectedObjectCommaOrEnd ('"' :: rest)
      | ',' :: rest =>
          if isFirst then stopAt .keyNotString (',' :: rest)
          else
            match skipGap rest with
            | [] => stopAt .endOfValue []
            | '"' :: rest => readMember fuel depth rest
            | '\x7d' :: rest => stopAt .trailingComma ('\x7d' :: rest)
            | rest => stopAt .keyNotString rest
      | rest => stopAt (if isFirst then .keyNotString else .expectedObjectCommaOrEnd) rest

def readMember : Nat → Nat → List Char → Attempt (List (String × Value) × List Char)
  | 0, _, s => stopBefore .tooDeep s
  | fuel + 1, depth, s => do
      let (name, rest) ← readText s
      match skipGap rest with
      | [] => stopAt .endOfObject []
      | ':' :: rest =>
          let (value, rest) ← readValue fuel depth rest
          let (members, rest) ← readMembers fuel depth false rest
          .ok ((name, value) :: members, rest)
      | rest => stopAt .expectedColon rest

end

def maxDepth : Nat := 128

def readDocument (s : List Char) : Attempt Value := do
  let (value, rest) ← readValue (3 * s.length + 3) maxDepth s
  match skipGap rest with
  | [] => .ok value
  | rest => stopAt .trailingCharacters rest

end ThemeRender.JsonReader

namespace ThemeRender

def Value.ofJson (source : String) : Except JsonError Value :=
  (JsonReader.readDocument source.toList).mapError (·.locate source.toList)

end ThemeRender
