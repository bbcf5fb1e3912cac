import ThemeRender.Data.Fields
import ThemeRender.Decimal.Layout
/-!
The values a template can see, and their text. A map keeps its fields in the order of their names.
-/

namespace ThemeRender

inductive Value where
  | null
  | bool (b : Bool)
  | number (x : Float)
  | string (s : String)
  | list (items : List Value)
  | map (fields : List (String × Value))
deriving Inhabited

namespace Value

def isTruthy : Value → Bool
  | .null => false
  | .bool b => b
  | .number x => x != 0
  | .string s => !s.isEmpty
  | .list items => !items.isEmpty
  | .map fields => !fields.isEmpty

def typeName : Value → String
  | .null => "null"
  | .bool _ => "bool"
  | .number _ => "number"
  | .string _ => "string"
  | .list _ => "list"
  | .map _ => "map"

def string? : Value → Option String
  | .string s => some s
  | _ => none

/-- The number written by ASCII digits, possibly after a plus sign, if it fits in 64 bits. -/
def index? (key : List Char) : Option Nat :=
  let digits := if key.head? = some '+' then key.tail else key
  if digits.isEmpty || !digits.all Char.isDigit then none
  else
    let index := Nat.ofDigitChars 10 digits 0
    if index < 0x10000000000000000 then some index else none

/-- A field of a map, or the item of a list at an index. -/
def field? (value : Value) (key : String) : Option Value :=
  match value with
  | .map fields => Fields.get? key fields
  | .list items => (index? key.toList).bind fun index => items[index]?
  | _ => none

mutual

/-- Equality of values; numbers compare as numbers, so the two zeros are equal. -/
def same : Value → Value → Bool
  | .null, .null => true
  | .bool a, .bool b => a == b
  | .number a, .number b => a == b
  | .string a, .string b => a == b
  | .list a, .list b => sameItems a b
  | .map a, .map b => sameFields a b
  | _, _ => false

def sameItems : List Value → List Value → Bool
  | [], [] => true
  | a :: as, b :: bs => same a b && sameItems as bs
  | _, _ => false

def sameFields : List (String × Value) → List (String × Value) → Bool
  | [], [] => true
  | (key, a) :: as, (other, b) :: bs => key == other && same a b && sameFields as bs
  | _, _ => false

end

/-! The JSON text is compact: no blanks, and only what has to be escaped is escaped. -/

def hexDigit (n : Nat) : Char :=
  "0123456789abcdef".toList.getD n '0'

def jsonChar (c : Char) : List Char :=
  match c with
  | '"' => ['\\', '"']
  | '\\' => ['\\', '\\']
  | '\n' => ['\\', 'n']
  | '\r' => ['\\', 'r']
  | '\t' => ['\\', 't']
  | '\x08' => ['\\', 'b']
  | '\x0c' => ['\\', 'f']
  | _ =>
      if c.toNat < 0x20 then ['\\', 'u', '0', '0', hexDigit (c.toNat / 16), hexDigit (c.toNat % 16)]
      else [c]

def jsonString (s : String) : List Char :=
  '"' :: s.toList.flatMap jsonChar ++ ['"']

mutual

def jsonChars : Value → List Char
  | .null => "null".toList
  | .bool true => "true".toList
  | .bool false => "false".toList
  | .number x => (Decimal.jsonText? x).getD "null".toList
  | .string s => jsonString s
  | .list items => '[' :: jsonItems items ++ [']']
  | .map fields => '\x7b' :: jsonFields fields ++ ['\x7d']

def jsonItems : List Value → List Char
  | [] => []
  | [item] => jsonChars item
  | item :: items => jsonChars item ++ ',' :: jsonItems items

def jsonFields : List (String × Value) → List Char
  | [] => []
  | [(key, value)] => jsonString key ++ ':' :: jsonChars value
  | (key, value) :: fields => jsonString key ++ ':' :: jsonChars value ++ ',' :: jsonFields fields

end

def json (value : Value) : String :=
  String.ofList value.jsonChars

def text : Value → String
  | .null => ""
  | .bool true => "true"
  | .bool false => "false"
  | .number x => String.ofList (Decimal.pageText x)
  | .string s => s
  | .list items => (Value.list items).json
  | .map fields => (Value.map fields).json

end Value

end ThemeRender
