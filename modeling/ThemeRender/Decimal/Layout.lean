import ThemeRender.Decimal.Shortest

namespace ThemeRender.Decimal

structure Layout where
  tie : Tie
  /-- Decimal point positions, counted from the first digit, that are written without an exponent. -/
  positional : Int → Bool
  /-- What follows a whole number that is written without an exponent. -/
  wholeTail : List Char

def zeros (count : Nat) : List Char :=
  List.replicate count '0'

/-- The digits with the decimal point after `position` places, zeros filling the gap. -/
def pointed (wholeTail digits : List Char) (position : Int) : List Char :=
  if position ≤ 0 then
    '0' :: '.' :: (zeros (-position).toNat ++ digits)
  else
    let places := position.toNat
    if digits.length ≤ places then
      digits ++ zeros (places - digits.length) ++ wholeTail
    else
      digits.take places ++ '.' :: digits.drop places

/-- One digit, a point if more follow, and the exponent with its sign. -/
def exponential (digits : List Char) (position : Int) : List Char :=
  let sign := if position < 1 then '-' else '+'
  let exponent := 'e' :: sign :: Nat.toDigits 10 (position - 1).natAbs
  match digits with
  | [] => exponent
  | [digit] => digit :: exponent
  | digit :: more => digit :: '.' :: more ++ exponent

def Layout.write (layout : Layout) (x : Magnitude) : List Char :=
  if x.significand = 0 then '0' :: layout.wholeTail
  else
    let shortest := x.shortest layout.tie
    let digits := Nat.toDigits 10 shortest.digits
    let position := shortest.exponent + digits.length
    if layout.positional position then pointed layout.wholeTail digits position
    else exponential digits position

def signed (negative : Bool) (text : List Char) : List Char :=
  if negative then '-' :: text else text

/-- Positional up to sixteen places before the point and five zeros after it, whole numbers with a
zero after the point, and a half goes to the even digit. -/
def jsonLayout : Layout where
  tie := .toEven
  positional position := decide (-5 < position) && decide (position ≤ 16)
  wholeTail := ['.', '0']

def plainLayout : Layout where
  tie := .up
  positional _ := true
  wholeTail := []

/-- A number in JSON; JSON has no infinities, so `none` for those. -/
def jsonText? (x : Float) : Option (List Char) :=
  let parts := partsOf x
  parts.finite?.map fun magnitude => signed parts.negative (jsonLayout.write magnitude)

def plainText (x : Float) : List Char :=
  let parts := partsOf x
  match parts.finite? with
  | some magnitude => signed parts.negative (plainLayout.write magnitude)
  | none => if parts.isNaN then "NaN".toList else signed parts.negative "inf".toList

def Magnitude.whole? (x : Magnitude) : Option Nat :=
  let num := x.significand * twoTo x.exponent.toNat
  let den := twoTo (-x.exponent).toNat
  if num % den = 0 then some (num / den) else none

/-- A number in a page: whole numbers below `10 ^ 15` as integers, without the sign of zero. -/
def pageText (x : Float) : List Char :=
  let parts := partsOf x
  match parts.finite?.bind Magnitude.whole? with
  | some whole =>
      if whole < tenTo 15 then
        signed (parts.negative && whole != 0) (Nat.toDigits 10 whole)
      else plainText x
  | none => plainText x

end ThemeRender.Decimal
