import ThemeRender.Text.Digits
import ThemeRender.Toml.Scan
/-!
Dates and times. A date names a day of the calendar, a time may come after it or stand alone, and
after both there may be an offset.
-/

namespace ThemeRender.Toml.Scan

def fixedNumber (count : Nat) : Scan Nat :=
  Text.numberOf 10 <$> exactly count Char.isDigit

def twoDigits (low high : Nat) : Scan Unit := do
  let n ← fixedNumber 2
  if low ≤ n ∧ n ≤ high then return () else failure

def isLeapYear (year : Nat) : Bool :=
  year % 4 == 0 && (year % 100 != 0 || year % 400 == 0)

def daysInMonth (year month : Nat) : Nat :=
  if month = 2 then if isLeapYear year then 29 else 28
  else if month = 4 ∨ month = 6 ∨ month = 9 ∨ month = 11 then 30
  else 31

def date : Scan Unit := do
  let year ← fixedNumber 4
  char '-'
  let month ← fixedNumber 2
  if month < 1 ∨ 12 < month then failure
  char '-'
  twoDigits 1 (daysInMonth year month)

/-- A time of day. A leap second may be counted. -/
def time : Scan Unit := do
  twoDigits 0 23
  char ':'
  twoDigits 0 59
  char ':'
  twoDigits 0 60
  discard (optional (do char '.'; discard (one Char.isDigit); run Char.isDigit))

def offset : Scan Unit :=
  discard (one fun c => c == 'Z' || c == 'z') <|> do
    discard (one fun c => c == '+' || c == '-')
    twoDigits 0 23
    char ':'
    twoDigits 0 59

def dateAndTime : Scan Unit :=
  (do
    date
    discard (optional (do
      discard (one fun c => c == 'T' || c == 't' || c == ' ')
      time
      discard (optional offset)))) <|> time

def datetime : Scan String := fun s =>
  (dateAndTime s).map fun ((), rest) =>
    (String.ofList (s.take (s.length - rest.length)), rest)

end ThemeRender.Toml.Scan
