import ThemeRender.Decimal.Binary64
import ThemeRender.Text.Digits
import ThemeRender.Toml.Scan
/-!
Numbers. Digits may be grouped by single underscores, an integer fits in 64 bits with a sign, and a
float does not round up to infinity.
-/

namespace ThemeRender.Toml.Scan

/-- Digits of a base, with an underscore between two of them at most. -/
def digits (base : Nat) : Scan (List Char) := do
  let digit := one (Text.isDigitOf base)
  let first ← digit
  let more ← many (digit <|> (do char '_'; digit))
  return first :: more

def sign : Scan Bool := do
  let sign? ← optional (one fun c => c == '+' || c == '-')
  return sign? == some '-'

/-- The decimal digits of an integer, which do not start with a zero but for zero itself. -/
def wholeDigits : Scan (List Char) := do
  let lead ← optional (char '0')
  if lead.isSome then return ['0'] else digits 10

/-- Integers of other bases, which have no sign. -/
def basedInteger (lead : String) (base : Nat) : Scan Int := do
  word lead
  return Int.ofNat (Text.numberOf base (← digits base))

def decimalInteger : Scan Int := do
  let negative ← sign
  let n := Text.numberOf 10 (← wholeDigits)
  return if negative then -Int.ofNat n else Int.ofNat n

def integer : Scan Int := do
  let n ← basedInteger "0x" 16 <|> basedInteger "0o" 8 <|> basedInteger "0b" 2 <|> decimalInteger
  if -0x8000000000000000 ≤ n ∧ n < 0x8000000000000000 then return n else failure

def exponent : Scan Int := do
  discard (one fun c => c == 'e' || c == 'E')
  let negative ← sign
  let n := Text.numberOf 10 (← digits 10)
  return if negative then -Int.ofNat n else Int.ofNat n

def fraction : Scan (List Char) := do
  char '.'
  digits 10

def finiteFloat : Scan Float := do
  let negative ← sign
  let whole ← wholeDigits
  let fraction? ← optional fraction
  let exponent? ← optional exponent
  if fraction?.isNone ∧ exponent?.isNone then failure
  let behind := fraction?.getD []
  let mantissa := Text.numberOf 10 (whole ++ behind)
  let scale := exponent?.getD 0 - Int.ofNat behind.length
  if !negative ∧ Decimal.nearestBitsOfScientific mantissa scale = Decimal.infinityBits then failure
  return Decimal.ofScientific negative mantissa scale

def namedFloat : Scan Float := do
  let negative ← sign
  let magnitude ← ((fun _ => 1.0 / 0.0) <$> word "inf") <|> ((fun _ => 0.0 / 0.0) <$> word "nan")
  return if negative then -magnitude else magnitude

def float : Scan Float :=
  finiteFloat <|> namedFloat

end ThemeRender.Toml.Scan
