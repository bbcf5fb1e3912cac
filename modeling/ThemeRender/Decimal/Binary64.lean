namespace ThemeRender.Decimal

def twoTo (exponent : Nat) : Nat := Nat.pow 2 exponent

def tenTo (exponent : Nat) : Nat := Nat.pow 10 exponent

/-- The quotient rounded to the nearest natural, a tie going to the even one. -/
def roundHalfEven (num den : Nat) : Nat :=
  let quotient := num / den
  let twice := 2 * (num % den)
  if twice < den then quotient
  else if den < twice then quotient + 1
  else if quotient % 2 = 0 then quotient else quotient + 1

def infinityBits : Nat := 0x7FF0000000000000

/-- The bits of the double nearest to `num / den`, a tie going to the even significand. A quotient
that rounds past the largest finite double gives infinity. -/
def nearestBits (num den : Nat) : Nat :=
  if num = 0 then 0
  else
    let magnitude : Int := (num.log2 : Int) - (den.log2 : Int)
    let low : Int := max (magnitude - 53) (-1074)
    let scaled (exponent : Int) : Nat × Nat :=
      (num * twoTo (-exponent).toNat, den * twoTo exponent.toNat)
    let atLow := scaled low
    let exponent := if twoTo 53 ≤ atLow.1 / atLow.2 then low + 1 else low
    let atExponent := scaled exponent
    let bits := (exponent + 1074).toNat * twoTo 52 + roundHalfEven atExponent.1 atExponent.2
    min bits infinityBits

/-- The bits of the double nearest to `mantissa * 10 ^ exponent`. Exponents so far out that the
result is zero or infinity are settled without computing the power. -/
def nearestBitsOfScientific (mantissa : Nat) (exponent : Int) : Nat :=
  let digits : Int := (Nat.toDigits 10 mantissa).length
  if mantissa = 0 then 0
  else if 400 < digits + exponent then infinityBits
  else if digits + exponent < -400 then 0
  else nearestBits (mantissa * tenTo exponent.toNat) (tenTo (-exponent).toNat)

def ofScientific (negative : Bool) (mantissa : Nat) (exponent : Int) : Float :=
  let bits := nearestBitsOfScientific mantissa exponent
  Float.ofBits (UInt64.ofNat (if negative then bits + twoTo 63 else bits))

/-- The absolute value `significand * 2 ^ exponent` of a finite double. -/
structure Magnitude where
  significand : Nat
  exponent : Int
  /-- Whether the double just below is only half as far away as the one just above. -/
  closeBelow : Bool
deriving Repr

structure Parts where
  negative : Bool
  finite? : Option Magnitude
  isNaN : Bool
deriving Repr

def partsOfBits (bits : Nat) : Parts :=
  let fraction : Nat := bits % twoTo 52
  let biased : Nat := bits / twoTo 52 % twoTo 11
  { negative := decide (twoTo 63 ≤ bits)
    finite? :=
      if biased = 2047 then none
      else if biased = 0 then some ⟨fraction, -1074, false⟩
      else some ⟨fraction + twoTo 52, Int.ofNat biased - 1075, fraction == 0 && biased != 1⟩
    isNaN := biased == 2047 && fraction != 0 }

def partsOf (x : Float) : Parts :=
  partsOfBits x.toBits.toNat

end ThemeRender.Decimal
