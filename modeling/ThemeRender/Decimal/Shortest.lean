import ThemeRender.Decimal.Binary64
/-!
The shortest decimal that reads back as a given double. Of the decimals with the fewest digits the
nearest is taken; an exact tie goes where the caller says.
-/

namespace ThemeRender.Decimal

/-- Where a value exactly between two decimals goes. -/
inductive Tie where
  | toEven
  | up
deriving DecidableEq, Repr

structure Scientific where
  digits : Nat
  exponent : Int
deriving DecidableEq, Repr

/-- The reals that round to a double, with `value` at their heart, all over one denominator. -/
structure Neighbourhood where
  low : Nat
  value : Nat
  high : Nat
  den : Nat
  /-- Whether the two ends round to the double too. -/
  closed : Bool

def Magnitude.neighbourhood (x : Magnitude) : Neighbourhood :=
  let up := twoTo x.exponent.toNat
  let down := twoTo (-x.exponent).toNat
  { low := (4 * x.significand - if x.closeBelow then 1 else 2) * up
    value := 4 * x.significand * up
    high := (4 * x.significand + 2) * up
    den := 4 * down
    closed := x.significand % 2 == 0 }

def Neighbourhood.holds (n : Neighbourhood) (num den : Nat) : Bool :=
  if n.closed then
    decide (n.low * den ≤ num * n.den) && decide (num * n.den ≤ n.high * den)
  else
    decide (n.low * den < num * n.den) && decide (num * n.den < n.high * den)

/-- The grid point with step `10 ^ exponent` nearest to the value, among those that read back. -/
def Neighbourhood.onGrid? (n : Neighbourhood) (tie : Tie) (exponent : Int) : Option Nat :=
  let stepNum := tenTo exponent.toNat
  let stepDen := tenTo (-exponent).toNat
  let below := n.value * stepDen / (n.den * stepNum)
  let above := below + 1
  let twiceLeft := 2 * (n.value * stepDen % (n.den * stepNum))
  let takeAbove :=
    if twiceLeft = n.den * stepNum then tie == .up || below % 2 == 1
    else decide (n.den * stepNum < twiceLeft)
  match n.holds (below * stepNum) stepDen, n.holds (above * stepNum) stepDen with
  | true, true => some (if takeAbove then above else below)
  | true, false => some below
  | false, true => some above
  | false, false => none

/--
The exponent `k` with `10 ^ (k - 1) ≤ value < 10 ^ k`. The value is moved far enough to the left for
its whole part to show where it starts.
-/
def Neighbourhood.pointPosition (n : Neighbourhood) : Int :=
  let places := n.den.log2 + 1 - n.value.log2
  (Nat.toDigits 10 (n.value * tenTo places / n.den)).length - places

/-- Drops the zeros at the end of a number, counting them into the exponent. -/
def Scientific.normalize : Nat → Scientific → Scientific
  | 0, x => x
  | fuel + 1, x =>
      if x.digits ≠ 0 ∧ x.digits % 10 = 0 then
        Scientific.normalize fuel ⟨x.digits / 10, x.exponent + 1⟩
      else x

def Neighbourhood.shortest (n : Neighbourhood) (tie : Tie) : Scientific :=
  let position := n.pointPosition
  let found := (List.range 17).findSome? fun more =>
    let exponent := position - (Int.ofNat more + 1)
    (n.onGrid? tie exponent).map (Scientific.mk · exponent)
  (found.getD ⟨0, 0⟩).normalize 17

/-- The shortest decimal that reads back as the double. -/
def Magnitude.shortest (tie : Tie) (x : Magnitude) : Scientific :=
  if x.significand = 0 then ⟨0, 0⟩ else x.neighbourhood.shortest tie

end ThemeRender.Decimal
