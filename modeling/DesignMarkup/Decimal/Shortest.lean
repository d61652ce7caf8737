import DesignMarkup.Decimal.Double

/-!
# The fewest digits that stand for a double

A decimal stands for a double when it lies between the midpoints to the two
neighbouring doubles, the midpoints themselves counting exactly when the double's
rank is even: that is the set of reals which round to it. `shortest` tries one
digit, two digits and so on, and takes the first number of digits for which one of
the value's two neighbours on that decimal grid stands for it. Of two such
neighbours the nearer wins, and of two equally near ones the even.

Everything is compared by cross-multiplying natural numbers; no double is computed.
-/

namespace DesignMarkup

structure Decimal where
  digits : Nat
  exponent : Int
deriving DecidableEq, Repr

namespace Decimal

/-- The factor ten to the power `e` when `e` is positive, else one. -/
def tenUp (e : Int) : Nat := Nat.pow 10 e.toNat

/-- The decimal lies among the reals that round to the double of the given rank.
Both midpoints are counted in half units. -/
def standsFor (d : Decimal) (rank : Nat) : Bool :=
  let below := Double.magnitude (rank - 1) + Double.magnitude rank
  let above := Double.magnitude rank + Double.magnitude (rank + 1)
  let value := 2 * d.digits * tenUp d.exponent * Double.unitsPerOne
  let scale := tenUp (-d.exponent)
  if rank % 2 = 0 then below * scale ≤ value ∧ value ≤ above * scale
  else below * scale < value ∧ value < above * scale

def digitCount (n : Nat) : Nat := (Nat.toDigits 10 n).length

/-- The least exponent such that ten to its power lies above the magnitude. The
factor 10^400 makes a whole number of every positive magnitude. -/
def scaleOf (magnitude : Nat) : Int :=
  (digitCount (magnitude * tenUp 400 / Double.unitsPerOne) : Int) - 400

/-- The magnitude divided by ten to the power `exponent`, as a quotient of naturals. -/
def onGrid (magnitude : Nat) (exponent : Int) : Nat × Nat :=
  (magnitude * tenUp (-exponent), Double.unitsPerOne * tenUp exponent)

/-- The better of the double's two neighbours among the multiples of ten to the power
`exponent`, of those that stand for it. -/
def neighbour? (rank : Nat) (exponent : Int) : Option Decimal :=
  let (num, den) := onGrid (Double.magnitude rank) exponent
  let low : Decimal := ⟨num / den, exponent⟩
  let high : Decimal := ⟨num / den + 1, exponent⟩
  match low.standsFor rank, high.standsFor rank with
  | false, false => none
  | true, false => some low
  | false, true => some high
  | true, true =>
    match compare (2 * num) ((low.digits + high.digits) * den) with
    | .lt => some low
    | .gt => some high
    | .eq => some (if low.digits % 2 = 0 then low else high)

/-- The magnitude of a rank as a decimal, digit for digit: a unit is 5^1074 / 10^1074. -/
def exactly (rank : Nat) : Decimal := ⟨Double.magnitude rank * Nat.pow 5 1074, -1074⟩

/-- Moves trailing zeros of the digits into the exponent. -/
def stripZeros : Nat → Decimal → Decimal
  | 0, d => d
  | fuel + 1, d =>
    if d.digits % 10 = 0 then stripZeros fuel ⟨d.digits / 10, d.exponent + 1⟩ else d

/-- The decimal of fewest digits that stands for the double of a positive rank.
Seventeen digits always suffice; the exact value stands behind them all the same. -/
def shortest (rank : Nat) : Decimal :=
  let scale := scaleOf (Double.magnitude rank)
  let found := (List.range 17).findSome? fun n => neighbour? rank (scale - (n + 1 : Nat))
  let d := found.getD (exactly rank)
  stripZeros (digitCount d.digits) d

end Decimal

end DesignMarkup
