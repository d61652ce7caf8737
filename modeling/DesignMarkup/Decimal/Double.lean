/-!
# Doubles as exact numbers

Every finite double is a whole number of units, a unit being the least positive
double, 2^-1074. Doubles of one sign are ordered by their *rank*, the number that
their bits spell, and `magnitude` says how many units the double of a given rank
is. All that the library decides about a double (is it whole, which is the larger,
which digits stand for it) is decided on these integers.
-/

namespace DesignMarkup.Double

def twoTo (n : Nat) : Nat := Nat.pow 2 n

def unitsPerOne : Nat := twoTo 1074

/-- The place of a double among the doubles of its sign, counted from zero. -/
def rank (x : Float) : Nat := x.toBits.toNat % twoTo 63

/-- The sign of a double; a zero has one too. -/
def isNegative (x : Float) : Bool := decide (twoTo 63 ≤ x.toBits.toNat)

/-- The rank of the infinities. Finite doubles lie below it, and what is no number above it. -/
def infiniteRank : Nat := 2047 * twoTo 52

def infinity : Float := Float.ofBits 0x7FF0000000000000

def undefinedValue : Float := Float.ofBits 0x7FF8000000000000

def isFinite (x : Float) : Bool := decide (rank x < infiniteRank)

def isUndefined (x : Float) : Bool := decide (infiniteRank < rank x)

/-- The magnitude of a given rank in units. Below 2^52 the magnitudes are one unit
apart; from there on every 2^52 ranks double the distance. -/
def magnitude (rank : Nat) : Nat :=
  if rank < twoTo 52 then rank
  else (twoTo 52 + rank % twoTo 52) * twoTo (rank / twoTo 52 - 1)

/-- A finite double in units, with its sign. -/
def units (x : Float) : Int :=
  if isNegative x then -(magnitude (rank x) : Int) else (magnitude (rank x) : Int)

def isWhole (x : Float) : Bool := isFinite x && decide (units x % (unitsPerOne : Int) = 0)

def floor (x : Float) : Int := units x / (unitsPerOne : Int)

/-- The double nearest to a whole number, a tie going to the even neighbour; `none`
for a number beyond the range of doubles. -/
def ofInt? (n : Int) : Option Float :=
  let x := Float.ofScientific n.natAbs false 0
  if isFinite x then some (if n < 0 then -x else x) else none

end DesignMarkup.Double
