import DesignMarkup.Decimal.Numeral
import DesignMarkup.Fault

/-!
# Numbers

A number of a design is a whole number of any size or a double, and keeps which of
the two it is. Comparisons are exact across the two kinds; a product or a difference
of two whole numbers is exact, and any other is computed in doubles.
-/

namespace DesignMarkup

/-- A number as designs hold it. -/
inductive Number
  | whole (n : Int)
  | double (x : Float)
deriving DecidableEq, Repr, Inhabited

namespace Number

/-! ## Order -/

/-- Where a number lies on the line: the first part is -1 and 1 at the infinite ends
and 0 between, the second the place in units of the least positive double. Nothing
for a double that stands for no number. -/
def place? : Number → Option (Int × Int)
  | whole n => some (0, n * (Double.unitsPerOne : Int))
  | double x =>
    if Double.isUndefined x then none
    else if Double.isFinite x then some (0, Double.units x)
    else some (if Double.isNegative x then -1 else 1, 0)

def less (a b : Number) : Bool :=
  match a.place?, b.place? with
  | some p, some q => decide (p.1 < q.1) || (decide (p.1 = q.1) && decide (p.2 < q.2))
  | _, _ => false

def same (a b : Number) : Bool :=
  match a.place?, b.place? with
  | some p, some q => decide (p = q)
  | _, _ => false

def atLeast (a b : Number) : Bool := less b a || same a b

def isZero (a : Number) : Bool := same a (whole 0)

/-! ## Arithmetic -/

/-- The number as a double, which a whole number may be too large for. -/
def toDouble : Number → Except Fault Float
  | whole n =>
    match Double.ofInt? n with
    | some x => .ok x
    | none => .error .outOfRange
  | double x => .ok x

def times : Number → Number → Except Fault Number
  | whole a, whole b => .ok (whole (a * b))
  | a, b => do pure (double ((← a.toDouble) * (← b.toDouble)))

def minus : Number → Number → Except Fault Number
  | whole a, whole b => .ok (whole (a - b))
  | a, b => do pure (double ((← a.toDouble) - (← b.toDouble)))

/-- The greatest whole number not above a double. -/
def floorOf (x : Float) : Except Fault Int :=
  if Double.isUndefined x then .error (.badValue "cannot convert float NaN to integer")
  else if Double.isFinite x then .ok (Double.floor x)
  else .error .outOfRange

/-- The nearest whole number, a half going up: half is added in doubles and the
fraction dropped. -/
def roundHalfUp (a : Number) : Except Fault Int := do floorOf ((← a.toDouble) + 0.5)

/-! ## Text -/

/-- The plain text of a number: a whole number in digits, a double with a point or an exponent. -/
def plain : Number → String
  | whole n => String.ofList (Decimal.whole n)
  | double x => String.ofList (Decimal.double x)

/-- The text of a number in a style sheet: a double without a fraction is written like
the whole number that it equals. -/
def written : Number → String
  | whole n => String.ofList (Decimal.whole n)
  | double x =>
    if Double.isWhole x then String.ofList (Decimal.whole (Double.floor x))
    else String.ofList (Decimal.double x)

def twoPlaces (a : Number) : Except Fault String := do
  pure (String.ofList (Decimal.twoPlaces (← a.toDouble)))

end Number

end DesignMarkup
