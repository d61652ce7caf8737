import DesignMarkup.Decimal.Shortest

/-!
# Numerals

How numbers are written. A whole number is written with its digits. A double is
written with the fewest digits that stand for it, positionally when its leading
digit has an exponent from -4 to 15 and with an exponent of at least two digits
otherwise. Two places are the exact binary value rounded to hundredths.
-/

namespace DesignMarkup.Decimal

def natural (n : Nat) : List Char := Nat.toDigits 10 n

def whole (n : Int) : List Char :=
  if n < 0 then '-' :: natural n.natAbs else natural n.natAbs

def zeros (n : Nat) : List Char := List.replicate n '0'

/-- The exponent part: its sign always, and at least two digits. -/
def exponentPart (e : Int) : List Char :=
  let digits := natural e.natAbs
  ['e', if e < 0 then '-' else '+'] ++ zeros (2 - digits.length) ++ digits

/-- A positive decimal laid out as a numeral, always with a point or an exponent. -/
def layout (d : Decimal) : List Char :=
  let digits := natural d.digits
  let point : Int := digits.length + d.exponent
  if -4 < point ∧ point ≤ 16 then
    if point ≤ 0 then ['0', '.'] ++ zeros (-point).toNat ++ digits
    else if (digits.length : Int) ≤ point then
      digits ++ zeros (point.toNat - digits.length) ++ ['.', '0']
    else digits.take point.toNat ++ '.' :: digits.drop point.toNat
  else
    match digits with
    | [] => []
    | [d] => d :: exponentPart (point - 1)
    | d :: rest => d :: '.' :: rest ++ exponentPart (point - 1)

def double (x : Float) : List Char :=
  let sign := if Double.isNegative x then ['-'] else []
  let rank := Double.rank x
  if Double.isUndefined x then ['n', 'a', 'n']
  else if !Double.isFinite x then sign ++ ['i', 'n', 'f']
  else if rank = 0 then sign ++ ['0', '.', '0']
  else sign ++ layout (shortest rank)

/-- A quotient rounded to the nearest natural number, a tie going to the even one. -/
def roundQuotient (num den : Nat) : Nat :=
  let q := num / den
  match compare (2 * (num % den)) den with
  | .lt => q
  | .gt => q + 1
  | .eq => if q % 2 = 0 then q else q + 1

def hundredths (n : Nat) : List Char :=
  natural (n / 100) ++ ['.', Nat.digitChar (n / 10 % 10), Nat.digitChar (n % 10)]

/-- A double with two places, the sign kept even where nothing else is left. -/
def twoPlaces (x : Float) : List Char :=
  let sign := if Double.isNegative x then ['-'] else []
  if Double.isUndefined x then ['n', 'a', 'n']
  else if !Double.isFinite x then sign ++ ['i', 'n', 'f']
  else sign ++ hundredths (roundQuotient (Double.magnitude (Double.rank x) * 100) Double.unitsPerOne)

end DesignMarkup.Decimal
