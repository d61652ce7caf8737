import DesignMarkup.Decimal.Double
import DesignMarkup.Text.Chars

/-!
# Reading numbers

`nearest` is the double nearest to a decimal. `wholeNumber?` and `double?` read the
free form in which settings are written: blanks around the numeral, a sign, decimal
digits of any script, single underscores between digits; for doubles also a point,
an exponent, and words for the infinite and the undefined.
-/

namespace DesignMarkup.Decimal

open DesignMarkup.Text

/-- The double nearest to `digits` times ten to the power `exponent`, ties to even.
Far outside the range of doubles the answer needs no arithmetic. -/
def nearest (digits : Nat) (exponent : Int) : Float :=
  let top := ((Nat.toDigits 10 digits).length : Int) + exponent
  if digits = 0 ∨ top < -400 then Float.ofBits 0
  else if 400 < top then Double.infinity
  else Float.ofScientific digits (decide (exponent < 0)) exponent.natAbs

/-- The digits of a run in which single underscores may stand between digits; `none`
for any other text and for the empty one. -/
def digitRun? : List Char → Option (List Nat)
  | [] => none
  | [c] => (decimalDigit? c).map ([·])
  | c :: '_' :: rest => do
    let d ← decimalDigit? c
    let ds ← digitRun? rest
    pure (d :: ds)
  | c :: rest => do
    let d ← decimalDigit? c
    let ds ← digitRun? rest
    pure (d :: ds)

/-- The number that decimal digits spell, the first being the most significant. -/
def ofDigits (ds : List Nat) : Nat := ds.foldl (fun n d => 10 * n + d) 0

def splitSign : List Char → Bool × List Char
  | '-' :: rest => (true, rest)
  | '+' :: rest => (false, rest)
  | rest => (false, rest)

/-- No whole number of more digits than this is read. -/
def maxDigits : Nat := 4300

/-- A blank that may stand around a numeral: any but the separators U+001C to U+001F. -/
def isNumeralBlank (c : Char) : Bool :=
  isBlank c && !(decide (0x1C ≤ c.toNat) && decide (c.toNat ≤ 0x1F))

def trimNumeral (s : List Char) : List Char :=
  ((s.dropWhile isNumeralBlank).reverse.dropWhile isNumeralBlank).reverse

def wholeNumber? (text : List Char) : Option Int := do
  let (negative, rest) := splitSign (trimNumeral text)
  let ds ← digitRun? rest
  if ds.length ≤ maxDigits then
    pure (if negative then -(ofDigits ds : Int) else (ofDigits ds : Int))
  else none

def optionalRun? (text : List Char) : Option (List Nat) :=
  if text.isEmpty then some [] else digitRun? text

def exponentOf? : List Char → Option Int
  | [] => some 0
  | _ :: rest => do
    let (negative, digits) := splitSign rest
    let ds ← digitRun? digits
    pure (if negative then -(ofDigits ds : Int) else (ofDigits ds : Int))

/-- An unsigned double numeral: digits before or after the point, then an exponent. -/
def unsignedDouble? (text : List Char) : Option Float := do
  let isMark := fun c : Char => c == 'e' || c == 'E'
  let mantissa := text.takeWhile (!isMark ·)
  let exponent ← exponentOf? (text.dropWhile (!isMark ·))
  let before ← optionalRun? (mantissa.takeWhile (· != '.'))
  let after ← optionalRun? ((mantissa.dropWhile (· != '.')).drop 1)
  if before.isEmpty && after.isEmpty then none
  else pure (nearest (ofDigits (before ++ after)) (exponent - after.length))

def double? (text : List Char) : Option Float := do
  let (negative, rest) := splitSign (trimNumeral text)
  let word := rest.map Char.toLower
  let size ←
    if word == "inf".toList || word == "infinity".toList then
      some Double.infinity
    else if word == "nan".toList then some Double.undefinedValue
    else unsignedDouble? rest
  pure (if negative then -size else size)

end DesignMarkup.Decimal
