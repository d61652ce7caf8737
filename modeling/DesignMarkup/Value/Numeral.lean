import DesignMarkup.Value.Plain
import DesignMarkup.Decimal.Reading

/-!
# Numbers from text

Texts that have to be numbers: whole ones and doubles, in the free form. And the text of
a number that was computed, which may have grown beyond what is written.
-/

namespace DesignMarkup.Value

/-- The complaint about a whole number of more digits than are read or written; `extent`
says how many they are where that is told. -/
def tooManyDigits (extent : String) : String :=
  "Exceeds the limit (" ++ (Number.whole Decimal.maxDigits).plain
    ++ " digits) for integer string conversion" ++ extent
    ++ "; use sys.set_int_max_str_digits() to increase the limit"

def tooManyDigitsRead (count : Nat) : String :=
  tooManyDigits (": value has " ++ (Number.whole count).plain ++ " digits")

/-- The digits and underscores that a text starts with behind blanks and a sign. -/
def leadingRun (s : String) : List Char :=
  (Decimal.splitSign (Decimal.trimNumeral s.toList)).2.takeWhile fun c =>
    c == '_' || (Text.decimalDigit? c).isSome

/-- No more characters of a text that is no whole number are shown, its quotes included. -/
def shownLength : Nat := 200

/-- Why a text is no whole number. Too many digits count first, whatever follows them. -/
def wholeComplaint (s : String) : String :=
  let digits := ((Decimal.digitRun? (leadingRun s)).getD []).length
  if Decimal.maxDigits < digits then tooManyDigitsRead digits
  else
    "invalid literal for int() with base 10: "
      ++ String.ofList ((Text.quoted s.toList).take shownLength)

def wholeOfText (s : String) : Except Fault Int :=
  match Decimal.wholeNumber? s.toList with
  | some n => .ok n
  | none => .error (.badValue (wholeComplaint s))

def doubleOfText (s : String) : Except Fault Float :=
  match Decimal.double? s.toList with
  | some x => .ok x
  | none =>
    .error (.badValue ("could not convert string to float: " ++ String.ofList (Text.quoted s.toList)))

/-- The plain text of a value that was computed: a whole number of more digits than are
read is not written either. -/
def plainComputed (v : Value) : Except Fault String :=
  match v with
  | number (.whole n) =>
    if (Decimal.natural n.natAbs).length ≤ Decimal.maxDigits then .ok v.plain
    else .error (.badValue (tooManyDigits ""))
  | v => .ok v.plain

end DesignMarkup.Value
