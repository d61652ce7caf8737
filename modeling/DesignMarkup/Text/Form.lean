import DesignMarkup.Text.Utf8

/-!
# Form coding

The coding of names and values in the query of an address: a blank becomes a plus, and
every byte but those of letters, digits and four marks becomes a percent sign with two
hexadecimal digits. A reader leaves alone a percent sign without two such digits.
-/

namespace DesignMarkup.Text

/-! ## Writing -/

/-- A byte that stands for itself: an ASCII letter or digit, or one of `_`, `.`, `-`, `~`. -/
def isPlainByte (b : Nat) : Bool :=
  (decide (0x30 ≤ b) && decide (b ≤ 0x39)) || (decide (0x41 ≤ b) && decide (b ≤ 0x5A))
    || (decide (0x61 ≤ b) && decide (b ≤ 0x7A)) || b == 0x5F || b == 0x2E || b == 0x2D || b == 0x7E

def upperHex (n : Nat) : Char := if n < 10 then Char.ofNat (0x30 + n) else Char.ofNat (0x37 + n)

def percentByte (b : Nat) : List Char := ['%', upperHex (b / 16), upperHex (b % 16)]

def formByte (b : Nat) : List Char :=
  if b = 0x20 then ['+'] else if isPlainByte b then [Char.ofNat b] else percentByte b

def formEncode (s : List Char) : List Char := (utf8 s).flatMap formByte

def formPairs (pairs : List (List Char × List Char)) : List Char :=
  ['&'].intercalate (pairs.map fun p => formEncode p.1 ++ '=' :: formEncode p.2)

/-! ## Reading -/

def hexDigit? (c : Char) : Option Nat :=
  if '0' ≤ c ∧ c ≤ '9' then some (c.toNat - 0x30)
  else if 'A' ≤ c ∧ c ≤ 'F' then some (c.toNat - 0x37)
  else if 'a' ≤ c ∧ c ≤ 'f' then some (c.toNat - 0x57)
  else none

def hexByte? (a b : Char) : Option Nat := do pure ((← hexDigit? a) * 16 + (← hexDigit? b))

/-- The bytes of a text in which percent signs stand before bytes. -/
def percentBytes : List Char → List Nat
  | [] => []
  | [a] => utf8Char a
  | [a, b] => utf8Char a ++ utf8Char b
  | c :: a :: b :: rest =>
    if c = '%' then
      match hexByte? a b with
      | some byte => byte :: percentBytes rest
      | none => utf8Char c ++ percentBytes (a :: b :: rest)
    else utf8Char c ++ percentBytes (a :: b :: rest)

def formDecode (s : List Char) : List Char :=
  ofUtf8 (percentBytes (s.map fun c => if c = '+' then ' ' else c))

def splitAll (separator : Char) : List Char → List (List Char)
  | [] => [[]]
  | c :: rest =>
    if c = separator then [] :: splitAll separator rest
    else
      match splitAll separator rest with
      | [] => [[c]]
      | piece :: more => (c :: piece) :: more

/-- The part before the first separator and the part behind it, if there is one. -/
def splitFirst (separator : Char) : List Char → List Char × Option (List Char)
  | [] => ([], none)
  | c :: rest =>
    if c = separator then ([], some rest)
    else ((c :: (splitFirst separator rest).1), (splitFirst separator rest).2)

/-- The part behind the last separator, the whole text when there is none. -/
def afterLast (separator : Char) (s : List Char) : List Char :=
  (s.reverse.takeWhile (· != separator)).reverse

/-- A piece of a query as a name and a value; nothing for a piece without a value. -/
def formPair? (piece : List Char) : Option (List Char × List Char) :=
  match splitFirst '=' piece with
  | (name, some (c :: value)) => some (formDecode name, formDecode (c :: value))
  | _ => none

def formFields (query : List Char) : List (List Char × List Char) :=
  (splitAll '&' query).filterMap formPair?

end DesignMarkup.Text
