import DesignMarkup.Text.Encoding
import DesignMarkup.Text.Hidden

/-!
# Quoted text

A text between quotes on one line: single quotes, or double ones when the text holds a
single quote and no double one. A backslash stands before a quote of the chosen kind,
before a backslash, and before what cannot be shown.
-/

namespace DesignMarkup.Text

def hex (width n : Nat) : List Char :=
  let digits := Nat.toDigits 16 n
  List.replicate (width - digits.length) '0' ++ digits

/-- A character between quotes of the given kind. -/
def quotedChar (quote c : Char) : List Char :=
  if c == quote || c == '\\' then ['\\', c]
  else if c == '\n' then ['\\', 'n']
  else if c == '\r' then ['\\', 'r']
  else if c == '\t' then ['\\', 't']
  else if !isHidden c then [c]
  else if c.toNat < 0x100 then '\\' :: 'x' :: hex 2 c.toNat
  else if c.toNat < 0x10000 then '\\' :: 'u' :: hex 4 c.toNat
  else
    match surrogate? c with
    | some unit => '\\' :: 'u' :: hex 4 unit
    | none => '\\' :: 'U' :: hex 8 c.toNat

def quoted (s : List Char) : List Char :=
  let quote := if s.contains '\'' && !s.contains '"' then '"' else '\''
  quote :: s.flatMap (quotedChar quote) ++ [quote]

end DesignMarkup.Text
