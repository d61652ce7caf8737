/-!
# UTF-8

Characters as bytes and back. The reader replaces what is no character: one replacement
character for each longest run of bytes that a character could have begun with.
-/

namespace DesignMarkup.Text

def utf8Char (c : Char) : List Nat :=
  let n := c.toNat
  if n < 0x80 then [n]
  else if n < 0x800 then [0xC0 + n / 0x40, 0x80 + n % 0x40]
  else if n < 0x10000 then [0xE0 + n / 0x1000, 0x80 + n / 0x40 % 0x40, 0x80 + n % 0x40]
  else [0xF0 + n / 0x40000, 0x80 + n / 0x1000 % 0x40, 0x80 + n / 0x40 % 0x40, 0x80 + n % 0x40]

def utf8 (s : List Char) : List Nat := s.flatMap utf8Char

/-- The character that stands for bytes that are no character. -/
def replacement : Char := Char.ofNat 0xFFFD

/-- Where the reader stands: between characters, or inside one with `owed` bytes to come,
the next of them from `low` to `high`, and `soFar` read. -/
inductive Utf8State
  | between
  | inside (owed soFar low high : Nat)
deriving DecidableEq, Repr

/-- A byte read between characters: what it gives, and where it leads. -/
def utf8Start (b : Nat) : List Char × Utf8State :=
  if b < 0x80 then ([Char.ofNat b], .between)
  else if 0xC2 ≤ b ∧ b ≤ 0xDF then ([], .inside 1 (b - 0xC0) 0x80 0xBF)
  else if b = 0xE0 then ([], .inside 2 0 0xA0 0xBF)
  else if b = 0xED then ([], .inside 2 0xD 0x80 0x9F)
  else if 0xE1 ≤ b ∧ b ≤ 0xEF then ([], .inside 2 (b - 0xE0) 0x80 0xBF)
  else if b = 0xF0 then ([], .inside 3 0 0x90 0xBF)
  else if 0xF1 ≤ b ∧ b ≤ 0xF3 then ([], .inside 3 (b - 0xF0) 0x80 0xBF)
  else if b = 0xF4 then ([], .inside 3 4 0x80 0x8F)
  else ([replacement], .between)

/-- A byte read in any state. A byte that does not continue a character is read anew. -/
def utf8Step (state : Utf8State) (b : Nat) : List Char × Utf8State :=
  match state with
  | .between => utf8Start b
  | .inside owed soFar low high =>
    if low ≤ b ∧ b ≤ high then
      let value := soFar * 0x40 + (b - 0x80)
      if owed ≤ 1 then ([Char.ofNat value], .between)
      else ([], .inside (owed - 1) value 0x80 0xBF)
    else (replacement :: (utf8Start b).1, (utf8Start b).2)

def ofUtf8From : Utf8State → List Nat → List Char
  | .between, [] => []
  | .inside _ _ _ _, [] => [replacement]
  | state, b :: rest => (utf8Step state b).1 ++ ofUtf8From (utf8Step state b).2 rest

def ofUtf8 (bytes : List Nat) : List Char := ofUtf8From .between bytes

end DesignMarkup.Text
