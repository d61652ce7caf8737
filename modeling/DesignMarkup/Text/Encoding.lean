/-!
# Encodings

Files and the terminal take bytes, and a text may hold what has none: a surrogate without its
partner, which JSON can spell. No character is a surrogate, so a character for private use stands
in its place. What can be encoded is a question to the place that a text goes to.
-/

namespace DesignMarkup

namespace Text

/-- The first of the characters that stand for surrogates. -/
def firstLone : Nat := 0x10F000

/-- The character that stands for a surrogate without its partner. -/
def lone (unit : Nat) : Char := Char.ofNat (firstLone + (unit - 0xD800))

def surrogate? (c : Char) : Option Nat :=
  if firstLone ≤ c.toNat ∧ c.toNat < firstLone + 0x800 then some (0xD800 + (c.toNat - firstLone))
  else none

end Text

/-- Which texts can be encoded for a file, and which for the terminal. -/
class Encoding where
  file : String → Bool
  terminal : String → Bool

/-- Everything but surrogates. -/
instance : Encoding where
  file s := s.toList.all fun c => (Text.surrogate? c).isNone
  terminal s := s.toList.all fun c => (Text.surrogate? c).isNone

end DesignMarkup
