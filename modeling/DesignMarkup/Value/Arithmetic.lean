import DesignMarkup.Value.Basic

/-!
# Arithmetic on values

Numbers and truth values take part in arithmetic, a truth value as 0 or 1. A product
with a text or a list repeats it a whole number of times. Everything else is a fault.
-/

namespace DesignMarkup.Value

/-- The number that a value counts as. -/
def number? : Value → Option Number
  | bool b => some (.whole (if b then 1 else 0))
  | number n => some n
  | _ => none

/-- The number that a value counts as, or the fault that it is none. -/
def toNumber (v : Value) : Except Fault Number :=
  match v.number? with
  | some n => .ok n
  | none => .error .wrongKind

/-- The whole number below 2^63 in size that a value is. -/
def wholeInReach (v : Value) : Except Fault Int :=
  match v.number? with
  | some (.whole n) =>
    if -(Double.twoTo 63 : Int) ≤ n ∧ n < Double.twoTo 63 then .ok n else .error .outOfRange
  | _ => .error .wrongKind

/-- How often a text or a list is repeated by a value; a negative number stands for never. -/
def repetitions (v : Value) : Except Fault Nat := v.wholeInReach.map Int.toNat

/-- A text of more characters is not held. -/
def greatestLength : Nat := Double.twoTo 32

/-- An item of a list takes the room of this many characters. -/
def itemSize : Nat := 16

/-- A start with a part put behind it again and again, `n` times in all, by doubling. -/
def repeatedOnto {α : Type} [Append α] (start part : α) (n : Nat) : α :=
  if n = 0 then start
  else if n = 1 then start ++ part
  else repeatedOnto (if n % 2 = 0 then start else start ++ part) (part ++ part) (n / 2)
termination_by n

def repeatText (s : String) (times : Value) : Except Fault String := do
  let n ← times.repetitions
  let length := s.length * n
  if 1 < n ∧ Double.twoTo 63 ≤ length then .error .outOfRange
  else if 1 < n ∧ greatestLength < length then .error .noRoom
  else if length = 0 then pure ""
  else pure (repeatedOnto "" s n)

def repeatList (items : List Value) (times : Value) : Except Fault (List Value) := do
  let n ← times.repetitions
  let length := items.length * n
  if greatestLength < itemSize * length then .error .noRoom
  else if length = 0 then pure []
  else pure (repeatedOnto [] items n)

def times (a b : Value) : Except Fault Value :=
  match a, b with
  | text s, b => (repeatText s b).map text
  | list items, b => (repeatList items b).map list
  | a, text s => (repeatText s a).map text
  | a, list items => (repeatList items a).map list
  | a, b => do
    let m ← a.toNumber
    let n ← b.toNumber
    pure (number (← m.times n))

def minus (a b : Value) : Except Fault Number := do
  let m ← a.toNumber
  let n ← b.toNumber
  m.minus n

def less (v : Value) (n : Number) : Except Fault Bool := do pure ((← v.toNumber).less n)

def greater (v : Value) (n : Number) : Except Fault Bool := do pure (n.less (← v.toNumber))

def atLeast (v : Value) (n : Number) : Except Fault Bool := do pure ((← v.toNumber).atLeast n)

/-- The value is a number or a truth value that equals the given number. -/
def isSame (v : Value) (n : Number) : Bool :=
  match v.number? with
  | some m => m.same n
  | none => false

def roundHalfUp (v : Value) : Except Fault Int := do (← v.toNumber).roundHalfUp

/-- The text of a value with two places, which only numbers and truth values have. -/
def twoPlaces (v : Value) : Except Fault String :=
  match v with
  | text _ => .error (.badValue "Unknown format code 'f' for object of type 'str'")
  | v => do (← v.toNumber).twoPlaces

end DesignMarkup.Value
