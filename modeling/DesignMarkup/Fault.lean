/-!
# Faults of data

What can be wrong with a value that a design, a response or a setting holds. Data
come from outside and are checked nowhere but where they are used, so each use
names the fault that it can meet.
-/

namespace DesignMarkup

/-- Why a value could not be used. -/
inductive Fault
  /-- A part was asked of a value that has no such part, such as a member of a number. -/
  | noSuchPart
  /-- The kind of the value does not fit the operation. -/
  | wrongKind
  /-- The kind fits and the value does not. -/
  | badValue (reason : String)
  /-- An object lacks a member that is required. -/
  | missingMember
  /-- A number is too large for what is done with it. -/
  | outOfRange
  /-- A result would be too large to be held. -/
  | noRoom
deriving DecidableEq, Repr

end DesignMarkup
