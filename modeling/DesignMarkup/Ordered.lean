/-!
# Tables in order of arrival

A table is a list of entries in which a key occurs once. Entering a new key puts it at
the end; entering a present one changes its value and leaves it where it is.
-/

namespace DesignMarkup

/-- A table whose entries stand in the order in which their keys arrived. -/
abbrev Ordered (κ α : Type) := List (κ × α)

namespace Ordered

variable {κ α : Type} [DecidableEq κ]

def put (key : κ) (value : α) : Ordered κ α → Ordered κ α
  | [] => [(key, value)]
  | (k, v) :: rest => if k = key then (k, value) :: rest else (k, v) :: put key value rest

def putAll (entries : List (κ × α)) (table : Ordered κ α) : Ordered κ α :=
  entries.foldl (fun t e => t.put e.1 e.2) table

def ofEntries (entries : List (κ × α)) : Ordered κ α := putAll entries []

end Ordered

end DesignMarkup
