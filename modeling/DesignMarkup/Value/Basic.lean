import DesignMarkup.Number

/-!
# Values

A value is what a design file, a response or a setting holds: null, a truth value, a
number, a text, a list or an object. Nothing says beforehand what kind a given place
holds. The functions here look into a value and name the fault where that fails.

An object keeps its members in order. Where a name occurs twice the first counts; the
reader of values never lets that happen.
-/

namespace DesignMarkup

/-- A value of a design file, a response or a setting. -/
inductive Value
  | null
  | bool (b : Bool)
  | number (n : Number)
  | text (s : String)
  | list (items : List Value)
  | object (members : List (String × Value))
deriving Inhabited

abbrev Members := List (String × Value)

namespace Value

def whole (n : Int) : Value := .number (.whole n)

def double (x : Float) : Value := .number (.double x)

/-! ## Presence -/

/-- A value that counts as present: neither null, false, zero nor empty. -/
def isPresent : Value → Bool
  | null => false
  | bool b => b
  | number n => !n.isZero
  | text s => !s.isEmpty
  | list items => !items.isEmpty
  | object members => !members.isEmpty

/-- The value if it counts as present, else the other one. -/
def orElse (v other : Value) : Value := if v.isPresent then v else other

def isNull : Value → Bool
  | null => true
  | _ => false

def isText (v : Value) (s : String) : Bool :=
  match v with
  | text t => t == s
  | _ => false

/-! ## Parts -/

def members? : Value → Except Fault Members
  | object ms => .ok ms
  | _ => .error .noSuchPart

def text? : Value → Except Fault String
  | text s => .ok s
  | _ => .error .noSuchPart

/-- The text, and the empty one for a value that does not count as present. -/
def textOrEmpty (v : Value) : Except Fault String :=
  if v.isPresent then v.text? else .ok ""

/-- What stands in a value, one by one: the items of a list, the characters of a text,
the names of an object's members. -/
def items? : Value → Except Fault (List Value)
  | list items => .ok items
  | text s => .ok (s.toList.map fun c => text c.toString)
  | object ms => .ok (ms.map fun m => text m.1)
  | _ => .error .wrongKind

/-- The items of a value, none for a value that does not count as present. -/
def itemsOrNone (v : Value) : Except Fault (List Value) :=
  if v.isPresent then v.items? else .ok []

/-- The entry of a table of texts under a value. Lists and objects cannot be looked up. -/
def lookupIn {α : Type} (table : List (String × α)) : Value → Except Fault (Option α)
  | text s => .ok (table.lookup s)
  | list _ => .error .wrongKind
  | object _ => .error .wrongKind
  | _ => .ok none

end Value

namespace Members

def getOr (ms : Members) (name : String) (other : Value) : Value := (ms.lookup name).getD other

def get (ms : Members) (name : String) : Value := getOr ms name .null

/-- The first of two members that counts as present, else the second. -/
def either (ms : Members) (first second : String) : Value := (get ms first).orElse (get ms second)

end Members

end DesignMarkup
