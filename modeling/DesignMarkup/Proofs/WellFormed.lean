import DesignMarkup.Design.Node
import DesignMarkup.Proofs.Quantities

/-!
# Well-formed designs

A raw design is well-formed when every key that is read holds, if it is there at all, a value
of its declared type. The types are written down as tables of checks that can be run. Keys
that no table names may hold anything.
-/

namespace DesignMarkup.Schema

/-! ## Checks -/

/-- Whether a value may stand at some place. -/
abbrev Check := Value → Bool

def greatestQuantity : Nat := 10 ^ 15

def quantity : Check
  | .number (.whole n) => decide (n.natAbs ≤ greatestQuantity)
  | .number (.double x) =>
    decide (Double.magnitude (Double.rank x) ≤ greatestQuantity * Double.unitsPerOne)
  | _ => false

def text : Check
  | .text _ => true
  | _ => false

def truth : Check
  | .bool _ => true
  | _ => false

def orNull (check : Check) : Check := fun v => v.isNull || check v

def listOf (check : Check) : Check
  | .list items => items.all check
  | _ => false

/-- A key is absent or holds what it may hold. -/
def allows (ms : Members) (field : String × Check) : Bool :=
  match ms.lookup field.1 with
  | some v => field.2 v
  | none => true

def record (fields : List (String × Check)) : Check
  | .object ms => fields.all (allows ms)
  | _ => false

/-! ## Tables -/

def color : Check :=
  record [("r", quantity), ("g", quantity), ("b", quantity), ("a", quantity)]

def point : Check := record [("x", quantity), ("y", quantity)]

def box : Check :=
  record [("x", quantity), ("y", quantity), ("width", quantity), ("height", quantity)]

def gradientStop : Check := record [("position", quantity), ("color", color)]

def paint : Check :=
  record
    [("type", orNull text), ("visible", truth), ("opacity", orNull quantity),
     ("color", orNull color), ("gradientStops", orNull (listOf gradientStop)),
     ("gradientHandlePositions", orNull (listOf point)), ("imageRef", orNull text),
     ("scaleMode", orNull text)]

def effect : Check :=
  record
    [("type", orNull text), ("visible", truth), ("radius", orNull quantity),
     ("color", orNull color), ("offset", orNull point), ("spread", orNull quantity)]

def textStyle : Check :=
  record
    [("fontFamily", orNull text), ("fontWeight", orNull quantity), ("fontSize", orNull quantity),
     ("textAlignHorizontal", orNull text), ("letterSpacing", orNull quantity),
     ("lineHeightPx", orNull quantity), ("textCase", orNull text),
     ("textDecoration", orNull text)]

def layer : List (String × Check) :=
  [("id", text), ("name", orNull text), ("type", orNull text),
   ("absoluteBoundingBox", orNull box), ("boundingBox", orNull box),
   ("fills", orNull (listOf paint)), ("strokes", orNull (listOf paint)),
   ("effects", orNull (listOf effect)),
   ("rectangleCornerRadii", orNull (listOf quantity)), ("cornerRadii", orNull (listOf quantity)),
   ("style", orNull textStyle), ("textStyle", orNull textStyle),
   ("cornerRadius", orNull quantity), ("opacity", orNull quantity),
   ("layoutMode", orNull text), ("primaryAxisSizingMode", orNull text),
   ("counterAxisSizingMode", orNull text), ("primaryAxisAlignItems", orNull text),
   ("counterAxisAlignItems", orNull text),
   ("paddingTop", orNull quantity), ("paddingRight", orNull quantity),
   ("paddingBottom", orNull quantity), ("paddingLeft", orNull quantity),
   ("itemSpacing", orNull quantity), ("layoutGrow", orNull quantity),
   ("characters", orNull text), ("imageRef", orNull text)]

mutual

/-- A well-formed design: its own keys conform, and so do its children at every level. -/
def design : Check
  | .object ms => layer.all (allows ms) && childrenOf ms
  | _ => false

def childrenOf : List (String × Value) → Bool
  | [] => true
  | (name, v) :: rest =>
    if name == "children" then
      match v with
      | .null => true
      | .list items => designs items
      | _ => false
    else childrenOf rest

def designs : List Value → Bool
  | [] => true
  | v :: rest => design v && designs rest

end

/-! ## What a check says -/

theorem isWithin_of_quantity {v : Value} (h : quantity v = true) : v.IsWithin 50 := by
  have small : greatestQuantity < 2 ^ 50 := by decide
  cases v with
  | number n =>
      refine ⟨n, rfl, ?_⟩
      cases n with
      | whole n => exact Nat.lt_of_le_of_lt (of_decide_eq_true h) small
      -- The bits of a double of that magnitude hold no exponent above 50.
      | double x => exact Double.below_of_magnitude small (of_decide_eq_true h)
  | _ => cases h

theorem eq_text_of_text {v : Value} (h : text v = true) : ∃ s, v = .text s := by
  cases v with
  | text s => exact ⟨s, rfl⟩
  | _ => cases h

theorem orNull_iff {check : Check} {v : Value} :
    orNull check v = true ↔ v = .null ∨ check v = true := by
  cases v <;> simp [orNull, Value.isNull]

theorem eq_list_of_listOf {check : Check} {v : Value} (h : listOf check v = true) :
    ∃ items, v = .list items ∧ ∀ w ∈ items, check w = true := by
  cases v with
  | list items => exact ⟨items, rfl, List.all_eq_true.mp h⟩
  | _ => cases h

theorem eq_object_of_record {fields : List (String × Check)} {v : Value}
    (h : record fields v = true) : ∃ ms, v = .object ms ∧ fields.all (allows ms) = true := by
  cases v with
  | object ms => exact ⟨ms, rfl, h⟩
  | _ => cases h

/-- What a key holds, or what stands for it when it is absent, passes the check. -/
theorem getOr_of_allows {ms : Members} {key : String} {check : Check} {other : Value}
    (h : allows ms (key, check) = true) (hother : check other = true) :
    check (Members.getOr ms key other) = true := by
  unfold allows at h
  unfold Members.getOr
  cases found : ms.lookup key with
  | none => exact hother
  | some v =>
      rw [found] at h
      exact h

theorem get_of_allows {ms : Members} {key : String} {check : Check}
    (h : allows ms (key, orNull check) = true) : orNull check (Members.get ms key) = true :=
  getOr_of_allows h rfl

theorem either_of_allows {ms : Members} {first second : String} {check : Check}
    (hfirst : allows ms (first, orNull check) = true)
    (hsecond : allows ms (second, orNull check) = true) :
    orNull check (Members.either ms first second) = true := by
  unfold Members.either Value.orElse
  split
  · exact get_of_allows hfirst
  · exact get_of_allows hsecond

end DesignMarkup.Schema
