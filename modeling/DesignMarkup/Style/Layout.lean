import DesignMarkup.Style.Declaration
import DesignMarkup.Design.Node
import DesignMarkup.Options

/-!
# Layout

A layer that lays out its children becomes a flex box: direction, gap, padding, the
alignment on both axes, and a size that follows the content where the layer asks for it.
-/

namespace DesignMarkup.Layer

def mainAlignments : List (String × String) :=
  [("MIN", "flex-start"), ("MAX", "flex-end"), ("CENTER", "center"),
   ("SPACE_BETWEEN", "space-between")]

def crossAlignments : List (String × String) :=
  [("MIN", "flex-start"), ("MAX", "flex-end"), ("CENTER", "center"), ("BASELINE", "baseline")]

def paddings (l : Layer) : List Value :=
  [l.paddingTop, l.paddingRight, l.paddingBottom, l.paddingLeft]

/-- The paddings that are present, as lengths. -/
def paddingLengths (l : Layer) : List String := (l.paddings.filter Value.isPresent).map Value.pixels

/-- The padding in short form: one length when all present sides have the same, four when
all four sides are present, and none when neither holds. -/
def paddingShorthand (l : Layer) : Option String :=
  match l.paddingLengths with
  | [] => none
  | first :: rest =>
    if rest.all (· == first) then some first
    else if rest.length == 3 then some (" ".intercalate (first :: rest))
    else none

def isHorizontal (l : Layer) : Bool := l.layoutMode.isText "HORIZONTAL"

/-- The size along the main axis and across it follow the content where they are to. -/
def sizingStyle (l : Layer) : Resolver := do
  Resolver.only (l.primarySizing.isText "AUTO")
    (Resolver.set (if l.isHorizontal then .width else .height) "auto")
  Resolver.only (l.counterSizing.isText "AUTO")
    (Resolver.set (if l.isHorizontal then .height else .width) "auto")

/-- The share of free room that the layer takes, where it takes any. -/
def growStyle (l : Layer) : Resolver :=
  Resolver.only l.layoutGrow.isPresent do
    let grows ← Writing.lift (l.layoutGrow.greater (.whole 0))
    Resolver.only grows (Resolver.set .flexGrow l.layoutGrow.written)

def layoutStyle (l : Layer) (o : Options) : Resolver :=
  Resolver.only (l.hasAutoLayout && o.useFlexbox) do
    Resolver.set .display "flex"
    Resolver.set .flexDirection (if l.isHorizontal then "row" else "column")
    Resolver.only l.itemSpacing.isPresent (Resolver.set .gap l.itemSpacing.pixels)
    Resolver.setIf .padding l.paddingShorthand
    Resolver.setIf .justifyContent (← Writing.lift (l.primaryAlign.lookupIn mainAlignments))
    Resolver.setIf .alignItems (← Writing.lift (l.counterAlign.lookupIn crossAlignments))
    l.sizingStyle
    l.growStyle

end DesignMarkup.Layer
