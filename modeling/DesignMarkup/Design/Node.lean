import DesignMarkup.Design.Paint

/-!
# Nodes

A design is a tree of nodes. What a node says of itself is its *layer*: name, kind, box,
paints, effects, layout and text. The tree hangs layers below each other.

Fields that the design gives as they are stay values; they are looked at where a style
is made of them. A reader fails only where a part that has parts of its own is none.
-/

namespace DesignMarkup

/-! ## Kinds -/

inductive NodeKind
  | frame
  | group
  | component
  | componentSet
  | componentInstance
  | text
  | rectangle
  | ellipse
  | vector
  | line
  | polygon
  | star
  | other
deriving DecidableEq, Repr, Inhabited

namespace NodeKind

def words : List (String × NodeKind) :=
  [("FRAME", frame), ("GROUP", group), ("COMPONENT", component), ("COMPONENT_SET", componentSet),
   ("INSTANCE", componentInstance), ("TEXT", text), ("RECTANGLE", rectangle), ("ELLIPSE", ellipse),
   ("VECTOR", vector), ("LINE", line), ("POLYGON", polygon), ("STAR", star), ("OTHER", other)]

/-- The kind that a value names; whatever names none is of the other kind. -/
def ofValue : Value → NodeKind
  | .text s => (words.lookup s).getD other
  | _ => other

end NodeKind

/-! ## Layers -/

structure Box where
  x : Value
  y : Value
  width : Value
  height : Value
deriving Inhabited

/-- Reads a box; absent numbers are 0. -/
def Box.ofValue (v : Value) : Except Fault Box := do
  let ms ← v.members?
  pure {
    x := Members.getOr ms "x" (.whole 0)
    y := Members.getOr ms "y" (.whole 0)
    width := Members.getOr ms "width" (.whole 0)
    height := Members.getOr ms "height" (.whole 0) }

structure TextStyle where
  fontFamily : Value
  fontWeight : Value
  fontSize : Value
  textAlign : Value
  letterSpacing : Value
  lineHeight : Value
  textCase : Value
  textDecoration : Value
deriving Inhabited

def TextStyle.ofValue (v : Value) : Except Fault TextStyle := do
  let ms ← v.members?
  pure {
    fontFamily := Members.get ms "fontFamily"
    fontWeight := Members.get ms "fontWeight"
    fontSize := Members.get ms "fontSize"
    textAlign := Members.get ms "textAlignHorizontal"
    letterSpacing := Members.get ms "letterSpacing"
    lineHeight := Members.get ms "lineHeightPx"
    textCase := Members.get ms "textCase"
    textDecoration := Members.get ms "textDecoration" }

structure Layer where
  id : Value
  name : Value
  kind : NodeKind
  rawKind : Value
  box : Option Box
  fills : List Paint
  strokes : List Paint
  effects : List Effect
  cornerRadius : Value
  cornerRadii : Option (List Value)
  opacity : Value
  layoutMode : Value
  primarySizing : Value
  counterSizing : Value
  primaryAlign : Value
  counterAlign : Value
  paddingTop : Value
  paddingRight : Value
  paddingBottom : Value
  paddingLeft : Value
  itemSpacing : Value
  layoutGrow : Value
  characters : Value
  textStyle : Option TextStyle
  imageRef : Value
deriving Inhabited

namespace Layer

/-- Reads a part that counts as absent unless it is present. -/
def present? {α : Type} (read : Value → Except Fault α) (v : Value) : Except Fault (Option α) :=
  if v.isPresent then (read v).map some else .ok none

/-- Reads a layer from the members of a node. Three parts go by two names each, of which
the first that is present counts. -/
def ofMembers (ms : Members) : Except Fault Layer := do
  let box ← present? Box.ofValue (Members.either ms "absoluteBoundingBox" "boundingBox")
  let fills ← eachPresent Paint.ofValue (Members.get ms "fills")
  let strokes ← eachPresent Paint.ofValue (Members.get ms "strokes")
  let effects ← eachPresent Effect.ofValue (Members.get ms "effects")
  let radii ← present? Value.items? (Members.either ms "rectangleCornerRadii" "cornerRadii")
  let style ← present? TextStyle.ofValue (Members.either ms "style" "textStyle")
  pure {
    id := Members.getOr ms "id" (.text "")
    name := Members.getOr ms "name" (.text "")
    kind := NodeKind.ofValue (Members.getOr ms "type" (.text ""))
    rawKind := Members.getOr ms "type" (.text "")
    box := box
    fills := fills
    strokes := strokes
    effects := effects
    cornerRadius := Members.get ms "cornerRadius"
    cornerRadii := radii
    opacity := Members.get ms "opacity"
    layoutMode := Members.get ms "layoutMode"
    primarySizing := Members.get ms "primaryAxisSizingMode"
    counterSizing := Members.get ms "counterAxisSizingMode"
    primaryAlign := Members.get ms "primaryAxisAlignItems"
    counterAlign := Members.get ms "counterAxisAlignItems"
    paddingTop := Members.get ms "paddingTop"
    paddingRight := Members.get ms "paddingRight"
    paddingBottom := Members.get ms "paddingBottom"
    paddingLeft := Members.get ms "paddingLeft"
    itemSpacing := Members.get ms "itemSpacing"
    layoutGrow := Members.get ms "layoutGrow"
    characters := Members.get ms "characters"
    textStyle := style
    imageRef := Members.get ms "imageRef" }

/-- The layer lays its children out by itself. -/
def hasAutoLayout (l : Layer) : Bool := l.layoutMode.isPresent && !l.layoutMode.isText "NONE"

end Layer

/-! ## Trees -/

inductive Node
  | node (layer : Layer) (children : List Node)
deriving Inhabited

namespace Node

def layer : Node → Layer
  | node l _ => l

def children : Node → List Node
  | node _ cs => cs

mutual

/-- Reads a node and all below it. The children are read before the layer. -/
def ofValue : Value → Except Fault Node
  | .object ms => do
    let children ← ofChildrenMember ms
    let layer ← Layer.ofMembers ms
    pure (node layer children)
  | _ => .error .noSuchPart

/-- Reads the member that holds the children. Null and the like hold none; a text or an
object holds texts, which are no nodes. -/
def ofChildrenMember : List (String × Value) → Except Fault (List Node)
  | [] => .ok []
  | (name, v) :: rest =>
    if name == "children" then
      match v with
      | .list items => ofValues items
      | .text s => if s.isEmpty then .ok [] else .error .noSuchPart
      | .object ms => if ms.isEmpty then .ok [] else .error .noSuchPart
      | v => if v.isPresent then .error .wrongKind else .ok []
    else ofChildrenMember rest

def ofValues : List Value → Except Fault (List Node)
  | [] => .ok []
  | v :: rest => do
    let n ← ofValue v
    let ns ← ofValues rest
    pure (n :: ns)

end

end Node

end DesignMarkup
