import DesignMarkup.Style.Layer
import DesignMarkup.Markup
import DesignMarkup.Naming
import DesignMarkup.Stylesheet

/-!
# Conversion

A design is walked from the root down, children in order. Each node that is visited
writes the use of an image, if its fill is one, and the rule for its class, if its style
declares anything; and it becomes an element. Children of texts and of shapes are not
visited. Nodes of one class share a rule: the last one's declarations count, and the
rule stays where the first one put it.
-/

namespace DesignMarkup

variable [Arctangent]

/-! ## What the walk writes -/

/-- What the walk writes on its way. -/
inductive WalkEntry
  | image (use : ImageUse)
  | rule (className : String) (style : Declarations)

/-- The rules and the image uses so far. -/
structure Harvest where
  rules : Ordered String Declarations
  images : List ImageUse

namespace Harvest

def empty : Harvest := { rules := [], images := [] }

def add (h : Harvest) : WalkEntry → Harvest
  | .image use => { h with images := h.images ++ [use] }
  | .rule className style => { h with rules := h.rules.put className style }

def addAll (h : Harvest) (entries : List WalkEntry) : Harvest := entries.foldl add h

def css (h : Harvest) : String :=
  Stylesheet.print (h.rules.map fun r => (r.1, Stylesheet.named r.2))

end Harvest

abbrev Walk (α : Type) := Writing WalkEntry α

/-! ## One node -/

namespace Layer

def className (l : Layer) : Except Fault String := do
  pure (Naming.className (← l.name.textOrEmpty))

def containerTag (l : Layer) : Except Fault String := do
  pure (Naming.tagName (← l.name.textOrEmpty))

/-- Resolves the style of the layer. Its image use is written even when a later part of
the style fails, its rule only when none does and there is something to declare. -/
def dress (l : Layer) (o : Options) (className : String) : Walk Unit :=
  let styled := l.style o className
  let images := (StyleEntry.images styled.written).map WalkEntry.image
  match styled.outcome with
  | .error e => ⟨images, .error e⟩
  | .ok () =>
    let style := StyleEntry.declarations styled.written []
    ⟨images ++ (if style.isEmpty then [] else [.rule className style]), .ok ()⟩

def textElement (l : Layer) (className : String) : Except Fault Element := do
  let tag ← l.textTag
  let content ← l.characters.textOrEmpty
  pure (.text tag className content)

def shapeElement (className : String) : Element := .box Naming.plainTag className none []

/-- The element that stands for a drawing, labelled with the layer's name. -/
def drawingElement (l : Layer) (className : String) : Except Fault Element := do
  let label ← l.name.textOrEmpty
  pure (.box Naming.plainTag className (some label) [])

end Layer

/-! ## The walk -/

inductive Rendering
  | text
  | container
  | shape
  | drawing
deriving DecidableEq, Repr

/-- How a node is rendered: by its kind, and for a kind that is not known by whether it
has children. -/
def NodeKind.rendering (kind : NodeKind) (hasChildren : Bool) : Rendering :=
  match kind with
  | .text => .text
  | .frame | .group | .component | .componentSet | .componentInstance => .container
  | .rectangle | .ellipse => .shape
  | .vector | .line | .polygon | .star => .drawing
  | .other => if hasChildren then .container else .shape

namespace Node

mutual

def draw (o : Options) : Node → Walk Element
  | node layer children => do
    let className ← Writing.lift layer.className
    layer.dress o className
    match layer.kind.rendering (!children.isEmpty) with
    | .text => Writing.lift (layer.textElement className)
    | .shape => pure (Layer.shapeElement className)
    | .drawing => Writing.lift (layer.drawingElement className)
    | .container => do
      let tag ← Writing.lift layer.containerTag
      let elements ← drawAll o children
      pure (.box tag className none elements)

def drawAll (o : Options) : List Node → Walk (List Element)
  | [] => pure []
  | n :: rest => do
    let e ← draw o n
    let es ← drawAll o rest
    pure (e :: es)

end

end Node

/-! ## Depths -/

/-- The depth that a value stands for: a whole number, as long as a text of that many
indentations can be held. -/
def Element.depthOf (v : Value) : Except Fault Int := do
  let depth ← v.wholeInReach
  let length := indentUnit.length * depth.toNat
  if Double.twoTo 63 ≤ length then .error .outOfRange
  else if Value.greatestLength < length then .error .noRoom
  else pure depth

namespace Node

/-- Visits the root alone and fails where its element would be indented: before its
children are visited, and behind the label of a drawing. -/
def stopAt (o : Options) (fault : Fault) : Node → Walk String
  | node layer children => do
    let className ← Writing.lift layer.className
    layer.dress o className
    match layer.kind.rendering (!children.isEmpty) with
    | .drawing => do
      let _ ← Writing.lift (layer.drawingElement className)
      Writing.lift (.error fault)
    | _ => Writing.lift (.error fault)

/-- Visits a node and prints its element at a depth, which may be any value. -/
def drawAt (o : Options) (depth : Value) (n : Node) : Walk String := do
  match Element.depthOf depth with
  | .ok d => do pure ((← n.draw o).print d)
  | .error fault => n.stopAt o fault

end Node

/-! ## Whole designs -/

structure Converted where
  html : String
  css : String
  images : List ImageUse

def Node.convert (n : Node) (o : Options) : Except Fault Converted := do
  let walk := n.draw o
  let element ← walk.outcome
  let harvest := Harvest.empty.addAll walk.written
  pure { html := element.print 0, css := harvest.css, images := harvest.images }

def convertValue (v : Value) (o : Options) : Except Fault Converted := do
  (← Node.ofValue v).convert o

end DesignMarkup
