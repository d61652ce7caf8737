import DesignMarkup.Design.Color

/-!
# Paints and effects

A paint fills or outlines a layer: a plain colour, a gradient or an image. An effect is
a shadow or a blur. Kinds that are not known are kept as they are and have no style.
-/

namespace DesignMarkup

/-! ## Points -/

structure Point where
  x : Value
  y : Value
deriving Inhabited

/-- Reads a point; absent coordinates are 0. -/
def Point.ofValue (v : Value) : Except Fault Point := do
  let ms ← v.members?
  pure { x := Members.getOr ms "x" (.whole 0), y := Members.getOr ms "y" (.whole 0) }

/-- Reads a part that may be null. -/
def optionally {α : Type} (read : Value → Except Fault α) (v : Value) : Except Fault (Option α) :=
  if v.isNull then .ok none else (read v).map some

def each {α : Type} (read : Value → Except Fault α) (v : Value) : Except Fault (List α) := do
  (← v.items?).mapM read

/-- Reads every item of a value that may be absent or empty. -/
def eachPresent {α : Type} (read : Value → Except Fault α) (v : Value) : Except Fault (List α) := do
  (← v.itemsOrNone).mapM read

/-! ## Gradients -/

/-- A colour of a gradient and its place from 0 to 1. -/
structure GradientStop where
  position : Value
  color : Color
deriving Inhabited

/-- Reads a stop; an absent colour is black. -/
def GradientStop.ofValue (v : Value) : Except Fault GradientStop := do
  let ms ← v.members?
  let color ← Color.ofValue (Members.getOr ms "color" (.object []))
  pure { position := Members.getOr ms "position" (.whole 0), color := color }

/-! ## Paints -/

structure Paint where
  kind : Value
  visible : Value
  opacity : Value
  color : Option Color
  stops : Option (List GradientStop)
  handles : Option (List Point)
  imageRef : Value
  scaleMode : Value
deriving Inhabited

namespace Paint

/-- Reads a paint, which is visible unless it says otherwise. -/
def ofValue (v : Value) : Except Fault Paint := do
  let ms ← v.members?
  let color ← optionally Color.ofValue (Members.get ms "color")
  let stops ← optionally (each GradientStop.ofValue) (Members.get ms "gradientStops")
  let handles ← optionally (each Point.ofValue) (Members.get ms "gradientHandlePositions")
  pure {
    kind := Members.getOr ms "type" (.text "")
    visible := Members.getOr ms "visible" (.bool true)
    opacity := Members.get ms "opacity"
    color := color
    stops := stops
    handles := handles
    imageRef := Members.get ms "imageRef"
    scaleMode := Members.get ms "scaleMode" }

/-- The alpha of one of the paint's colours: the paint's opacity, 1 when it has none,
times the alpha of the colour. -/
def alphaOf (p : Paint) (c : Color) : Except Fault Value :=
  (if p.opacity.isNull then .whole 1 else p.opacity).times c.a

def colorCssOf (p : Paint) (c : Color) : Except Fault String := do
  (c.withAlpha (← p.alphaOf c)).css

def colorCss (p : Paint) : Except Fault (Option String) :=
  match p.color with
  | none => .ok none
  | some c => (p.colorCssOf c).map some

/-- The first paint of a list that is visible. -/
def firstVisible (paints : List Paint) : Option Paint := paints.find? (·.visible.isPresent)

end Paint

/-! ## Effects -/

structure Effect where
  kind : Value
  visible : Value
  radius : Value
  color : Option Color
  offset : Option Point
  spread : Value
deriving Inhabited

/-- Reads an effect, which is visible unless it says otherwise. -/
def Effect.ofValue (v : Value) : Except Fault Effect := do
  let ms ← v.members?
  let color ← optionally Color.ofValue (Members.get ms "color")
  let offset ← optionally Point.ofValue (Members.get ms "offset")
  pure {
    kind := Members.getOr ms "type" (.text "")
    visible := Members.getOr ms "visible" (.bool true)
    radius := Members.get ms "radius"
    color := color
    offset := offset
    spread := Members.get ms "spread" }

end DesignMarkup
