import DesignMarkup.Style.Declaration
import DesignMarkup.Design.Node

/-!
# Fills and strokes

Only the first visible fill and the first visible stroke have a style. A fill is a plain
colour, a gradient or an image; a stroke is a plain colour.
-/

namespace DesignMarkup

/-! ## Gradients -/

/-- The direction of a vector in radians, from its height and its width. Which double near
the true angle that is is left to the platform. -/
class Arctangent where
  angle (y x : Float) : Float

instance : Arctangent := ⟨Float.atan2⟩

variable [Arctangent]

namespace Paint

def percentText (position : Value) : Except Fault String := do
  let percent ← (← position.times (.whole 100)).roundHalfUp
  pure ((Number.whole percent).plain ++ "%")

/-- One stop of the paint: its colour and its place. The place is reckoned before the
colour is written. -/
def stopCss (p : Paint) (stop : GradientStop) : Except Fault String := do
  let color := stop.color.withAlpha (← p.alphaOf stop.color)
  let percent ← percentText stop.position
  pure ((← color.css) ++ " " ++ percent)

def stopsCss (p : Paint) : Except Fault String := do
  pure (", ".intercalate (← (p.stops.getD []).mapM p.stopCss))

def pi : Float := 3.141592653589793

/-- The direction from the first handle to the second, in degrees clockwise from upwards. -/
def angleBetween (start finish : Point) : Except Fault Int := do
  let dy ← finish.y.minus start.y
  let dx ← finish.x.minus start.x
  let y ← dy.toDouble
  let x ← dx.toDouble
  -- The arctangent counts from the right and downwards; a quarter more counts from upwards.
  Number.roundHalfUp (.double (Arctangent.angle y x * (180.0 / pi) + 90.0))

/-- The angle of a linear gradient, which takes two handles. -/
def linearAngle (p : Paint) : Except Fault Int :=
  match p.handles with
  | none => .error .wrongKind
  | some (start :: finish :: _) => angleBetween start finish
  | some handles =>
    .error (.badValue ("not enough values to unpack (expected 2, got "
      ++ (Number.whole handles.length).plain ++ ")"))

/-- What stands for a gradient that lacks stops or handles. -/
def noGradient : String := "transparent"

def hasStops (p : Paint) : Bool :=
  match p.stops with
  | some (_ :: _) => true
  | _ => false

def linearCss (p : Paint) : Except Fault String :=
  if !p.hasStops || decide ((p.handles.getD []).length < 2) then .ok noGradient
  else do
    let angle ← p.linearAngle
    let stops ← p.stopsCss
    pure ("linear-gradient(" ++ (Number.whole angle).plain ++ "deg, " ++ stops ++ ")")

def radialCss (p : Paint) : Except Fault String :=
  if !p.hasStops then .ok noGradient
  else do pure ("radial-gradient(circle, " ++ (← p.stopsCss) ++ ")")

end Paint

/-! ## Layers -/

namespace Layer

/-- An image as the background of the layer, which becomes a use of the image. -/
def imageStyle (l : Layer) (fill : Paint) (className : Value) : Resolver :=
  let ref := fill.imageRef.orElse l.imageRef
  Resolver.only ref.isPresent do
    Writing.write (.image { nodeId := l.id, imageRef := ref, className := className })
    Resolver.set .backgroundSize (if fill.scaleMode.isText "FIT" then "contain" else "cover")
    Resolver.set .backgroundPosition "center"
    Resolver.set .backgroundRepeat "no-repeat"

/-- The background of the layer. Kinds of fills that are not known have none. -/
def fillStyle (l : Layer) (className : Value) : Resolver :=
  match Paint.firstVisible l.fills with
  | none => pure ()
  | some fill =>
    if fill.kind.isText "SOLID" then do
      Resolver.setIf .backgroundColor (← Writing.lift fill.colorCss)
    else if fill.kind.isText "GRADIENT_LINEAR" then
      Resolver.setTo .background fill.linearCss
    else if fill.kind.isText "GRADIENT_RADIAL" then
      Resolver.setTo .background fill.radialCss
    else if fill.kind.isText "IMAGE" then l.imageStyle fill className
    else pure ()

def strokeStyle (l : Layer) : Resolver :=
  match Paint.firstVisible l.strokes with
  | none => pure ()
  | some stroke =>
    Resolver.only (stroke.kind.isText "SOLID") do
      let color ← Writing.lift stroke.colorCss
      Resolver.setIf .border (color.map ("1px solid " ++ ·))

end Layer

end DesignMarkup
