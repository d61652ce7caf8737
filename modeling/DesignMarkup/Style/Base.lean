import DesignMarkup.Style.Declaration
import DesignMarkup.Design.Node
import DesignMarkup.Options

/-!
# Size, opacity and corners

The size of a layer is its box, rounded to whole pixels, unless the layer lays out its
children and that is to be preserved: then its size follows from its content.
-/

namespace DesignMarkup.Layer

/-- A length rounded to whole pixels. -/
def roundedPixels (v : Value) : Except Fault String := do
  pure ((Number.whole (← v.roundHalfUp)).plain ++ "px")

def sizeStyle (l : Layer) (o : Options) : Resolver :=
  match l.box with
  | none => pure ()
  | some box =>
    Resolver.only (!o.preserveAutoLayout || !l.hasAutoLayout) do
      Resolver.setTo .width (roundedPixels box.width)
      Resolver.setTo .height (roundedPixels box.height)

def isTranslucent (l : Layer) : Except Fault Bool :=
  if l.opacity.isNull then .ok false else l.opacity.less (.whole 1)

def opacityStyle (l : Layer) : Resolver := do
  let translucent ← Writing.lift l.isTranslucent
  Resolver.only translucent (Resolver.setTo .opacity l.opacity.twoPlaces)

/-- The radius of the corners: one for all, or four, and a half for an ellipse. -/
def cornerStyle (l : Layer) : Resolver := do
  if l.cornerRadius.isPresent then
    Resolver.set .borderRadius l.cornerRadius.pixels
  else
    match l.cornerRadii with
    | some radii =>
      Resolver.only (radii.length == 4)
        (Resolver.set .borderRadius (" ".intercalate (radii.map Value.pixels)))
    | none => pure ()
  Resolver.only (l.kind == .ellipse) (Resolver.set .borderRadius "50%")

def baseStyle (l : Layer) (o : Options) : Resolver := do
  l.sizeStyle o
  l.opacityStyle
  l.cornerStyle

end DesignMarkup.Layer
