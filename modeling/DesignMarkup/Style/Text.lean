import DesignMarkup.Style.Declaration
import DesignMarkup.Design.Node

/-!
# Text

The typography of a text layer, the colour of its glyphs, and the tag that its font size
calls for.
-/

namespace DesignMarkup.Layer

/-! ## Tags -/

def defaultFontSize : Value := .whole 16

/-- Headings by the least font size that calls for them, the largest first. -/
def headings : List (Int × String) :=
  [(32, "h1"), (24, "h2"), (20, "h3"), (18, "h4"), (16, "h5")]

def paragraphTag : String := "p"

def tagForSize (size : Value) : List (Int × String) → Except Fault String
  | [] => .ok paragraphTag
  | (least, tag) :: rest => do
    if ← size.atLeast (.whole least) then pure tag else tagForSize size rest

/-- The font size of the layer, the default one where it names none. -/
def effectiveFontSize (l : Layer) : Value :=
  match l.textStyle with
  | some s => s.fontSize.orElse defaultFontSize
  | none => defaultFontSize

def textTag (l : Layer) : Except Fault String := tagForSize l.effectiveFontSize headings

/-! ## Typography -/

def textAlignments : List (String × String) :=
  [("LEFT", "left"), ("RIGHT", "right"), ("CENTER", "center"), ("JUSTIFIED", "justify")]

def textCases : List (String × String) :=
  [("UPPER", "uppercase"), ("LOWER", "lowercase"), ("TITLE", "capitalize")]

def textDecorations : List (String × String) :=
  [("UNDERLINE", "underline"), ("STRIKETHROUGH", "line-through")]

/-- A font family with the generic family behind it. -/
def fontFamilyText (family : Value) : String := "\"" ++ family.plain ++ "\", sans-serif"

def typography (s : TextStyle) : Resolver := do
  Resolver.only s.fontFamily.isPresent (Resolver.set .fontFamily (fontFamilyText s.fontFamily))
  Resolver.only s.fontSize.isPresent (Resolver.set .fontSize s.fontSize.pixels)
  Resolver.only s.fontWeight.isPresent (Resolver.set .fontWeight s.fontWeight.written)
  Resolver.only s.letterSpacing.isPresent (Resolver.set .letterSpacing s.letterSpacing.pixels)
  Resolver.only s.lineHeight.isPresent (Resolver.set .lineHeight s.lineHeight.pixels)
  Resolver.setIf .textAlign (← Writing.lift (s.textAlign.lookupIn textAlignments))
  Resolver.setIf .textTransform (← Writing.lift (s.textCase.lookupIn textCases))
  Resolver.setIf .textDecoration (← Writing.lift (s.textDecoration.lookupIn textDecorations))

/-- A paint is a plain colour and visible. -/
def isGlyphPaint (p : Paint) : Bool := p.kind.isText "SOLID" && p.visible.isPresent

/-- The colour of the glyphs: that of the first visible plain fill, if it has one. -/
def glyphColor (l : Layer) : Resolver :=
  match l.fills.find? isGlyphPaint with
  | none => pure ()
  | some fill => do Resolver.setIf .color (← Writing.lift fill.colorCss)

/-- The style of a text layer that has a text style. -/
def textStyling (l : Layer) : Resolver :=
  match l.textStyle with
  | none => pure ()
  | some s => do
    typography s
    l.glyphColor

end DesignMarkup.Layer
