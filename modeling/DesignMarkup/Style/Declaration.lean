import DesignMarkup.Ordered
import DesignMarkup.Writing
import DesignMarkup.Value.Basic

/-!
# Declarations

The properties that a layer's style can set, and what resolving a style writes:
declarations, and at most one use of an image. A resolver never looks at what was
declared before it, so a style is what its resolvers write, one after the other.
-/

namespace DesignMarkup

inductive Property
  | width
  | height
  | opacity
  | borderRadius
  | backgroundColor
  | background
  | backgroundSize
  | backgroundPosition
  | backgroundRepeat
  | border
  | boxShadow
  | filter
  | display
  | flexDirection
  | gap
  | padding
  | justifyContent
  | alignItems
  | flexGrow
  | fontFamily
  | fontSize
  | fontWeight
  | letterSpacing
  | lineHeight
  | textAlign
  | textTransform
  | textDecoration
  | color
deriving DecidableEq, Repr

namespace Property

def name : Property → String
  | width => "width"
  | height => "height"
  | opacity => "opacity"
  | borderRadius => "border-radius"
  | backgroundColor => "background-color"
  | background => "background"
  | backgroundSize => "background-size"
  | backgroundPosition => "background-position"
  | backgroundRepeat => "background-repeat"
  | border => "border"
  | boxShadow => "box-shadow"
  | filter => "filter"
  | display => "display"
  | flexDirection => "flex-direction"
  | gap => "gap"
  | padding => "padding"
  | justifyContent => "justify-content"
  | alignItems => "align-items"
  | flexGrow => "flex-grow"
  | fontFamily => "font-family"
  | fontSize => "font-size"
  | fontWeight => "font-weight"
  | letterSpacing => "letter-spacing"
  | lineHeight => "line-height"
  | textAlign => "text-align"
  | textTransform => "text-transform"
  | textDecoration => "text-decoration"
  | color => "color"

end Property

/-- The style of one layer: what it declares, in order of first declaration. -/
abbrev Declarations := Ordered Property String

structure ImageUse where
  nodeId : Value
  imageRef : Value
  className : Value
deriving Inhabited

/-- What resolving a style writes. -/
inductive StyleEntry
  | declare (property : Property) (value : String)
  | image (use : ImageUse)

namespace StyleEntry

def declaration? : StyleEntry → Option (Property × String)
  | declare p v => some (p, v)
  | image _ => none

def image? : StyleEntry → Option ImageUse
  | declare _ _ => none
  | image use => some use

/-- The declarations that entries make on top of others. -/
def declarations (entries : List StyleEntry) (table : Declarations) : Declarations :=
  table.putAll (entries.filterMap declaration?)

def images (entries : List StyleEntry) : List ImageUse := entries.filterMap image?

end StyleEntry

/-- A resolver writes style entries. -/
abbrev Resolver := Writing StyleEntry Unit

namespace Resolver

def set (p : Property) (value : String) : Resolver := Writing.write (.declare p value)

/-- Sets a property to a text that may take a fault to make. -/
def setTo (p : Property) (value : Except Fault String) : Resolver := do
  set p (← Writing.lift value)

/-- Sets a property if there is a text for it. -/
def setIf (p : Property) : Option String → Resolver
  | some value => set p value
  | none => pure ()

def only (condition : Bool) (r : Resolver) : Resolver := if condition then r else pure ()

end Resolver

end DesignMarkup
