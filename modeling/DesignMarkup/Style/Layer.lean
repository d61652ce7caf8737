import DesignMarkup.Style.Base
import DesignMarkup.Style.Fill
import DesignMarkup.Style.Shadow
import DesignMarkup.Style.Layout
import DesignMarkup.Style.Text

/-!
# The style of a layer

The resolvers, one after the other. Effects and flex layout depend on the options, and
only text layers have typography.
-/

namespace DesignMarkup.Layer

variable [Arctangent]

def style (l : Layer) (o : Options) (className : String) : Resolver := do
  l.baseStyle o
  l.fillStyle (.text className)
  l.strokeStyle
  Resolver.only o.convertEffects l.effectStyle
  Resolver.only o.preserveAutoLayout (l.layoutStyle o)
  Resolver.only (l.kind == .text) l.textStyling

end DesignMarkup.Layer
