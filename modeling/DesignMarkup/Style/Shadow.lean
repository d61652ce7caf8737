import DesignMarkup.Style.Declaration
import DesignMarkup.Design.Node

/-!
# Shadows and blurs

Every visible shadow becomes a term of the shadow list, in order. Layer blurs and
background blurs share one filter, and the largest radius wins.
-/

namespace DesignMarkup

namespace Effect

def defaultShadowColor : String := "rgba(0,0,0,0.25)"

def isInner (e : Effect) : Bool := e.kind.isText "INNER_SHADOW"

def isShadow (e : Effect) : Bool := e.kind.isText "DROP_SHADOW" || e.isInner

def isBlur (e : Effect) : Bool := e.kind.isText "LAYER_BLUR" || e.kind.isText "BACKGROUND_BLUR"

def colorCss (e : Effect) : Except Fault String :=
  match e.color with
  | some c => c.css
  | none => .ok defaultShadowColor

/-- A shadow in a style sheet: offsets, radius, spread and colour. -/
def shadowCss (e : Effect) : Except Fault String := do
  let x := (e.offset.map (·.x)).getD (.whole 0)
  let y := (e.offset.map (·.y)).getD (.whole 0)
  let radius := e.radius.orElse (.whole 0)
  let spread := e.spread.orElse (.whole 0)
  let color ← e.colorCss
  pure ((if e.isInner then "inset " else "") ++ x.pixels ++ " " ++ y.pixels ++ " "
    ++ radius.pixels ++ " " ++ spread.pixels ++ " " ++ color)

/-- The larger of a blur so far and the radius of an effect. A radius that is not above
the blur, and one that cannot be compared with it for being no number, changes nothing. -/
def widerBlur (blur : Value) (e : Effect) : Except Fault Value := do
  let radius := e.radius.orElse (.whole 0)
  if ← radius.greater (← blur.toNumber) then pure radius else pure blur

end Effect

/-- The shadows and the blur that effects come to. -/
structure Shadows where
  terms : List String
  blur : Value

namespace Shadows

def none : Shadows := { terms := [], blur := .whole 0 }

def add (s : Shadows) (e : Effect) : Except Fault Shadows :=
  if !e.visible.isPresent then .ok s
  else if e.isShadow then do pure { s with terms := s.terms ++ [← e.shadowCss] }
  else if e.isBlur then do pure { s with blur := ← e.widerBlur s.blur }
  else .ok s

def ofEffects (effects : List Effect) : Except Fault Shadows := effects.foldlM add none

end Shadows

def Layer.effectStyle (l : Layer) : Resolver := do
  let shadows ← Writing.lift (Shadows.ofEffects l.effects)
  Resolver.only (!shadows.terms.isEmpty) (Resolver.set .boxShadow (", ".intercalate shadows.terms))
  let blurred ← Writing.lift (shadows.blur.greater (.whole 0))
  Resolver.only blurred (Resolver.set .filter ("blur(" ++ shadows.blur.pixels ++ ")"))

end DesignMarkup
