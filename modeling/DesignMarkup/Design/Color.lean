import DesignMarkup.Value.Arithmetic
import DesignMarkup.Value.Plain

/-!
# Colours

A colour has three channels and an alpha, all from 0 to 1. In a style sheet the
channels run to 255, and the alpha is written, with two places, unless it is one.
-/

namespace DesignMarkup

structure Color where
  r : Value
  g : Value
  b : Value
  a : Value
deriving Inhabited

namespace Color

/-- Reads a colour; absent channels are 0 and an absent alpha is 1. -/
def ofValue (v : Value) : Except Fault Color := do
  let ms ← v.members?
  pure {
    r := Members.getOr ms "r" (.whole 0)
    g := Members.getOr ms "g" (.whole 0)
    b := Members.getOr ms "b" (.whole 0)
    a := Members.getOr ms "a" (.double 1.0) }

def withAlpha (c : Color) (alpha : Value) : Color := { c with a := alpha }

/-- A channel as a whole number up to 255. -/
def channel (v : Value) : Except Fault Int := do (← v.times (.whole 255)).roundHalfUp

def channelsText (r g b : Int) : String :=
  (Number.whole r).plain ++ ", " ++ (Number.whole g).plain ++ ", " ++ (Number.whole b).plain

def css (c : Color) : Except Fault String := do
  let r ← channel c.r
  let g ← channel c.g
  let b ← channel c.b
  if c.a.isSame (.whole 1) then
    pure ("rgb(" ++ channelsText r g b ++ ")")
  else
    pure ("rgba(" ++ channelsText r g b ++ ", " ++ (← c.a.twoPlaces) ++ ")")

end Color

end DesignMarkup
