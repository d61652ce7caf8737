import DesignMarkup.Proofs.Typed
import DesignMarkup.Proofs.Walk

/-!
# Nothing fails on a well-formed design

Every step of a conversion has a result when the fields it looks at are absent or of their
types. The steps are taken in the order of the program: colours, paints, effects, the styles
of a layer, the walk, and at the end a whole conversion from a raw design.
-/

namespace DesignMarkup

/-! ## Values -/

namespace Value

theorem succeeds_textOrEmpty {v : Value} (h : v.Maybe IsText) : Succeeds v.textOrEmpty := by
  unfold textOrEmpty
  split
  · rcases h with rfl | ⟨s, rfl⟩
    · contradiction
    · exact succeeds_ok s
  · exact succeeds_ok ""

theorem succeeds_lookupIn {α : Type} {v : Value} (h : v.Maybe IsText) (table : List (String × α)) :
    Succeeds (v.lookupIn table) := by
  rcases h with rfl | ⟨s, rfl⟩
  · exact succeeds_ok none
  · exact succeeds_ok (table.lookup s)

/-- A value that is present is not null, so it is of its kind. -/
theorem of_maybe {P : Value → Prop} {v : Value} (h : v.Maybe P) (present : v.isPresent = true) :
    P v := by
  rcases h with rfl | h
  · cases present
  · exact h

/-- Where a value is absent another one stands for it. -/
theorem orElse_of_maybe {P : Value → Prop} {v other : Value} (h : v.Maybe P) (hother : P other) :
    P (v.orElse other) := by
  unfold orElse
  split
  · rename_i present
    exact of_maybe h present
  · exact hother

theorem isQuantity_whole {n : Int} (h : n.natAbs < 2 ^ 50 := by decide) :
    IsQuantity (Value.whole n) :=
  isWithin_whole h

end Value

open Value

/-! ## Colours -/

namespace Color

theorem succeeds_channel {v : Value} (h : IsQuantity v) : Succeeds (channel v) := by
  have factor : (Value.whole 255).IsWithin 8 := isWithin_whole (by decide)
  exact (times_of_isWithin h factor (by decide)).succeeds_bind fun _ within =>
    roundHalfUp_of_isWithin within (by decide)

/-- A colour can be written; its alpha may come out of a product. -/
theorem succeeds_css {k : Nat} {c : Color} (r : IsQuantity c.r) (g : IsQuantity c.g)
    (b : IsQuantity c.b) (a : c.a.IsWithin k) (hk : k ≤ 800) : Succeeds c.css := by
  refine succeeds_bind (succeeds_channel r) fun _ _ => ?_
  refine succeeds_bind (succeeds_channel g) fun _ _ => ?_
  refine succeeds_bind (succeeds_channel b) fun _ _ => ?_
  split
  · exact succeeds_pure _
  · exact succeeds_bind (twoPlaces_of_isWithin a hk) fun _ _ => succeeds_pure _

end Color

/-! ## Paints -/

/-- What is known of the arctangent: of finite doubles it is finite, and as it lies between
the circle constant and its negative, it is no larger than 4. -/
def Arctangent.InRange [Arctangent] : Prop :=
  ∀ y x : Float, Double.isFinite y = true → Double.isFinite x = true →
    Double.isFinite (angle y x) = true ∧
      Double.magnitude (Double.rank (angle y x)) ≤ 4 * Double.unitsPerOne

namespace Paint

variable {p : Paint} {c : Color}

theorem yields_alphaOf (hp : p.Typed IsQuantity) (hc : c.Typed IsQuantity) :
    Yields (p.alphaOf c) (IsWithin (50 + 50 + 375)) := by
  have opacity : IsQuantity (if p.opacity.isNull then .whole 1 else p.opacity) := by
    rcases hp.opacity with null | number
    · rw [null]
      exact isQuantity_whole
    · obtain ⟨a, ha, within⟩ := number
      rw [ha]
      exact ⟨a, rfl, within⟩
  exact times_of_isWithin opacity hc.a (by decide)

theorem succeeds_colorCssOf (hp : p.Typed IsQuantity) (hc : c.Typed IsQuantity) :
    Succeeds (p.colorCssOf c) := by
  refine (yields_alphaOf hp hc).succeeds_bind fun alpha within => ?_
  exact Color.succeeds_css (c := c.withAlpha alpha) hc.r hc.g hc.b within (by decide)

theorem succeeds_colorCss (hp : p.Typed IsQuantity) : Succeeds p.colorCss := by
  unfold colorCss
  split
  · exact succeeds_ok none
  · rename_i c hcolor
    exact succeeds_map (succeeds_colorCssOf hp (hp.color c hcolor))

theorem succeeds_percentText {v : Value} (h : IsQuantity v) : Succeeds (percentText v) := by
  have factor : (Value.whole 100).IsWithin 7 := isWithin_whole (by decide)
  refine (times_of_isWithin h factor (by decide)).succeeds_bind fun _ within => ?_
  exact succeeds_bind (roundHalfUp_of_isWithin within (by decide)) fun _ _ => succeeds_pure _

theorem succeeds_stopCss (hp : p.Typed IsQuantity) {s : GradientStop}
    (hs : s.Typed IsQuantity) : Succeeds (p.stopCss s) := by
  refine (yields_alphaOf hp hs.color).succeeds_bind fun alpha within => ?_
  refine succeeds_bind (succeeds_percentText hs.position) fun percent _ => ?_
  have written := Color.succeeds_css (c := s.color.withAlpha alpha) hs.color.r hs.color.g
    hs.color.b within (by decide)
  exact succeeds_bind written fun _ _ => succeeds_pure _

theorem succeeds_stopsCss (hp : p.Typed IsQuantity) : Succeeds p.stopsCss := by
  refine succeeds_bind (succeeds_mapM fun s hs => ?_) fun _ _ => succeeds_pure _
  cases hstops : p.stops with
  | none =>
      rw [hstops] at hs
      cases hs
  | some ss =>
      rw [hstops] at hs
      exact succeeds_stopCss hp (hp.stops ss hstops s hs)

theorem succeeds_radialCss (hp : p.Typed IsQuantity) : Succeeds p.radialCss := by
  unfold radialCss
  split
  · exact succeeds_ok _
  · exact succeeds_bind (succeeds_stopsCss hp) fun _ _ => succeeds_pure _

variable [Arctangent]

/-- The direction of a vector turns into degrees that can be rounded. -/
theorem succeeds_angleBetween (range : Arctangent.InRange) {start finish : Point}
    (hstart : start.Typed IsQuantity) (hfinish : finish.Typed IsQuantity) :
    Succeeds (angleBetween start finish) := by
  refine (minus_of_isWithin hfinish.y hstart.y (by decide)).succeeds_bind fun dy hdy => ?_
  refine (minus_of_isWithin hfinish.x hstart.x (by decide)).succeeds_bind fun dx hdx => ?_
  refine (Number.toDouble_of_within hdy (by decide)).succeeds_bind fun y hy => ?_
  refine (Number.toDouble_of_within hdx (by decide)).succeeds_bind fun x hx => ?_
  -- The angle in radians is small, so that neither the degrees nor the quarter turn overflow.
  have angle : Double.Below 3 (Arctangent.angle y x) :=
    Double.below_of_magnitude (n := 4) (by decide)
      (range y x (Double.isFinite_of_below hy (by decide))
        (Double.isFinite_of_below hx (by decide))).2
  have degrees : Double.Below 6 (180.0 / pi) := by
    unfold Double.Below
    decide
  have quarter : Double.Below 7 90.0 := by
    unfold Double.Below
    decide
  have turned := Double.below_add (Double.below_mul angle degrees (by decide)) quarter (by decide)
  exact Number.roundHalfUp_of_within (a := .double _) turned (by decide)

theorem succeeds_linearCss (range : Arctangent.InRange) (hp : p.Typed IsQuantity) :
    Succeeds p.linearCss := by
  unfold linearCss
  split
  · exact succeeds_ok _
  · rename_i enough
    refine succeeds_bind ?_ fun _ _ =>
      succeeds_bind (succeeds_stopsCss hp) fun _ _ => succeeds_pure _
    unfold linearAngle
    split
    · rename_i none
      simp [none] at enough
    · rename_i start finish rest handles
      exact succeeds_angleBetween range (hp.handles _ handles start (by simp))
        (hp.handles _ handles finish (by simp))
    · -- Fewer than two handles make no gradient in the first place.
      rename_i hs few handles
      match hs with
      | [] => simp [handles] at enough
      | [h] => simp [handles] at enough
      | start :: finish :: rest => exact absurd rfl (few start finish rest)

end Paint

/-! ## Effects -/

namespace Effect

variable {e : Effect}

theorem succeeds_shadowCss (he : e.Typed IsQuantity) : Succeeds e.shadowCss := by
  refine succeeds_bind ?_ fun _ _ => succeeds_pure _
  unfold colorCss
  split
  · rename_i c hcolor
    have typed := he.color c hcolor
    exact Color.succeeds_css typed.r typed.g typed.b typed.a (by decide)
  · exact succeeds_ok _

theorem yields_widerBlur (he : e.Typed IsQuantity) {blur : Value} (hblur : IsQuantity blur) :
    Yields (e.widerBlur blur) IsQuantity := by
  have radius : IsQuantity (e.radius.orElse (.whole 0)) :=
    orElse_of_maybe he.radius isQuantity_whole
  refine yields_bind (toNumber_of_isWithin hblur).yields fun b _ => ?_
  refine yields_bind (greater_of_isWithin radius b).yields fun wider _ => ?_
  cases wider with
  | true => exact yields_pure radius
  | false => exact yields_pure hblur

end Effect

namespace Shadows

/-- Taking effects into account one after the other succeeds, and the blur stays a number. -/
theorem yields_foldlM {effects : List Effect} (h : ∀ e ∈ effects, e.Typed IsQuantity)
    {s : Shadows} (hs : IsQuantity s.blur) :
    Yields (effects.foldlM add s) fun s => IsQuantity s.blur := by
  induction effects generalizing s with
  | nil => exact yields_pure hs
  | cons e rest ih =>
      have he := h e List.mem_cons_self
      have one : Yields (s.add e) fun s => IsQuantity s.blur := by
        unfold add
        split
        · exact ⟨s, rfl, hs⟩
        · split
          · exact yields_bind (Effect.succeeds_shadowCss he).yields fun _ _ => yields_pure hs
          · split
            · exact yields_bind (Effect.yields_widerBlur he hs) fun _ hblur => yields_pure hblur
            · exact ⟨s, rfl, hs⟩
      rw [List.foldlM_cons]
      exact yields_bind one fun s hs => ih (fun f hf => h f (List.mem_cons_of_mem e hf)) hs

theorem yields_ofEffects {effects : List Effect} (h : ∀ e ∈ effects, e.Typed IsQuantity) :
    Yields (ofEffects effects) fun s => IsQuantity s.blur :=
  yields_foldlM h isQuantity_whole

end Shadows

/-! ## Resolvers -/

open Writing (Runs runs_pure runs_lift runs_write runs_bind)

namespace Resolver

variable {p : Property}

theorem runs_set (v : String) : Runs (set p v) := runs_write _

theorem runs_setTo {value : Except Fault String} (h : Succeeds value) : Runs (setTo p value) :=
  runs_bind (runs_lift h) fun v _ => runs_set v

theorem runs_setIf (value : Option String) : Runs (setIf p value) := by
  cases value with
  | none => exact runs_pure ()
  | some v => exact runs_set v

theorem runs_only {condition : Bool} {r : Resolver} (h : condition = true → Runs r) :
    Runs (only condition r) := by
  cases condition with
  | false => exact runs_pure ()
  | true => exact h rfl

end Resolver

open Resolver

/-! ## Layers -/

namespace Layer

variable {l : Layer}

theorem runs_sizeStyle (hl : l.Typed IsQuantity) (o : Options) : Runs (l.sizeStyle o) := by
  have rounded {v : Value} (h : IsQuantity v) : Succeeds (roundedPixels v) :=
    succeeds_bind (roundHalfUp_of_isWithin h (by decide)) fun _ _ => succeeds_pure _
  unfold sizeStyle
  split
  · exact runs_pure ()
  · rename_i box hbox
    have typed := hl.box box hbox
    exact runs_only fun _ => runs_bind (runs_setTo (rounded typed.width)) fun _ _ =>
      runs_setTo (rounded typed.height)

theorem runs_opacityStyle (hl : l.Typed IsQuantity) : Runs l.opacityStyle := by
  rcases hl.opacity with null | number
  · -- Without an opacity there is nothing to compare and nothing to write.
    have : l.isTranslucent = .ok false := by rw [isTranslucent, null]; rfl
    refine runs_bind (runs_lift ⟨false, this⟩) fun translucent h => ?_
    obtain rfl := Except.ok.inj (this.symm.trans h)
    exact runs_pure ()
  · refine runs_bind (runs_lift ?_) fun _ _ =>
      runs_only fun _ => runs_setTo (twoPlaces_of_isWithin number (by decide))
    unfold isTranslucent
    split
    · exact succeeds_ok false
    · exact less_of_isWithin number _

theorem runs_cornerStyle : Runs l.cornerStyle := by
  have half : Runs (only (l.kind == .ellipse) (set .borderRadius "50%")) :=
    runs_only fun _ => runs_set _
  unfold cornerStyle
  split
  · exact runs_bind (runs_set _) fun _ _ => half
  · split
    · exact runs_bind (runs_only fun _ => runs_set _) fun _ _ => half
    · exact half

theorem runs_baseStyle (hl : l.Typed IsQuantity) (o : Options) : Runs (l.baseStyle o) :=
  runs_bind (runs_sizeStyle hl o) fun _ _ =>
    runs_bind (runs_opacityStyle hl) fun _ _ => runs_cornerStyle

theorem runs_imageStyle (fill : Paint) (className : Value) : Runs (l.imageStyle fill className) :=
  runs_only fun _ => runs_bind (runs_write _) fun _ _ =>
    runs_bind (runs_set _) fun _ _ => runs_bind (runs_set _) fun _ _ => runs_set _

theorem runs_fillStyle [Arctangent] (range : Arctangent.InRange) (hl : l.Typed IsQuantity)
    (className : Value) : Runs (l.fillStyle className) := by
  unfold fillStyle
  split
  · exact runs_pure ()
  · rename_i fill hfill
    have typed := hl.fills fill (List.mem_of_find?_eq_some hfill)
    split
    · exact runs_bind (runs_lift (Paint.succeeds_colorCss typed)) fun _ _ => runs_setIf _
    · split
      · exact runs_setTo (Paint.succeeds_linearCss range typed)
      · split
        · exact runs_setTo (Paint.succeeds_radialCss typed)
        · split
          · exact runs_imageStyle fill className
          · exact runs_pure ()

theorem runs_strokeStyle (hl : l.Typed IsQuantity) : Runs l.strokeStyle := by
  unfold strokeStyle
  split
  · exact runs_pure ()
  · rename_i stroke hstroke
    have typed := hl.strokes stroke (List.mem_of_find?_eq_some hstroke)
    exact runs_only fun _ =>
      runs_bind (runs_lift (Paint.succeeds_colorCss typed)) fun _ _ => runs_setIf _

theorem runs_effectStyle (hl : l.Typed IsQuantity) : Runs l.effectStyle := by
  obtain ⟨s, hs, blur⟩ := Shadows.yields_ofEffects hl.effects
  -- The blur is compared with zero, which takes a number.
  refine runs_bind (runs_lift ⟨s, hs⟩) fun t ht => ?_
  obtain rfl := Except.ok.inj (hs.symm.trans ht)
  exact runs_bind (runs_only fun _ => runs_set _) fun _ _ =>
    runs_bind (runs_lift (greater_of_isWithin blur _)) fun _ _ => runs_only fun _ => runs_set _

theorem runs_growStyle (hl : l.Typed IsQuantity) : Runs l.growStyle :=
  runs_only fun present =>
    runs_bind (runs_lift (greater_of_isWithin (of_maybe hl.layoutGrow present) _)) fun _ _ =>
      runs_only fun _ => runs_set _

theorem runs_layoutStyle (hl : l.Typed IsQuantity) (o : Options) : Runs (l.layoutStyle o) :=
  runs_only fun _ => runs_bind (runs_set _) fun _ _ => runs_bind (runs_set _) fun _ _ =>
  runs_bind (runs_only fun _ => runs_set _) fun _ _ => runs_bind (runs_setIf _) fun _ _ =>
  runs_bind (runs_lift (succeeds_lookupIn hl.primaryAlign _)) fun _ _ =>
  runs_bind (runs_setIf _) fun _ _ =>
  runs_bind (runs_lift (succeeds_lookupIn hl.counterAlign _)) fun _ _ =>
  runs_bind (runs_setIf _) fun _ _ =>
  runs_bind
    (runs_bind (runs_only fun _ => runs_set _) fun _ _ => runs_only fun _ => runs_set _) fun _ _ =>
  runs_growStyle hl

theorem runs_typography {s : TextStyle} (hs : s.Typed IsQuantity) : Runs (typography s) :=
  runs_bind (runs_only fun _ => runs_set _) fun _ _ =>
  runs_bind (runs_only fun _ => runs_set _) fun _ _ =>
  runs_bind (runs_only fun _ => runs_set _) fun _ _ =>
  runs_bind (runs_only fun _ => runs_set _) fun _ _ =>
  runs_bind (runs_only fun _ => runs_set _) fun _ _ =>
  runs_bind (runs_lift (succeeds_lookupIn hs.textAlign _)) fun _ _ =>
  runs_bind (runs_setIf _) fun _ _ =>
  runs_bind (runs_lift (succeeds_lookupIn hs.textCase _)) fun _ _ =>
  runs_bind (runs_setIf _) fun _ _ =>
  runs_bind (runs_lift (succeeds_lookupIn hs.textDecoration _)) fun _ _ => runs_setIf _

theorem runs_textStyling (hl : l.Typed IsQuantity) : Runs l.textStyling := by
  unfold textStyling
  split
  · exact runs_pure ()
  · rename_i s hs
    refine runs_bind (runs_typography (hl.textStyle s hs)) fun _ _ => ?_
    unfold glyphColor
    split
    · exact runs_pure ()
    · rename_i fill hfill
      have typed := hl.fills fill (List.mem_of_find?_eq_some hfill)
      exact runs_bind (runs_lift (Paint.succeeds_colorCss typed)) fun _ _ => runs_setIf _

/-- The style of a typed layer can be resolved. -/
theorem runs_style [Arctangent] (range : Arctangent.InRange) (hl : l.Typed IsQuantity)
    (o : Options) (className : String) : Runs (l.style o className) :=
  runs_bind (runs_baseStyle hl o) fun _ _ =>
  runs_bind (runs_fillStyle range hl _) fun _ _ =>
  runs_bind (runs_strokeStyle hl) fun _ _ =>
  runs_bind (runs_only fun _ => runs_effectStyle hl) fun _ _ =>
  runs_bind (runs_only fun _ => runs_layoutStyle hl o) fun _ _ =>
  runs_only fun _ => runs_textStyling hl

/-! ## The walk -/

theorem succeeds_className (hl : l.Typed IsQuantity) : Succeeds l.className :=
  succeeds_bind (succeeds_textOrEmpty hl.name) fun _ _ => succeeds_pure _

theorem succeeds_containerTag (hl : l.Typed IsQuantity) : Succeeds l.containerTag :=
  succeeds_bind (succeeds_textOrEmpty hl.name) fun _ _ => succeeds_pure _

theorem succeeds_tagForSize {size : Value} (h : IsQuantity size) (rows : List (Int × String)) :
    Succeeds (tagForSize size rows) := by
  induction rows with
  | nil => exact succeeds_ok paragraphTag
  | cons row rest ih =>
      refine succeeds_bind (atLeast_of_isWithin h _) fun enough _ => ?_
      cases enough with
      | true => exact succeeds_pure row.2
      | false => exact ih

theorem succeeds_textTag (hl : l.Typed IsQuantity) : Succeeds l.textTag := by
  refine succeeds_tagForSize ?_ headings
  unfold effectiveFontSize
  split
  · rename_i s hs
    exact orElse_of_maybe (hl.textStyle s hs).fontSize isQuantity_whole
  · exact isQuantity_whole

theorem succeeds_textElement (hl : l.Typed IsQuantity) (className : String) :
    Succeeds (l.textElement className) :=
  succeeds_bind (succeeds_textTag hl) fun _ _ =>
    succeeds_bind (succeeds_textOrEmpty hl.characters) fun _ _ => succeeds_pure _

theorem succeeds_drawingElement (hl : l.Typed IsQuantity) (className : String) :
    Succeeds (l.drawingElement className) :=
  succeeds_bind (succeeds_textOrEmpty hl.name) fun _ _ => succeeds_pure _

theorem runs_dress [Arctangent] (range : Arctangent.InRange) (hl : l.Typed IsQuantity)
    (o : Options) (className : String) : Runs (l.dress o className) := by
  obtain ⟨u, hu⟩ := runs_style range hl o className
  exact ⟨(), outcome_dress.mpr hu⟩

end Layer

namespace Node

section

variable [Arctangent]

mutual

/-- A typed design can be walked through. -/
theorem runs_draw (range : Arctangent.InRange) (o : Options) :
    ∀ n : Node, n.Typed IsQuantity → Runs (n.draw o)
  | node l cs, ⟨hl, hcs⟩ => by
      rw [draw]
      -- The class and the style are resolved before the kind of the node matters.
      refine runs_bind (runs_lift (Layer.succeeds_className hl)) fun className _ => ?_
      refine runs_bind (Layer.runs_dress range hl o className) fun _ _ => ?_
      cases l.kind.rendering (!cs.isEmpty) with
      | text => exact runs_lift (Layer.succeeds_textElement hl className)
      | shape => exact runs_pure _
      | drawing => exact runs_lift (Layer.succeeds_drawingElement hl className)
      | container =>
          refine runs_bind (runs_lift (Layer.succeeds_containerTag hl)) fun _ _ => ?_
          exact runs_bind (runs_drawAll range o cs hcs) fun _ _ => runs_pure _

theorem runs_drawAll (range : Arctangent.InRange) (o : Options) :
    ∀ ns : List Node, TypedAll IsQuantity ns → Runs (drawAll o ns)
  | [], _ => runs_pure []
  | n :: rest, ⟨hn, hrest⟩ => by
      rw [drawAll]
      refine runs_bind (runs_draw range o n hn) fun _ _ => ?_
      exact runs_bind (runs_drawAll range o rest hrest) fun _ _ => runs_pure _

end

end

end Node

theorem Options.succeeds_ofValue {v : Value} (h : v = .null ∨ ∃ ms, v = .object ms) :
    Succeeds (Options.ofValue v) := by
  unfold Options.ofValue
  split
  · rename_i present
    rcases h with rfl | ⟨ms, rfl⟩
    · cases present
    · exact succeeds_ok _
  · exact succeeds_ok _

/-- A well-formed design is converted without a fault, whatever it is asked for. -/
theorem convertValue_of_design [Arctangent] (range : Arctangent.InRange) {v options : Value}
    (h : Schema.design v = true) (hoptions : options = .null ∨ ∃ ms, options = .object ms) :
    ∃ o r, Options.ofValue options = .ok o ∧ convertValue v o = .ok r := by
  obtain ⟨o, ho⟩ := Options.succeeds_ofValue hoptions
  obtain ⟨n, hn, typed⟩ := Node.yields_ofValue v h
  obtain ⟨e, he⟩ := Node.runs_draw range o n typed
  have converted : Succeeds (n.convert o) := succeeds_bind ⟨e, he⟩ fun _ _ => succeeds_pure _
  obtain ⟨r, hr⟩ := converted
  exact ⟨o, r, ho, bind_eq_ok_iff.mpr ⟨n, hn, hr⟩⟩

@[reducible] def levelArctangent : Arctangent := ⟨fun _ _ => 0⟩

/-- A banner with a gradient from left to right, an unknown key, and children that lack this
and that. -/
def banner : Value :=
  .object
    [("name", .null), ("type", .text "FRAME"), ("opacity", .double 0.5),
     ("boundVariables", .list [.bool true]),
     ("fills", .list [.object
       [("type", .text "GRADIENT_LINEAR"), ("opacity", .null),
        ("gradientStops", .list [.object [("position", .whole 1)]]),
        ("gradientHandlePositions", .list
          [.object [("x", .whole 0), ("y", .double 0.5)],
           .object [("x", .whole 1), ("y", .double 0.5)]])]]),
     ("children", .list
       [.object [("type", .text "TEXT"), ("style", .object [("fontSize", .double 24.0)])],
        .object [("type", .null), ("children", .null), ("rectangleCornerRadii", .list [])]])]

set_option maxRecDepth 20000 in
theorem convertValue_banner :
    ∃ o r, Options.ofValue .null = .ok o ∧ @convertValue levelArctangent banner o = .ok r := by
  have range : @Arctangent.InRange levelArctangent := by
    rintro y x - -
    have finite : Double.isFinite 0 = true := by decide
    have small : Double.magnitude (Double.rank 0) ≤ 4 * Double.unitsPerOne := by decide
    exact ⟨finite, small⟩
  have formed : Schema.design banner = true := by decide
  exact @convertValue_of_design levelArctangent range banner .null formed (Or.inl rfl)

end DesignMarkup
