import DesignMarkup.Style.Layer
import DesignMarkup.Proofs.Computations

/-!
# What a layer can declare

Every declaration that the style of a layer can make is listed once, with the part of the
layer that its value is made of. A property of styles is then a property of this list, and
no proof behind this module looks into a resolver.
-/

namespace DesignMarkup

open Writing (All all_pure all_lift all_write all_bind)

/-! ## Entries of a style -/

namespace StyleEntry

def Declares (P : Property → String → Prop) : StyleEntry → Prop
  | declare p v => P p v
  | image _ => False

/-- What writes nothing but declarations writes no image use. -/
theorem images_of_declares {P : Property → String → Prop} {r : Writing StyleEntry Unit}
    (h : All (Declares P) r) : images r.written = [] := by
  rw [images, List.filterMap_eq_nil_iff]
  intro w hw
  cases w with
  | declare p v => rfl
  | image use => exact (h _ hw).elim

theorem images_append (s t : List StyleEntry) : images (s ++ t) = images s ++ images t :=
  List.filterMap_append

end StyleEntry

namespace Resolver

variable {P : StyleEntry → Prop} {p : Property}

theorem all_set {v : String} (h : P (.declare p v)) : All P (set p v) := all_write h

theorem all_setTo {value : Except Fault String} (h : ∀ v, value = .ok v → P (.declare p v)) :
    All P (setTo p value) :=
  all_bind (all_lift value) fun v hv => all_set (h v hv)

theorem all_setIf {value : Option String} (h : ∀ v, value = some v → P (.declare p v)) :
    All P (setIf p value) := by
  cases value with
  | none => exact all_pure ()
  | some v => exact all_set (h v rfl)

theorem all_only {condition : Bool} {r : Resolver} (h : condition = true → All P r) :
    All P (only condition r) := by
  cases condition with
  | false => exact all_pure ()
  | true => exact h rfl

end Resolver

open Resolver StyleEntry

variable [Arctangent]

namespace Layer

/-! ## The list -/

def HasLength (l : Layer) (v : Value) : Prop :=
  ∃ box, l.box = some box ∧ (v = box.width ∨ v = box.height)

inductive Declared (l : Layer) : Property → String → Prop
  /-- The size of the layer's box. -/
  | size {p : Property} {length : Value} {v : String} : p = .width ∨ p = .height →
      l.HasLength length → roundedPixels length = .ok v → Declared l p v
  /-- A size that follows the content. -/
  | contentSize {p : Property} : p = .width ∨ p = .height → Declared l p "auto"
  | opacity {v : String} : l.opacity.twoPlaces = .ok v → Declared l .opacity v
  | cornerRadius : Declared l .borderRadius l.cornerRadius.pixels
  | cornerRadii {radii : List Value} : l.cornerRadii = some radii →
      Declared l .borderRadius (" ".intercalate (radii.map Value.pixels))
  | ellipse : Declared l .borderRadius "50%"
  | fillColor {fill : Paint} {v : String} : fill ∈ l.fills → fill.colorCss = .ok (some v) →
      Declared l .backgroundColor v
  | gradient {fill : Paint} {v : String} : fill ∈ l.fills →
      fill.linearCss = .ok v ∨ fill.radialCss = .ok v → Declared l .background v
  | imageSize {v : String} : v ∈ ["contain", "cover"] → Declared l .backgroundSize v
  | imagePosition : Declared l .backgroundPosition "center"
  | imageRepeat : Declared l .backgroundRepeat "no-repeat"
  | border {stroke : Paint} {v : String} : stroke ∈ l.strokes → stroke.colorCss = .ok (some v) →
      Declared l .border ("1px solid " ++ v)
  | shadows {s : Shadows} : Shadows.ofEffects l.effects = .ok s →
      Declared l .boxShadow (", ".intercalate s.terms)
  | blur {s : Shadows} : Shadows.ofEffects l.effects = .ok s →
      Declared l .filter ("blur(" ++ s.blur.pixels ++ ")")
  | display : Declared l .display "flex"
  | direction {v : String} : v ∈ ["row", "column"] → Declared l .flexDirection v
  | gap : Declared l .gap l.itemSpacing.pixels
  | padding {v : String} : l.paddingShorthand = some v → Declared l .padding v
  | mainAlignment {v : String} : l.primaryAlign.lookupIn mainAlignments = .ok (some v) →
      Declared l .justifyContent v
  | crossAlignment {v : String} : l.counterAlign.lookupIn crossAlignments = .ok (some v) →
      Declared l .alignItems v
  | grow : Declared l .flexGrow l.layoutGrow.written
  | fontFamily {s : TextStyle} : l.textStyle = some s → s.fontFamily.isPresent = true →
      Declared l .fontFamily (fontFamilyText s.fontFamily)
  | fontSize {s : TextStyle} : l.textStyle = some s → Declared l .fontSize s.fontSize.pixels
  | fontWeight {s : TextStyle} : l.textStyle = some s → Declared l .fontWeight s.fontWeight.written
  | letterSpacing {s : TextStyle} : l.textStyle = some s →
      Declared l .letterSpacing s.letterSpacing.pixels
  | lineHeight {s : TextStyle} : l.textStyle = some s → Declared l .lineHeight s.lineHeight.pixels
  | textAlign {s : TextStyle} {v : String} : l.textStyle = some s →
      s.textAlign.lookupIn textAlignments = .ok (some v) → Declared l .textAlign v
  | textCase {s : TextStyle} {v : String} : l.textStyle = some s →
      s.textCase.lookupIn textCases = .ok (some v) → Declared l .textTransform v
  | textDecoration {s : TextStyle} {v : String} : l.textStyle = some s →
      s.textDecoration.lookupIn textDecorations = .ok (some v) → Declared l .textDecoration v
  | glyphColor {fill : Paint} {v : String} : fill ∈ l.fills → fill.colorCss = .ok (some v) →
      Declared l .color v

/-! ## The resolvers -/

section

variable (l : Layer) (o : Options)

theorem declared_sizeStyle : All (Declares l.Declared) (l.sizeStyle o) := by
  unfold sizeStyle
  split
  · exact all_pure ()
  · rename_i box hbox
    refine all_only fun _ => all_bind (all_setTo fun v hv => ?_) fun _ _ => all_setTo fun v hv => ?_
    · exact .size (Or.inl rfl) ⟨box, hbox, Or.inl rfl⟩ hv
    · exact .size (Or.inr rfl) ⟨box, hbox, Or.inr rfl⟩ hv

theorem declared_opacityStyle : All (Declares l.Declared) l.opacityStyle :=
  all_bind (all_lift _) fun _ _ => all_only fun _ => all_setTo fun _ hv => .opacity hv

theorem declared_cornerStyle : All (Declares l.Declared) l.cornerStyle := by
  have half : All (Declares l.Declared) (only (l.kind == .ellipse) (set .borderRadius "50%")) :=
    all_only fun _ => all_set .ellipse
  unfold cornerStyle
  split
  · exact all_bind (all_set .cornerRadius) fun _ _ => half
  · split
    · rename_i radii hradii
      exact all_bind (all_only fun _ => all_set (.cornerRadii hradii)) fun _ _ => half
    · exact half

theorem declared_baseStyle : All (Declares l.Declared) (l.baseStyle o) :=
  all_bind (l.declared_sizeStyle o) fun _ _ =>
    all_bind l.declared_opacityStyle fun _ _ => l.declared_cornerStyle

theorem declared_strokeStyle : All (Declares l.Declared) l.strokeStyle := by
  unfold strokeStyle
  split
  · exact all_pure ()
  · rename_i stroke hstroke
    have hmem : stroke ∈ l.strokes := List.mem_of_find?_eq_some hstroke
    refine all_only fun _ => all_bind (all_lift _) fun color hcolor => all_setIf fun v hv => ?_
    obtain ⟨c, rfl, rfl⟩ := Option.map_eq_some_iff.mp hv
    exact .border hmem hcolor

theorem declared_effectStyle : All (Declares l.Declared) l.effectStyle :=
  all_bind (all_lift _) fun _ hs => all_bind (all_only fun _ => all_set (.shadows hs)) fun _ _ =>
    all_bind (all_lift _) fun _ _ => all_only fun _ => all_set (.blur hs)

theorem declared_sizingStyle : All (Declares l.Declared) l.sizingStyle := by
  refine all_bind (all_only fun _ => all_set (.contentSize ?_)) fun _ _ =>
    all_only fun _ => all_set (.contentSize ?_)
  · cases l.isHorizontal
    · exact Or.inr rfl
    · exact Or.inl rfl
  · cases l.isHorizontal
    · exact Or.inl rfl
    · exact Or.inr rfl

theorem declared_growStyle : All (Declares l.Declared) l.growStyle :=
  all_only fun _ => all_bind (all_lift _) fun _ _ => all_only fun _ => all_set .grow

-- The steps come in the order of the resolver, so that each condition is at hand where it is met.
theorem declared_layoutStyle : All (Declares l.Declared) (l.layoutStyle o) := by
  refine all_only fun _ => all_bind (all_set .display) fun _ _ =>
    all_bind (all_set (.direction ?_)) fun _ _ =>
    all_bind (all_only fun _ => all_set .gap) fun _ _ =>
    all_bind (all_setIf fun _ hv => .padding hv) fun _ _ =>
    all_bind (all_lift _) fun _ hmain =>
    all_bind (all_setIf fun _ hv => .mainAlignment (hv ▸ hmain)) fun _ _ =>
    all_bind (all_lift _) fun _ hcross =>
    all_bind (all_setIf fun _ hv => .crossAlignment (hv ▸ hcross)) fun _ _ =>
    all_bind l.declared_sizingStyle fun _ _ => l.declared_growStyle
  cases l.isHorizontal <;> decide

theorem declared_typography {s : TextStyle} (h : l.textStyle = some s) :
    All (Declares l.Declared) (typography s) :=
  all_bind (all_only fun present => all_set (.fontFamily h present)) fun _ _ =>
  all_bind (all_only fun _ => all_set (.fontSize h)) fun _ _ =>
  all_bind (all_only fun _ => all_set (.fontWeight h)) fun _ _ =>
  all_bind (all_only fun _ => all_set (.letterSpacing h)) fun _ _ =>
  all_bind (all_only fun _ => all_set (.lineHeight h)) fun _ _ =>
  all_bind (all_lift _) fun _ halign =>
  all_bind (all_setIf fun _ hv => .textAlign h (hv ▸ halign)) fun _ _ =>
  all_bind (all_lift _) fun _ hcase =>
  all_bind (all_setIf fun _ hv => .textCase h (hv ▸ hcase)) fun _ _ =>
  all_bind (all_lift _) fun _ hdecoration =>
  all_setIf fun _ hv => .textDecoration h (hv ▸ hdecoration)

theorem declared_glyphColor : All (Declares l.Declared) l.glyphColor := by
  unfold glyphColor
  split
  · exact all_pure ()
  · rename_i fill hfill
    have hmem : fill ∈ l.fills := List.mem_of_find?_eq_some hfill
    exact all_bind (all_lift _) fun _ hcolor => all_setIf fun _ hv => .glyphColor hmem (hv ▸ hcolor)

theorem declared_textStyling : All (Declares l.Declared) l.textStyling := by
  unfold textStyling
  split
  · exact all_pure ()
  · rename_i s hs
    exact all_bind (l.declared_typography hs) fun _ _ => l.declared_glyphColor

/-- What is resolved behind the fill declares and uses no image. -/
theorem declared_behindFill : All (Declares l.Declared) (do
    l.strokeStyle
    only o.convertEffects l.effectStyle
    only o.preserveAutoLayout (l.layoutStyle o)
    only (l.kind == .text) l.textStyling) :=
  all_bind l.declared_strokeStyle fun _ _ =>
  all_bind (all_only fun _ => l.declared_effectStyle) fun _ _ =>
  all_bind (all_only fun _ => l.declared_layoutStyle o) fun _ _ =>
  all_only fun _ => l.declared_textStyling

end

/-! ## The whole style -/

/-- What the style of a layer writes: what the layer can declare, and the use of an image
that is there. -/
def Written (l : Layer) (className : Value) : StyleEntry → Prop
  | .declare p v => l.Declared p v
  | .image use => use.nodeId = l.id ∧ use.imageRef.isPresent = true ∧ use.className = className

theorem written_of_declares {l : Layer} {className : Value} {w : StyleEntry}
    (h : Declares l.Declared w) : l.Written className w := by
  cases w with
  | declare p v => exact h
  | image use => exact h.elim

theorem written_fillStyle (l : Layer) (className : Value) :
    All (l.Written className) (l.fillStyle className) := by
  unfold fillStyle
  split
  · exact all_pure ()
  · rename_i fill hfill
    have hmem : fill ∈ l.fills := List.mem_of_find?_eq_some hfill
    split
    · exact all_bind (all_lift _) fun _ hcolor =>
        all_setIf fun _ hv => .fillColor hmem (hv ▸ hcolor)
    · split
      · exact all_setTo fun _ hv => .gradient hmem (Or.inl hv)
      · split
        · exact all_setTo fun _ hv => .gradient hmem (Or.inr hv)
        · split
          · refine all_only fun present => all_bind (all_write ⟨rfl, present, rfl⟩) fun _ _ =>
              all_bind (all_set (.imageSize ?_)) fun _ _ =>
              all_bind (all_set .imagePosition) fun _ _ => all_set .imageRepeat
            split <;> decide
          · exact all_pure ()

/-- Everything that a style writes is a declaration of the list or an image use. -/
theorem written_style (l : Layer) (o : Options) (className : String) :
    All (l.Written (.text className)) (l.style o className) := by
  have declares {r : Resolver} (h : All (Declares l.Declared) r) :
      All (l.Written (.text className)) r := h.mono fun _ => written_of_declares
  exact all_bind (declares (l.declared_baseStyle o)) fun _ _ =>
    all_bind (l.written_fillStyle _) fun _ _ =>
    all_bind (declares l.declared_strokeStyle) fun _ _ =>
    all_bind (declares (all_only fun _ => l.declared_effectStyle)) fun _ _ =>
    all_bind (declares (all_only fun _ => l.declared_layoutStyle o)) fun _ _ =>
    declares (all_only fun _ => l.declared_textStyling)

end Layer

end DesignMarkup
