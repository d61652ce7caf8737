import Mathlib.Data.List.Basic
import DesignMarkup.Proofs.Aspects
import DesignMarkup.Proofs.PrintedPage
import DesignMarkup.Proofs.Harvested

/-!
# What an option reaches

Every option has a reach, the properties that it may change, and a conversion under other
options is compared with the first one entry by entry: what two styles of a layer write outside
the reach of the options that differ is the same, in the same order. The use of an image lies
outside every reach, and markup is made of no style at all.
-/

namespace DesignMarkup

open Writing (All all_pure all_bind)

/-! ## Reach -/

namespace Options

/-- The properties of the flex layout, and the size that it may take over from the box. -/
def layoutReach : List Property :=
  [.width, .height, .display, .flexDirection, .gap, .padding, .justifyContent, .alignItems,
    .flexGrow]

def effectReach : List Property := [.boxShadow, .filter]

/-- The properties that an option may change. -/
def Field.reach : Field → List Property
  | .preserveAutoLayout | .useFlexbox => layoutReach
  | .convertEffects => effectReach
  | .importVariants | .generateTailwind => []

/-- The properties that are kept lie outside the reach of every option that differs. -/
def Spares (kept : Property → Bool) (o o' : Options) : Prop :=
  ∀ f : Field, o.get f ≠ o'.get f → ∀ p ∈ f.reach, kept p = false

variable {o o' : Options} {kept : Property → Bool}

theorem get_set_of_ne (o : Options) (b : Bool) {f g : Field} (h : g ≠ f) :
    (o.set b f).get g = o.get g := by
  cases f <;> cases g <;> first | rfl | exact absurd rfl h

theorem spares_set (o : Options) (b : Bool) (f : Field) :
    Spares (fun p => decide (p ∉ f.reach)) o (o.set b f) := by
  intro g differ p hp
  -- The options differ in no other field.
  obtain rfl : g = f := Decidable.byContradiction fun h => differ (o.get_set_of_ne b h).symm
  exact decide_eq_false (not_not_intro hp)

theorem spares_none (o o' : Options) : Spares (fun _ => false) o o' := fun _ _ _ _ => rfl

theorem Spares.same_or (h : Spares kept o o') (f : Field) :
    o.get f = o'.get f ∨ ∀ p ∈ f.reach, kept p = false := by
  by_cases same : o.get f = o'.get f
  · exact Or.inl same
  · exact Or.inr (h f same)

end Options

open Options (Spares layoutReach effectReach)

/-! ## Entries outside a reach -/

namespace StyleEntry

def isKept (kept : Property → Bool) : StyleEntry → Bool
  | declare p _ => kept p
  | image _ => true

abbrev Among (ps : List Property) : StyleEntry → Prop := Declares fun p _ => p ∈ ps

variable {kept : Property → Bool}

theorem filter_isKept_of_among {ps : List Property} (lost : ∀ p ∈ ps, kept p = false)
    {r : Resolver} (h : All (Among ps) r) : r.written.filter (isKept kept) = [] := by
  rw [List.filter_eq_nil_iff]
  intro w hw
  have among := h w hw
  cases w with
  | declare p v => exact ne_true_of_eq_false (lost p among)
  | image use => exact among.elim

theorem images_filter_isKept (kept : Property → Bool) (entries : List StyleEntry) :
    images (entries.filter (isKept kept)) = images entries := by
  rw [images, images, List.filterMap_filter]
  apply List.filterMap_congr
  intro w _
  cases w with
  | declare p v => cases h : kept p <;> simp [isKept, image?, h]
  | image use => rfl

/-- The declarations of kept properties are those that the kept entries make. -/
theorem filter_declarations (kept : Property → Bool) (entries : List StyleEntry) :
    (declarations entries []).filter (fun d => kept d.1)
      = declarations (entries.filter (isKept kept)) [] := by
  have kept_entries : (entries.filterMap declaration?).filter (fun d => kept d.1)
      = (entries.filter (isKept kept)).filterMap declaration? := by
    rw [List.filter_filterMap, List.filterMap_filter]
    apply List.filterMap_congr
    intro w _
    cases w with
    | declare p v => cases h : kept p <;> simp [isKept, declaration?, h]
    | image use => rfl
  show (Ordered.ofEntries _).filter _ = Ordered.ofEntries _
  rw [Ordered.filter_ofEntries, kept_entries]

end StyleEntry

namespace Property

variable {flows : Bool} {p : Property}

theorem mem_effectReach : p ∈ effectReach ↔ p.aspect flows = .effects := by
  cases flows <;> cases p <;> decide

theorem mem_layoutReach (h : p.aspect flows = .layout) : p ∈ layoutReach := by
  cases flows <;> cases p <;> first | decide | cases h

end Property

open Resolver StyleEntry

namespace Layer

/-! ## Aspects under other options -/

section

variable (l : Layer) (o : Options)

theorem among_sizeStyle : All (Among layoutReach) (l.sizeStyle o) := by
  have width_mem : Property.width ∈ layoutReach := by decide
  have height_mem : Property.height ∈ layoutReach := by decide
  unfold sizeStyle
  split
  · exact all_pure ()
  · exact all_only fun _ =>
      all_bind (all_setTo fun _ _ => width_mem) fun _ _ => all_setTo fun _ _ => height_mem

theorem among_effectStyle : All (Among effectReach) l.effectStyle := by
  intro w hw
  have effects := l.within_effectStyle false w hw
  have declares := l.declared_effectStyle w hw
  cases w with
  | declare p v => exact Property.mem_effectReach.mpr effects
  | image use => exact declares.elim

theorem among_layoutStyle (preserved : o.preserveAutoLayout = true) :
    All (Among layoutReach) (l.layoutStyle o) := by
  intro w hw
  have layout := l.within_layoutStyle o preserved w hw
  have declares := l.declared_layoutStyle o w hw
  cases w with
  | declare p v => exact Property.mem_layoutReach layout
  | image use => exact declares.elim

theorem layoutStyle_of_still (still : l.hasAutoLayout = false) : l.layoutStyle o = pure () := by
  rw [layoutStyle, still]
  rfl

end

section

variable {l : Layer} {o o' : Options} {kept : Property → Bool}

theorem filter_baseStyle (spares : Spares kept o o') (h : (l.baseStyle o).outcome = .ok ())
    (h' : (l.baseStyle o').outcome = .ok ()) :
    (l.baseStyle o).written.filter (isKept kept)
      = (l.baseStyle o').written.filter (isKept kept) := by
  rcases spares.same_or .preserveAutoLayout with same | lost
  · have size : l.sizeStyle o = l.sizeStyle o' := by
      rw [sizeStyle, sizeStyle, show o.preserveAutoLayout = o'.preserveAutoLayout from same]
    rw [baseStyle, baseStyle, size]
  · -- Behind a size, opacity and corners are the same under all options.
    have behind {o : Options} (h : (l.baseStyle o).outcome = .ok ()) :
        (l.baseStyle o).written.filter (isKept kept)
          = (l.opacityStyle >>= fun _ => l.cornerStyle).written.filter (isKept kept) := by
      rw [baseStyle] at h ⊢
      obtain ⟨_, sized, -⟩ := Writing.outcome_bind_eq_ok_iff.mp h
      rw [Writing.bind_of_ok sized, List.filter_append,
        filter_isKept_of_among lost (l.among_sizeStyle o), List.nil_append]
    rw [behind h, behind h']

theorem filter_effectStyle (spares : Spares kept o o') :
    (only o.convertEffects l.effectStyle).written.filter (isKept kept)
      = (only o'.convertEffects l.effectStyle).written.filter (isKept kept) := by
  rcases spares.same_or .convertEffects with same | lost
  · rw [show o.convertEffects = o'.convertEffects from same]
  · have none_kept (converted : Bool) :
        (only converted l.effectStyle).written.filter (isKept kept) = [] :=
      filter_isKept_of_among lost (all_only fun _ => l.among_effectStyle)
    rw [none_kept, none_kept]

theorem filter_layoutStyle (spares : Spares kept o o') :
    (only o.preserveAutoLayout (l.layoutStyle o)).written.filter (isKept kept)
      = (only o'.preserveAutoLayout (l.layoutStyle o')).written.filter (isKept kept) := by
  have none_kept (lost : ∀ p ∈ layoutReach, kept p = false) (o : Options) :
      (only o.preserveAutoLayout (l.layoutStyle o)).written.filter (isKept kept) = [] :=
    filter_isKept_of_among lost (all_only fun preserved => l.among_layoutStyle o preserved)
  -- Two options switch the layout, and either of them reaches all of it.
  rcases spares.same_or .preserveAutoLayout with same | lost
  · rcases spares.same_or .useFlexbox with flexed | lost
    · rw [layoutStyle, layoutStyle, show o.useFlexbox = o'.useFlexbox from flexed,
        show o.preserveAutoLayout = o'.preserveAutoLayout from same]
    · rw [none_kept lost, none_kept lost]
  · rw [none_kept lost, none_kept lost]

end

section

variable [Arctangent] {l : Layer} {o o' : Options} {className : String} {kept : Property → Bool}

/-- An aspect as it stands in the style, which leaves it out where it is not active. -/
def aspectStyle (l : Layer) (o : Options) (className : String) (a : Aspect) : Resolver :=
  only (a.isActive l o) (a.resolver l o className)

theorem outcome_aspectStyle (h : (l.style o className).outcome = .ok ()) (a : Aspect) :
    (l.aspectStyle o className a).outcome = .ok () := by
  rw [style_eq_inTurn, outcome_inTurn] at h
  exact h _ (List.mem_map.mpr ⟨a, by cases a <;> decide, rfl⟩)

theorem written_style_eq_aspects (h : (l.style o className).outcome = .ok ()) :
    (l.style o className).written
      = Aspect.all.flatMap fun a => (l.aspectStyle o className a).written := by
  rw [style_eq_inTurn] at h ⊢
  rw [written_inTurn h, List.flatMap_map]
  rfl

/-- What two styles of a layer write outside the reach of the options that differ is the
same, in the same order. -/
theorem filter_written_style (spares : Spares kept o o')
    (h : (l.style o className).outcome = .ok ()) (h' : (l.style o' className).outcome = .ok ()) :
    (l.style o className).written.filter (isKept kept)
      = (l.style o' className).written.filter (isKept kept) := by
  rw [written_style_eq_aspects h, written_style_eq_aspects h', List.filter_flatMap,
    List.filter_flatMap]
  congr 1
  funext a
  cases a with
  | base =>
      have based := outcome_aspectStyle h .base
      have based' := outcome_aspectStyle h' .base
      exact filter_baseStyle spares based based'
  | fill => rfl
  | stroke => rfl
  | effects => exact filter_effectStyle spares
  | layout => exact filter_layoutStyle spares
  | text => rfl

theorem images_style_eq (h : (l.style o className).outcome = .ok ())
    (h' : (l.style o' className).outcome = .ok ()) :
    images (l.style o className).written = images (l.style o' className).written := by
  rw [← images_filter_isKept (fun _ => false), filter_written_style
    (Options.spares_none o o') h h', images_filter_isKept]

theorem filter_declarations_style (spares : Spares kept o o')
    (h : (l.style o className).outcome = .ok ()) (h' : (l.style o' className).outcome = .ok ()) :
    (declarations (l.style o className).written []).filter (fun d => kept d.1)
      = (declarations (l.style o' className).written []).filter (fun d => kept d.1) := by
  rw [filter_declarations, filter_declarations, filter_written_style spares h h']

/-! ## Without effects, and without auto layout -/

theorem within_aspectStyle (l : Layer) (o : Options) (className : String) (a : Aspect) :
    All (Within (l.flows o) a) (l.aspectStyle o className a) :=
  all_only fun active => l.within_resolver o className active

theorem filter_aspectStyle_of_ne {a : Aspect} (other : a ≠ .effects) :
    (l.aspectStyle o className a).written.filter (isKept fun p => decide (p ∉ effectReach))
      = (l.aspectStyle o className a).written := by
  rw [List.filter_eq_self]
  intro w hw
  have within := l.within_aspectStyle o className a w hw
  cases w with
  | image use => rfl
  | declare p v =>
      apply decide_eq_true
      intro reached
      exact other (within.symm.trans (Property.mem_effectReach.mp reached))

/-- Without effects the style is the one with effects, less what they declare. -/
theorem style_without_effects
    (h : (l.style (o.set true .convertEffects) className).outcome = .ok ()) :
    (l.style (o.set false .convertEffects) className).outcome = .ok () ∧
      declarations (l.style (o.set false .convertEffects) className).written []
        = (declarations (l.style (o.set true .convertEffects) className).written []).filter
            fun d => decide (d.1 ∉ effectReach) := by
  have without : (l.style (o.set false .convertEffects) className).outcome = .ok () := by
    rw [style_eq_inTurn, outcome_inTurn]
    intro r hr
    obtain ⟨a, -, rfl⟩ := List.mem_map.mp hr
    have resolved := outcome_aspectStyle h a
    cases a with
    | effects => rfl
    | _ => exact resolved
  refine ⟨without, ?_⟩
  rw [filter_declarations fun p => decide (p ∉ effectReach),
    written_style_eq_aspects without, written_style_eq_aspects h, List.filter_flatMap]
  congr 2
  funext a
  by_cases effects : a = .effects
  · subst effects
    exact (filter_isKept_of_among (fun p hp => decide_eq_false (not_not_intro hp))
      l.among_effectStyle).symm
  · have same : l.aspectStyle (o.set false .convertEffects) className a
        = l.aspectStyle (o.set true .convertEffects) className a := by
      cases a <;> first | rfl | exact absurd rfl effects
    rw [same, filter_aspectStyle_of_ne effects]

/-- A layer that does not lay out its children has the same style, or fails the same way,
whatever is to become of layouts. -/
theorem style_set_of_still (still : l.hasAutoLayout = false) (o : Options) (b : Bool)
    (className : String) {f : Options.Field} (hf : f ∈ [.preserveAutoLayout, .useFlexbox]) :
    l.style (o.set b f) className = l.style o className := by
  have size (o : Options) : l.sizeStyle o = l.sizeStyle .standard := by
    rw [sizeStyle, sizeStyle, still, Bool.not_false, Bool.or_true, Bool.or_true]
  have layout (o : Options) : only o.preserveAutoLayout (l.layoutStyle o) = pure () := by
    rw [l.layoutStyle_of_still o still]
    cases o.preserveAutoLayout <;> rfl
  have effects : (o.set b f).convertEffects = o.convertEffects := by
    rcases List.mem_cons.mp hf with rfl | hf
    · rfl
    · obtain rfl := List.mem_singleton.mp hf
      rfl
  rw [style, style, baseStyle, baseStyle, size, size o, layout, layout o, effects]

end

end Layer

namespace Node

variable [Arctangent]

mutual

/-- Behind a walk that succeeds the style of every visited node is resolved. -/
theorem resolved_of_draw (o : Options) : ∀ (n : Node) {e : Element},
    (n.draw o).outcome = .ok e →
      ∀ m ∈ n.visited, (m.layer.style o m.layer.classOf).outcome = .ok ()
  | node l cs, e, h, m, hm => by
      rw [draw, Writing.outcome_bind_eq_ok_iff] at h
      obtain ⟨c, hc, h⟩ := h
      obtain rfl := Layer.className_eq_ok hc
      obtain ⟨_, hdress, h⟩ := Writing.outcome_bind_eq_ok_iff.mp h
      rw [visited_node, List.mem_cons] at hm
      rcases hm with rfl | hm
      · exact Layer.outcome_dress.mp hdress
      · -- Only a container has visited anything below it.
        split at hm
        · rename_i container
          rw [container] at h
          obtain ⟨tag, -, h⟩ := Writing.outcome_bind_eq_ok_iff.mp h
          obtain ⟨es, hes, -⟩ := Writing.outcome_bind_eq_ok_iff.mp h
          exact resolved_of_drawAll o cs hes m hm
        · cases hm

theorem resolved_of_drawAll (o : Options) : ∀ (ns : List Node) {es : List Element},
    (drawAll o ns).outcome = .ok es →
      ∀ m ∈ visitedAll ns, (m.layer.style o m.layer.classOf).outcome = .ok ()
  | [], _, _, m, hm => by cases hm
  | n :: rest, es, h, m, hm => by
      rw [drawAll, Writing.outcome_bind_eq_ok_iff] at h
      obtain ⟨e, he, h⟩ := h
      obtain ⟨es', hes, -⟩ := Writing.outcome_bind_eq_ok_iff.mp h
      rw [visitedAll, List.mem_append] at hm
      rcases hm with hm | hm
      · exact resolved_of_draw o n he m hm
      · exact resolved_of_drawAll o rest hes m hm

end

theorem resolved_of_convert {n : Node} {o : Options} {r : Converted} (h : n.convert o = .ok r) :
    ∀ m ∈ n.visited, (m.layer.style o m.layer.classOf).outcome = .ok () := by
  obtain ⟨e, drawn, -⟩ := bind_eq_ok_iff.mp h
  exact resolved_of_draw o n drawn

/-- Markup and images are the same under all options. -/
theorem convert_under_options {n : Node} {o o' : Options} {r r' : Converted}
    (h : n.convert o = .ok r) (h' : n.convert o' = .ok r') :
    r.html = r'.html ∧ r.images = r'.images := by
  obtain ⟨html, -, images⟩ := convert_of_ok h
  obtain ⟨html', -, images'⟩ := convert_of_ok h'
  refine ⟨html.trans html'.symm, ?_⟩
  rw [images, images', Harvest.addAll_ownEntries, Harvest.addAll_ownEntries,
    Harvest.images_foldl_visit, Harvest.images_foldl_visit]
  congr 1
  apply List.flatMap_congr
  intro m hm
  exact Layer.images_style_eq (resolved_of_convert h m hm) (resolved_of_convert h' m hm)

end Node

/-! ## The reach of every option -/

/-- Two conversions of a design that succeed have the same markup and the same images, whatever
their options. And two styles of a layer under options that differ in one field use the same image
and agree, values and order, on everything outside the reach of that field. Effects are added to a
style and change nothing else in it; on a layer without auto layout the options for layouts change
nothing, nor do the options for variants and utility classes on any layer. -/
theorem options_change_only_their_reach [Arctangent] :
    (∀ (n : Node) (o o' : Options) (r r' : Converted),
      n.convert o = .ok r → n.convert o' = .ok r' → r.html = r'.html ∧ r.images = r'.images) ∧
    ∀ (l : Layer) (o : Options) (className : String),
      (∀ (f : Options.Field) (b : Bool), (l.style o className).outcome = .ok () →
        (l.style (o.set b f) className).outcome = .ok () →
        images (l.style o className).written = images (l.style (o.set b f) className).written ∧
        (declarations (l.style o className).written []).filter (fun d => decide (d.1 ∉ f.reach))
          = (declarations (l.style (o.set b f) className).written []).filter
              fun d => decide (d.1 ∉ f.reach)) ∧
      ((l.style (o.set true .convertEffects) className).outcome = .ok () →
        (l.style (o.set false .convertEffects) className).outcome = .ok () ∧
        declarations (l.style (o.set false .convertEffects) className).written []
          = (declarations (l.style (o.set true .convertEffects) className).written []).filter
              fun d => decide (d.1 ∉ [Property.boxShadow, Property.filter])) ∧
      (l.hasAutoLayout = false → ∀ f ∈ [Options.Field.preserveAutoLayout, .useFlexbox],
        ∀ b, l.style (o.set b f) className = l.style o className) ∧
      ∀ f ∈ [Options.Field.importVariants, .generateTailwind],
        ∀ b, l.style (o.set b f) className = l.style o className := by
  refine ⟨fun n o o' r r' h h' => Node.convert_under_options h h', fun l o className =>
    ⟨?_, Layer.style_without_effects, ?_, ?_⟩⟩
  · intro f b h h'
    exact ⟨Layer.images_style_eq h h', Layer.filter_declarations_style (o.spares_set b f) h h'⟩
  · intro still f hf b
    exact Layer.style_set_of_still still o b className hf
  · intro f hf b
    rcases List.mem_cons.mp hf with rfl | hf
    · rfl
    · obtain rfl := List.mem_singleton.mp hf
      rfl

/-- A column with a box of its own, which gives way to its content, an image and a blur. -/
def blurredColumn : Layer :=
  { (default : Layer) with
    id := .text "1:1", name := .text "Board", kind := .frame, cornerRadius := .whole 4
    box := some { x := .whole 0, y := .whole 0, width := .whole 80, height := .whole 20 }
    fills := [{ (default : Paint) with
      kind := .text "IMAGE", visible := .bool true, imageRef := .text "r" }]
    effects := [{ (default : Effect) with
      kind := .text "LAYER_BLUR", visible := .bool true, radius := .whole 3 }]
    layoutMode := .text "VERTICAL", primarySizing := .text "AUTO", itemSpacing := .whole 8 }

/-- The column, and below it a box without layout. -/
def blurredBoard : Node :=
  .node blurredColumn
    [.node { (default : Layer) with
      name := .text "Card", kind := .rectangle
      box := some { x := .whole 0, y := .whole 0, width := .whole 8, height := .whole 2 } } []]

def plainCard : Layer := { (default : Layer) with layoutMode := .text "NONE" }

set_option maxRecDepth 20000 in
theorem options_change_only_their_reach_blurredBoard :
    (∃ r r', blurredBoard.convert .standard = .ok r ∧
      blurredBoard.convert (Options.standard.set false .preserveAutoLayout) = .ok r' ∧
      r.html = r'.html ∧ r.images = r'.images) ∧
    (declarations (blurredColumn.style
        (Options.standard.set false .preserveAutoLayout) "board").written []).filter
          (fun d => decide (d.1 ∉ Options.layoutReach))
      = [(.borderRadius, "4px"), (.backgroundSize, "cover"), (.backgroundPosition, "center"),
        (.backgroundRepeat, "no-repeat"), (.filter, "blur(3px)")] ∧
    declarations (blurredColumn.style
        (Options.standard.set false .convertEffects) "board").written []
      = [(.borderRadius, "4px"), (.backgroundSize, "cover"), (.backgroundPosition, "center"),
        (.backgroundRepeat, "no-repeat"), (.display, "flex"), (.flexDirection, "column"),
        (.gap, "8px"), (.height, "auto")] ∧
    plainCard.style (Options.standard.set false .useFlexbox) "card"
      = plainCard.style .standard "card" := by
  obtain ⟨whole, single⟩ := options_change_only_their_reach
  have runs {o : Options} (h : (blurredBoard.convert o).isOk = true) :
      ∃ r, blurredBoard.convert o = .ok r := exists_ok_of_isOk h
  have resolved {o : Options} (h : (blurredColumn.style o "board").outcome.isOk = true) :
      (blurredColumn.style o "board").outcome = .ok () := by
    obtain ⟨_, h⟩ := exists_ok_of_isOk h
    exact h
  have standard := resolved (o := .standard) (by decide +kernel)
  have boxed := resolved (o := Options.standard.set false .preserveAutoLayout) (by decide +kernel)
  obtain ⟨r, h⟩ := runs (o := .standard) (by decide +kernel)
  obtain ⟨r', h'⟩ := runs (o := Options.standard.set false .preserveAutoLayout) (by decide +kernel)
  obtain ⟨toggled, effects, -, -⟩ := single blurredColumn .standard "board"
  obtain ⟨-, -, still, -⟩ := single plainCard .standard "card"
  refine ⟨⟨r, r', h, h', whole _ _ _ _ _ h h'⟩, ?_, ?_, ?_⟩
  · have kept := (toggled .preserveAutoLayout false standard boxed).2
    exact kept.symm.trans (by decide +kernel)
  · exact (effects standard).2.trans (by decide +kernel)
  · exact still (by decide) .useFlexbox (by decide) false

end DesignMarkup
