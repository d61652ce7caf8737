import DesignMarkup.Proofs.Declared
import DesignMarkup.Proofs.Tables

/-!
# The aspects of a style

A style is resolved in six aspects, each by a resolver of its own, and all of them write into
one table. Every property belongs to one aspect: the size of a layer that lays out its children,
where that is preserved, belongs to the layout, and any other size to the box. So no resolver
meets what another one declared, and a style is what its aspects declare alone, put one behind
the other.
-/

namespace DesignMarkup

open Writing (All all_pure all_lift all_write all_bind)

/-! ## Resolvers in turn -/

namespace Resolver

def alone (r : Resolver) : Declarations := StyleEntry.declarations r.written []

def inTurn : List Resolver → Resolver
  | [] => pure ()
  | r :: rest => do
    r
    inTurn rest

theorem outcome_inTurn {rs : List Resolver} :
    (inTurn rs).outcome = .ok () ↔ ∀ r ∈ rs, r.outcome = .ok () := by
  induction rs with
  | nil => exact ⟨fun _ => nofun, fun _ => rfl⟩
  | cons r rest ih =>
      rw [inTurn, Writing.outcome_bind_eq_ok_iff, List.forall_mem_cons, ← ih]
      exact ⟨fun ⟨_, h⟩ => h, fun h => ⟨(), h⟩⟩

/-- Resolvers that succeed in turn write what each of them writes. -/
theorem written_inTurn {rs : List Resolver} (h : (inTurn rs).outcome = .ok ()) :
    (inTurn rs).written = rs.flatMap (·.written) := by
  induction rs with
  | nil => rfl
  | cons r rest ih =>
      rw [inTurn] at h ⊢
      obtain ⟨_, hr, hrest⟩ := Writing.outcome_bind_eq_ok_iff.mp h
      rw [Writing.bind_of_ok hr, ih hrest, List.flatMap_cons]

theorem inTurn_singleton (r : Resolver) : inTurn [r] = r := by
  cases h : r.outcome with
  | error e =>
      rw [inTurn, Writing.bind_of_error h, ← h]
  | ok u =>
      rw [inTurn, Writing.bind_of_ok h, inTurn, Writing.written_pure, List.append_nil,
        Writing.outcome_pure, ← h]

theorem written_only (condition : Bool) (r : Resolver) :
    (only condition r).written = if condition then r.written else [] := by
  cases condition <;> rfl

theorem outcome_only {condition : Bool} {r : Resolver} :
    (only condition r).outcome = .ok () ↔ (condition = true → r.outcome = .ok ()) := by
  cases condition with
  | false => exact ⟨fun _ => nofun, fun _ => rfl⟩
  | true => exact ⟨fun h _ => h, fun h => h rfl⟩

end Resolver

/-! ## Aspects -/

inductive Aspect
  | base
  | fill
  | stroke
  | effects
  | layout
  | text
deriving DecidableEq, Repr

namespace Aspect

def all : List Aspect := [base, fill, stroke, effects, layout, text]

def isActive (l : Layer) (o : Options) : Aspect → Bool
  | base | fill | stroke => true
  | effects => o.convertEffects
  | layout => o.preserveAutoLayout
  | text => l.kind == .text

variable [Arctangent]

def resolver (l : Layer) (o : Options) (className : String) : Aspect → Resolver
  | base => l.baseStyle o
  | fill => l.fillStyle (.text className)
  | stroke => l.strokeStyle
  | effects => l.effectStyle
  | layout => l.layoutStyle o
  | text => l.textStyling

end Aspect

def Layer.activeAspects (l : Layer) (o : Options) : List Aspect :=
  Aspect.all.filter (Aspect.isActive l o)

/-- The size of the layer follows from its layout. -/
def Layer.flows (l : Layer) (o : Options) : Bool := o.preserveAutoLayout && l.hasAutoLayout

/-- The aspect that a property belongs to, by whether sizes follow from the layout. -/
def Property.aspect (flows : Bool) : Property → Aspect
  | .width | .height => if flows then .layout else .base
  | .opacity | .borderRadius => .base
  | .backgroundColor | .background | .backgroundSize | .backgroundPosition | .backgroundRepeat =>
    .fill
  | .border => .stroke
  | .boxShadow | .filter => .effects
  | .display | .flexDirection | .gap | .padding | .justifyContent | .alignItems | .flexGrow =>
    .layout
  | .fontFamily | .fontSize | .fontWeight | .letterSpacing | .lineHeight | .textAlign
  | .textTransform | .textDecoration | .color => .text

/-- The entry declares nothing but properties of an aspect. -/
def StyleEntry.Within (flows : Bool) (a : Aspect) : StyleEntry → Prop
  | declare p _ => p.aspect flows = a
  | image _ => True

open Resolver StyleEntry

namespace Layer

/-! ## What the resolvers write -/

section

variable (l : Layer) (o : Options)

theorem within_sizeStyle : All (Within (l.flows o) .base) (l.sizeStyle o) := by
  unfold sizeStyle
  split
  · exact all_pure ()
  · apply all_only
    intro boxed
    -- The box gives the size exactly where the layout does not.
    have still : l.flows o = false := by
      rw [← Bool.not_eq_true', flows, Bool.not_and]
      exact boxed
    rw [still]
    exact all_bind (all_setTo fun _ _ => rfl) fun _ _ => all_setTo fun _ _ => rfl

variable (flows : Bool)

theorem within_opacityStyle : All (Within flows .base) l.opacityStyle :=
  all_bind (all_lift _) fun _ _ => all_only fun _ => all_setTo fun _ _ => rfl

theorem within_cornerStyle : All (Within flows .base) l.cornerStyle := by
  have half : All (Within flows .base) (only (l.kind == .ellipse) (set .borderRadius "50%")) :=
    all_only fun _ => all_set rfl
  unfold cornerStyle
  split
  · exact all_bind (all_set rfl) fun _ _ => half
  · split
    · exact all_bind (all_only fun _ => all_set rfl) fun _ _ => half
    · exact half

theorem within_baseStyle : All (Within (l.flows o) .base) (l.baseStyle o) :=
  all_bind (l.within_sizeStyle o) fun _ _ =>
    all_bind (l.within_opacityStyle _) fun _ _ => l.within_cornerStyle _

theorem within_strokeStyle : All (Within flows .stroke) l.strokeStyle := by
  unfold strokeStyle
  split
  · exact all_pure ()
  · exact all_only fun _ => all_bind (all_lift _) fun _ _ => all_setIf fun _ _ => rfl

theorem within_effectStyle : All (Within flows .effects) l.effectStyle :=
  all_bind (all_lift _) fun _ _ => all_bind (all_only fun _ => all_set rfl) fun _ _ =>
    all_bind (all_lift _) fun _ _ => all_only fun _ => all_set rfl

theorem within_sizingStyle : All (Within true .layout) l.sizingStyle := by
  apply all_bind
  · apply all_only
    intro _
    cases l.isHorizontal <;> exact all_set rfl
  · intro _ _
    apply all_only
    intro _
    cases l.isHorizontal <;> exact all_set rfl

theorem within_layoutStyle (preserved : o.preserveAutoLayout = true) :
    All (Within (l.flows o) .layout) (l.layoutStyle o) := by
  apply all_only
  intro laidOut
  have follows : l.flows o = true := by
    rw [Layer.flows, preserved]
    exact (Bool.and_eq_true _ _ ▸ laidOut).1
  have grow : All (Within true .layout) l.growStyle :=
    all_only fun _ => all_bind (all_lift _) fun _ _ => all_only fun _ => all_set rfl
  rw [follows]
  exact all_bind (all_set rfl) fun _ _ =>
    all_bind (all_set rfl) fun _ _ =>
    all_bind (all_only fun _ => all_set rfl) fun _ _ =>
    all_bind (all_setIf fun _ _ => rfl) fun _ _ =>
    all_bind (all_lift _) fun _ _ => all_bind (all_setIf fun _ _ => rfl) fun _ _ =>
    all_bind (all_lift _) fun _ _ => all_bind (all_setIf fun _ _ => rfl) fun _ _ =>
    all_bind l.within_sizingStyle fun _ _ => grow

theorem within_typography (s : TextStyle) : All (Within flows .text) (typography s) :=
  all_bind (all_only fun _ => all_set rfl) fun _ _ =>
  all_bind (all_only fun _ => all_set rfl) fun _ _ =>
  all_bind (all_only fun _ => all_set rfl) fun _ _ =>
  all_bind (all_only fun _ => all_set rfl) fun _ _ =>
  all_bind (all_only fun _ => all_set rfl) fun _ _ =>
  all_bind (all_lift _) fun _ _ => all_bind (all_setIf fun _ _ => rfl) fun _ _ =>
  all_bind (all_lift _) fun _ _ => all_bind (all_setIf fun _ _ => rfl) fun _ _ =>
  all_bind (all_lift _) fun _ _ => all_setIf fun _ _ => rfl

theorem within_textStyling : All (Within flows .text) l.textStyling := by
  unfold textStyling
  split
  · exact all_pure ()
  · apply all_bind (within_typography flows _)
    intro _ _
    unfold glyphColor
    split
    · exact all_pure ()
    · exact all_bind (all_lift _) fun _ _ => all_setIf fun _ _ => rfl

end

section

variable [Arctangent]

theorem within_fillStyle (l : Layer) (flows : Bool) (className : Value) :
    All (Within flows .fill) (l.fillStyle className) := by
  unfold fillStyle
  split
  · exact all_pure ()
  · split
    · exact all_bind (all_lift _) fun _ _ => all_setIf fun _ _ => rfl
    · split
      · exact all_setTo fun _ _ => rfl
      · split
        · exact all_setTo fun _ _ => rfl
        · split
          · exact all_only fun _ => all_bind (all_write trivial) fun _ _ =>
              all_bind (all_set rfl) fun _ _ => all_bind (all_set rfl) fun _ _ => all_set rfl
          · exact all_pure ()

/-- A resolver declares properties of its own aspect only. -/
theorem within_resolver (l : Layer) (o : Options) (className : String) {a : Aspect}
    (active : a.isActive l o = true) :
    All (Within (l.flows o) a) (a.resolver l o className) := by
  cases a with
  | base => exact l.within_baseStyle o
  | fill => exact l.within_fillStyle _ _
  | stroke => exact l.within_strokeStyle _
  | effects => exact l.within_effectStyle _
  | layout => exact l.within_layoutStyle o active
  | text => exact l.within_textStyling _

/-! ## The whole style -/

theorem style_eq_inTurn (l : Layer) (o : Options) (className : String) :
    l.style o className = inTurn (Aspect.all.map fun a =>
      only (a.isActive l o) (a.resolver l o className)) := by
  rw [Aspect.all, List.map_cons, inTurn, List.map_cons, inTurn, List.map_cons, inTurn,
    List.map_cons, inTurn, List.map_cons, inTurn, List.map_singleton, inTurn_singleton]
  rfl

theorem outcome_resolver {l : Layer} {o : Options} {className : String}
    (h : (l.style o className).outcome = .ok ()) :
    ∀ a ∈ l.activeAspects o, (a.resolver l o className).outcome = .ok () := by
  intro a ha
  obtain ⟨every, active⟩ := List.mem_filter.mp ha
  rw [style_eq_inTurn, outcome_inTurn] at h
  exact outcome_only.mp (h _ (List.mem_map.mpr ⟨a, every, rfl⟩)) active

/-- A style that is resolved writes what its aspects write. -/
theorem written_style_eq_flatMap {l : Layer} {o : Options} {className : String}
    (h : (l.style o className).outcome = .ok ()) :
    (l.style o className).written
      = (l.activeAspects o).flatMap fun a => (a.resolver l o className).written := by
  rw [style_eq_inTurn] at h ⊢
  rw [written_inTurn h, List.flatMap_map, activeAspects]
  induction Aspect.all with
  | nil => rfl
  | cons a rest ih =>
      rw [List.flatMap_cons, ih, written_only, List.filter_cons]
      cases a.isActive l o <;> rfl

def aspectEntries (l : Layer) (o : Options) (className : String) (a : Aspect) :
    List (Property × String) :=
  (a.resolver l o className).written.filterMap StyleEntry.declaration?

theorem aspect_of_mem {l : Layer} {o : Options} {className : String} {a : Aspect}
    (active : a.isActive l o = true) {d : Property × String}
    (h : d ∈ l.aspectEntries o className a) : d.1.aspect (l.flows o) = a := by
  obtain ⟨entry, hentry, hd⟩ := List.mem_filterMap.mp h
  have within := l.within_resolver o className active entry hentry
  cases entry with
  | declare p v =>
      obtain rfl := Option.some.inj hd
      exact within
  | image use => cases hd

/-- Two aspects declare no property in common. -/
theorem pairwise_activeAspects (l : Layer) (o : Options) (className : String) :
    (l.activeAspects o).Pairwise fun a b =>
      ∀ d ∈ l.aspectEntries o className a, ∀ e ∈ l.aspectEntries o className b, d.1 ≠ e.1 := by
  have distinct : Aspect.all.Pairwise (· ≠ ·) := by decide
  refine (distinct.filter _).imp_of_mem ?_
  intro a b ha hb differ d hd e he same
  apply differ
  rw [← aspect_of_mem (List.mem_filter.mp ha).2 hd, ← aspect_of_mem (List.mem_filter.mp hb).2 he,
    same]

/-- The style of a layer is what each of its aspects declares alone, one behind the other, and
no two of them declare the same property. -/
theorem declarations_style_eq_flatMap {l : Layer} {o : Options} {className : String}
    (h : (l.style o className).outcome = .ok ()) :
    (∀ a ∈ l.activeAspects o, (a.resolver l o className).outcome = .ok ()) ∧
    declarations (l.style o className).written []
      = (l.activeAspects o).flatMap (fun a => (a.resolver l o className).alone) ∧
    (l.activeAspects o).Pairwise fun a b =>
      ∀ p ∈ (a.resolver l o className).alone.keys, p ∉ (b.resolver l o className).alone.keys := by
  have apart := l.pairwise_activeAspects o className
  refine ⟨outcome_resolver h, ?_, apart.imp ?_⟩
  · have groups : (l.style o className).written.filterMap declaration?
        = ((l.activeAspects o).map (l.aspectEntries o className)).flatten := by
      rw [written_style_eq_flatMap h, List.filterMap_flatMap, List.flatMap_def]
      rfl
    calc declarations (l.style o className).written []
        = Ordered.ofEntries ((l.activeAspects o).map (l.aspectEntries o className)).flatten := by
          rw [← groups]
          rfl
      _ = (((l.activeAspects o).map (l.aspectEntries o className)).map Ordered.ofEntries).flatten :=
          Ordered.ofEntries_flatten (List.pairwise_map.mpr apart)
      _ = (l.activeAspects o).flatMap fun a => (a.resolver l o className).alone := by
          rw [List.map_map, List.flatMap_def]
          rfl
  · intro a b differ p hp hq
    obtain ⟨d, hd, rfl⟩ := Ordered.mem_keys_ofEntries.mp hp
    obtain ⟨e, he, same⟩ := Ordered.mem_keys_ofEntries.mp hq
    exact differ d hd e he same.symm

end

/-- A title in all six aspects: a box, which gives way to the layout, an image, a border, a blur,
a row that is as wide as its content, and a font size. -/
def flowingTitle : Layer :=
  { (default : Layer) with
    name := .text "Title", kind := .text, cornerRadius := .whole 4
    box := some { x := .whole 0, y := .whole 0, width := .whole 80, height := .whole 20 }
    fills := [{ (default : Paint) with
      kind := .text "IMAGE", visible := .bool true, imageRef := .text "r" }]
    strokes := [{ (default : Paint) with
      kind := .text "SOLID", visible := .bool true
      color := some { r := .whole 1, g := .whole 0, b := .whole 0, a := .whole 1 } }]
    effects := [{ (default : Effect) with
      kind := .text "LAYER_BLUR", visible := .bool true, radius := .whole 3 }]
    layoutMode := .text "HORIZONTAL", primarySizing := .text "AUTO", itemSpacing := .whole 8
    textStyle := some { (default : TextStyle) with fontSize := .whole 24 } }

set_option maxRecDepth 20000 in
theorem declarations_style_flowingTitle :
    (flowingTitle.style .standard "title").outcome = .ok () ∧
    declarations (flowingTitle.style .standard "title").written []
      = [[(.borderRadius, "4px")],
          [(.backgroundSize, "cover"), (.backgroundPosition, "center"),
            (.backgroundRepeat, "no-repeat")],
          [(.border, "1px solid rgb(255, 0, 0)")],
          [(.filter, "blur(3px)")],
          [(.display, "flex"), (.flexDirection, "row"), (.gap, "8px"), (.width, "auto")],
          [(.fontSize, "24px")]].flatten := by
  have resolved : (flowingTitle.style .standard "title").outcome = .ok () := by
    obtain ⟨_, h⟩ : ∃ a, (flowingTitle.style .standard "title").outcome = .ok a :=
      exists_ok_of_isOk (by decide)
    exact h
  obtain ⟨-, concatenated, -⟩ := declarations_style_eq_flatMap resolved
  refine ⟨resolved, concatenated.trans ?_⟩
  decide

end Layer

end DesignMarkup
