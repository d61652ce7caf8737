import DesignMarkup.Proofs.Walk

/-!
# Data that nothing looks at

Much of what a design holds leaves no trace: all strokes but the first visible one, effects
that are hidden or of no known kind, fills behind the first visible one (a text looks once more,
for the first plain one), the place of a box, and whatever stands below a text or a shape.
`prune` takes all this away, and `convert_prune` says that the design converts to the same, or
fails for the same cause.
-/

namespace DesignMarkup

/-! ## One layer -/

namespace Effect

def isSeen (e : Effect) : Bool := e.visible.isPresent && (e.isShadow || e.isBlur)

end Effect

namespace Layer

/-- The fills that are looked at, in order: the first visible one, and behind it, for a text whose
first visible fill is not plain, the first visible plain one. -/
def keptFills (l : Layer) : List Paint :=
  match Paint.firstVisible l.fills with
  | none => []
  | some fill =>
    if l.kind = .text ∧ isGlyphPaint fill = false then
      fill :: (l.fills.find? isGlyphPaint).toList
    else [fill]

def prune (l : Layer) : Layer :=
  { l with
    fills := l.keptFills
    strokes := (Paint.firstVisible l.strokes).toList
    effects := l.effects.filter Effect.isSeen
    box := l.box.map fun box => { box with x := .whole 0, y := .whole 0 } }

end Layer

/-! ## The tree -/

namespace Node

mutual

/-- The tree without what nothing looks at. -/
def prune : Node → Node
  | node l cs => node l.prune (if l.kind.showsChildren then pruneAll cs else [])

def pruneAll : List Node → List Node
  | [] => []
  | n :: rest => prune n :: pruneAll rest

end

end Node

/-! ## Paints and effects -/

namespace Paint

theorem visible_of_firstVisible {paints : List Paint} {p : Paint}
    (h : firstVisible paints = some p) : p.visible.isPresent = true :=
  List.find?_some (p := fun q : Paint => q.visible.isPresent) h

theorem firstVisible_toList (paints : List Paint) :
    firstVisible (firstVisible paints).toList = firstVisible paints := by
  cases h : firstVisible paints with
  | none => rfl
  | some p =>
      rw [Option.toList_some, firstVisible, List.find?_cons_of_pos]
      exact visible_of_firstVisible h

end Paint

namespace Layer

theorem firstVisible_keptFills (l : Layer) :
    Paint.firstVisible l.keptFills = Paint.firstVisible l.fills := by
  unfold keptFills
  split
  · rename_i hidden
    rw [hidden]
    rfl
  · rename_i fill first
    have visible := Paint.visible_of_firstVisible first
    rw [first]
    split
    · exact List.find?_cons_of_pos visible
    · exact List.find?_cons_of_pos visible

/-- A visible plain paint is visible. -/
theorem visible_of_isGlyphPaint {p : Paint} (h : isGlyphPaint p = true) :
    p.visible.isPresent = true :=
  (Bool.and_eq_true_iff.mp h).2

/-- A text finds the colour of its glyphs among the fills that are kept. -/
theorem find_glyphPaint_keptFills {l : Layer} (text : l.kind = .text) :
    l.keptFills.find? isGlyphPaint = l.fills.find? isGlyphPaint := by
  unfold keptFills
  split
  · -- Without a visible fill there is no visible plain one.
    rename_i hidden
    symm
    rw [List.find?_nil, List.find?_eq_none]
    intro p hp glyph
    exact List.find?_eq_none.mp hidden p hp (visible_of_isGlyphPaint glyph)
  · rename_i fill first
    by_cases plain : isGlyphPaint fill = true
    · -- In front of the first visible fill there is no visible plain one either.
      obtain ⟨_, front, back, fills, hidden⟩ := List.find?_eq_some_iff_append.mp first
      rw [if_neg (by simp [plain]), List.find?_cons_of_pos plain]
      symm
      rw [List.find?_eq_some_iff_append]
      refine ⟨plain, front, back, fills, ?_⟩
      intro p hp
      have notVisible := hidden p hp
      cases glyph : isGlyphPaint p with
      | false => rfl
      | true =>
          rw [visible_of_isGlyphPaint glyph] at notVisible
          cases notVisible
    · rw [Bool.not_eq_true] at plain
      rw [if_pos ⟨text, plain⟩, List.find?_cons_of_neg (by simp [plain])]
      cases glyph : l.fills.find? isGlyphPaint with
      | none => rfl
      | some p => exact List.find?_cons_of_pos (List.find?_some glyph)

end Layer

namespace Shadows

theorem add_of_unseen {e : Effect} (h : e.isSeen = false) (s : Shadows) : s.add e = .ok s := by
  rw [Effect.isSeen, Bool.and_eq_false_iff, Bool.or_eq_false_iff] at h
  unfold add
  rcases h with hidden | ⟨shadow, blur⟩
  · simp [hidden]
  · simp [shadow, blur]

/-- Effects that are not seen change nothing on the way. -/
theorem foldlM_add_filter (effects : List Effect) (s : Shadows) :
    (effects.filter Effect.isSeen).foldlM add s = effects.foldlM add s := by
  induction effects generalizing s with
  | nil => rfl
  | cons e rest ih =>
      cases seen : e.isSeen with
      | true =>
          rw [List.filter_cons_of_pos seen, List.foldlM_cons, List.foldlM_cons]
          exact congrArg (s.add e >>= ·) (funext ih)
      | false =>
          rw [List.filter_cons_of_neg (by simp [seen]), ih, List.foldlM_cons, add_of_unseen seen]
          rfl

end Shadows

/-! ## Styles -/

namespace Layer

theorem sizeStyle_prune (l : Layer) (o : Options) : l.prune.sizeStyle o = l.sizeStyle o := by
  cases h : l.box with
  | none => simp only [sizeStyle, prune, h, Option.map_none]
  | some box =>
      simp only [sizeStyle, prune, h, Option.map_some]
      rfl

theorem strokeStyle_prune (l : Layer) : l.prune.strokeStyle = l.strokeStyle := by
  unfold strokeStyle
  rw [prune, Paint.firstVisible_toList]

theorem effectStyle_prune (l : Layer) : l.prune.effectStyle = l.effectStyle := by
  have same : Shadows.ofEffects l.prune.effects = Shadows.ofEffects l.effects :=
    Shadows.foldlM_add_filter l.effects Shadows.none
  unfold effectStyle
  rw [same]

theorem textStyling_prune {l : Layer} (text : l.kind = .text) :
    l.prune.textStyling = l.textStyling := by
  have same : l.prune.glyphColor = l.glyphColor := by
    unfold glyphColor
    rw [prune, find_glyphPaint_keptFills text]
  unfold textStyling
  rw [same]
  rfl

variable [Arctangent]

theorem fillStyle_prune (l : Layer) (className : Value) :
    l.prune.fillStyle className = l.fillStyle className := by
  have same : Paint.firstVisible l.prune.fills = Paint.firstVisible l.fills :=
    l.firstVisible_keptFills
  unfold fillStyle
  rw [same]
  rfl

theorem style_prune (l : Layer) (o : Options) (className : String) :
    l.prune.style o className = l.style o className := by
  have base : l.prune.baseStyle o = l.baseStyle o := by
    unfold baseStyle
    rw [sizeStyle_prune]
    rfl
  have text : Resolver.only (l.kind == .text) l.prune.textStyling
      = Resolver.only (l.kind == .text) l.textStyling := by
    by_cases text : l.kind = .text
    · rw [textStyling_prune text]
    · have : (l.kind == .text) = false := by simpa using text
      rw [this]
      rfl
  have kind : l.prune.kind = l.kind := rfl
  have layout : l.prune.layoutStyle o = l.layoutStyle o := rfl
  unfold style
  rw [base, fillStyle_prune, strokeStyle_prune, effectStyle_prune, layout, kind, text]

theorem dress_prune (l : Layer) (o : Options) (className : String) :
    l.prune.dress o className = l.dress o className := by
  unfold dress
  rw [style_prune]

end Layer

/-! ## Walks -/

theorem NodeKind.showsChildren_of_container {kind : NodeKind} {hasChildren : Bool}
    (h : kind.rendering hasChildren = .container) : kind.showsChildren = true := by
  cases kind <;> first | rfl | cases h

namespace Node

theorem rendering_prune (l : Layer) (cs : List Node) :
    l.kind.rendering (!(if l.kind.showsChildren then pruneAll cs else []).isEmpty)
      = l.kind.rendering (!cs.isEmpty) := by
  cases l.kind <;> try rfl
  -- A kind that is not known has children behind it exactly when it had some before.
  cases cs <;> rfl

variable [Arctangent]

mutual

theorem draw_prune (o : Options) : ∀ n : Node, n.prune.draw o = n.draw o
  | node l cs => by
      have className : l.prune.className = l.className := rfl
      have kind : l.prune.kind = l.kind := rfl
      have text (c : String) : l.prune.textElement c = l.textElement c := rfl
      have drawing (c : String) : l.prune.drawingElement c = l.drawingElement c := rfl
      have container : l.prune.containerTag = l.containerTag := rfl
      rw [prune, draw, draw, className, kind, rendering_prune]
      simp only [Layer.dress_prune, text, drawing, container]
      cases hr : l.kind.rendering (!cs.isEmpty) with
      | text => rfl
      | shape => rfl
      | drawing => rfl
      | container =>
          rw [if_pos (NodeKind.showsChildren_of_container hr), drawAll_pruneAll o cs]

theorem drawAll_pruneAll (o : Options) : ∀ ns : List Node, drawAll o (pruneAll ns) = drawAll o ns
  | [] => rfl
  | n :: rest => by rw [pruneAll, drawAll, drawAll, draw_prune o n, drawAll_pruneAll o rest]

end

/-- A pruned design converts to the same markup, style sheet and image uses, or fails for the
same cause, whatever its fields hold. -/
theorem convert_prune (n : Node) (o : Options) : n.prune.convert o = n.convert o := by
  unfold convert
  rw [draw_prune]

end Node

end DesignMarkup
