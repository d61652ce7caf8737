import DesignMarkup.Proofs.Levels

/-!
# What is read of a design

Two values are alike when they hold the same under the names that are read, at every level, and
whatever they like under other names. A part that goes by two names may stand under either of
them, and behind a part that is present its second name says nothing. No reader tells alike
values apart, and neither does the search for the deepest level.

A box and a text style count as absent when they are empty, so here a member that is not read
does make a difference where it is the only one.
-/

namespace DesignMarkup

/-! ## Alike objects -/

/-- One and the same value, or two objects with the same members of some names and with others
that are related. -/
inductive Alike (names : List String) (related : Members → Members → Prop) : Value → Value → Prop
  | refl (v : Value) : Alike names related v v
  | object {ms ms' : Members} : (∀ name ∈ names, ms.lookup name = ms'.lookup name) →
      related ms ms' → Alike names related (.object ms) (.object ms')

/-- One and the same value, or two lists with related items. -/
inductive ItemsAlike (R : Value → Value → Prop) : Value → Value → Prop
  | refl (v : Value) : ItemsAlike R v v
  | list {vs vs' : List Value} : List.Forall₂ R vs vs' → ItemsAlike R (.list vs) (.list vs')

/-- The members of a name are related, or there are none. -/
def Under (R : Value → Value → Prop) (name : String) (ms ms' : Members) : Prop :=
  Option.Rel R (ms.lookup name) (ms'.lookup name)

def ColorAlike : Value → Value → Prop := Alike ["r", "g", "b", "a"] fun _ _ => True

def PointAlike : Value → Value → Prop := Alike ["x", "y"] fun _ _ => True

def StopAlike : Value → Value → Prop := Alike ["position"] (Under ColorAlike "color")

def PaintAlike : Value → Value → Prop :=
  Alike ["type", "visible", "opacity", "imageRef", "scaleMode"] fun ms ms' =>
    Under ColorAlike "color" ms ms' ∧ Under (ItemsAlike StopAlike) "gradientStops" ms ms' ∧
      Under (ItemsAlike PointAlike) "gradientHandlePositions" ms ms'

def EffectAlike : Value → Value → Prop :=
  Alike ["type", "visible", "radius", "spread"] fun ms ms' =>
    Under ColorAlike "color" ms ms' ∧ Under PointAlike "offset" ms ms'

/-! ### Parts with two names -/

/-- What stands under the two names of a part, before and behind a change: the same under each,
a part that went from one name to the other, or under the first name a part that is present, and
under the second whatever there is. -/
inductive TwoNames (R : Value → Value → Prop) :
    Option Value → Option Value → Option Value → Option Value → Prop
  | stayed {first second first' second' : Option Value} : Option.Rel R first first' →
      Option.Rel R second second' → TwoNames R first second first' second'
  | moved {v v' : Value} : R v v' → TwoNames R (some v) none none (some v')
  | movedBack {v v' : Value} : R v v' → TwoNames R none (some v) (some v') none
  | shadowed {v v' : Value} {second second' : Option Value} : v.isPresent = true →
      v'.isPresent = true → R v v' → TwoNames R (some v) second (some v') second'

/-- The part that goes by two names is alike in two nodes. -/
def UnderEither (R : Value → Value → Prop) (first second : String) (ms ms' : Members) : Prop :=
  TwoNames R (ms.lookup first) (ms.lookup second) (ms'.lookup first) (ms'.lookup second)

/-! ### Nodes -/

section

/- The changes that the members of a box or of a text style may undergo as a whole. -/
variable (whole : Members → Members → Prop)

def BoxAlike : Value → Value → Prop := Alike ["x", "y", "width", "height"] whole

def TextStyleAlike : Value → Value → Prop :=
  Alike ["fontFamily", "fontWeight", "fontSize", "textAlignHorizontal", "letterSpacing",
    "lineHeightPx", "textCase", "textDecoration"] whole

/-- The members of a node that are read as they are. -/
def plainNames : List String :=
  ["id", "name", "type", "cornerRadius", "opacity", "layoutMode", "primaryAxisSizingMode",
    "counterAxisSizingMode", "primaryAxisAlignItems", "counterAxisAlignItems", "paddingTop",
    "paddingRight", "paddingBottom", "paddingLeft", "itemSpacing", "layoutGrow", "characters",
    "imageRef"]

/-- Two nodes say the same of themselves. -/
structure LayerAlike (ms ms' : Members) : Prop where
  plain : ∀ name ∈ plainNames, ms.lookup name = ms'.lookup name
  box : UnderEither (BoxAlike whole) "absoluteBoundingBox" "boundingBox" ms ms'
  radii : UnderEither Eq "rectangleCornerRadii" "cornerRadii" ms ms'
  style : UnderEither (TextStyleAlike whole) "style" "textStyle" ms ms'
  fills : Under (ItemsAlike PaintAlike) "fills" ms ms'
  strokes : Under (ItemsAlike PaintAlike) "strokes" ms ms'
  effects : Under (ItemsAlike EffectAlike) "effects" ms ms'

/-- Two nodes say the same of themselves, and their children are alike, as many and in the same
order. -/
inductive NodeAlike : Value → Value → Prop
  | refl (v : Value) : NodeAlike v v
  | leaf {ms ms' : Members} : LayerAlike whole ms ms' →
      ms.lookup "children" = ms'.lookup "children" → NodeAlike (.object ms) (.object ms')
  | branch {ms ms' : Members} {vs vs' : List Value} : LayerAlike whole ms ms' →
      ms.lookup "children" = some (.list vs) → ms'.lookup "children" = some (.list vs') →
      List.Forall₂ NodeAlike vs vs' → NodeAlike (.object ms) (.object ms')

end

/-! ## Readers -/

/-- A reader takes related values for the same. -/
def Overlooks {α : Type} (R : Value → Value → Prop) (read : Value → α) : Prop :=
  ∀ ⦃v v' : Value⦄, R v v' → read v = read v'

section

variable {α : Type} {R : Value → Value → Prop} {names : List String}
  {related : Members → Members → Prop} {ms ms' : Members}

/-- What is read by the names and from what is related is the same of alike objects. -/
theorem overlooks_members {g : Members → Except Fault α}
    (h : ∀ ms ms' : Members, (∀ name ∈ names, ms.lookup name = ms'.lookup name) →
      related ms ms' → g ms = g ms') :
    Overlooks (Alike names related) fun v => v.members? >>= g := by
  rintro _ _ (v | ⟨same, further⟩)
  · rfl
  · exact h _ _ same further

theorem getOr_eq_of_same (same : ∀ name ∈ names, ms.lookup name = ms'.lookup name) {name : String}
    (h : name ∈ names) (other : Value) : ms.getOr name other = ms'.getOr name other := by
  rw [Members.getOr, same name h, Members.getOr]

theorem overlooks_under {read : Value → α} (h : Overlooks R read) {name : String}
    (under : Under R name ms ms') (other : Value) :
    read (Members.getOr ms name other) = read (Members.getOr ms' name other) := by
  rw [Under] at under
  rw [Members.getOr, Members.getOr]
  generalize List.lookup name ms = part at under
  generalize List.lookup name ms' = part' at under
  cases under with
  | none => rfl
  | some alike => exact h alike

theorem mapM_eq_of_overlooks {read : Value → Except Fault α} (h : Overlooks R read)
    {vs vs' : List Value} (alike : List.Forall₂ R vs vs') : vs.mapM read = vs'.mapM read := by
  induction alike with
  | nil => rfl
  | cons first _ ih => rw [List.mapM_cons, List.mapM_cons, h first, ih]

theorem overlooks_each {read : Value → Except Fault α} (h : Overlooks R read) :
    Overlooks (ItemsAlike R) (each read) := by
  rintro _ _ (v | alike)
  · rfl
  · exact mapM_eq_of_overlooks h alike

theorem overlooks_eachPresent {read : Value → Except Fault α} (h : Overlooks R read) :
    Overlooks (ItemsAlike R) (eachPresent read) := by
  rintro _ _ (v | @⟨vs, vs', alike⟩)
  · rfl
  · -- An empty list and an absent one hold the same items.
    have items (vs : List Value) : eachPresent read (.list vs) = vs.mapM read := by
      cases vs <;> rfl
    rw [items, items, mapM_eq_of_overlooks h alike]

theorem Alike.overlooks_isNull : Overlooks (Alike names related) Value.isNull := by
  rintro _ _ (v | _)
  · rfl
  · rfl

theorem ItemsAlike.overlooks_isNull : Overlooks (ItemsAlike R) Value.isNull := by
  rintro _ _ (v | _)
  · rfl
  · rfl

theorem overlooks_optionally {read : Value → Except Fault α} (null : Overlooks R Value.isNull)
    (h : Overlooks R read) : Overlooks R (optionally read) := by
  intro v v' alike
  rw [optionally, optionally, null alike, h alike]

end

/-! ### Parts of paints and effects -/

theorem overlooks_color : Overlooks ColorAlike Color.ofValue := by
  apply overlooks_members
  intro ms ms' same _
  simp (disch := decide) only [getOr_eq_of_same same]

theorem overlooks_point : Overlooks PointAlike Point.ofValue := by
  apply overlooks_members
  intro ms ms' same _
  simp (disch := decide) only [getOr_eq_of_same same]

theorem overlooks_stop : Overlooks StopAlike GradientStop.ofValue := by
  apply overlooks_members
  intro ms ms' same colored
  have color := overlooks_under overlooks_color colored (.object [])
  simp (disch := decide) only [color, getOr_eq_of_same same]

theorem overlooks_paint : Overlooks PaintAlike Paint.ofValue := by
  apply overlooks_members
  rintro ms ms' same ⟨colored, stopped, handled⟩
  have color := overlooks_under
    (overlooks_optionally Alike.overlooks_isNull overlooks_color) colored .null
  have stops := overlooks_under
    (overlooks_optionally ItemsAlike.overlooks_isNull (overlooks_each overlooks_stop)) stopped .null
  have handles := overlooks_under
    (overlooks_optionally ItemsAlike.overlooks_isNull (overlooks_each overlooks_point)) handled
    .null
  simp (disch := decide) only [Members.get, color, stops, handles, getOr_eq_of_same same]

theorem overlooks_effect : Overlooks EffectAlike Effect.ofValue := by
  apply overlooks_members
  rintro ms ms' same ⟨colored, placed⟩
  have color := overlooks_under
    (overlooks_optionally Alike.overlooks_isNull overlooks_color) colored .null
  have offset := overlooks_under
    (overlooks_optionally Alike.overlooks_isNull overlooks_point) placed .null
  simp (disch := decide) only [Members.get, color, offset, getOr_eq_of_same same]

/-! ### Layers -/

/-- Two objects are both empty or neither of them is. -/
def SameEmptiness (ms ms' : Members) : Prop := ms.isEmpty = ms'.isEmpty

theorem overlooks_box (whole : Members → Members → Prop) :
    Overlooks (BoxAlike whole) Box.ofValue := by
  apply overlooks_members
  intro ms ms' same _
  simp (disch := decide) only [getOr_eq_of_same same]

theorem overlooks_textStyle (whole : Members → Members → Prop) :
    Overlooks (TextStyleAlike whole) TextStyle.ofValue := by
  apply overlooks_members
  intro ms ms' same _
  simp (disch := decide) only [Members.get, getOr_eq_of_same same]

/-- An object stays present where it does not become empty. -/
theorem Alike.overlooks_isPresent {names : List String} :
    Overlooks (Alike names SameEmptiness) Value.isPresent := by
  rintro _ _ (v | ⟨-, emptiness⟩)
  · rfl
  · exact congrArg (!·) emptiness

section

variable {α : Type} {R : Value → Value → Prop} {read : Value → Except Fault α}

theorem overlooks_present? (present : Overlooks R Value.isPresent) (h : Overlooks R read) :
    Overlooks R (Layer.present? read) := by
  intro v v' alike
  rw [Layer.present?, Layer.present?, present alike, h alike]

/-- Where the first of two values is present it is the one that is read. -/
theorem present?_orElse (read : Value → Except Fault α) (v w : Value) :
    Layer.present? read (v.orElse w)
      = if v.isPresent then Layer.present? read v else Layer.present? read w := by
  rw [Value.orElse]
  split <;> rfl

/-- A part that is not present reads as none, as null does. -/
theorem present?_orElse_null (read : Value → Except Fault α) (v : Value) :
    (if v.isPresent then Layer.present? read v else Layer.present? read .null)
      = Layer.present? read v := by
  split
  · rfl
  · rename_i absent
    rw [Layer.present?, Layer.present?, if_neg absent]
    rfl

/-- What goes by two names reads the same from nodes in which it is alike. -/
theorem present?_either (h : Overlooks R (Layer.present? read))
    (present : Overlooks R Value.isPresent) {first second : String} {ms ms' : Members}
    (under : UnderEither R first second ms ms') :
    Layer.present? read (Members.either ms first second)
      = Layer.present? read (Members.either ms' first second) := by
  have values {part part' : Option Value} (rel : Option.Rel R part part') :
      (part.getD .null).isPresent = (part'.getD .null).isPresent ∧
        Layer.present? read (part.getD .null) = Layer.present? read (part'.getD .null) := by
    cases rel with
    | none => exact ⟨rfl, rfl⟩
    | some alike => exact ⟨present alike, h alike⟩
  rw [UnderEither] at under
  simp only [Members.either, Members.get, Members.getOr, present?_orElse]
  generalize List.lookup first ms = a at under
  generalize List.lookup second ms = b at under
  generalize List.lookup first ms' = a' at under
  generalize List.lookup second ms' = b' at under
  cases under with
  | stayed firsts seconds =>
      rw [(values firsts).1, (values firsts).2, (values seconds).2]
  | moved alike =>
      rw [Option.getD_some, Option.getD_some, Option.getD_none, present?_orElse_null, h alike]
      rfl
  | movedBack alike =>
      rw [Option.getD_some, Option.getD_some, Option.getD_none, present?_orElse_null, ← h alike]
      rfl
  | shadowed here here' alike =>
      rw [Option.getD_some, Option.getD_some, if_pos here, if_pos here', h alike]

theorem overlooks_of_eq {β : Type} (f : Value → β) : Overlooks Eq f := by
  rintro v _ rfl
  rfl

end

/-- Nodes that say the same of themselves read as one layer. -/
theorem ofMembers_eq_of_alike {ms ms' : Members} (h : LayerAlike SameEmptiness ms ms') :
    Layer.ofMembers ms = Layer.ofMembers ms' := by
  have present {names : List String} := @Alike.overlooks_isPresent names
  have box := present?_either (overlooks_present? present (overlooks_box _)) present h.box
  have style := present?_either (overlooks_present? present (overlooks_textStyle _)) present h.style
  have radii := present?_either (overlooks_of_eq (Layer.present? Value.items?))
    (overlooks_of_eq _) h.radii
  have fills := overlooks_under (overlooks_eachPresent overlooks_paint) h.fills .null
  have strokes := overlooks_under (overlooks_eachPresent overlooks_paint) h.strokes .null
  have effects := overlooks_under (overlooks_eachPresent overlooks_effect) h.effects .null
  have plain := @getOr_eq_of_same _ _ _ h.plain
  simp (disch := decide) only [Layer.ofMembers, box, style, radii, Members.get, fills, strokes,
    effects, plain]

/-! ## Trees -/

theorem heldNodes_of_branch {ms : Members} {vs : List Value}
    (h : ms.lookup "children" = some (.list vs)) :
    (Members.get ms "children").heldNodes = .ok vs := by
  rw [Members.get, Members.getOr, h]
  rfl

theorem inStep_of_eq {v v' : Value} (h : v.childNodes = v'.childNodes) :
    TreeShape.InStep Value.shape Value.shape (NodeAlike SameEmptiness) v v' := by
  rw [TreeShape.InStep]
  show (∃ fault, v.childNodes = .error fault ∧ _) ∨ ∃ vs vs', v.childNodes = .ok vs ∧ _
  rw [h]
  cases held : v'.childNodes with
  | error fault => exact Or.inl ⟨fault, rfl, held⟩
  | ok vs => exact Or.inr ⟨vs, vs, rfl, held, List.forall₂_same.mpr fun v _ => .refl v⟩

/-- Nodes that are alike have children that are alike, or fail for the same reason. -/
theorem inStep_of_alike {v v' : Value} (h : NodeAlike SameEmptiness v v') :
    TreeShape.InStep Value.shape Value.shape (NodeAlike SameEmptiness) v v' := by
  cases h with
  | refl v => exact inStep_of_eq rfl
  | leaf layer children =>
      apply inStep_of_eq
      rw [Value.childNodes_object, Value.childNodes_object, Members.get, Members.getOr, children]
      rfl
  | branch layer children children' alike =>
      exact Or.inr ⟨_, _, heldNodes_of_branch children, heldNodes_of_branch children', alike⟩

theorem ofValues_eq_of_forall₂ {vs vs' : List Value}
    (h : List.Forall₂ (fun v v' => Node.ofValue v = Node.ofValue v') vs vs') :
    Node.ofValues vs = Node.ofValues vs' := by
  induction h with
  | nil => rfl
  | cons first _ ih => rw [Node.ofValues, Node.ofValues, first, ih]

/-- Values that are alike read as one node, or fail for the same reason. -/
theorem ofValue_eq_of_alike (v : Value) :
    ∀ v', NodeAlike SameEmptiness v v' → Node.ofValue v = Node.ofValue v' := by
  induction v using Value.shape.induction with
  | h v ih =>
      intro v' alike
      cases alike with
      | refl v => rfl
      | leaf layer children =>
          rw [Node.ofValue, Node.ofValue, Node.ofChildrenMember_eq, Node.ofChildrenMember_eq,
            Members.get, Members.getOr, children, ofMembers_eq_of_alike layer]
          rfl
      | @branch ms ms' vs vs' layer children children' alike =>
          have held : (Value.object ms).childNodes = .ok vs := heldNodes_of_branch children
          have each := (List.forall₂_and_left _ _).mpr ⟨ih vs held, alike⟩
          have values : Node.ofValues vs = Node.ofValues vs' :=
            ofValues_eq_of_forall₂ (each.imp fun _ v' both => both.1 v' both.2)
          rw [Node.ofValue, Node.ofValue, Node.ofChildrenMember_eq, Node.ofChildrenMember_eq,
            heldNodes_of_branch children, heldNodes_of_branch children',
            ofMembers_eq_of_alike layer]
          show (do let children ← Node.ofValues vs; _) = do let children ← Node.ofValues vs'; _
          rw [values]

/-- Values that are alike read as the same node, convert to the same page, or fail for the same
reason; and a limit on levels lets pass both of them or neither. -/
theorem read_eq_of_alike [Arctangent] {v v' : Value} (alike : NodeAlike SameEmptiness v v') :
    Node.ofValue v = Node.ofValue v' ∧ (∀ o, convertValue v o = convertValue v' o) ∧
      ∀ limit, Value.shape.ensure v limit = Value.shape.ensure v' limit := by
  have read := ofValue_eq_of_alike v v' alike
  have levels : Value.shape.depth v = Value.shape.depth v' :=
    TreeShape.depth_eq_of_simulates (fun _ _ => inStep_of_alike) alike
  refine ⟨read, fun o => ?_, fun limit => ?_⟩
  · rw [convertValue, convertValue, read]
  · rw [TreeShape.ensure, TreeShape.ensure, levels]

def labelMembers : Members :=
  [("name", .text "Label"), ("type", .text "TEXT"),
    ("style", .object [("fontSize", .whole 24)]), ("textStyle", .object [])]

/-- The label with notes, and with another style under the second name. -/
def annotatedLabel : Members :=
  [("locked", .bool true), ("name", .text "Label"), ("type", .text "TEXT"),
    ("style", .object [("fontSize", .whole 24), ("fontStyle", .null)]),
    ("textStyle", .object [("fontSize", .whole 9)])]

def cardMembers : Members :=
  [("name", .text "Card"), ("type", .text "FRAME"), ("pluginData", .object []),
    ("absoluteBoundingBox", .object [("width", .whole 80), ("height", .whole 20)]),
    ("fills", .list [.object [("type", .text "SOLID"), ("color", .object [("r", .whole 1)])]]),
    ("children", .list [.object labelMembers])]

/-- The card with its box under the other name, and with notes in every part. -/
def annotatedCard : Members :=
  [("note", .list []), ("type", .text "FRAME"), ("name", .text "Card"),
    ("boundingBox", .object [("unit", .text "px"), ("width", .whole 80), ("height", .whole 20)]),
    ("fills", .list [.object [("blendMode", .null), ("type", .text "SOLID"),
      ("color", .object [("space", .text "rgb"), ("r", .whole 1)])]]),
    ("children", .list [.object annotatedLabel])]

theorem layerAlike_label : LayerAlike SameEmptiness labelMembers annotatedLabel where
  plain := by simp [plainNames, labelMembers, annotatedLabel, List.lookup_cons]
  box := .stayed .none .none
  radii := .stayed .none .none
  style := .shadowed rfl rfl (.object (by simp [List.lookup_cons]) rfl)
  fills := .none
  strokes := .none
  effects := .none

theorem layerAlike_card : LayerAlike SameEmptiness cardMembers annotatedCard where
  plain := by simp [plainNames, cardMembers, annotatedCard, List.lookup_cons]
  box := .moved (.object (by simp [List.lookup_cons]) rfl)
  radii := .stayed .none .none
  style := .stayed .none .none
  fills :=
    have colored := Option.Rel.some (.object (by simp [List.lookup_cons]) trivial)
    have fill := .object (by simp [List.lookup_cons]) ⟨colored, .none, .none⟩
    .some (.list (.cons fill .nil))
  strokes := .none
  effects := .none

theorem read_eq_annotatedCard :
    NodeAlike SameEmptiness (.object cardMembers) (.object annotatedCard) ∧
      Node.ofValue (.object cardMembers) = Node.ofValue (.object annotatedCard) := by
  have alike : NodeAlike SameEmptiness (.object cardMembers) (.object annotatedCard) :=
    .branch layerAlike_card rfl rfl (.cons (.leaf layerAlike_label rfl) .nil)
  exact ⟨alike, (read_eq_of_alike alike).1⟩

/-- A box that holds nothing but a note is there, and an empty one is not. -/
theorem read_ne_notedBox :
    NodeAlike (fun _ _ => True) (.object [("absoluteBoundingBox", .object [("note", .whole 1)])])
      (.object [("absoluteBoundingBox", .object [])]) ∧
    Node.ofValue (.object [("absoluteBoundingBox", .object [("note", .whole 1)])])
      ≠ Node.ofValue (.object [("absoluteBoundingBox", .object [])]) := by
  constructor
  · refine .leaf ?_ rfl
    exact
      { plain := by simp [plainNames, List.lookup_cons]
        box := .stayed (.some (.object (by simp [List.lookup_cons]) trivial)) .none
        radii := .stayed .none .none
        style := .stayed .none .none
        fills := .none
        strokes := .none
        effects := .none }
  · intro same
    have boxes := congrArg (fun read => read.toOption.map (·.layer.box.isSome)) same
    exact absurd boxes (by decide)

end DesignMarkup
