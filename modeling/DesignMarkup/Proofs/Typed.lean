import DesignMarkup.Style.Layout
import DesignMarkup.Proofs.WellFormed

/-!
# Typed designs

A design that is read is typed when its numeric fields are numbers and its textual fields
texts, as far as they are there. Which numbers count is left open. Reading a well-formed
design succeeds and gives a typed one.
-/

namespace DesignMarkup

def Value.IsText (v : Value) : Prop := ∃ s, v = .text s

/-- The value is null or of a kind. -/
def Value.Maybe (P : Value → Prop) (v : Value) : Prop := v = .null ∨ P v

/-! ## Typed parts -/

variable (Q : Value → Prop)

structure Color.Typed (c : Color) : Prop where
  r : Q c.r
  g : Q c.g
  b : Q c.b
  a : Q c.a

structure Point.Typed (p : Point) : Prop where
  x : Q p.x
  y : Q p.y

structure Box.Typed (b : Box) : Prop where
  x : Q b.x
  y : Q b.y
  width : Q b.width
  height : Q b.height

structure GradientStop.Typed (s : GradientStop) : Prop where
  position : Q s.position
  color : s.color.Typed Q

structure Paint.Typed (p : Paint) : Prop where
  opacity : p.opacity.Maybe Q
  color : ∀ c, p.color = some c → c.Typed Q
  stops : ∀ ss, p.stops = some ss → ∀ s ∈ ss, s.Typed Q
  handles : ∀ hs, p.handles = some hs → ∀ h ∈ hs, h.Typed Q

structure Effect.Typed (e : Effect) : Prop where
  radius : e.radius.Maybe Q
  color : ∀ c, e.color = some c → c.Typed Q
  offset : ∀ o, e.offset = some o → o.Typed Q
  spread : e.spread.Maybe Q

structure TextStyle.Typed (s : TextStyle) : Prop where
  fontFamily : s.fontFamily.Maybe Value.IsText
  fontWeight : s.fontWeight.Maybe Q
  fontSize : s.fontSize.Maybe Q
  textAlign : s.textAlign.Maybe Value.IsText
  letterSpacing : s.letterSpacing.Maybe Q
  lineHeight : s.lineHeight.Maybe Q
  textCase : s.textCase.Maybe Value.IsText
  textDecoration : s.textDecoration.Maybe Value.IsText

structure Layer.Typed (l : Layer) : Prop where
  name : l.name.Maybe Value.IsText
  box : ∀ b, l.box = some b → b.Typed Q
  fills : ∀ p ∈ l.fills, p.Typed Q
  strokes : ∀ p ∈ l.strokes, p.Typed Q
  effects : ∀ e ∈ l.effects, e.Typed Q
  cornerRadius : l.cornerRadius.Maybe Q
  cornerRadii : ∀ rs, l.cornerRadii = some rs → ∀ r ∈ rs, Q r
  opacity : l.opacity.Maybe Q
  primaryAlign : l.primaryAlign.Maybe Value.IsText
  counterAlign : l.counterAlign.Maybe Value.IsText
  paddings : ∀ p ∈ l.paddings, p.Maybe Q
  itemSpacing : l.itemSpacing.Maybe Q
  layoutGrow : l.layoutGrow.Maybe Q
  characters : l.characters.Maybe Value.IsText
  textStyle : ∀ s, l.textStyle = some s → s.Typed Q

namespace Node

mutual

def Typed : Node → Prop
  | node l cs => l.Typed Q ∧ TypedAll cs

def TypedAll : List Node → Prop
  | [] => True
  | n :: rest => Typed n ∧ TypedAll rest

end

end Node

/-! ## Reading -/

/-- A reader turns a value that passes a check into something of a kind. -/
def Reads {α : Type} (check : Schema.Check) (read : Value → Except Fault α) (P : α → Prop) :
    Prop :=
  ∀ v, check v = true → Yields (read v) P

open Schema

section

variable {α : Type} {check : Check} {read : Value → Except Fault α} {P : α → Prop}

theorem reads_each (h : Reads check read P) :
    Reads (listOf check) (each read) fun as => ∀ a ∈ as, P a := by
  intro v hv
  obtain ⟨items, rfl, hitems⟩ := eq_list_of_listOf hv
  exact yields_mapM fun w hw => h w (hitems w hw)

theorem reads_record {fields : List (String × Check)} {f : Members → Except Fault α}
    (h : ∀ ms, fields.all (allows ms) = true → Yields (f ms) P) :
    Reads (record fields) (fun v => v.members? >>= f) P := by
  intro v hv
  obtain ⟨ms, rfl, hfields⟩ := eq_object_of_record hv
  exact h ms hfields

theorem reads_optionally (h : Reads check read P) :
    Reads (orNull check) (optionally read) fun x => ∀ a, x = some a → P a := by
  intro v hv
  unfold optionally
  split
  · exact ⟨none, rfl, nofun⟩
  · rcases orNull_iff.mp hv with rfl | hv
    · contradiction
    · obtain ⟨a, ha, hPa⟩ := h v hv
      refine ⟨some a, by rw [ha]; rfl, ?_⟩
      rintro b hb
      exact Option.some.inj hb ▸ hPa

theorem reads_eachPresent (h : Reads check read P) :
    Reads (orNull (listOf check)) (eachPresent read) fun as => ∀ a ∈ as, P a := by
  intro v hv
  unfold eachPresent Value.itemsOrNone
  split
  · rcases orNull_iff.mp hv with rfl | hv
    · contradiction
    · exact reads_each h v hv
  · exact ⟨[], rfl, nofun⟩

theorem reads_present? (h : Reads check read P) :
    Reads (orNull check) (Layer.present? read) fun x => ∀ a, x = some a → P a := by
  intro v hv
  unfold Layer.present?
  split
  · rcases orNull_iff.mp hv with rfl | hv
    · contradiction
    · obtain ⟨a, ha, hPa⟩ := h v hv
      refine ⟨some a, by rw [ha]; rfl, ?_⟩
      rintro b hb
      exact Option.some.inj hb ▸ hPa
  · exact ⟨none, rfl, nofun⟩

end

/-! ### Parts -/

abbrev IsQuantity : Value → Prop := Value.IsWithin 50

theorem maybe_quantity {ms : Members} {key : String} (h : allows ms (key, orNull quantity) = true) :
    (Members.get ms key).Maybe IsQuantity :=
  (orNull_iff.mp (get_of_allows h)).imp_right isWithin_of_quantity

theorem maybe_text {ms : Members} {key : String} (h : allows ms (key, orNull text) = true) :
    (Members.get ms key).Maybe Value.IsText :=
  (orNull_iff.mp (get_of_allows h)).imp_right eq_text_of_text

theorem getOr_quantity {ms : Members} {key : String} {other : Value}
    (h : allows ms (key, quantity) = true) (hother : quantity other = true) :
    IsQuantity (Members.getOr ms key other) :=
  isWithin_of_quantity (getOr_of_allows h hother)

theorem quantity_zero : quantity (.whole 0) = true := by decide

theorem quantity_one : quantity (.double 1.0) = true := by decide +kernel

theorem reads_color : Reads color Color.ofValue (Color.Typed IsQuantity) := by
  refine reads_record fun ms fields => ?_
  simp only [List.all_cons, List.all_nil, Bool.and_true, Bool.and_eq_true] at fields
  obtain ⟨r, g, b, a⟩ := fields
  exact yields_pure ⟨getOr_quantity r quantity_zero, getOr_quantity g quantity_zero,
    getOr_quantity b quantity_zero, getOr_quantity a quantity_one⟩

theorem reads_point : Reads point Point.ofValue (Point.Typed IsQuantity) := by
  refine reads_record fun ms fields => ?_
  simp only [List.all_cons, List.all_nil, Bool.and_true, Bool.and_eq_true] at fields
  obtain ⟨x, y⟩ := fields
  exact yields_pure ⟨getOr_quantity x quantity_zero, getOr_quantity y quantity_zero⟩

theorem reads_box : Reads box Box.ofValue (Box.Typed IsQuantity) := by
  refine reads_record fun ms fields => ?_
  simp only [List.all_cons, List.all_nil, Bool.and_true, Bool.and_eq_true] at fields
  obtain ⟨x, y, width, height⟩ := fields
  exact yields_pure ⟨getOr_quantity x quantity_zero, getOr_quantity y quantity_zero,
    getOr_quantity width quantity_zero, getOr_quantity height quantity_zero⟩

theorem reads_gradientStop :
    Reads gradientStop GradientStop.ofValue (GradientStop.Typed IsQuantity) := by
  refine reads_record fun ms fields => ?_
  simp only [List.all_cons, List.all_nil, Bool.and_true, Bool.and_eq_true] at fields
  obtain ⟨position, color⟩ := fields
  have black : Schema.color (.object []) = true := rfl
  refine yields_bind (reads_color _ (getOr_of_allows color black)) fun c hc => ?_
  exact yields_pure ⟨getOr_quantity position quantity_zero, hc⟩

theorem reads_paint : Reads paint Paint.ofValue (Paint.Typed IsQuantity) := by
  refine reads_record fun ms fields => ?_
  simp only [List.all_cons, List.all_nil, Bool.and_true, Bool.and_eq_true] at fields
  obtain ⟨-, -, opacity, color, stops, handles, -, -⟩ := fields
  refine yields_bind (reads_optionally reads_color _ (get_of_allows color)) fun c hc => ?_
  refine yields_bind (reads_optionally (reads_each reads_gradientStop) _ (get_of_allows stops))
    fun ss hss => ?_
  refine yields_bind (reads_optionally (reads_each reads_point) _ (get_of_allows handles))
    fun hs hhs => ?_
  exact yields_pure ⟨maybe_quantity opacity, hc, hss, hhs⟩

theorem reads_effect : Reads effect Effect.ofValue (Effect.Typed IsQuantity) := by
  refine reads_record fun ms fields => ?_
  simp only [List.all_cons, List.all_nil, Bool.and_true, Bool.and_eq_true] at fields
  obtain ⟨-, -, radius, color, offset, spread⟩ := fields
  refine yields_bind (reads_optionally reads_color _ (get_of_allows color)) fun c hc => ?_
  refine yields_bind (reads_optionally reads_point _ (get_of_allows offset)) fun o ho => ?_
  exact yields_pure ⟨maybe_quantity radius, hc, ho, maybe_quantity spread⟩

theorem reads_textStyle : Reads textStyle TextStyle.ofValue (TextStyle.Typed IsQuantity) := by
  refine reads_record fun ms fields => ?_
  simp only [List.all_cons, List.all_nil, Bool.and_true, Bool.and_eq_true] at fields
  obtain ⟨family, weight, size, align, spacing, height, letterCase, decoration⟩ := fields
  exact yields_pure
    { fontFamily := maybe_text family
      fontWeight := maybe_quantity weight
      fontSize := maybe_quantity size
      textAlign := maybe_text align
      letterSpacing := maybe_quantity spacing
      lineHeight := maybe_quantity height
      textCase := maybe_text letterCase
      textDecoration := maybe_text decoration }

/-! ### Layers -/

theorem reads_items : Reads (listOf quantity) Value.items? fun rs => ∀ r ∈ rs, IsQuantity r := by
  intro v hv
  obtain ⟨items, rfl, hitems⟩ := eq_list_of_listOf hv
  exact yields_pure fun r hr => isWithin_of_quantity (hitems r hr)

theorem yields_layer {ms : Members} (fields : layer.all (allows ms) = true) :
    Yields (Layer.ofMembers ms) (Layer.Typed IsQuantity) := by
  simp only [layer, List.all_cons, List.all_nil, Bool.and_true, Bool.and_eq_true] at fields
  obtain ⟨-, name, -, box, box', fills, strokes, effects, radii, radii', style, style',
    cornerRadius, opacity, -, -, -, primaryAlign, counterAlign, top, right, bottom, left,
    itemSpacing, layoutGrow, characters, -⟩ := fields
  refine yields_bind (reads_present? reads_box _ (either_of_allows box box')) fun b hb => ?_
  refine yields_bind (reads_eachPresent reads_paint _ (get_of_allows fills)) fun fs hfs => ?_
  refine yields_bind (reads_eachPresent reads_paint _ (get_of_allows strokes)) fun ss hss => ?_
  refine yields_bind (reads_eachPresent reads_effect _ (get_of_allows effects)) fun es hes => ?_
  refine yields_bind (reads_present? reads_items _ (either_of_allows radii radii')) fun rs hrs => ?_
  refine yields_bind (reads_present? reads_textStyle _ (either_of_allows style style'))
    fun t ht => ?_
  -- A name that is absent is the empty text, and one that is null stays null.
  have named : (Members.getOr ms "name" (.text "")).Maybe Value.IsText :=
    (orNull_iff.mp (getOr_of_allows name rfl)).imp_right eq_text_of_text
  have padded : ∀ p ∈ [Members.get ms "paddingTop", Members.get ms "paddingRight",
      Members.get ms "paddingBottom", Members.get ms "paddingLeft"], p.Maybe IsQuantity := by
    simp only [List.mem_cons, List.not_mem_nil, or_false]
    rintro p (rfl | rfl | rfl | rfl)
    · exact maybe_quantity top
    · exact maybe_quantity right
    · exact maybe_quantity bottom
    · exact maybe_quantity left
  exact yields_pure
    { name := named
      box := hb
      fills := hfs
      strokes := hss
      effects := hes
      cornerRadius := maybe_quantity cornerRadius
      cornerRadii := hrs
      opacity := maybe_quantity opacity
      primaryAlign := maybe_text primaryAlign
      counterAlign := maybe_text counterAlign
      paddings := padded
      itemSpacing := maybe_quantity itemSpacing
      layoutGrow := maybe_quantity layoutGrow
      characters := maybe_text characters
      textStyle := ht }

/-! ### Trees -/

namespace Node

mutual

/-- Reading a well-formed design gives a typed tree. -/
theorem yields_ofValue : ∀ v : Value, design v = true → Yields (ofValue v) (Typed IsQuantity)
  | .object ms, h => by
      rw [design, Bool.and_eq_true] at h
      refine yields_bind (yields_ofChildrenMember ms h.2) fun cs hcs => ?_
      exact yields_bind (yields_layer h.1) fun l hl => yields_pure ⟨hl, hcs⟩
  | .null, h => by cases h
  | .bool b, h => by cases h
  | .number n, h => by cases h
  | .text s, h => by cases h
  | .list items, h => by cases h

theorem yields_ofChildrenMember : ∀ ms : List (String × Value), childrenOf ms = true →
    Yields (ofChildrenMember ms) (TypedAll IsQuantity)
  | [], _ => yields_pure trivial
  | (name, v) :: rest, h => by
      by_cases found : (name == "children") = true
      · cases v with
        | null =>
            have : ofChildrenMember ((name, .null) :: rest) = .ok [] := by
              simp [ofChildrenMember, found, Value.isPresent]
            exact ⟨[], this, trivial⟩
        -- The first member of that name decides, as it does for the reader.
        | list items =>
            simp only [childrenOf, found, if_true] at h
            simpa only [ofChildrenMember, found, if_true] using yields_ofValues items h
        | bool b => simp [childrenOf, found] at h
        | number n => simp [childrenOf, found] at h
        | text s => simp [childrenOf, found] at h
        | object ms => simp [childrenOf, found] at h
      · have further : childrenOf rest = true := by cases v <;> simpa [childrenOf, found] using h
        have skipped : ofChildrenMember ((name, v) :: rest) = ofChildrenMember rest := by
          cases v <;> simp [ofChildrenMember, found]
        rw [skipped]
        exact yields_ofChildrenMember rest further

theorem yields_ofValues : ∀ vs : List Value, designs vs = true →
    Yields (ofValues vs) (TypedAll IsQuantity)
  | [], _ => yields_pure trivial
  | v :: rest, h => by
      rw [designs, Bool.and_eq_true] at h
      refine yields_bind (yields_ofValue v h.1) fun n hn => ?_
      exact yields_bind (yields_ofValues rest h.2) fun ns hns => yields_pure ⟨hn, hns⟩

end

end Node

end DesignMarkup
