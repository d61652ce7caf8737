import DesignMarkup.Style.Shadow
import DesignMarkup.Proofs.NumberLine
import DesignMarkup.Proofs.Pruned
import DesignMarkup.Proofs.ValueReader

/-!
# Effects, merged

The visible shadows of a layer make one list of terms, each of which reads back, and the visible
blurs make one filter, with the largest radius. What is hidden or of no known kind counts for
nothing, and so does the order, except for that of the shadows among themselves.
-/

namespace DesignMarkup

/-! ## The reader -/

namespace Css

/-- A shadow as a style sheet has it. The lengths are the texts of numbers. -/
structure PrintedShadow where
  inset : Bool
  x : String
  y : String
  radius : String
  spread : String
  color : PrintedColor
deriving DecidableEq

def length? (s : List Char) : Option String := (withoutUnit? "px" s).map String.ofList

def lengths? (inset : Bool) : List (List Char) → Option PrintedShadow
  | [x, y, radius, spread, color] => do
    pure ⟨inset, ← length? x, ← length? y, ← length? radius, ← length? spread, ← color? color⟩
  | _ => none

def shadow? (row : List (List Char)) : Option PrintedShadow :=
  if row.head? = some "inset".toList then lengths? true row.tail else lengths? false row

def shadows? (s : List Char) : Option (List PrintedShadow) := (rows s).mapM shadow?

def length (t : String) : List Char := t.toList ++ "px".toList

@[simp] theorem length?_length (t : String) : length? (length t) = some t := by
  rw [length?, length, withoutUnit?_append, Option.map_some, String.ofList_toList]

/-- A length is not the word of an inner shadow. -/
theorem length_ne_inset (t : String) : length t ≠ "inset".toList := by
  intro same
  have px : "px".toList.getLast? = some 'x' := by decide
  have last := congrArg List.getLast? same
  rw [length, List.getLast?_append, px, Option.some_or] at last
  revert last
  decide

/-- The parts of a shadow, the colour in the spelling that it has. -/
def PrintedShadow.parts (shadow : PrintedShadow) (ink : List Char) : List (List Char) :=
  (if shadow.inset then ["inset".toList] else [])
    ++ [length shadow.x, length shadow.y, length shadow.radius, length shadow.spread, ink]

theorem shadow?_parts {shadow : PrintedShadow} {ink : List Char}
    (read : color? ink = some shadow.color) : shadow? (shadow.parts ink) = some shadow := by
  obtain ⟨inset, x, y, radius, spread, color⟩ := shadow
  have body (inset : Bool) : lengths? inset [length x, length y, length radius, length spread, ink]
      = some ⟨inset, x, y, radius, spread, color⟩ := by
    simp [lengths?, read]
  cases inset with
  | true => exact body true
  | false =>
      have other : (some (length x) : Option (List Char)) ≠ some "inset".toList :=
        fun same => length_ne_inset x (Option.some.inj same)
      exact (if_neg other).trans (body false)

end Css

open Css

/-! ## Values of effects -/

namespace Value

def IsPlaced (v : Value) : Prop := ∃ n, v = .number n ∧ n.IsPlaced

def IsNumeric (v : Value) : Prop := v.number?.isSome = true

instance (v : Value) : Decidable v.IsNumeric := inferInstanceAs (Decidable (_ = true))

/-- The number that a value counts as, zero where it counts as none. -/
def orZero (v : Value) : Number := v.number?.getD (.whole 0)

section

variable {v : Value}

theorem isPlaced_orZero (h : v.Maybe IsPlaced) : v.orZero.IsPlaced := by
  rcases h with rfl | ⟨n, rfl, placed⟩
  · rfl
  · exact placed

theorem isNumeric_orElse_zero (h : v.Maybe IsPlaced) : (v.orElse (.whole 0)).IsNumeric := by
  rcases h with rfl | ⟨n, rfl, -⟩
  · rfl
  · rw [orElse]
    split <;> rfl

/-- Zero in the place of what is absent or zero leaves the number where it is. -/
theorem orElse_zero (h : v.Maybe IsPlaced) : v.orElse (.whole 0) = .number v.orZero ∨
    (v.orElse (.whole 0) = .whole 0 ∧ v.orZero.same (.whole 0) = true) := by
  rcases h with rfl | ⟨n, rfl, -⟩
  · exact Or.inl rfl
  · cases zero : n.isZero with
    | true => exact Or.inr ⟨by simp [orElse, isPresent, zero], zero⟩
    | false => exact Or.inl (by simp [orElse, isPresent, zero, orZero, number?])

theorem written_orElse_zero (h : v.Maybe IsPlaced) :
    (v.orElse (.whole 0)).written = v.orZero.written := by
  rcases orElse_zero h with value | ⟨value, zero⟩
  · rw [value, written]
  · rw [value, Number.written_eq_of_same zero]
    rfl

theorem isPart_length_written (h : v.IsNumeric) : IsPart (length v.written) := by
  cases v with
  | bool b => cases b <;> exact isPart_of_isPlain (by decide) (by decide)
  | number n =>
      have part := isPart_pixels n
      rwa [pixels, String.toList_append] at part
  | null => cases h
  | text s => cases h
  | list items => cases h
  | object members => cases h

end

end Value

/-! ## One effect -/

namespace Effect

def isSeenShadow (e : Effect) : Bool := e.visible.isPresent && e.isShadow

def isSeenBlur (e : Effect) : Bool := e.visible.isPresent && e.isBlur

/-- Radius and spread are numbers on the line, where there are any, and the offset is numeric. -/
structure Measured (e : Effect) : Prop where
  radius : e.radius.Maybe Value.IsPlaced
  spread : e.spread.Maybe Value.IsPlaced
  offset : ∀ o, e.offset = some o → o.x.IsNumeric ∧ o.y.IsNumeric

def shift (e : Effect) : Point := e.offset.getD ⟨.whole 0, .whole 0⟩

/-- The colour that a shadow comes to, black with an alpha of a quarter where it has none. -/
def PrintsColor (e : Effect) (printed : PrintedColor) : Prop :=
  match e.color with
  | none => printed = ⟨0, 0, 0, some "0.25"⟩
  | some c => c.Prints printed

/-- What a shadow comes to. -/
structure PrintsShadow (e : Effect) (printed : PrintedShadow) : Prop where
  inset : printed.inset = e.isInner
  x : printed.x = e.shift.x.written
  y : printed.y = e.shift.y.written
  radius : printed.radius = e.radius.orZero.written
  spread : printed.spread = e.spread.orZero.written
  color : e.PrintsColor printed.color

variable {e : Effect} {s : String}

/-- A shadow is no blur. -/
theorem isBlur_of_isShadow (h : e.isShadow = true) : e.isBlur = false := by
  unfold isShadow isInner at h
  unfold isBlur
  cases kind : e.kind with
  | text t =>
      simp only [kind, Value.isText, Bool.or_eq_true, beq_iff_eq] at h
      rcases h with rfl | rfl <;> decide
  | _ => simp [kind, Value.isText] at h

theorem isNumeric_shift (he : e.Measured) : e.shift.x.IsNumeric ∧ e.shift.y.IsNumeric := by
  rw [shift]
  cases offset : e.offset with
  | none => exact ⟨rfl, rfl⟩
  | some o => exact he.offset o offset

theorem exists_prints_of_colorCss (h : e.colorCss = .ok s) :
    ∃ printed, e.PrintsColor printed ∧ IsPart s.toList ∧ color? s.toList = some printed := by
  unfold PrintsColor
  rw [colorCss] at h
  cases color : e.color with
  | some c =>
      rw [color] at h
      exact Color.exists_prints_of_css h
  | none =>
      rw [color] at h
      obtain rfl := Except.ok.inj h
      have part : IsPart ("rgba".toList ++ '(' :: ("0,0,0,0.25".toList ++ [')'])) :=
        isPart_function (by decide) (by decide)
      exact ⟨_, rfl, part, by decide⟩

theorem shift_eq (e : Effect) : e.shift
    = ⟨(e.offset.map Point.x).getD (.whole 0), (e.offset.map Point.y).getD (.whole 0)⟩ := by
  rw [shift]
  cases e.offset <;> rfl

/-- The text of a shadow reads back as what the shadow comes to. -/
theorem exists_prints_of_shadowCss (he : e.Measured) (h : e.shadowCss = .ok s) :
    ∃ printed, e.PrintsShadow printed ∧ ReadsAs shadow? s printed := by
  obtain ⟨ink, css, h⟩ := bind_eq_ok_iff.mp h
  obtain rfl := pure_eq_ok_iff.mp h
  obtain ⟨color, prints, part, read⟩ := exists_prints_of_colorCss css
  obtain ⟨x, y⟩ := isNumeric_shift he
  let printed : PrintedShadow :=
    ⟨e.isInner, e.shift.x.written, e.shift.y.written, (e.radius.orElse (.whole 0)).written,
      (e.spread.orElse (.whole 0)).written, color⟩
  refine ⟨printed, ⟨rfl, rfl, rfl, Value.written_orElse_zero he.radius,
    Value.written_orElse_zero he.spread, prints⟩, printed.parts ink.toList, ⟨?_, ?_⟩, ?_,
    shadow?_parts read⟩
  · exact List.append_ne_nil_of_right_ne_nil _ (List.cons_ne_nil _ _)
  · have word : IsPart "inset".toList := isPart_of_isPlain (by decide) (by decide)
    have radius := Value.isPart_length_written (Value.isNumeric_orElse_zero he.radius)
    have spread := Value.isPart_length_written (Value.isNumeric_orElse_zero he.spread)
    refine List.forall_mem_append.mpr ⟨?_, ?_⟩
    · split
      · simpa using word
      · exact nofun
    · simp only [List.forall_mem_cons]
      exact ⟨Value.isPart_length_written x, Value.isPart_length_written y, radius, spread, part,
        nofun⟩
  · cases inner : e.isInner <;>
      simp [printed, PrintedShadow.parts, inner, length, Value.pixels, shift_eq]

theorem widerBlur_of_orElse {n : Number} (h : e.radius.orElse (.whole 0) = .number n) (b : Number) :
    e.widerBlur (.number b) = .ok (.number (Number.larger b n)) := by
  have compare : e.widerBlur (.number b)
      = if b.less n then .ok (.number n) else .ok (.number b) := by
    unfold widerBlur
    rw [h]
    rfl
  rw [compare, Number.larger]
  split <;> rfl

/-- A radius is compared with the blur so far, which is never below zero. -/
theorem widerBlur_eq (he : e.Measured) {b : Number} (hb : b.IsPlaced)
    (low : (Number.whole 0).spot ≤ b.spot) :
    e.widerBlur (.number b) = .ok (.number (Number.larger b e.radius.orZero)) := by
  rcases Value.orElse_zero he.radius with value | ⟨value, zero⟩
  · exact widerBlur_of_orElse value b
  · -- Neither zero nor the number in its place lies above the blur.
    have placed := Value.isPlaced_orZero he.radius
    have same := (Number.same_iff_spot placed (Number.isPlaced_whole 0)).mp zero
    rw [widerBlur_of_orElse value b, Number.larger_of_spot_le hb (Number.isPlaced_whole 0) low,
      Number.larger_of_spot_le hb placed (same ▸ low)]

end Effect

/-! ## All effects -/

namespace Shadows

open Effect (isSeenShadow isSeenBlur)

def radii (effects : List Effect) : List Number :=
  (effects.filter isSeenBlur).map fun e => e.radius.orZero

section

variable {s : Shadows} {e : Effect}

theorem add_of_isSeenShadow (h : e.isSeenShadow = true) :
    s.add e = e.shadowCss.map fun t => { s with terms := s.terms ++ [t] } := by
  obtain ⟨visible, shadow⟩ := Bool.and_eq_true_iff.mp h
  rw [add, visible, shadow]
  rfl

theorem add_of_isSeenBlur (h : e.isSeenBlur = true) :
    s.add e = (e.widerBlur s.blur).map fun blur => { s with blur := blur } := by
  obtain ⟨visible, blur⟩ := Bool.and_eq_true_iff.mp h
  have other : e.isShadow = false := by
    rw [← Bool.not_eq_true]
    intro shadow
    rw [Effect.isBlur_of_isShadow shadow] at blur
    cases blur
  rw [add, visible, other, blur]
  rfl

theorem isSeenBlur_of_isSeenShadow (h : e.isSeenShadow = true) : e.isSeenBlur = false := by
  have shadow := (Bool.and_eq_true_iff.mp h).2
  rw [isSeenBlur, Effect.isBlur_of_isShadow shadow, Bool.and_false]

theorem isSeen_eq_or (e : Effect) : e.isSeen = (e.isSeenShadow || e.isSeenBlur) :=
  Bool.and_or_distrib_left _ _ _

end

/-- The effects come to the terms of the visible shadows and to the largest of the radii and the
blur so far. -/
theorem foldlM_add {effects : List Effect} (measured : ∀ e ∈ effects, e.isSeen = true → e.Measured)
    (terms : List String) {b : Number} (hb : b.IsPlaced) (low : (Number.whole 0).spot ≤ b.spot) :
    effects.foldlM add ⟨terms, .number b⟩ =
      ((effects.filter isSeenShadow).mapM Effect.shadowCss).map fun ts =>
        ⟨terms ++ ts, .number ((radii effects).foldl Number.larger b)⟩ := by
  induction effects generalizing terms b with
  | nil => simp [radii, Except.map, pure, Except.pure]
  | cons e rest ih =>
      obtain ⟨he, hrest⟩ := List.forall_mem_cons.mp measured
      rw [isSeen_eq_or] at he
      rw [List.foldlM_cons]
      cases shadow : e.isSeenShadow with
      | true =>
          have noBlur := isSeenBlur_of_isSeenShadow shadow
          rw [add_of_isSeenShadow shadow, List.filter_cons_of_pos shadow, List.mapM_cons, radii,
            List.filter_cons_of_neg (by simp [noBlur])]
          cases css : e.shadowCss with
          | error f => rfl
          | ok t =>
              refine (ih hrest (terms ++ [t]) hb low).trans ?_
              cases (rest.filter isSeenShadow).mapM Effect.shadowCss with
              | error f => rfl
              | ok ts => simp [radii, Except.map, bind, Except.bind, pure, Except.pure]
      | false =>
          rw [List.filter_cons_of_neg (by simp [shadow])]
          cases blur : e.isSeenBlur with
          | true =>
              have measuredE := he (by simp [blur])
              have placed := Value.isPlaced_orZero measuredE.radius
              rw [add_of_isSeenBlur blur, Effect.widerBlur_eq measuredE hb low, radii,
                List.filter_cons_of_pos blur]
              refine ih hrest terms (Number.isPlaced_larger hb placed) ?_
              rw [Number.spot_larger hb placed]
              exact low.trans (le_max_left _ _)
          | false =>
              have unseen : e.isSeen = false := by rw [isSeen_eq_or, shadow, blur]; rfl
              rw [add_of_unseen unseen, radii, List.filter_cons_of_neg (by simp [blur])]
              exact ih hrest terms hb low

def shadowValue (terms : List String) : Option String :=
  if terms.isEmpty then Option.none else some (", ".intercalate terms)

def filterValue (radius : Number) : Option String :=
  if (Number.whole 0).less radius then some ("blur(" ++ (Value.number radius).pixels ++ ")")
  else Option.none

def widest (effects : List Effect) : Number := (radii effects).foldl Number.larger (.whole 0)

theorem isPlaced_of_mem_radii {effects : List Effect}
    (measured : ∀ e ∈ effects, e.isSeen = true → e.Measured) : ∀ n ∈ radii effects, n.IsPlaced := by
  intro n hn
  obtain ⟨e, he, rfl⟩ := List.mem_map.mp hn
  obtain ⟨mem, blur⟩ := List.mem_filter.mp he
  exact Value.isPlaced_orZero (measured e mem (by simp [isSeen_eq_or, blur])).radius

theorem isLargest_widest {effects : List Effect}
    (measured : ∀ e ∈ effects, e.isSeen = true → e.Measured) :
    Number.IsLargest (.whole 0 :: radii effects) (widest effects) :=
  Number.isLargest_foldl_larger (Number.isPlaced_whole 0) (isPlaced_of_mem_radii measured)

theorem filterValue_eq_some_iff {r : Number} {v : String} : filterValue r = some v ↔
    (Number.whole 0).less r = true ∧ v = "blur(" ++ (Value.number r).pixels ++ ")" := by
  unfold filterValue
  split
  · rename_i above
    rw [Option.some.injEq, eq_comm, and_iff_right above]
  · rename_i above
    exact iff_of_false nofun fun h => above h.1

end Shadows

namespace Layer

open Effect (isSeenShadow isSeenBlur)
open Shadows (radii widest shadowValue filterValue)

variable {l : Layer}

/-- What the effects of a layer declare, the terms of its shadows being given. -/
theorem effectStyle_eq {terms : List String}
    (measured : ∀ e ∈ l.effects, e.isSeen = true → e.Measured)
    (css : (l.effects.filter isSeenShadow).mapM Effect.shadowCss = .ok terms) :
    l.effectStyle = ⟨((shadowValue terms).map (.declare .boxShadow)).toList
      ++ ((filterValue (widest l.effects)).map (.declare .filter)).toList, .ok ()⟩ := by
  have shadows : Shadows.ofEffects l.effects = .ok ⟨terms, .number (widest l.effects)⟩ := by
    refine (Shadows.foldlM_add measured [] (Number.isPlaced_whole 0) le_rfl).trans ?_
    rw [css]
    rfl
  have blurred : (Value.number (widest l.effects)).greater (.whole 0)
      = .ok ((Number.whole 0).less (widest l.effects)) := rfl
  have list : (Resolver.only (!terms.isEmpty) (Resolver.set .boxShadow (", ".intercalate terms)))
      = ⟨((shadowValue terms).map (.declare .boxShadow)).toList, .ok ()⟩ := by
    unfold shadowValue
    cases terms <;> rfl
  have blur : (Resolver.only ((Number.whole 0).less (widest l.effects))
      (Resolver.set .filter ("blur(" ++ (Value.number (widest l.effects)).pixels ++ ")")))
      = ⟨((filterValue (widest l.effects)).map (.declare .filter)).toList, .ok ()⟩ := by
    unfold filterValue
    cases (Number.whole 0).less (widest l.effects) <;> rfl
  rw [effectStyle, Writing.lift_bind_of_ok shadows, list]
  refine (Writing.bind_of_ok rfl).trans ?_
  rw [Writing.lift_bind_of_ok blurred, blur]

theorem exists_terms (measured : ∀ e ∈ l.effects, e.isSeen = true → e.Measured)
    (success : l.effectStyle.outcome = .ok ()) :
    ∃ terms, (l.effects.filter isSeenShadow).mapM Effect.shadowCss = .ok terms := by
  obtain ⟨shadows, h, -⟩ := Writing.outcome_bind_eq_ok_iff.mp success
  have fold := Shadows.foldlM_add measured [] (Number.isPlaced_whole 0) le_rfl
  obtain ⟨terms, css, -⟩ := map_eq_ok_iff.mp (fold.symm.trans h)
  exact ⟨terms, css⟩

end Layer

/-! ## Effects in another order -/

/-- One list of effects comes of another by steps that change the order, except for that of the
visible shadows, and that put in or take out what is hidden or of no known kind. -/
inductive Rearranged : List Effect → List Effect → Prop where
  | permuted {before after : List Effect} : before.Perm after →
      before.filter Effect.isSeenShadow = after.filter Effect.isSeenShadow →
      Rearranged before after
  | inserted {e : Effect} (front rest : List Effect) : e.isSeen = false →
      Rearranged (front ++ rest) (front ++ e :: rest)
  | removed {e : Effect} (front rest : List Effect) : e.isSeen = false →
      Rearranged (front ++ e :: rest) (front ++ rest)
  | trans {first second third : List Effect} : Rearranged first second →
      Rearranged second third → Rearranged first third

namespace Rearranged

open Effect (isSeen isSeenShadow isSeenBlur)
open Shadows (isSeen_eq_or radii)

variable {before after : List Effect}

/-- What is seen stays, the shadows in their order. -/
theorem keeps (h : Rearranged before after) :
    (before.filter isSeen).Perm (after.filter isSeen) ∧
      before.filter isSeenShadow = after.filter isSeenShadow := by
  have drop {e : Effect} (front rest : List Effect) (unseen : e.isSeen = false) :
      (front ++ e :: rest).filter isSeen = (front ++ rest).filter isSeen ∧
        (front ++ e :: rest).filter isSeenShadow = (front ++ rest).filter isSeenShadow := by
    have shadow : e.isSeenShadow = false := by
      rw [isSeen_eq_or, Bool.or_eq_false_iff] at unseen
      exact unseen.1
    simp [List.filter_append, unseen, shadow]
  induction h with
  | permuted perm shadows => exact ⟨perm.filter _, shadows⟩
  | inserted front rest unseen =>
      obtain ⟨seen, shadows⟩ := drop front rest unseen
      exact ⟨.of_eq seen.symm, shadows.symm⟩
  | removed front rest unseen =>
      obtain ⟨seen, shadows⟩ := drop front rest unseen
      exact ⟨.of_eq seen, shadows⟩
  | trans _ _ first second => exact ⟨first.1.trans second.1, first.2.trans second.2⟩

theorem measured (h : Rearranged before after)
    (all : ∀ e ∈ before, e.isSeen = true → e.Measured) :
    ∀ e ∈ after, e.isSeen = true → e.Measured := by
  intro e he seen
  have there := h.keeps.1.mem_iff.mpr (List.mem_filter.mpr ⟨he, seen⟩)
  exact all e (List.mem_filter.mp there).1 seen

theorem radii_perm (h : Rearranged before after) : (radii before).Perm (radii after) := by
  have blurs (effects : List Effect) :
      effects.filter isSeenBlur = (effects.filter isSeen).filter isSeenBlur := by
    rw [List.filter_filter]
    refine List.filter_congr fun e _ => ?_
    rw [isSeen_eq_or]
    cases e.isSeenBlur <;> simp
  rw [radii, radii, blurs before, blurs after]
  exact (h.keeps.1.filter _).map _

/-- The largest radii of the two may be of different kinds, and are written alike. -/
theorem filterValue_widest (h : Rearranged before after)
    (all : ∀ e ∈ before, e.isSeen = true → e.Measured) :
    Shadows.filterValue (Shadows.widest before) = Shadows.filterValue (Shadows.widest after) := by
  have large := Shadows.isLargest_widest all
  have other := Shadows.isLargest_widest (h.measured all)
  have placed := List.forall_mem_cons.mpr
    ⟨Number.isPlaced_whole 0, Shadows.isPlaced_of_mem_radii all⟩
  have alike (n : Number) :
      n ∈ Number.whole 0 :: radii before ↔ n ∈ Number.whole 0 :: radii after :=
    (h.radii_perm.cons (.whole 0)).mem_iff
  have same := large.same placed alike other
  have placedB := placed _ ((alike _).mpr other.mem)
  have spot := (Number.same_iff_spot (placed _ large.mem) placedB).mp same
  have above : (Number.whole 0).less (Shadows.widest before)
      = (Number.whole 0).less (Shadows.widest after) := by
    rw [Bool.eq_iff_iff, Number.less_iff_spot (Number.isPlaced_whole 0) (placed _ large.mem),
      Number.less_iff_spot (Number.isPlaced_whole 0) placedB, spot]
  unfold Shadows.filterValue
  rw [above]
  simp only [Value.pixels, Value.written, Number.written_eq_of_same same]

end Rearranged

/-! ## The style -/

namespace Shadows

open Effect (isSeenShadow isSeenBlur)

variable {effects : List Effect}

/-- The list of shadows reads back as the visible shadows. -/
theorem shadowValue_reads_back (measured : ∀ e ∈ effects, e.Measured) {terms : List String}
    (css : (effects.filter isSeenShadow).mapM Effect.shadowCss = .ok terms) :
    ((shadowValue terms).isSome = true ↔ ∃ e ∈ effects, e.isSeenShadow = true) ∧
    ∀ v, shadowValue terms = some v → ∃ shadows, shadows? v.toList = some shadows ∧
      List.Forall₂ Effect.PrintsShadow (effects.filter isSeenShadow) shadows := by
  obtain ⟨shadows, prints, reads⟩ := exists_forall₂_of_mapM (fun e he t =>
    Effect.exists_prints_of_shadowCss (measured e (List.mem_filter.mp he).1)) css
  have some_iff : terms ≠ [] ↔ ∃ e ∈ effects, e.isSeenShadow = true := by
    rw [← List.length_pos_iff, reads.length_eq, ← prints.length_eq, List.length_filter_pos_iff]
  have value (given : terms ≠ []) : shadowValue terms = some (", ".intercalate terms) := by
    rw [shadowValue, if_neg (by simpa using given)]
  rw [← some_iff]
  by_cases given : terms = []
  · subst given
    exact ⟨by simp [shadowValue], nofun⟩
  · rw [value given]
    refine ⟨iff_of_true rfl given, ?_⟩
    rintro v same
    obtain rfl := Option.some.inj same
    exact ⟨shadows, mapM_rows given reads, prints⟩

/-- The filter has the largest radius, if that is above zero. -/
theorem filterValue_widest (measured : ∀ e ∈ effects, e.isSeen = true → e.Measured) :
    ((filterValue (widest effects)).isSome = true ↔
      ∃ e ∈ effects, e.isSeenBlur = true ∧ (Number.whole 0).less e.radius.orZero = true) ∧
    ∀ v, filterValue (widest effects) = some v → ∃ r, Number.IsLargest (radii effects) r ∧
      v = "blur(" ++ (Value.number r).pixels ++ ")" := by
  have largest := isLargest_widest measured
  have mem (above : (Number.whole 0).less (widest effects) = true) :
      widest effects ∈ radii effects := by
    rcases List.mem_cons.mp largest.mem with zero | mem
    · rw [zero, Number.less_whole] at above
      exact absurd (of_decide_eq_true above) (lt_irrefl 0)
    · exact mem
  have mem_radii {n : Number} : n ∈ radii effects ↔
      ∃ e ∈ effects, e.isSeenBlur = true ∧ e.radius.orZero = n := by
    simp [radii, and_assoc]
  constructor
  · rw [Option.isSome_iff_exists]
    constructor
    · rintro ⟨v, value⟩
      obtain ⟨above, -⟩ := filterValue_eq_some_iff.mp value
      obtain ⟨e, he, blur, radius⟩ := mem_radii.mp (mem above)
      exact ⟨e, he, blur, radius ▸ above⟩
    · rintro ⟨e, he, blur, above⟩
      have one : e.radius.orZero ∈ radii effects := mem_radii.mpr ⟨e, he, blur, rfl⟩
      have zero := Number.isPlaced_whole 0
      have placed := List.forall_mem_cons.mpr ⟨zero, isPlaced_of_mem_radii measured⟩
      have placedE := placed _ (List.mem_cons_of_mem _ one)
      have placedW := placed _ largest.mem
      have atLeast := (Number.atLeast_iff_spot placedW placedE).mp
        (largest.atLeast _ (List.mem_cons_of_mem _ one))
      rw [Number.less_iff_spot zero placedE] at above
      have wide := (Number.less_iff_spot zero placedW).mpr (above.trans_le atLeast)
      exact ⟨_, filterValue_eq_some_iff.mpr ⟨wide, rfl⟩⟩
  · intro v value
    obtain ⟨above, text⟩ := filterValue_eq_some_iff.mp value
    exact ⟨_, ⟨mem above, fun n hn => largest.atLeast n (List.mem_cons_of_mem _ hn)⟩, text⟩

end Shadows

namespace Layer

open Effect (isSeenShadow isSeenBlur)

/-- Effects make at most one list of shadows and one filter. The list is there exactly if a shadow
is visible, and reads back as the visible shadows in order; the filter is there exactly if a visible
blur has a radius above zero, and has the largest radius. Effects in another order make the same, as
long as the visible shadows keep theirs, and what is hidden or unknown makes no difference. -/
theorem effects_merge {l : Layer} (measured : ∀ e ∈ l.effects, e.Measured)
    (success : l.effectStyle.outcome = .ok ()) :
    (∃ list blur : Option String,
      l.effectStyle.written
        = (list.map (.declare .boxShadow)).toList ++ (blur.map (.declare .filter)).toList ∧
      (list.isSome = true ↔ ∃ e ∈ l.effects, e.isSeenShadow = true) ∧
      (∀ v, list = some v → ∃ shadows, shadows? v.toList = some shadows ∧
        List.Forall₂ Effect.PrintsShadow (l.effects.filter isSeenShadow) shadows) ∧
      (blur.isSome = true ↔
        ∃ e ∈ l.effects, e.isSeenBlur = true ∧ (Number.whole 0).less e.radius.orZero = true) ∧
      ∀ v, blur = some v → ∃ r, Number.IsLargest (Shadows.radii l.effects) r ∧
        v = "blur(" ++ (Value.number r).pixels ++ ")") ∧
    ∀ effects, Rearranged l.effects effects →
      { l with effects := effects }.effectStyle = l.effectStyle := by
  have seen : ∀ e ∈ l.effects, e.isSeen = true → e.Measured := fun e he _ => measured e he
  obtain ⟨terms, css⟩ := exists_terms seen success
  rw [effectStyle_eq seen css]
  constructor
  · obtain ⟨shadowThere, shadowText⟩ := Shadows.shadowValue_reads_back measured css
    obtain ⟨blurThere, blurText⟩ := Shadows.filterValue_widest seen
    exact ⟨_, _, rfl, shadowThere, shadowText, blurThere, blurText⟩
  · intro effects rearranged
    have same := rearranged.keeps.2
    rw [same] at css
    rw [effectStyle_eq (l := { l with effects := effects }) (rearranged.measured seen) css,
      rearranged.filterValue_widest seen]

def plainEffect (kind : String) (radius : Value) : Effect :=
  { (default : Effect) with kind := .text kind, visible := .bool true, radius := radius }

theorem measured_plainEffect (kind : String) (n : Int) :
    (plainEffect kind (.whole n)).Measured :=
  ⟨Or.inr ⟨.whole n, rfl, rfl⟩, Or.inl rfl, nofun⟩

/-- Two shadows and two blurs of the same radius, one a whole number and one a double, with
something hidden and something unknown between them. -/
def frostedPane : Layer :=
  { (default : Layer) with
    effects := [
      plainEffect "DROP_SHADOW" (.whole 6), plainEffect "LAYER_BLUR" (.whole 8),
      { plainEffect "INNER_SHADOW" (.whole 2) with visible := .bool false },
      plainEffect "INNER_SHADOW" (.whole 3), plainEffect "BACKGROUND_BLUR" (.double 8.0),
      plainEffect "TEXTURE" (.whole 9)] }

/-- What is seen of `frostedPane`, the last blur first. -/
def frostedEffects : List Effect :=
  [plainEffect "BACKGROUND_BLUR" (.double 8.0), plainEffect "DROP_SHADOW" (.whole 6),
    plainEffect "LAYER_BLUR" (.whole 8), plainEffect "INNER_SHADOW" (.whole 3)]

theorem rearranged_frostedEffects : Rearranged frostedPane.effects frostedEffects := by
  have hidden := Rearranged.removed
    (e := { plainEffect "INNER_SHADOW" (.whole 2) with visible := .bool false })
    [plainEffect "DROP_SHADOW" (.whole 6), plainEffect "LAYER_BLUR" (.whole 8)]
    [plainEffect "INNER_SHADOW" (.whole 3), plainEffect "BACKGROUND_BLUR" (.double 8.0),
      plainEffect "TEXTURE" (.whole 9)] rfl
  have unknown := Rearranged.removed (e := plainEffect "TEXTURE" (.whole 9))
    [plainEffect "DROP_SHADOW" (.whole 6), plainEffect "LAYER_BLUR" (.whole 8),
      plainEffect "INNER_SHADOW" (.whole 3), plainEffect "BACKGROUND_BLUR" (.double 8.0)] [] rfl
  have moved : ([plainEffect "DROP_SHADOW" (.whole 6), plainEffect "LAYER_BLUR" (.whole 8),
      plainEffect "INNER_SHADOW" (.whole 3)] ++ [plainEffect "BACKGROUND_BLUR" (.double 8.0)]).Perm
      frostedEffects := List.perm_middle
  exact (hidden.trans unknown).trans (.permuted moved rfl)

set_option maxRecDepth 20000 in
theorem frostedPane_merges :
    frostedPane.effectStyle.written.filterMap StyleEntry.declaration? =
      [(.boxShadow, "0px 0px 6px 0px rgba(0,0,0,0.25), inset 0px 0px 3px 0px rgba(0,0,0,0.25)"),
        (.filter, "blur(8px)")] ∧
    { frostedPane with effects := frostedEffects }.effectStyle = frostedPane.effectStyle := by
  have eight : (plainEffect "BACKGROUND_BLUR" (.double 8.0)).Measured :=
    ⟨Or.inr ⟨.double 8.0, rfl, by decide +kernel⟩, Or.inl rfl, nofun⟩
  have measured : ∀ e ∈ frostedPane.effects, e.Measured := by
    simp only [frostedPane, List.forall_mem_cons]
    exact ⟨measured_plainEffect _ 6, measured_plainEffect _ 8,
      ⟨Or.inr ⟨.whole 2, rfl, rfl⟩, Or.inl rfl, nofun⟩, measured_plainEffect _ 3, eight,
      measured_plainEffect _ 9, nofun⟩
  obtain ⟨-, rearranged⟩ := effects_merge measured (by decide +kernel)
  exact ⟨by decide +kernel, rearranged _ rearranged_frostedEffects⟩

end Layer

end DesignMarkup
