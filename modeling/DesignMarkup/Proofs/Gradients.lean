import DesignMarkup.Style.Fill
import DesignMarkup.Proofs.Total
import DesignMarkup.Proofs.ValueReader

/-!
# Gradients, read back

A gradient keeps all its stops. From the text alone a reader recovers the kind of the gradient, the
angle of a linear one, and the stops in order: the channels of each, its place in percent, and its
alpha unless that is one.
-/

namespace DesignMarkup

namespace Css

/-! ## The reader -/

structure PrintedStop where
  color : PrintedColor
  percent : Int
deriving DecidableEq

inductive PrintedGradient where
  | missing
  | linear (degrees : Int) (stops : List PrintedStop)
  | radial (stops : List PrintedStop)
deriving DecidableEq

def stop? : List (List Char) → Option PrintedStop
  | [color, place] => do
    pure ⟨← color? color, ← quantity? "%" place⟩
  | _ => none

def linear? (arguments : List Char) : Option PrintedGradient :=
  match rows arguments with
  | [angle] :: stops => do
    pure (.linear (← quantity? "deg" angle) (← stops.mapM stop?))
  | _ => none

def radial? (arguments : List Char) : Option PrintedGradient :=
  match rows arguments with
  | [shape] :: stops =>
    if shape = "circle".toList then do pure (.radial (← stops.mapM stop?)) else none
  | _ => none

def gradient? (s : List Char) : Option PrintedGradient :=
  match arguments? "linear-gradient" s, arguments? "radial-gradient" s with
  | some arguments, _ => linear? arguments
  | none, some arguments => radial? arguments
  | none, none => if s = "transparent".toList then some .missing else none

section

variable {ts : List String} {stops : List PrintedStop} (some : ts ≠ [])
  (reads : List.Forall₂ (ReadsAs stop?) ts stops)

include some reads

theorem linear?_text (degrees : Int) :
    linear? (quantity degrees "deg" ++ [',', ' '] ++ (", ".intercalate ts).toList)
      = .some (.linear degrees stops) := by
  rw [linear?, rows_behind some reads (isPart_quantity degrees (by decide))]
  simp only [quantity?_quantity, mapM_rows some reads, Option.bind_eq_bind, Option.bind_some,
    Option.pure_def]

theorem radial?_text :
    radial? ("circle".toList ++ [',', ' '] ++ (", ".intercalate ts).toList)
      = .some (.radial stops) := by
  rw [radial?, rows_behind some reads (isPart_of_isPlain (by decide) (by decide))]
  simp only [if_true, mapM_rows some reads, Option.bind_eq_bind, Option.bind_some, Option.pure_def]

end

end Css

/-! ## Paints -/

namespace Paint

open Css

/-- What a stop of the paint comes to: its colour with the alpha that the opacity of the paint makes
of its own, and its place in percent. -/
structure PrintsStop (p : Paint) (stop : GradientStop) (printed : PrintedStop) : Prop where
  color : ∃ alpha, p.alphaOf stop.color = .ok alpha ∧
    (stop.color.withAlpha alpha).Prints printed.color
  percent : (do (← stop.position.times (.whole 100)).roundHalfUp) = .ok printed.percent

variable {p : Paint} {stop : GradientStop} {s : String}

theorem exists_prints_of_stopCss (h : p.stopCss stop = .ok s) :
    ∃ printed, p.PrintsStop stop printed ∧ ReadsAs stop? s printed := by
  obtain ⟨alpha, product, h⟩ := bind_eq_ok_iff.mp h
  obtain ⟨place, percent, h⟩ := bind_eq_ok_iff.mp h
  obtain ⟨color, css, h⟩ := bind_eq_ok_iff.mp h
  obtain rfl := pure_eq_ok_iff.mp h
  obtain ⟨printed, prints, part, read⟩ := Color.exists_prints_of_css css
  obtain ⟨v, times, percent⟩ := bind_eq_ok_iff.mp percent
  obtain ⟨n, round, percent⟩ := bind_eq_ok_iff.mp percent
  obtain rfl := pure_eq_ok_iff.mp percent
  refine ⟨⟨printed, n⟩, ⟨⟨alpha, product, prints⟩, bind_eq_ok_iff.mpr ⟨v, times, round⟩⟩,
    [color.toList, quantity n "%"], ⟨List.cons_ne_nil _ _, ?_⟩, ?_, ?_⟩
  · have place : IsPart (quantity n "%") := isPart_quantity n (by decide)
    simp [part, place]
  · simp [quantity, Number.plain]
  · simp [stop?, read]

theorem exists_prints_of_stopsCss (present : p.hasStops = true) (h : p.stopsCss = .ok s) :
    ∃ ts stops, ts ≠ [] ∧ s = ", ".intercalate ts ∧ List.Forall₂ (ReadsAs stop?) ts stops ∧
      List.Forall₂ p.PrintsStop (p.stops.getD []) stops := by
  obtain ⟨ts, each, h⟩ := bind_eq_ok_iff.mp h
  obtain rfl := pure_eq_ok_iff.mp h
  obtain ⟨stops, prints, reads⟩ :=
    exists_forall₂_of_mapM (fun _ _ _ => exists_prints_of_stopCss) each
  refine ⟨ts, stops, ?_, rfl, reads, prints⟩
  rintro rfl
  rw [List.forall₂_nil_left_iff] at reads
  rw [reads, List.forall₂_nil_right_iff] at prints
  rcases given : p.stops with _ | _ | ⟨first, rest⟩
  · simp [hasStops, given] at present
  · simp [hasStops, given] at present
  · simp [given] at prints

theorem hasStops_eq_false_iff : p.hasStops = false ↔ p.stops = none ∨ p.stops = some [] := by
  rcases stops : p.stops with _ | _ | ⟨first, rest⟩ <;> simp [hasStops, stops]

/-- A radial gradient without stops is missing, and one with stops reads back. -/
theorem radialCss_reads_back (h : p.radialCss = .ok s) :
    (p.hasStops = false ∧ s = noGradient) ∨
    (p.hasStops = true ∧ ∃ stops, gradient? s.toList = some (.radial stops) ∧
      List.Forall₂ p.PrintsStop (p.stops.getD []) stops) := by
  rw [radialCss] at h
  split at h
  · rename_i lacking
    exact Or.inl ⟨by simpa using lacking, (Except.ok.inj h).symm⟩
  · rename_i given
    have present : p.hasStops = true := by simpa using given
    obtain ⟨joined, css, h⟩ := bind_eq_ok_iff.mp h
    obtain rfl := pure_eq_ok_iff.mp h
    obtain ⟨ts, stops, some, rfl, reads, prints⟩ := exists_prints_of_stopsCss present css
    have shape : ("radial-gradient(circle, " ++ ", ".intercalate ts ++ ")").toList
        = "radial-gradient".toList ++ '(' :: ("circle".toList ++ [',', ' ']
          ++ (", ".intercalate ts).toList ++ [')']) := by
      simp
    have other (arguments : List Char) : arguments? "linear-gradient" ("radial-gradient".toList
        ++ '(' :: (arguments ++ [')'])) = none := rfl
    refine Or.inr ⟨present, stops, ?_, prints⟩
    rw [shape, gradient?, other, arguments?_function]
    exact radial?_text some reads

/-- A linear gradient without stops or with fewer than two handles is missing, and every other one
reads back. -/
theorem linearCss_reads_back [Arctangent] (h : p.linearCss = .ok s) :
    ((p.hasStops = false ∨ (p.handles.getD []).length < 2) ∧ s = noGradient) ∨
    (p.hasStops = true ∧ 2 ≤ (p.handles.getD []).length ∧ ∃ degrees stops,
      p.linearAngle = .ok degrees ∧ gradient? s.toList = some (.linear degrees stops) ∧
      List.Forall₂ p.PrintsStop (p.stops.getD []) stops) := by
  rw [linearCss] at h
  split at h
  · rename_i lacking
    exact Or.inl ⟨by simpa using lacking, (Except.ok.inj h).symm⟩
  · rename_i given
    rw [Bool.or_eq_true, not_or, Bool.not_eq_true', Bool.not_eq_false, decide_eq_true_eq,
      Nat.not_lt] at given
    obtain ⟨present, handles⟩ := given
    obtain ⟨degrees, angle, h⟩ := bind_eq_ok_iff.mp h
    obtain ⟨joined, css, h⟩ := bind_eq_ok_iff.mp h
    obtain rfl := pure_eq_ok_iff.mp h
    obtain ⟨ts, stops, some, rfl, reads, prints⟩ := exists_prints_of_stopsCss present css
    have shape : ("linear-gradient(" ++ (Number.whole degrees).plain ++ "deg, "
        ++ ", ".intercalate ts ++ ")").toList = "linear-gradient".toList
          ++ '(' :: (quantity degrees "deg" ++ [',', ' '] ++ (", ".intercalate ts).toList
            ++ [')']) := by
      simp [quantity, Number.plain]
    refine Or.inr ⟨present, handles, degrees, stops, angle, ?_, prints⟩
    rw [shape, gradient?, arguments?_function]
    exact linear?_text some reads degrees

/-- The word for a gradient that is missing is read as that. -/
theorem gradient?_noGradient : gradient? noGradient.toList = some .missing := by decide

/-- Only two handles are looked at. -/
theorem linearCss_take_handles [Arctangent] (p : Paint) :
    { p with handles := p.handles.map (List.take 2) }.linearCss = p.linearCss := by
  obtain ⟨kind, visible, opacity, color, stops, handles, imageRef, scaleMode⟩ := p
  rcases handles with _ | _ | ⟨start, _ | ⟨finish, rest⟩⟩
  · rfl
  · rfl
  · rfl
  · have enough (others : List Point) :
        decide ((start :: finish :: others).length < 2) = false := by
      simp
    simp only [linearCss, Option.map_some, Option.getD_some, List.take_succ_cons, List.take_zero,
      enough]
    rfl

/-- A gradient is transparent exactly if it has no stops or, where it is linear, fewer than two
handles. Every other gradient reads back from its text with all its stops in order, and a linear one
with its angle. Handles behind the second change nothing. -/
theorem gradients_keep_stops [Arctangent] (p : Paint) :
    (∀ s, p.radialCss = .ok s →
      (s = noGradient ↔ p.stops = none ∨ p.stops = some []) ∧
      (s ≠ noGradient → ∃ stops, gradient? s.toList = some (.radial stops) ∧
        List.Forall₂ p.PrintsStop (p.stops.getD []) stops)) ∧
    (∀ s, p.linearCss = .ok s →
      (s = noGradient ↔
        (p.stops = none ∨ p.stops = some []) ∨ (p.handles.getD []).length < 2) ∧
      (s ≠ noGradient → ∃ degrees stops, p.linearAngle = .ok degrees ∧
        gradient? s.toList = some (.linear degrees stops) ∧
        List.Forall₂ p.PrintsStop (p.stops.getD []) stops)) ∧
    { p with handles := p.handles.map (List.take 2) }.linearCss = p.linearCss ∧
    ∀ handles, { p with handles := handles }.radialCss = p.radialCss := by
  have unlike {s : String} {g : PrintedGradient} (read : gradient? s.toList = some g)
      (other : g ≠ .missing) : s ≠ noGradient := by
    rintro rfl
    rw [gradient?_noGradient] at read
    exact other (Option.some.inj read).symm
  refine ⟨fun s h => ?_, fun s h => ?_, linearCss_take_handles p, fun _ => rfl⟩
  · rw [← hasStops_eq_false_iff]
    rcases radialCss_reads_back h with ⟨lacking, rfl⟩ | ⟨present, stops, read, prints⟩
    · exact ⟨iff_of_true rfl lacking, fun other => absurd rfl other⟩
    · exact ⟨iff_of_false (unlike read nofun) (by simp [present]), fun _ => ⟨stops, read, prints⟩⟩
  · rw [← hasStops_eq_false_iff]
    rcases linearCss_reads_back h with
      ⟨lacking, rfl⟩ | ⟨present, handles, degrees, stops, angle, read, prints⟩
    · exact ⟨iff_of_true rfl lacking, fun other => absurd rfl other⟩
    · refine ⟨iff_of_false (unlike read nofun) ?_, fun _ => ⟨degrees, stops, angle, read, prints⟩⟩
      rintro (lacking | few)
      · rw [present] at lacking
        cases lacking
      · omega

def redToBlue : Paint where
  kind := .text "GRADIENT_LINEAR"
  visible := .bool true
  opacity := .null
  color := none
  stops := some
    [⟨.whole 0, ⟨.whole 1, .whole 0, .whole 0, .whole 1⟩⟩,
      ⟨.whole 1, ⟨.whole 0, .whole 0, .whole 1, .double 0.5⟩⟩]
  handles := some [⟨.whole 0, .whole 0⟩, ⟨.whole 1, .whole 0⟩, ⟨.whole 0, .whole 1⟩]
  imageRef := .null
  scaleMode := .null

/-- The text of `redToBlue` behind what a gradient begins with. -/
def redToBlueStops : String := "rgb(255, 0, 0) 0%, rgba(0, 0, 255, 0.50) 100%)"

set_option maxRecDepth 20000 in
theorem redToBlue_keeps_stops :
    (∃ stops, gradient? ("radial-gradient(circle, " ++ redToBlueStops).toList
        = some (.radial stops) ∧
      List.Forall₂ redToBlue.PrintsStop (redToBlue.stops.getD []) stops) ∧
    ∃ degrees stops, @linearAngle levelArctangent redToBlue = .ok degrees ∧
      gradient? ("linear-gradient(90deg, " ++ redToBlueStops).toList
        = some (.linear degrees stops) ∧
      List.Forall₂ redToBlue.PrintsStop (redToBlue.stops.getD []) stops := by
  obtain ⟨radial, linear, -⟩ := @gradients_keep_stops levelArctangent redToBlue
  exact ⟨(radial _ (by decide +kernel)).2 (by decide), (linear _ (by decide +kernel)).2 (by decide)⟩

set_option maxRecDepth 20000 in
example : gradient? ("linear-gradient(90deg, " ++ redToBlueStops).toList
    = some (.linear 90 [⟨⟨255, 0, 0, none⟩, 0⟩, ⟨⟨0, 0, 255, some "0.50"⟩, 100⟩]) := by
  decide +kernel

end Paint

end DesignMarkup
