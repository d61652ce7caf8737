import Mathlib.Data.List.Basic
import DesignMarkup.Style.Text
import DesignMarkup.Proofs.Declared

/-!
# The colour of glyphs

Glyphs are meant to have the colour of the first visible plain fill that has one. What is looked at
is the first visible plain fill, whether it has a colour or not, and nothing behind it.
-/

namespace DesignMarkup

/-- The paint's own colour in a style sheet, with the opacity of the paint, one where it has none,
times the alpha of the colour. -/
def Paint.ShowsAs (p : Paint) (v : String) : Prop :=
  ∃ c alpha, p.color = some c ∧
    (if p.opacity.isNull then .whole 1 else p.opacity).times c.a = .ok alpha ∧
    (c.withAlpha alpha).css = .ok v

theorem Paint.colorCss_eq_some_iff {p : Paint} {v : String} :
    p.colorCss = .ok (some v) ↔ p.ShowsAs v := by
  have given (c : Color) : (p.colorCssOf c).map some = .ok (some v) ↔
      ∃ alpha, (if p.opacity.isNull then .whole 1 else p.opacity).times c.a = .ok alpha ∧
        (c.withAlpha alpha).css = .ok v := by
    simp only [map_eq_ok_iff, Option.some.injEq, exists_eq_right]
    exact bind_eq_ok_iff
  unfold colorCss ShowsAs
  cases p.color with
  | none => exact iff_of_false nofun nofun
  | some c => simp [given]

theorem Paint.ShowsAs.functional {p : Paint} {v w : String} (hv : p.ShowsAs v) (hw : p.ShowsAs w) :
    v = w := by
  rw [← Paint.colorCss_eq_some_iff] at hv hw
  rw [hv] at hw
  exact Option.some.inj (Except.ok.inj hw)

theorem Paint.ShowsAs.isSome_color {p : Paint} {v : String} (h : p.ShowsAs v) :
    p.color.isSome = true := by
  obtain ⟨c, -, color, -⟩ := h
  rw [color]
  rfl

namespace Layer

open Writing Resolver StyleEntry

/-- A plain fill that is visible and has a colour. -/
def isColoredPaint (p : Paint) : Bool := isGlyphPaint p && p.color.isSome

/-- The glyphs have the colour of the first visible plain fill that has one, and none where no fill
is of that kind. -/
def ColorsGlyphs (l : Layer) : Prop :=
  match l.fills.find? isColoredPaint with
  | none => ∀ v, .declare .color v ∉ l.textStyling.written
  | some fill => ∃ v, fill.ShowsAs v ∧ ∀ w, .declare .color w ∈ l.textStyling.written ↔ w = v

variable {l : Layer} {s : TextStyle} {v : String}

/-- The typography has no colour: a layer without fills can declare none. -/
theorem color_not_mem_typography (s : TextStyle) (v : String) :
    .declare .color v ∉ (typography s).written := by
  intro there
  have declared :=
    declared_typography (l := { (default : Layer) with textStyle := some s }) rfl _ there
  cases declared with
  | size side => rcases side with side | side <;> cases side
  | contentSize side => rcases side with side | side <;> cases side
  | glyphColor hfill => cases hfill

theorem mem_written_glyphColor : .declare .color v ∈ l.glyphColor.written ↔
    ∃ fill, l.fills.find? isGlyphPaint = some fill ∧ fill.ShowsAs v := by
  unfold glyphColor
  cases l.fills.find? isGlyphPaint with
  | none => exact iff_of_false nofun nofun
  | some fill =>
      simp only [Option.some.injEq, exists_eq_left', ← Paint.colorCss_eq_some_iff]
      cases fill.colorCss with
      | error e => exact iff_of_false nofun nofun
      | ok color =>
          rw [lift_bind_of_ok rfl]
          cases color with
          | none => exact iff_of_false nofun nofun
          | some w =>
              have one : (setIf .color (some w)).written = [.declare .color w] := rfl
              simp [one, eq_comm]

/-- The first visible plain fill alone makes the colour. -/
theorem mem_written_textStyling (text : l.textStyle = some s) :
    .declare .color v ∈ l.textStyling.written ↔ Runs (typography s) ∧
      ∃ fill, l.fills.find? isGlyphPaint = some fill ∧ fill.ShowsAs v := by
  unfold textStyling
  rw [text, ← mem_written_glyphColor]
  simp only [mem_written_bind, color_not_mem_typography, false_or]
  exact ⟨fun ⟨a, ran, there⟩ => ⟨⟨a, ran⟩, there⟩, fun ⟨⟨a, ran⟩, there⟩ => ⟨a, ran, there⟩⟩

/-- Where the first visible plain fill has a colour, it is the first that has one. -/
theorem find_isColoredPaint {first : Paint} (found : l.fills.find? isGlyphPaint = some first)
    (color : first.color.isSome = true) : l.fills.find? isColoredPaint = some first := by
  rw [List.find?_eq_some_iff_append] at found ⊢
  obtain ⟨glyph, front, rest, fills, others⟩ := found
  refine ⟨by rw [isColoredPaint, glyph, color]; rfl, front, rest, fills, fun p hp => ?_⟩
  have other := others p hp
  rw [Bool.not_eq_true'] at other ⊢
  rw [isColoredPaint, other, Bool.false_and]

/-- Glyphs have the colour that is meant exactly if no visible plain fill has a colour, or the first
one has a colour that can be written. Of all fills the first visible plain one alone counts. -/
theorem colorsGlyphs_iff (text : l.textStyle = some s) :
    (l.ColorsGlyphs ↔ (∀ fill ∈ l.fills, isGlyphPaint fill = true → fill.color = none) ∨
      (Runs (typography s) ∧ ∃ fill v, l.fills.find? isGlyphPaint = some fill ∧ fill.ShowsAs v)) ∧
    { l with fills := (l.fills.find? isGlyphPaint).toList }.textStyling = l.textStyling := by
  constructor
  · rw [ColorsGlyphs]
    cases colored : l.fills.find? isColoredPaint with
    | none =>
        have colorless : ∀ fill ∈ l.fills, isGlyphPaint fill = true → fill.color = none := by
          intro fill hfill glyph
          have plain := List.find?_eq_none.mp colored fill hfill
          simpa [isColoredPaint, glyph] using plain
        refine iff_of_true (fun v there => ?_) (Or.inl colorless)
        obtain ⟨-, fill, found, c, -, color, -⟩ := (mem_written_textStyling text).mp there
        rw [colorless fill (List.mem_of_find?_eq_some found) (List.find?_some found)] at color
        cases color
    | some fill =>
        constructor
        · rintro ⟨v, -, declared⟩
          obtain ⟨ran, first, found, shows⟩ :=
            (mem_written_textStyling text).mp ((declared v).mpr rfl)
          exact Or.inr ⟨ran, first, v, found, shows⟩
        · rintro (colorless | ⟨ran, first, v, found, shows⟩)
          · have kind : isColoredPaint fill = true := List.find?_some colored
            obtain ⟨glyph, color⟩ := Bool.and_eq_true_iff.mp kind
            rw [colorless fill (List.mem_of_find?_eq_some colored) glyph] at color
            cases color
          · have same := find_isColoredPaint found shows.isSome_color
            rw [colored] at same
            obtain rfl := Option.some.inj same
            refine ⟨v, shows, fun w => ?_⟩
            rw [mem_written_textStyling text]
            constructor
            · rintro ⟨-, other, there, showsW⟩
              rw [found] at there
              obtain rfl := Option.some.inj there
              exact showsW.functional shows
            · rintro rfl
              exact ⟨ran, fill, found, shows⟩
  · have same : ({ l with fills := (l.fills.find? isGlyphPaint).toList } : Layer).glyphColor
        = l.glyphColor := by
      unfold glyphColor
      cases found : l.fills.find? isGlyphPaint with
      | none => rfl
      | some fill =>
          have glyph := List.find?_some found
          simp [glyph]
    unfold textStyling
    rw [same]

def plainFill (color : Option Color) : Paint :=
  { (default : Paint) with kind := .text "SOLID", visible := .bool true, color := color }

def red : Color := ⟨.whole 1, .whole 0, .whole 0, .whole 1⟩

def blue : Color := ⟨.whole 0, .whole 0, .whole 1, .whole 1⟩

def smallText : TextStyle := { (default : TextStyle) with fontSize := .whole 12 }

/-- A text that is blue, with a hidden fill and a gradient in front and a plain fill without a
colour behind. -/
def blueLabel : Layer :=
  { (default : Layer) with
    textStyle := some smallText
    fills := [{ plainFill (some red) with visible := .bool false },
      { plainFill none with kind := .text "GRADIENT_LINEAR" }, plainFill (some blue),
      plainFill none] }

set_option maxRecDepth 20000 in
theorem colorsGlyphs_blueLabel :
    blueLabel.textStyle = some smallText ∧ blueLabel.ColorsGlyphs := by
  have ran : Runs (typography smallText) := ⟨(), by decide +kernel⟩
  have shows : (plainFill (some blue)).ShowsAs "rgb(0, 0, 255)" := by
    rw [← Paint.colorCss_eq_some_iff]
    decide +kernel
  exact ⟨rfl, (colorsGlyphs_iff rfl).1.mpr (Or.inr ⟨ran, _, _, rfl, shows⟩)⟩

/-- A text with a blue fill behind a plain fill without a colour. -/
def primedLabel : Layer :=
  { (default : Layer) with
    textStyle := some smallText, fills := [plainFill none, plainFill (some blue)] }

/-- The fill in front keeps the one behind it from being looked at. -/
theorem not_colorsGlyphs_primedLabel : ¬ primedLabel.ColorsGlyphs := by
  rintro ⟨v, -, declared⟩
  obtain ⟨-, fill, found, shows⟩ :=
    (mem_written_textStyling (l := primedLabel) rfl).mp ((declared v).mpr rfl)
  have front : primedLabel.fills.find? isGlyphPaint = some (plainFill none) := rfl
  rw [front] at found
  obtain rfl := Option.some.inj found
  cases shows.isSome_color

end Layer

end DesignMarkup
