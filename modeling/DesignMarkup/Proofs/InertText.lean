import DesignMarkup.Proofs.ClassNames
import DesignMarkup.Proofs.Declared
import DesignMarkup.Proofs.FormCoding
import DesignMarkup.Proofs.Typed

/-!
# Text that means nothing to a style sheet

Six characters mean something to a reader of style sheets: the quote, the backslash, the
braces, the semicolon and the colon. A seventh, the bracket that opens a tag, means something
to a reader of the page that a sheet stands in. A text without them is inert. Every value that
a typed layer declares is inert, apart from the names of fonts.
-/

namespace DesignMarkup

/-! ## Inert texts -/

namespace Css

def isInert (c : Char) : Bool := !(['"', '\\', '{', '}', ';', ':', '<'].contains c)

/-- Characters none of which means anything to a reader of style sheets or of the page. -/
def InertChars (s : List Char) : Prop := ∀ c ∈ s, isInert c = true

instance (s : List Char) : Decidable (InertChars s) := List.decidableBAll _ s

def Inert (s : String) : Prop := InertChars s.toList

instance (s : String) : Decidable (Inert s) := List.decidableBAll _ s.toList

theorem inert_append {s t : String} (hs : Inert s) (ht : Inert t) : Inert (s ++ t) := by
  intro c hc
  rw [String.toList_append, List.mem_append] at hc
  rcases hc with hc | hc
  · exact hs c hc
  · exact ht c hc

theorem inert_intercalate {separator : String} {l : List String} (hs : Inert separator)
    (hl : ∀ s ∈ l, Inert s) : Inert (separator.intercalate l) := by
  intro c hc
  rw [String.toList_intercalate] at hc
  rcases Text.mem_of_mem_intercalate hc with hc | ⟨piece, hpiece, hc⟩
  · exact hs c hc
  · obtain ⟨s, hmem, rfl⟩ := List.mem_map.mp hpiece
    exact hl s hmem c hc

theorem inert_of_isWord {s : String} (h : Naming.IsWord s) : Inert s := by
  intro c hc
  have word := h c hc
  rw [isInert, Bool.not_eq_true']
  rw [← Bool.not_eq_true, List.contains_iff_mem]
  intro special
  simp only [List.mem_cons, List.not_mem_nil, or_false] at special
  rcases special with rfl | rfl | rfl | rfl | rfl | rfl | rfl <;> revert word <;> decide

theorem isWord_name (p : Property) : Naming.IsWord p.name := by cases p <;> decide

end Css

open Css

/-! ## Numerals -/

namespace Decimal

def isNumeralChar (c : Char) : Bool :=
  c.isDigit || ['-', '+', '.', 'a', 'e', 'f', 'i', 'n'].contains c

def NumeralChars (s : List Char) : Prop := ∀ c ∈ s, isNumeralChar c = true

instance (s : List Char) : Decidable (NumeralChars s) := List.decidableBAll _ s

/-- A character that is neither a digit nor one of the others is in no numeral. -/
theorem ne_of_isNumeralChar {c d : Char} (h : isNumeralChar c = true)
    (other : isNumeralChar d = false) : c ≠ d := by
  rintro rfl
  rw [h] at other
  cases other

theorem NumeralChars.inert {s : List Char} (h : NumeralChars s) : InertChars s := by
  intro c hc
  have differs {d : Char} := @ne_of_isNumeralChar c d (h c hc)
  simp [isInert, differs (d := '"') (by decide), differs (d := '\\') (by decide),
    differs (d := '{') (by decide), differs (d := '}') (by decide),
    differs (d := ';') (by decide), differs (d := ':') (by decide), differs (d := '<') (by decide)]

theorem isNumeralChar_digit {c : Char} (h : c.isDigit = true) : isNumeralChar c = true := by
  rw [isNumeralChar, h, Bool.true_or]

theorem NumeralChars.append {s t : List Char} (hs : NumeralChars s) (ht : NumeralChars t) :
    NumeralChars (s ++ t) :=
  List.forall_mem_append.mpr ⟨hs, ht⟩

theorem NumeralChars.cons {d : Char} {t : List Char} (hd : isNumeralChar d = true)
    (ht : NumeralChars t) : NumeralChars (d :: t) :=
  List.forall_mem_cons.mpr ⟨hd, ht⟩

theorem numeralChars_natural {n : Nat} : NumeralChars (natural n) := fun _ hc =>
  isNumeralChar_digit (Nat.isDigit_of_mem_toDigits (by decide) (by decide) hc)

theorem numeralChars_zeros {n : Nat} : NumeralChars (zeros n) := by
  intro c hc
  obtain rfl := List.eq_of_mem_replicate hc
  decide

theorem numeralChars_whole (n : Int) : NumeralChars (whole n) := by
  unfold whole
  split
  · exact .cons (by decide) numeralChars_natural
  · exact numeralChars_natural

theorem numeralChars_exponentPart {e : Int} : NumeralChars (exponentPart e) := by
  unfold exponentPart
  refine .append (.append (.cons (by decide) ?_) numeralChars_zeros) numeralChars_natural
  split <;> exact .cons (by decide) nofun

theorem numeralChars_layout {d : Decimal} : NumeralChars (layout d) := by
  have digits : NumeralChars (natural d.digits) := numeralChars_natural
  have zeroPoint : NumeralChars ['0', '.'] := by decide
  have pointZero : NumeralChars ['.', '0'] := by decide
  unfold layout
  dsimp only
  split
  · split
    · exact (zeroPoint.append numeralChars_zeros).append digits
    · split
      · exact (digits.append numeralChars_zeros).append pointZero
      · refine .append (fun c hc => digits c (List.mem_of_mem_take hc)) ?_
        exact .cons (by decide) fun c hc => digits c (List.mem_of_mem_drop hc)
  · -- In the notation with an exponent the digits are taken apart.
    split
    · exact nofun
    · rename_i only
      rw [only] at digits
      exact .cons (digits _ List.mem_cons_self) numeralChars_exponentPart
    · rename_i first rest _ parts
      rw [parts] at digits
      refine .append (.cons (digits _ List.mem_cons_self) ?_) numeralChars_exponentPart
      exact .cons (by decide) fun c hc => digits c (List.mem_cons_of_mem _ hc)

theorem numeralChars_sign {x : Float} :
    NumeralChars (if Double.isNegative x then ['-'] else []) := by
  split
  · decide
  · exact nofun

theorem numeralChars_double (x : Float) : NumeralChars (double x) := by
  unfold double
  dsimp only
  split
  · decide
  · split
    · exact numeralChars_sign.append (by decide)
    · split
      · exact numeralChars_sign.append (by decide)
      · exact numeralChars_sign.append numeralChars_layout

theorem isNumeralChar_digitChar {n : Nat} (h : n < 10) : isNumeralChar (Nat.digitChar n) = true :=
  isNumeralChar_digit (by rw [Nat.isDigit_digitChar]; exact decide_eq_true h)

theorem numeralChars_twoPlaces (x : Float) : NumeralChars (twoPlaces x) := by
  unfold twoPlaces
  dsimp only
  split
  · decide
  · split
    · exact numeralChars_sign.append (by decide)
    · refine numeralChars_sign.append (numeralChars_natural.append ?_)
      refine .cons (by decide) (.cons (isNumeralChar_digitChar ?_)
        (.cons (isNumeralChar_digitChar ?_) nofun))
      · exact Nat.mod_lt _ (by decide)
      · exact Nat.mod_lt _ (by decide)

end Decimal

namespace Number

open Decimal (NumeralChars)

theorem numeralChars_plain (n : Number) : NumeralChars n.plain.toList := by
  cases n with
  | whole n => rw [plain, String.toList_ofList]; exact Decimal.numeralChars_whole n
  | double x => rw [plain, String.toList_ofList]; exact Decimal.numeralChars_double x

theorem numeralChars_written (n : Number) : NumeralChars n.written.toList := by
  cases n with
  | whole n => rw [written, String.toList_ofList]; exact Decimal.numeralChars_whole n
  | double x =>
      rw [written]
      split
      · rw [String.toList_ofList]; exact Decimal.numeralChars_whole (Double.floor x)
      · rw [String.toList_ofList]; exact Decimal.numeralChars_double x

theorem inert_plain (n : Number) : Inert n.plain := n.numeralChars_plain.inert

theorem inert_written (n : Number) : Inert n.written := n.numeralChars_written.inert

/-- What has two places is the text of a double with two places. -/
theorem exists_eq_of_twoPlaces {n : Number} {s : String} (h : n.twoPlaces = .ok s) :
    ∃ x, s = String.ofList (Decimal.twoPlaces x) := by
  obtain ⟨x, -, h⟩ := bind_eq_ok_iff.mp h
  exact ⟨x, (pure_eq_ok_iff.mp h).symm⟩

end Number

/-! ## Values -/

def Value.IsNumber (v : Value) : Prop := ∃ n, v = .number n

namespace Value

theorem isNumber_whole (n : Int) : (Value.whole n).IsNumber := ⟨.whole n, rfl⟩

theorem inert_written {v : Value} (h : v.Maybe IsNumber) : Inert v.written := by
  rcases h with rfl | ⟨n, rfl⟩
  · decide
  · exact n.inert_written

theorem inert_pixels {v : Value} (h : v.Maybe IsNumber) : Inert v.pixels :=
  inert_append (inert_written h) (by decide)

theorem exists_eq_of_twoPlaces {v : Value} {s : String} (h : v.twoPlaces = .ok s) :
    ∃ x, s = String.ofList (Decimal.twoPlaces x) := by
  unfold twoPlaces at h
  split at h
  · cases h
  · obtain ⟨n, -, h⟩ := bind_eq_ok_iff.mp h
    exact Number.exists_eq_of_twoPlaces h

theorem inert_twoPlaces {v : Value} {s : String} (h : v.twoPlaces = .ok s) : Inert s := by
  obtain ⟨x, rfl⟩ := exists_eq_of_twoPlaces h
  rw [Inert, String.toList_ofList]
  exact (Decimal.numeralChars_twoPlaces x).inert

theorem isNumber_orElse {v other : Value} (h : v.Maybe IsNumber) (hother : other.IsNumber) :
    (v.orElse other).IsNumber := by
  unfold orElse
  split
  · rename_i present
    rcases h with rfl | h
    · cases present
    · exact h
  · exact hother

/-- What stands in a table of inert texts is inert. -/
theorem inert_lookupIn {v : Value} {table : List (String × String)} {s : String}
    (htable : ∀ row ∈ table, Inert row.2) (h : v.lookupIn table = .ok (some s)) : Inert s := by
  cases v with
  | text key =>
      have found : table.lookup key = some s := Except.ok.inj h
      obtain ⟨before, after, rfl, -⟩ := List.lookup_eq_some_iff.mp found
      exact htable (key, s) (by simp)
  | null => cases h
  | bool b => cases h
  | number n => cases h
  | list items => cases h
  | object ms => cases h

end Value

/-! ## Colours, gradients and shadows -/

theorem Color.inert_channelsText (r g b : Int) : Inert (Color.channelsText r g b) := by
  have comma : Inert ", " := by decide
  have channel (n : Int) : Inert (Number.whole n).plain := Number.inert_plain _
  exact inert_append (inert_append (inert_append (inert_append (channel r) comma) (channel g))
    comma) (channel b)

theorem Color.inert_css {c : Color} {s : String} (h : c.css = .ok s) : Inert s := by
  -- Channels are whole numbers whatever they come from, and an alpha is a number with two places.
  obtain ⟨r, -, h⟩ := bind_eq_ok_iff.mp h
  obtain ⟨g, -, h⟩ := bind_eq_ok_iff.mp h
  obtain ⟨b, -, h⟩ := bind_eq_ok_iff.mp h
  have close : Inert ")" := by decide
  split at h
  · obtain rfl := pure_eq_ok_iff.mp h
    exact inert_append (inert_append (by decide) (inert_channelsText r g b)) close
  · obtain ⟨alpha, halpha, h⟩ := bind_eq_ok_iff.mp h
    obtain rfl := pure_eq_ok_iff.mp h
    exact inert_append (inert_append (inert_append (inert_append (by decide)
      (inert_channelsText r g b)) (by decide)) (Value.inert_twoPlaces halpha)) close

namespace Paint

theorem inert_colorCssOf {p : Paint} {c : Color} {s : String} (h : p.colorCssOf c = .ok s) :
    Inert s := by
  obtain ⟨alpha, -, h⟩ := bind_eq_ok_iff.mp h
  exact Color.inert_css h

theorem inert_colorCss {p : Paint} {s : String} (h : p.colorCss = .ok (some s)) : Inert s := by
  unfold colorCss at h
  split at h
  · cases h
  · obtain ⟨t, ht, same⟩ := map_eq_ok_iff.mp h
    obtain rfl := Option.some.inj same
    exact inert_colorCssOf ht

theorem inert_stopCss {p : Paint} {stop : GradientStop} {s : String}
    (h : p.stopCss stop = .ok s) : Inert s := by
  obtain ⟨alpha, -, h⟩ := bind_eq_ok_iff.mp h
  obtain ⟨percent, hpercent, h⟩ := bind_eq_ok_iff.mp h
  obtain ⟨color, hcolor, h⟩ := bind_eq_ok_iff.mp h
  obtain rfl := pure_eq_ok_iff.mp h
  refine inert_append (inert_append (Color.inert_css hcolor) (by decide)) ?_
  obtain ⟨_, -, h⟩ := bind_eq_ok_iff.mp hpercent
  obtain ⟨n, -, h⟩ := bind_eq_ok_iff.mp h
  obtain rfl := pure_eq_ok_iff.mp h
  exact inert_append (Number.inert_plain _) (by decide)

theorem inert_stopsCss {p : Paint} {s : String} (h : p.stopsCss = .ok s) : Inert s := by
  obtain ⟨stops, hstops, h⟩ := bind_eq_ok_iff.mp h
  obtain rfl := pure_eq_ok_iff.mp h
  refine inert_intercalate (by decide) fun t ht => ?_
  obtain ⟨stop, -, hstop⟩ := mem_of_mapM hstops ht
  exact inert_stopCss hstop

theorem inert_radialCss {p : Paint} {s : String} (h : p.radialCss = .ok s) : Inert s := by
  unfold radialCss at h
  split at h
  · obtain rfl := Except.ok.inj h
    decide
  · obtain ⟨stops, hstops, h⟩ := bind_eq_ok_iff.mp h
    obtain rfl := pure_eq_ok_iff.mp h
    exact inert_append (inert_append (by decide) (inert_stopsCss hstops)) (by decide)

theorem inert_linearCss [Arctangent] {p : Paint} {s : String} (h : p.linearCss = .ok s) :
    Inert s := by
  unfold linearCss at h
  split at h
  · obtain rfl := Except.ok.inj h
    decide
  · obtain ⟨angle, -, h⟩ := bind_eq_ok_iff.mp h
    obtain ⟨stops, hstops, h⟩ := bind_eq_ok_iff.mp h
    obtain rfl := pure_eq_ok_iff.mp h
    exact inert_append (inert_append (inert_append (inert_append (by decide)
      (Number.inert_plain _)) (by decide)) (inert_stopsCss hstops)) (by decide)

end Paint

namespace Effect

variable {e : Effect}

theorem inert_shadowCss (he : e.Typed Value.IsNumber) {s : String} (h : e.shadowCss = .ok s) :
    Inert s := by
  obtain ⟨color, hcolor, h⟩ := bind_eq_ok_iff.mp h
  obtain rfl := pure_eq_ok_iff.mp h
  have blank : Inert " " := by decide
  have number {v : Value} (hv : v.IsNumber) : Inert v.pixels := Value.inert_pixels (Or.inr hv)
  have zero := Value.isNumber_whole 0
  have inset : Inert (if e.isInner then "inset " else "") := by split <;> decide
  -- Lengths are numbers of the design or zero.
  have x : Inert ((e.offset.map Point.x).getD (Value.whole 0)).pixels := by
    cases offset : e.offset with
    | none => exact number zero
    | some o => exact number (he.offset o offset).x
  have y : Inert ((e.offset.map Point.y).getD (Value.whole 0)).pixels := by
    cases offset : e.offset with
    | none => exact number zero
    | some o => exact number (he.offset o offset).y
  have radius := number (Value.isNumber_orElse he.radius zero)
  have spread := number (Value.isNumber_orElse he.spread zero)
  have ink : Inert color := by
    unfold colorCss at hcolor
    split at hcolor
    · exact Color.inert_css hcolor
    · obtain rfl := Except.ok.inj hcolor
      decide
  exact inert_append (inert_append (inert_append (inert_append (inert_append (inert_append
    (inert_append (inert_append (inert_append inset x) blank) y) blank) radius) blank) spread)
    blank) ink

theorem isNumber_widerBlur (he : e.Typed Value.IsNumber) {blur wider : Value}
    (hblur : blur.IsNumber) (h : e.widerBlur blur = .ok wider) : wider.IsNumber := by
  obtain ⟨n, -, h⟩ := bind_eq_ok_iff.mp h
  obtain ⟨above, -, h⟩ := bind_eq_ok_iff.mp h
  cases above with
  | true =>
      obtain rfl := pure_eq_ok_iff.mp h
      exact Value.isNumber_orElse he.radius (Value.isNumber_whole 0)
  | false =>
      obtain rfl := pure_eq_ok_iff.mp h
      exact hblur

end Effect

namespace Shadows

/-- The shadows are inert, and the blur is a number. -/
def Tame (s : Shadows) : Prop := (∀ term ∈ s.terms, Inert term) ∧ s.blur.IsNumber

theorem tame_none : Shadows.none.Tame :=
  ⟨fun _ h => absurd h List.not_mem_nil, Value.isNumber_whole 0⟩

theorem tame_add {e : Effect} (he : e.Typed Value.IsNumber) {s t : Shadows} (hs : s.Tame)
    (h : s.add e = .ok t) : t.Tame := by
  unfold add at h
  split at h
  · -- Hidden effects change nothing.
    obtain rfl := Except.ok.inj h
    exact hs
  · split at h
    · obtain ⟨term, hterm, h⟩ := bind_eq_ok_iff.mp h
      obtain rfl := pure_eq_ok_iff.mp h
      refine ⟨fun u hu => ?_, hs.2⟩
      rcases List.mem_append.mp hu with hu | hu
      · exact hs.1 u hu
      · obtain rfl := List.mem_singleton.mp hu
        exact Effect.inert_shadowCss he hterm
    · split at h
      · obtain ⟨blur, hblur, h⟩ := bind_eq_ok_iff.mp h
        obtain rfl := pure_eq_ok_iff.mp h
        exact ⟨hs.1, Effect.isNumber_widerBlur he hs.2 hblur⟩
      · obtain rfl := Except.ok.inj h
        exact hs

theorem tame_ofEffects {effects : List Effect} (heffects : ∀ e ∈ effects, e.Typed Value.IsNumber)
    {s t : Shadows} (hs : s.Tame) (h : effects.foldlM add s = .ok t) : t.Tame := by
  induction effects generalizing s with
  | nil =>
      obtain rfl := pure_eq_ok_iff.mp h
      exact hs
  | cons e rest ih =>
      rw [List.foldlM_cons] at h
      obtain ⟨u, hu, h⟩ := bind_eq_ok_iff.mp h
      have tame := tame_add (heffects e List.mem_cons_self) hs hu
      exact ih (fun f hf => heffects f (List.mem_cons_of_mem e hf)) tame h

end Shadows

/-! ## Declarations -/

theorem Layer.inert_paddingShorthand {l : Layer} (hl : l.Typed Value.IsNumber) {v : String}
    (h : l.paddingShorthand = some v) : Inert v := by
  have lengths : ∀ t ∈ l.paddingLengths, Inert t := by
    intro t ht
    obtain ⟨p, hp, rfl⟩ := List.mem_map.mp ht
    exact Value.inert_pixels (hl.paddings p (List.mem_filter.mp hp).1)
  unfold paddingShorthand at h
  split at h
  · cases h
  · rename_i first rest parts
    rw [parts] at lengths
    split at h
    · obtain rfl := Option.some.inj h
      exact lengths _ List.mem_cons_self
    · split at h
      · obtain rfl := Option.some.inj h
        exact inert_intercalate (by decide) lengths
      · cases h

namespace Layer

variable [Arctangent] {l : Layer}

/-- What a typed layer declares is inert, unless it is a font. -/
theorem inert_of_declared (hl : l.Typed Value.IsNumber) {p : Property} {v : String}
    (hp : p ≠ .fontFamily) (h : l.Declared p v) : Inert v := by
  -- One case for each declaration of the list.
  cases h with
  | fontFamily _ _ => exact absurd rfl hp
  | size _ _ hv =>
      obtain ⟨n, -, hv⟩ := bind_eq_ok_iff.mp hv
      obtain rfl := pure_eq_ok_iff.mp hv
      exact inert_append (Number.inert_plain _) (by decide)
  | contentSize _ => decide
  | opacity hv => exact Value.inert_twoPlaces hv
  | cornerRadius => exact Value.inert_pixels hl.cornerRadius
  | cornerRadii hradii =>
      refine inert_intercalate (by decide) fun t ht => ?_
      obtain ⟨r, hr, rfl⟩ := List.mem_map.mp ht
      exact Value.inert_pixels (Or.inr (hl.cornerRadii _ hradii r hr))
  | ellipse => decide
  | fillColor _ hv => exact Paint.inert_colorCss hv
  | gradient _ hv =>
      rcases hv with hv | hv
      · exact Paint.inert_linearCss hv
      · exact Paint.inert_radialCss hv
  | imageSize hv =>
      revert hv
      revert v
      decide
  | imagePosition => decide
  | imageRepeat => decide
  | border _ hv => exact inert_append (by decide) (Paint.inert_colorCss hv)
  | shadows hs =>
      have tame := Shadows.tame_ofEffects hl.effects Shadows.tame_none hs
      exact inert_intercalate (by decide) tame.1
  | blur hs =>
      have tame := Shadows.tame_ofEffects hl.effects Shadows.tame_none hs
      have length := Value.inert_pixels (Or.inr tame.2)
      exact inert_append (inert_append (by decide) length) (by decide)
  | display => decide
  | direction hv =>
      revert hv
      revert v
      decide
  | gap => exact Value.inert_pixels hl.itemSpacing
  | padding hv => exact inert_paddingShorthand hl hv
  | mainAlignment hv => exact Value.inert_lookupIn (by decide) hv
  | crossAlignment hv => exact Value.inert_lookupIn (by decide) hv
  | grow => exact Value.inert_written hl.layoutGrow
  | fontSize hs => exact Value.inert_pixels (hl.textStyle _ hs).fontSize
  | fontWeight hs => exact Value.inert_written (hl.textStyle _ hs).fontWeight
  | letterSpacing hs => exact Value.inert_pixels (hl.textStyle _ hs).letterSpacing
  | lineHeight hs => exact Value.inert_pixels (hl.textStyle _ hs).lineHeight
  | textAlign _ hv => exact Value.inert_lookupIn (by decide) hv
  | textCase _ hv => exact Value.inert_lookupIn (by decide) hv
  | textDecoration _ hv => exact Value.inert_lookupIn (by decide) hv
  | glyphColor _ hv => exact Paint.inert_colorCss hv

/-- A font that a typed layer declares is a text between quotes. -/
theorem eq_fontFamilyText_of_declared (hl : l.Typed Value.IsNumber) {v : String}
    (h : l.Declared .fontFamily v) : ∃ name, v = fontFamilyText (.text name) := by
  cases h with
  | fontFamily hs present =>
      rcases (hl.textStyle _ hs).fontFamily with null | ⟨name, hname⟩
      · rw [null] at present
        cases present
      · exact ⟨name, by rw [hname]⟩
  | size hp _ _ => rcases hp with hp | hp <;> cases hp
  | contentSize hp => rcases hp with hp | hp <;> cases hp

end Layer

end DesignMarkup
