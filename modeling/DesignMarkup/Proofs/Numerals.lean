import DesignMarkup.Proofs.Digits
import DesignMarkup.Proofs.FormCoding
import DesignMarkup.Proofs.Quantities
import DesignMarkup.Proofs.ShortestDecimals

/-!
# Numerals, read back

A numeral consists of digits, of digits behind a point, and of an exponent. Read back, it is a
decimal, and the decimal that a double is written with stands for that double alone. So two finite
numbers are written alike in a style sheet exactly if they are the same number, whichever of them
is whole and whichever a double.
-/

namespace DesignMarkup

namespace Decimal

/-! ## Reading -/

/-- The decimal that an unsigned numeral spells. -/
def unsigned? (text : List Char) : Option Decimal := do
  let isMark := fun c : Char => c == 'e' || c == 'E'
  let mantissa := text.takeWhile (!isMark ·)
  let exponent ← exponentOf? (text.dropWhile (!isMark ·))
  let before ← optionalRun? (mantissa.takeWhile (· != '.'))
  let after ← optionalRun? ((mantissa.dropWhile (· != '.')).drop 1)
  if before.isEmpty && after.isEmpty then none
  else pure ⟨ofDigits (before ++ after), exponent - after.length⟩

/-- Doubles are read by way of the decimal that is spelled. -/
theorem unsignedDouble?_eq_map (text : List Char) :
    unsignedDouble? text = (unsigned? text).map fun d => nearest d.digits d.exponent := by
  unfold unsignedDouble? unsigned?
  dsimp only
  cases exponentOf? (text.dropWhile (!(fun c : Char => c == 'e' || c == 'E') ·)) with
  | none => rfl
  | some exponent =>
      simp only [Option.bind_eq_bind, Option.bind_some]
      cases optionalRun? ((text.takeWhile
        (!(fun c : Char => c == 'e' || c == 'E') ·)).takeWhile (· != '.')) with
      | none => rfl
      | some before =>
          simp only [Option.bind_some]
          cases optionalRun? (((text.takeWhile
            (!(fun c : Char => c == 'e' || c == 'E') ·)).dropWhile (· != '.')).drop 1) with
          | none => rfl
          | some after =>
              simp only [Option.bind_some]
              split <;> rfl

/-! ## Runs of digits -/

section

variable {cs ds : List Char}

theorem isRun_natural (n : Nat) : IsRun (natural n) :=
  ⟨Nat.toDigits_ne_nil, fun _ h => Nat.isDigit_of_mem_toDigits (by decide) (by decide) h⟩

theorem isDigit_zeros {n : Nat} : ∀ ch ∈ zeros n, ch.isDigit = true := by
  intro ch hch
  obtain rfl := List.eq_of_mem_replicate hch
  rfl

theorem IsRun.append (hc : IsRun cs) (hd : ∀ ch ∈ ds, ch.isDigit = true) : IsRun (cs ++ ds) :=
  ⟨List.append_ne_nil_of_left_ne_nil hc.1 ds, List.forall_mem_append.mpr ⟨hc.2, hd⟩⟩

theorem IsRun.prepend (hc : ∀ ch ∈ cs, ch.isDigit = true) (hd : IsRun ds) : IsRun (cs ++ ds) :=
  ⟨List.append_ne_nil_of_right_ne_nil cs hd.1, List.forall_mem_append.mpr ⟨hc, hd.2⟩⟩

theorem digitRun?_of_isRun (h : IsRun cs) : digitRun? cs = some (cs.map (·.toNat - 48)) := by
  have decimal : ∀ ch ∈ cs, Text.decimalDigit? ch = some (ch.toNat - 48) :=
    fun ch hch => decimalDigit?_of_isDigit (h.2 ch hch)
  have wide : ∀ ch ∈ cs, Text.isDigit ch = true := fun ch hch =>
    isDigit_of_decimalDigit? (by rw [decimal ch hch]; rfl)
  have all : cs.all (fun ch => (Text.decimalDigit? ch).isSome) = true :=
    List.all_eq_true.mpr fun ch hch => by rw [decimal ch hch]; rfl
  rw [digitRun?_of_isDigit wide h.1, if_pos all,
    List.filterMap_eq_map_iff_forall_eq_some.mpr decimal]

theorem ofDigitChars_zeros (n init : Nat) :
    Nat.ofDigitChars 10 (zeros n) init = init * 10 ^ n := by
  induction n generalizing init with
  | zero => exact (Nat.mul_one init).symm
  | succ n ih =>
      have next : zeros (n + 1) = '0' :: zeros n := rfl
      rw [next, Nat.ofDigitChars_cons, ih, Nat.pow_succ]
      show (10 * init + 0) * 10 ^ n = _
      ring

theorem ofDigitChars_natural (n : Nat) : Nat.ofDigitChars 10 (natural n) 0 = n :=
  Nat.ofDigitChars_toDigits (by decide) (by decide)

end

/-! ## Whole numbers -/

def readNatural? (s : List Char) : Option Nat :=
  if !s.isEmpty && s.all Char.isDigit then some (Nat.ofDigitChars 10 s 0) else none

/-- The whole number that digits spell, with a minus in front or without. -/
def readWhole? : List Char → Option Int
  | '-' :: rest => (readNatural? rest).map fun n : Nat => -(n : Int)
  | s => (readNatural? s).map Int.ofNat

theorem readNatural?_natural (n : Nat) : readNatural? (natural n) = some n := by
  have run := isRun_natural n
  have digits : (!(natural n).isEmpty && (natural n).all Char.isDigit) = true := by
    rw [Bool.and_eq_true, Bool.not_eq_true', List.isEmpty_eq_false_iff, List.all_eq_true]
    exact run
  rw [readNatural?, if_pos digits, ofDigitChars_natural]

/-- Whole numbers read back. -/
theorem readWhole?_whole (n : Int) : readWhole? (whole n) = some n := by
  rw [whole]
  split
  · rename_i negative
    rw [readWhole?, readNatural?_natural, Option.map_some, Option.some.injEq]
    omega
  · have noMinus : ∀ rest, natural n.natAbs = '-' :: rest → False := by
      intro rest same
      have digit := (isRun_natural n.natAbs).2 '-' (same ▸ List.mem_cons_self)
      cases digit
    rw [readWhole?, readNatural?_natural, Option.map_some, Option.some.injEq]
    · show ((n.natAbs : Nat) : Int) = n
      omega
    · exact noMinus

/-- In the digits of a whole number there is neither a point nor an exponent. -/
theorem forall_mem_whole (n : Int) : ∀ ch ∈ whole n, ch = '-' ∨ ch.isDigit = true := by
  have digits : ∀ ch ∈ natural n.natAbs, ch = '-' ∨ ch.isDigit = true :=
    fun ch hch => Or.inr ((isRun_natural n.natAbs).2 ch hch)
  rw [whole]
  split
  · exact List.forall_mem_cons.mpr ⟨Or.inl rfl, digits⟩
  · exact digits

theorem whole_injective : Function.Injective whole := by
  intro m n same
  have read := readWhole?_whole m
  rw [same, readWhole?_whole] at read
  exact (Option.some.inj read).symm

/-! ## Numerals in parts -/

def exponentText : Option Int → List Char
  | none => []
  | some e => exponentPart e

/-- A numeral in its parts. -/
structure Numeral where
  whole : List Char
  fraction : Option (List Char)
  exponent : Option Int

namespace Numeral

def text (n : Numeral) : List Char :=
  n.whole ++ (Text.behind '.' n.fraction ++ exponentText n.exponent)

/-- There are digits in front of the point, and behind it where there is one. -/
structure Proper (n : Numeral) : Prop where
  whole : IsRun n.whole
  fraction : ∀ f, n.fraction = some f → IsRun f

def decimal (n : Numeral) : Decimal :=
  ⟨Nat.ofDigitChars 10 (n.whole ++ n.fraction.getD []) 0,
    n.exponent.getD 0 - (n.fraction.getD []).length⟩

end Numeral

theorem exponentOf?_exponentText (exponent : Option Int) :
    exponentOf? (exponentText exponent) = some (exponent.getD 0) := by
  cases exponent with
  | none => rfl
  | some e =>
      have digits : IsRun (zeros (2 - (natural e.natAbs).length) ++ natural e.natAbs) :=
        (isRun_natural _).prepend isDigit_zeros
      have spelt : ofDigits ((zeros (2 - (natural e.natAbs).length)
          ++ natural e.natAbs).map (·.toNat - 48)) = e.natAbs := by
        rw [ofDigits_map, Nat.ofDigitChars_append, ofDigitChars_zeros, Nat.zero_mul,
          ofDigitChars_natural]
      have sign : splitSign ((if e < 0 then '-' else '+')
          :: (zeros (2 - (natural e.natAbs).length) ++ natural e.natAbs))
          = (decide (e < 0), zeros (2 - (natural e.natAbs).length) ++ natural e.natAbs) := by
        by_cases negative : e < 0 <;> simp [negative, splitSign]
      have text : exponentText (some e) = 'e' :: (if e < 0 then '-' else '+')
          :: (zeros (2 - (natural e.natAbs).length) ++ natural e.natAbs) := by
        simp [exponentText, exponentPart]
      rw [text, exponentOf?, sign]
      dsimp only
      rw [digitRun?_of_isRun digits, Option.bind_eq_bind, Option.bind_some, spelt]
      refine congrArg some ?_
      by_cases negative : e < 0
      · rw [if_pos (decide_eq_true negative), Option.getD_some]
        omega
      · rw [if_neg (by simpa using negative), Option.getD_some]
        omega

section

variable {cs : List Char}

/-- Neither a point nor a mark of an exponent is a digit. -/
theorem ne_mark_of_isDigit {ch : Char} (h : ch.isDigit = true) :
    (ch != '.') = true ∧ (!(ch == 'e' || ch == 'E')) = true := by
  obtain ⟨low, high⟩ := toNat_of_isDigit h
  have differs (other : Char) (apart : other.toNat < 48 ∨ 57 < other.toNat) : ch ≠ other := by
    rintro rfl
    omega
  have point := differs '.' (by decide)
  have small := differs 'e' (by decide)
  have capital := differs 'E' (by decide)
  simp [point, small, capital]

end

namespace Numeral

variable {n : Numeral}

theorem Proper.unmarked (h : n.Proper) : ∀ ch ∈ n.whole ++ Text.behind '.' n.fraction,
    (!(ch == 'e' || ch == 'E')) = true := by
  refine List.forall_mem_append.mpr ⟨fun ch hch => (ne_mark_of_isDigit (h.whole.2 ch hch)).2, ?_⟩
  cases fraction : n.fraction with
  | none => exact nofun
  | some f =>
      refine List.forall_mem_cons.mpr ⟨rfl, fun ch hch => ?_⟩
      exact (ne_mark_of_isDigit ((h.fraction f fraction).2 ch hch)).2

/-- A numeral reads back as the decimal that its parts spell. -/
theorem unsigned?_text (h : n.Proper) : unsigned? n.text = some n.decimal := by
  have mantissa : n.text.takeWhile (!(fun c : Char => c == 'e' || c == 'E') ·)
      = n.whole ++ Text.behind '.' n.fraction := by
    rw [text, ← List.append_assoc, List.takeWhile_append_of_pos h.unmarked]
    cases n.exponent <;> simp [exponentText, exponentPart]
  have rest : n.text.dropWhile (!(fun c : Char => c == 'e' || c == 'E') ·)
      = exponentText n.exponent := by
    rw [text, ← List.append_assoc, List.dropWhile_append_of_pos h.unmarked]
    cases n.exponent <;> simp [exponentText, exponentPart]
  have pointless : ∀ ch ∈ n.whole, (ch != '.') = true :=
    fun ch hch => (ne_mark_of_isDigit (h.whole.2 ch hch)).1
  have before : (n.whole ++ Text.behind '.' n.fraction).takeWhile (· != '.') = n.whole := by
    rw [List.takeWhile_append_of_pos pointless]
    cases n.fraction <;> simp [Text.behind]
  have after : ((n.whole ++ Text.behind '.' n.fraction).dropWhile (· != '.')).drop 1
      = n.fraction.getD [] := by
    rw [List.dropWhile_append_of_pos pointless]
    cases n.fraction <;> simp [Text.behind]
  have front : optionalRun? n.whole = some (n.whole.map (·.toNat - 48)) := by
    rw [optionalRun?, if_neg (by simpa using h.whole.1), digitRun?_of_isRun h.whole]
  have back : optionalRun? (n.fraction.getD []) = some ((n.fraction.getD []).map (·.toNat - 48)) := by
    cases fraction : n.fraction with
    | none => rfl
    | some f =>
        have run := h.fraction f fraction
        rw [Option.getD_some, optionalRun?, if_neg (by simpa using run.1), digitRun?_of_isRun run]
  have some : ((n.whole.map (·.toNat - 48)).isEmpty
      && ((n.fraction.getD []).map (·.toNat - 48)).isEmpty) = false := by
    have := h.whole.1
    simp [this]
  rw [unsigned?]
  simp only [mantissa, rest, before, after, front, back, exponentOf?_exponentText,
    Option.bind_eq_bind, Option.bind_some, some]
  rw [← List.map_append, ofDigits_map, List.length_map]
  rfl

/-- A numeral begins with a digit. -/
theorem Proper.exists_cons (h : n.Proper) :
    ∃ ch rest, n.text = ch :: rest ∧ ch.isDigit = true := by
  obtain ⟨ch, more, whole⟩ := List.exists_cons_of_ne_nil h.whole.1
  have digit : ch.isDigit = true := h.whole.2 ch (whole ▸ List.mem_cons_self)
  exact ⟨ch, _, by rw [text, whole, List.cons_append], digit⟩

theorem Proper.text_ne (h : n.Proper) {ch : Char} (mark : ch.isDigit = false) (rest : List Char) :
    n.text ≠ ch :: rest := by
  obtain ⟨first, more, text, digit⟩ := h.exists_cons
  rw [text]
  intro same
  rw [(List.cons.inj same).1, mark] at digit
  cases digit

end Numeral

/-! ## The numerals of decimals -/

section

variable {ds : List Char} {d : Decimal} (spelt : Nat.ofDigitChars 10 ds 0 = d.digits)

include spelt

/-- All digits stand behind the point. -/
theorem decimal_behindPoint {k : Nat} (places : d.exponent = -((k + ds.length : Nat) : Int)) :
    Numeral.decimal ⟨['0'], some (zeros k ++ ds), none⟩ = d := by
  have digits : Nat.ofDigitChars 10 (['0'] ++ (zeros k ++ ds)) 0 = d.digits := by
    rw [Nat.ofDigitChars_append, Nat.ofDigitChars_append]
    show Nat.ofDigitChars 10 ds (Nat.ofDigitChars 10 (zeros k) 0) = _
    rw [ofDigitChars_zeros, Nat.zero_mul, spelt]
  have length : (zeros k ++ ds).length = k + ds.length := by simp [zeros]
  obtain ⟨n, e⟩ := d
  dsimp only at places digits
  simp only [Numeral.decimal, Option.getD_some, Option.getD_none, digits, places, length,
    Int.zero_sub]

/-- The digits stand in front of the point, with zeros behind them up to it. -/
theorem value_frontOfPoint {k : Nat} (places : d.exponent = k) :
    (Numeral.decimal ⟨ds ++ zeros k, some ['0'], none⟩).value = d.value := by
  have digits : (Numeral.decimal ⟨ds ++ zeros k, some ['0'], none⟩).digits
      = d.digits * 10 ^ (k + 1) := by
    have zero : zeros k ++ ['0'] = zeros (k + 1) := List.replicate_succ'.symm
    show Nat.ofDigitChars 10 (ds ++ zeros k ++ ['0']) 0 = _
    rw [List.append_assoc, Nat.ofDigitChars_append, spelt, zero, ofDigitChars_zeros]
  have exponent : (Numeral.decimal ⟨ds ++ zeros k, some ['0'], none⟩).exponent = -1 := rfl
  rw [value, value, digits, exponent, places, zpow_natCast, Nat.cast_mul, Nat.cast_pow, mul_assoc,
    pow_succ, zpow_neg_one]
  congr 1
  exact mul_inv_cancel_right₀ (by decide) _

/-- The point stands between the digits. -/
theorem decimal_betweenDigits {k : Nat} {exponent : Option Int}
    (places : d.exponent = exponent.getD 0 - (ds.length - k : Nat)) :
    Numeral.decimal ⟨ds.take k, some (ds.drop k), exponent⟩ = d := by
  obtain ⟨n, e⟩ := d
  dsimp only at places spelt
  simp only [Numeral.decimal, Option.getD_some, List.take_append_drop, spelt, List.length_drop,
    places]

end

theorem Numeral.Proper.of_isRun {w f : List Char} {exponent : Option Int} (hw : IsRun w)
    (hf : IsRun f) : Numeral.Proper ⟨w, some f, exponent⟩ where
  whole := hw
  fraction := by
    rintro g same
    obtain rfl := Option.some.inj same
    exact hf

theorem Numeral.Proper.of_isRun_alone {w : List Char} {exponent : Option Int} (hw : IsRun w) :
    Numeral.Proper ⟨w, none, exponent⟩ where
  whole := hw
  fraction := nofun

/-- A text is a numeral of a decimal: the parts spell the number that the decimal is, and a point
or an exponent tells the text from that of a whole number. -/
structure Numeral.Spells (n : Numeral) (d : Decimal) (text : List Char) : Prop where
  proper : n.Proper
  text_eq : text = n.text
  value_eq : n.decimal.value = d.value
  marked : n.fraction ≠ none ∨ n.exponent ≠ none

section

variable {ds : List Char} {d : Decimal} (digits : IsRun ds)
  (spelt : Nat.ofDigitChars 10 ds 0 = d.digits)

include digits spelt

theorem spells_behindPoint {k : Nat} (places : d.exponent = -((k + ds.length : Nat) : Int)) :
    Numeral.Spells ⟨['0'], some (zeros k ++ ds), none⟩ d (['0', '.'] ++ zeros k ++ ds) where
  proper := .of_isRun ⟨List.cons_ne_nil _ _, List.forall_mem_singleton.mpr rfl⟩
    (digits.prepend isDigit_zeros)
  text_eq := by simp [Numeral.text, Text.behind, exponentText]
  value_eq := congrArg value (decimal_behindPoint spelt places)
  marked := Or.inl (Option.some_ne_none _)

theorem spells_frontOfPoint {k : Nat} (places : d.exponent = k) :
    Numeral.Spells ⟨ds ++ zeros k, some ['0'], none⟩ d (ds ++ zeros k ++ ['.', '0']) where
  proper := .of_isRun (digits.append isDigit_zeros)
    ⟨List.cons_ne_nil _ _, List.forall_mem_singleton.mpr rfl⟩
  text_eq := by simp [Numeral.text, Text.behind, exponentText]
  value_eq := value_frontOfPoint spelt places
  marked := Or.inl (Option.some_ne_none _)

theorem spells_betweenDigits {k : Nat} (some : 0 < k) (more : k < ds.length)
    (exponent : Option Int) (places : d.exponent = exponent.getD 0 - (ds.length - k : Nat)) :
    Numeral.Spells ⟨ds.take k, Option.some (ds.drop k), exponent⟩ d
      (ds.take k ++ ('.' :: ds.drop k ++ exponentText exponent)) where
  proper := by
    have front : ds.take k ≠ [] := List.ne_nil_of_length_pos (by rw [List.length_take]; omega)
    have back : ds.drop k ≠ [] := List.ne_nil_of_length_pos (by rw [List.length_drop]; omega)
    exact .of_isRun ⟨front, fun ch hch => digits.2 ch (List.mem_of_mem_take hch)⟩
      ⟨back, fun ch hch => digits.2 ch (List.mem_of_mem_drop hch)⟩
  text_eq := rfl
  value_eq := congrArg value (decimal_betweenDigits spelt places)
  marked := Or.inl (Option.some_ne_none _)

theorem spells_withoutPoint :
    Numeral.Spells ⟨ds, none, some d.exponent⟩ d (ds ++ exponentPart d.exponent) where
  proper := .of_isRun_alone digits
  text_eq := rfl
  value_eq := by
    have exponent : d.exponent - (([] : List Char).length : Int) = d.exponent := Int.sub_zero _
    have decimal : Numeral.decimal ⟨ds, none, some d.exponent⟩ = ⟨d.digits, d.exponent⟩ :=
      congrArg₂ Decimal.mk ((congrArg (Nat.ofDigitChars 10 · 0) (List.append_nil ds)).trans spelt)
        exponent
    exact congrArg value decimal
  marked := Or.inr (Option.some_ne_none _)

end

/-- The layout of a decimal is a numeral of it. -/
theorem exists_numeral_layout (d : Decimal) : ∃ n : Numeral, n.Spells d (layout d) := by
  have digits := isRun_natural d.digits
  have spelt := ofDigitChars_natural d.digits
  unfold layout
  dsimp only
  generalize natural d.digits = ds at digits spelt
  have nonempty : 0 < ds.length := List.length_pos_iff.mpr digits.1
  split
  · split
    · exact ⟨_, spells_behindPoint digits spelt (by omega)⟩
    · split
      · exact ⟨_, spells_frontOfPoint digits spelt (by omega)⟩
      · have spells := spells_betweenDigits digits spelt
          (k := ((ds.length : Int) + d.exponent).toNat) (by omega) (by omega) none
          (by rw [Option.getD_none]; omega)
        rw [exponentText, List.append_nil] at spells
        exact ⟨_, spells⟩
  · -- With an exponent the first digit stands alone in front of the point.
    rcases ds with _ | ⟨first, _ | ⟨next, rest⟩⟩
    · exact absurd rfl digits.1
    · have exponent : ([first].length : Int) + d.exponent - 1 = d.exponent := by
        simp
      rw [exponent]
      exact ⟨_, spells_withoutPoint digits spelt⟩
    · refine ⟨_, spells_betweenDigits digits spelt Nat.one_pos ?_ (some _) ?_⟩
      · simp
      · simp only [List.length_cons, Option.getD_some]
        omega

/-! ## Doubles -/

section

variable {x y : Float}

theorem not_isUndefined_of_isFinite (h : Double.isFinite x = true) :
    Double.isUndefined x = false := by
  have := of_decide_eq_true h
  exact decide_eq_false (by omega)

theorem rank_ne_zero_of_not_isWhole (finite : Double.isFinite x = true)
    (h : Double.isWhole x = false) : Double.rank x ≠ 0 := by
  intro zero
  have none : Double.units x = 0 := by
    have magnitude : Double.magnitude 0 = 0 := by decide
    rw [Double.units, zero, magnitude]
    split <;> rfl
  rw [Double.isWhole, finite, none, Int.zero_emod] at h
  cases h

theorem double_of_rank_ne_zero (finite : Double.isFinite x = true) (h : Double.rank x ≠ 0) :
    double x = (if Double.isNegative x then ['-'] else []) ++ layout (shortest (Double.rank x)) := by
  rw [double, not_isUndefined_of_isFinite finite, finite, if_neg h]
  rfl

theorem ne_minus_layout (d : Decimal) (rest : List Char) : layout d ≠ '-' :: rest := by
  obtain ⟨n, proper, text, -⟩ := exists_numeral_layout d
  rw [text]
  exact proper.text_ne rfl rest

/-- Decimals that are laid out alike are the same number. -/
theorem value_eq_of_layout_eq {d e : Decimal} (h : layout d = layout e) : d.value = e.value := by
  obtain ⟨m, properM, textM, valueM, -⟩ := exists_numeral_layout d
  obtain ⟨n, properN, textN, valueN, -⟩ := exists_numeral_layout e
  have same : some m.decimal = some n.decimal := by
    rw [← Numeral.unsigned?_text properM, ← Numeral.unsigned?_text properN, ← textM, ← textN, h]
  rw [← valueM, ← valueN, Option.some.inj same]

/-- Doubles at the same place are written alike. -/
theorem double_eq_of_units_eq (hx : Double.isFinite x = true) (hy : Double.isFinite y = true)
    (someX : Double.rank x ≠ 0) (someY : Double.rank y ≠ 0)
    (h : Double.units x = Double.units y) : double x = double y := by
  have positive {rank : Nat} (some : rank ≠ 0) : 0 < Double.magnitude rank :=
    Nat.lt_of_le_of_lt (Nat.zero_le _) (Double.strictMono_magnitude (Nat.pos_of_ne_zero some))
  have partX := positive someX
  have partY := positive someY
  have same : Double.isNegative x = Double.isNegative y ∧
      Double.magnitude (Double.rank x) = Double.magnitude (Double.rank y) := by
    rw [Double.units, Double.units] at h
    cases signX : Double.isNegative x <;> cases signY : Double.isNegative y <;>
      simp only [signX, signY, Bool.false_eq_true, if_false, if_true] at h
    · exact ⟨rfl, by omega⟩
    · omega
    · omega
    · exact ⟨rfl, by omega⟩
  rw [double_of_rank_ne_zero hx someX, double_of_rank_ne_zero hy someY, same.1,
    Double.strictMono_magnitude.injective same.2]

/-- An infinity has a sign and nothing else. -/
theorem double_of_not_isFinite (finite : Double.isFinite x = false)
    (defined : Double.isUndefined x = false) :
    double x = (if Double.isNegative x then ['-'] else []) ++ ['i', 'n', 'f'] := by
  rw [double, defined, finite]
  rfl

/-- A double without a whole value is not written like a whole number: there is a point or an
exponent. -/
theorem whole_ne_double (finite : Double.isFinite x = true) (part : Double.isWhole x = false)
    (n : Int) : whole n ≠ double x := by
  intro same
  rw [double_of_rank_ne_zero finite (rank_ne_zero_of_not_isWhole finite part)] at same
  obtain ⟨m, -, text, -, marked⟩ := exists_numeral_layout (shortest (Double.rank x))
  have plain := forall_mem_whole n
  have mark : '.' ∈ m.text ∨ 'e' ∈ m.text := by
    rw [Numeral.text, List.mem_append, List.mem_append, List.mem_append, List.mem_append]
    rcases marked with point | exponent
    · obtain ⟨f, hf⟩ := Option.ne_none_iff_exists'.mp point
      rw [hf]
      exact Or.inl (Or.inr (Or.inl List.mem_cons_self))
    · obtain ⟨e, he⟩ := Option.ne_none_iff_exists'.mp exponent
      rw [he]
      exact Or.inr (Or.inr (Or.inr (by simp [exponentText, exponentPart])))
  rw [same, text] at plain
  rcases mark with point | exponent
  · rcases plain '.' (List.mem_append_right _ point) with h | h <;> exact absurd h (by decide)
  · rcases plain 'e' (List.mem_append_right _ exponent) with h | h <;> exact absurd h (by decide)

/-- Two doubles without whole values that are written alike are the same double. -/
theorem units_eq_of_double_eq (hx : Double.isFinite x = true) (hy : Double.isFinite y = true)
    (partX : Double.isWhole x = false) (partY : Double.isWhole y = false)
    (h : double x = double y) : Double.units x = Double.units y := by
  have someX := rank_ne_zero_of_not_isWhole hx partX
  have someY := rank_ne_zero_of_not_isWhole hy partY
  rw [double_of_rank_ne_zero hx someX, double_of_rank_ne_zero hy someY] at h
  have tell (same : layout (shortest (Double.rank x)) = layout (shortest (Double.rank y))) :
      Double.rank x = Double.rank y := by
    have first := roundsTo_shortest (Nat.pos_of_ne_zero someX)
    rw [value_eq_of_layout_eq same] at first
    exact first.unique (roundsTo_shortest (Nat.pos_of_ne_zero someY))
  -- A minus in front of one numeral alone would be the other's first digit.
  cases signX : Double.isNegative x <;> cases signY : Double.isNegative y <;>
    simp only [signX, signY, Bool.false_eq_true, if_false, if_true, List.nil_append,
      List.singleton_append, List.cons.injEq, true_and] at h
  · rw [Double.units, Double.units, signX, signY, tell h]
  · exact absurd h (ne_minus_layout _ _)
  · exact absurd h.symm (ne_minus_layout _ _)
  · rw [Double.units, Double.units, signX, signY, tell h]

end

end Decimal

/-! ## Numbers -/

namespace Number

def isFinite : Number → Bool
  | whole _ => true
  | double x => Double.isFinite x

def units : Number → Int
  | whole n => n * (Double.unitsPerOne : Int)
  | double x => Double.units x

def whole? : Number → Option Int
  | whole n => some n
  | double x => if Double.isWhole x then some (Double.floor x) else none

variable {a b : Number}

theorem place?_of_isFinite (h : a.isFinite = true) : a.place? = some (0, a.units) := by
  cases a with
  | whole n => rfl
  | double x =>
      have finite : Double.isFinite x = true := h
      rw [place?, Decimal.not_isUndefined_of_isFinite finite, if_neg (by decide), if_pos finite]
      rfl

/-- Finite numbers are the same if they are the same in units. -/
theorem same_iff_units_eq (ha : a.isFinite = true) (hb : b.isFinite = true) :
    a.same b = true ↔ a.units = b.units := by
  rw [same, place?_of_isFinite ha, place?_of_isFinite hb]
  simp

theorem units_of_whole? {n : Int} (h : a.whole? = some n) :
    a.units = n * (Double.unitsPerOne : Int) := by
  cases a with
  | whole m =>
      obtain rfl := Option.some.inj h
      rfl
  | double x =>
      rw [whole?, Option.ite_none_right_eq_some, Double.isWhole, Bool.and_eq_true,
        decide_eq_true_eq] at h
      obtain ⟨⟨-, whole⟩, floor⟩ := h
      rw [← Option.some.inj floor]
      exact (Int.ediv_mul_cancel (Int.dvd_of_emod_eq_zero whole)).symm

/-- A number that is not whole is a double, and no multiple of one in units. -/
theorem exists_double_of_whole? (ha : a.isFinite = true) (h : a.whole? = none) :
    ∃ x, a = double x ∧ Double.isFinite x = true ∧ Double.isWhole x = false ∧
      ∀ n : Int, a.units ≠ n * (Double.unitsPerOne : Int) := by
  cases a with
  | whole m => cases h
  | double x =>
      have finite : Double.isFinite x = true := ha
      have part : Double.isWhole x = false := by
        rw [whole?, ite_eq_right_iff] at h
        exact Bool.eq_false_iff.mpr fun whole => nomatch h whole
      refine ⟨x, rfl, finite, part, fun n multiple => ?_⟩
      have whole : Double.units x % (Double.unitsPerOne : Int) = 0 := by
        rw [show Double.units x = n * (Double.unitsPerOne : Int) from multiple, Int.mul_emod_left]
      rw [Double.isWhole, finite, whole] at part
      cases part

theorem written_of_whole? {n : Int} (h : a.whole? = some n) :
    a.written = String.ofList (Decimal.whole n) := by
  cases a with
  | whole m =>
      obtain rfl := Option.some.inj h
      rfl
  | double x =>
      rw [whole?, Option.ite_none_right_eq_some] at h
      obtain ⟨whole, floor⟩ := h
      rw [written, if_pos whole, Option.some.inj floor]

theorem written_eq_of_units_eq (ha : a.isFinite = true) (hb : b.isFinite = true)
    (h : a.units = b.units) : a.written = b.written := by
  cases wholeA : a.whole? with
  | some m =>
      cases wholeB : b.whole? with
      | some n =>
          have scaled : m * (Double.unitsPerOne : Int) = n * (Double.unitsPerOne : Int) := by
            rw [← units_of_whole? wholeA, ← units_of_whole? wholeB, h]
          rw [written_of_whole? wholeA, written_of_whole? wholeB,
            Int.eq_of_mul_eq_mul_right (Int.ne_of_gt unitsPerOne_pos) scaled]
      | none =>
          obtain ⟨-, -, -, -, part⟩ := exists_double_of_whole? hb wholeB
          exact absurd (h.symm.trans (units_of_whole? wholeA)) (part m)
  | none =>
      obtain ⟨x, rfl, finiteX, partX, apart⟩ := exists_double_of_whole? ha wholeA
      cases wholeB : b.whole? with
      | some n => exact absurd (h.trans (units_of_whole? wholeB)) (apart n)
      | none =>
          obtain ⟨y, rfl, finiteY, partY, -⟩ := exists_double_of_whole? hb wholeB
          rw [written, written, if_neg (by simp [partX]), if_neg (by simp [partY]),
            Decimal.double_eq_of_units_eq finiteX finiteY
              (Decimal.rank_ne_zero_of_not_isWhole finiteX partX)
              (Decimal.rank_ne_zero_of_not_isWhole finiteY partY) h]

/-- A number that is not finite and stands for something is an infinity. -/
theorem exists_infinity_of_place? {p : Int × Int} (ha : a.isFinite = false) (h : a.place? = some p) :
    ∃ x, a = double x ∧ p = (if Double.isNegative x then -1 else 1, 0) ∧
      Double.isFinite x = false ∧ Double.isUndefined x = false := by
  cases a with
  | whole n => cases ha
  | double x =>
      have infinite : Double.isFinite x = false := ha
      rw [place?, infinite, Option.ite_none_left_eq_some] at h
      obtain ⟨defined, place⟩ := h
      exact ⟨x, rfl, (Option.some.inj place).symm, infinite, Bool.eq_false_iff.mpr defined⟩

theorem written_infinity {x : Float} (finite : Double.isFinite x = false)
    (defined : Double.isUndefined x = false) : (double x).written
      = String.ofList ((if Double.isNegative x then ['-'] else []) ++ ['i', 'n', 'f']) := by
  have part : Double.isWhole x = false := by rw [Double.isWhole, finite, Bool.false_and]
  rw [written, if_neg (by simp [part]), Decimal.double_of_not_isFinite finite defined]

/-- Numbers that are the same are written alike. -/
theorem written_eq_of_same (h : a.same b = true) : a.written = b.written := by
  unfold same at h
  split at h
  · rename_i p q placeA placeB
    obtain rfl := of_decide_eq_true h
    cases ha : a.isFinite with
    | true =>
        cases hb : b.isFinite with
        | true =>
            rw [place?_of_isFinite ha] at placeA
            rw [place?_of_isFinite hb, ← placeA] at placeB
            have units : a.units = b.units := by simpa using placeB.symm
            exact written_eq_of_units_eq ha hb units
        | false =>
            obtain ⟨y, -, rfl, -⟩ := exists_infinity_of_place? hb placeB
            rw [place?_of_isFinite ha, Option.some.injEq, Prod.mk.injEq] at placeA
            split at placeA <;> cases placeA.1
    | false =>
        obtain ⟨x, rfl, rfl, infiniteX, definedX⟩ := exists_infinity_of_place? ha placeA
        cases hb : b.isFinite with
        | true =>
            rw [place?_of_isFinite hb, Option.some.injEq, Prod.mk.injEq] at placeB
            split at placeB <;> cases placeB.1
        | false =>
            obtain ⟨y, rfl, sign, infiniteY, definedY⟩ := exists_infinity_of_place? hb placeB
            rw [written_infinity infiniteX definedX, written_infinity infiniteY definedY]
            cases signX : Double.isNegative x <;> cases signY : Double.isNegative y <;>
              simp [signX, signY] at sign ⊢
  · cases h

/-- Finite numbers are written alike in a style sheet exactly if they are the same, whether they are
whole numbers or doubles. -/
theorem written_eq_iff (ha : a.isFinite = true) (hb : b.isFinite = true) :
    a.written = b.written ↔ a.same b = true := by
  refine ⟨fun alike => ?_, written_eq_of_same⟩
  rw [same_iff_units_eq ha hb]
  cases wholeA : a.whole? with
  | some m =>
      rw [written_of_whole? wholeA] at alike
      cases wholeB : b.whole? with
      | some n =>
          rw [written_of_whole? wholeB, String.ofList_inj] at alike
          rw [units_of_whole? wholeA, units_of_whole? wholeB, Decimal.whole_injective alike]
      | none =>
          obtain ⟨y, rfl, finite, part, -⟩ := exists_double_of_whole? hb wholeB
          rw [written, if_neg (by simp [part]), String.ofList_inj] at alike
          exact absurd alike (Decimal.whole_ne_double finite part m)
  | none =>
      obtain ⟨x, rfl, finiteX, partX, -⟩ := exists_double_of_whole? ha wholeA
      rw [written, if_neg (by simp [partX])] at alike
      cases wholeB : b.whole? with
      | some n =>
          rw [written_of_whole? wholeB, String.ofList_inj] at alike
          exact absurd alike.symm (Decimal.whole_ne_double finiteX partX n)
      | none =>
          obtain ⟨y, rfl, finiteY, partY, -⟩ := exists_double_of_whole? hb wholeB
          rw [written, if_neg (by simp [partY]), String.ofList_inj] at alike
          exact Decimal.units_eq_of_double_eq finiteX finiteY partX partY alike

end Number

end DesignMarkup
