import Mathlib.Data.List.Basic
import DesignMarkup.Value.Numeral

/-!
# Runs of digits

Decimal digits of any script, up to a number of them, are read as the number that they spell, and
digits in the wider sense are read only where all of them are decimal.
-/

namespace DesignMarkup

namespace Decimal

/-! ## Digits in the wider sense -/

variable {ch : Char} {cs : List Char} {n : Nat}

theorem not_isBlank_of_isDigit (h : Text.isDigit ch = true) : Text.isBlank ch = false := by
  have zeros : ∀ r ∈ Text.blankRanges, ∀ z ∈ Text.digitZeros, r.2 < z ∨ z + 10 ≤ r.1 := by
    decide +kernel
  have lone : ∀ r ∈ Text.blankRanges, ∀ d ∈ Text.loneDigitRanges, r.2 < d.1 ∨ d.2 < r.1 := by
    decide +kernel
  rw [Text.isBlank, Text.inRanges, List.any_eq_false]
  intro r hr inside
  rw [Bool.and_eq_true, decide_eq_true_eq, decide_eq_true_eq] at inside
  rw [Text.isDigit, Bool.or_eq_true, Text.decimalDigit?, Option.isSome_map, List.find?_isSome,
    Text.inRanges, List.any_eq_true] at h
  simp only [Bool.and_eq_true, decide_eq_true_eq] at h
  rcases h with ⟨z, hz, low, high⟩ | ⟨d, hd, low, high⟩
  · have := zeros r hr z hz
    omega
  · have := lone r hr d hd
    omega

theorem not_isNumeralBlank_of_isDigit (h : Text.isDigit ch = true) : isNumeralBlank ch = false := by
  rw [isNumeralBlank, not_isBlank_of_isDigit h, Bool.false_and]

theorem isDigit_of_decimalDigit? (h : (Text.decimalDigit? ch).isSome = true) :
    Text.isDigit ch = true := by
  rw [Text.isDigit, h, Bool.true_or]

/-- A text without blanks has none to lose. -/
theorem trimNumeral_of_forall (h : ∀ ch ∈ cs, isNumeralBlank ch = false) :
    trimNumeral cs = cs := by
  have keep : ∀ ds : List Char, (∀ ch ∈ ds, isNumeralBlank ch = false) →
      ds.dropWhile isNumeralBlank = ds := by
    intro ds hds
    cases ds with
    | nil => rfl
    | cons d rest =>
        have := hds d List.mem_cons_self
        rw [List.dropWhile_cons_of_neg (Bool.eq_false_iff.mp this)]
  have backwards : ∀ ch ∈ cs.reverse, isNumeralBlank ch = false :=
    fun ch hch => h ch (List.mem_reverse.mp hch)
  rw [trimNumeral, keep cs h, keep cs.reverse backwards, List.reverse_reverse]

section

variable (digits : ∀ ch ∈ cs, Text.isDigit ch = true)

include digits

theorem trimNumeral_of_isDigit : trimNumeral cs = cs :=
  trimNumeral_of_forall fun ch hch => not_isNumeralBlank_of_isDigit (digits ch hch)

theorem splitSign_of_isDigit : splitSign cs = (false, cs) := by
  unfold splitSign
  split
  · exact absurd (digits '-' List.mem_cons_self) (by decide)
  · exact absurd (digits '+' List.mem_cons_self) (by decide)
  · rfl

/-- A run of digits in the wider sense is read where all of them are decimal. -/
theorem digitRun?_of_isDigit (nonempty : cs ≠ []) :
    digitRun? cs = if cs.all (fun ch => (Text.decimalDigit? ch).isSome)
      then some (cs.filterMap Text.decimalDigit?) else none := by
  induction cs with
  | nil => exact absurd rfl nonempty
  | cons ch rest ih =>
      have hrest := (List.forall_mem_cons.mp digits).2
      cases rest with
      | nil =>
          rw [digitRun?]
          cases decimal : Text.decimalDigit? ch <;> simp [decimal]
      | cons next rest =>
          have noMark : next ≠ '_' := by
            rintro rfl
            exact absurd (hrest '_' List.mem_cons_self) (by decide)
          have step : digitRun? (ch :: next :: rest)
              = (do pure ((← Text.decimalDigit? ch) :: (← digitRun? (next :: rest)))) := by
            rw [digitRun?.eq_def]
            split <;> simp_all
          have all : (ch :: next :: rest).all (fun ch => (Text.decimalDigit? ch).isSome)
              = ((Text.decimalDigit? ch).isSome
                && (next :: rest).all (fun ch => (Text.decimalDigit? ch).isSome)) :=
            List.all_cons
          rw [step, ih hrest (List.cons_ne_nil _ _), all]
          cases decimal : Text.decimalDigit? ch with
          | none => rfl
          | some d =>
              rw [List.filterMap_cons_some decimal, Option.isSome_some, Bool.true_and]
              split <;> rfl

end

/-! ## Numbers -/

/-- The number that decimal digits of any script spell, if there are some and not too many. -/
def numberIn? (cs : List Char) : Option Nat :=
  if cs ≠ [] ∧ cs.length ≤ maxDigits ∧ cs.all (fun ch => (Text.decimalDigit? ch).isSome) = true
  then some (ofDigits (cs.filterMap Text.decimalDigit?)) else none

theorem isDigit_of_numberIn? (h : numberIn? cs = some n) :
    cs ≠ [] ∧ ∀ ch ∈ cs, Text.isDigit ch = true := by
  rw [numberIn?, Option.ite_none_right_eq_some] at h
  obtain ⟨⟨nonempty, -, decimal⟩, -⟩ := h
  exact ⟨nonempty, fun ch hch => isDigit_of_decimalDigit? (List.all_eq_true.mp decimal ch hch)⟩

/-- Digits in the wider sense are read as the number that they spell, if they spell one. -/
theorem wholeNumber?_of_isDigit (nonempty : cs ≠ []) (digits : ∀ ch ∈ cs, Text.isDigit ch = true) :
    wholeNumber? cs = (numberIn? cs).map Int.ofNat := by
  rw [wholeNumber?, trimNumeral_of_isDigit digits, splitSign_of_isDigit digits]
  dsimp only
  rw [digitRun?_of_isDigit digits nonempty]
  by_cases decimal : cs.all (fun ch => (Text.decimalDigit? ch).isSome) = true
  · have length : (cs.filterMap Text.decimalDigit?).length = cs.length :=
      List.filterMap_length_eq_length.mpr (List.all_eq_true.mp decimal)
    rw [if_pos decimal, Option.bind_eq_bind, Option.bind_some, length]
    by_cases short : cs.length ≤ maxDigits
    · have spelt : numberIn? cs = some (ofDigits (cs.filterMap Text.decimalDigit?)) :=
        if_pos ⟨nonempty, short, decimal⟩
      rw [if_pos short, spelt]
      rfl
    · have none : numberIn? cs = none := if_neg fun h => short h.2.1
      rw [if_neg short, none]
      rfl
  · have none : numberIn? cs = none := if_neg fun h => decimal h.2.2
    rw [if_neg decimal, none]
    rfl

/-! ## ASCII digits -/

theorem toNat_of_isDigit (h : ch.isDigit = true) : 48 ≤ ch.toNat ∧ ch.toNat ≤ 57 := by
  rw [Char.isDigit, Bool.and_eq_true, decide_eq_true_eq, decide_eq_true_eq] at h
  exact h

theorem decimalDigit?_of_isDigit (h : ch.isDigit = true) :
    Text.decimalDigit? ch = some (ch.toNat - 48) := by
  obtain ⟨low, high⟩ := toNat_of_isDigit h
  have first : (decide (48 ≤ ch.toNat) && decide (ch.toNat < 48 + 10)) = true := by
    rw [Bool.and_eq_true, decide_eq_true_eq, decide_eq_true_eq]
    omega
  have found : Text.digitZeros.find? (fun z => decide (z ≤ ch.toNat) && decide (ch.toNat < z + 10))
      = some 48 :=
    List.find?_cons_of_pos first
  rw [Text.decimalDigit?, found]
  rfl

theorem ofDigits_map (cs : List Char) :
    ofDigits (cs.map (·.toNat - 48)) = Nat.ofDigitChars 10 cs 0 := by
  rw [ofDigits, List.foldl_map]
  rfl

def IsRun (cs : List Char) : Prop := cs ≠ [] ∧ ∀ ch ∈ cs, ch.isDigit = true

theorem numberIn?_of_isRun (h : IsRun cs) (short : cs.length ≤ maxDigits) :
    numberIn? cs = some (Nat.ofDigitChars 10 cs 0) := by
  have decimal : ∀ ch ∈ cs, Text.decimalDigit? ch = some (ch.toNat - 48) :=
    fun ch hch => decimalDigit?_of_isDigit (h.2 ch hch)
  have spelt : cs.filterMap Text.decimalDigit? = cs.map (·.toNat - 48) :=
    List.filterMap_eq_map_iff_forall_eq_some.mpr decimal
  have all : cs.all (fun ch => (Text.decimalDigit? ch).isSome) = true :=
    List.all_eq_true.mpr fun ch hch => by rw [decimal ch hch]; rfl
  rw [numberIn?, if_pos ⟨h.1, short, all⟩, spelt, ofDigits_map]

end Decimal

namespace Value

/-- A text of digits in the wider sense is the whole number that they spell, if they spell one. -/
theorem wholeOfText_of_isDigit {s : String} (nonempty : s ≠ "")
    (digits : ∀ ch ∈ s.toList, Text.isDigit ch = true) :
    wholeOfText s
      = match Decimal.numberIn? s.toList with
        | some n => .ok n
        | none => .error (.badValue (wholeComplaint s)) := by
  have some : s.toList ≠ [] := fun none => nonempty (String.toList_eq_nil_iff.mp none)
  rw [wholeOfText, Decimal.wholeNumber?_of_isDigit some digits]
  cases Decimal.numberIn? s.toList <;> rfl

end Value

end DesignMarkup
