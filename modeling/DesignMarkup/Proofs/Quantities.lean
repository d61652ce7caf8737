import DesignMarkup.Value.Arithmetic
import DesignMarkup.Proofs.Computations
import DesignMarkup.Proofs.Doubles

/-!
# Arithmetic within bounds

A number within 2^k, whole or double, can be added to, multiplied and rounded without leaving
the range of doubles, as long as k is moderate. The bounds of results are generous; what
matters is that they are bounds.
-/

namespace DesignMarkup

/-! ## Numbers -/

namespace Number

def Within (k : Nat) : Number → Prop
  | whole n => n.natAbs < 2 ^ k
  | double x => Double.Below k x

/-! ### Whole numbers -/

theorem unitsPerOne_pos : (0 : Int) < (Double.unitsPerOne : Int) :=
  Int.natCast_pos.mpr (Double.twoTo_pos 1074)

theorem less_whole (m n : Int) : (whole m).less (.whole n) = decide (m < n) := by
  have scaled : m * (Double.unitsPerOne : Int) < n * (Double.unitsPerOne : Int) ↔ m < n :=
    Int.mul_lt_mul_right unitsPerOne_pos
  have ordered : (whole m).less (.whole n)
      = decide (m * (Double.unitsPerOne : Int) < n * (Double.unitsPerOne : Int)) := rfl
  rw [ordered, decide_eq_decide.mpr scaled]

theorem isZero_whole (n : Int) : (whole n).isZero = decide (n = 0) := by
  have scaled : n * (Double.unitsPerOne : Int) = 0 ↔ n = 0 :=
    Int.mul_eq_zero.trans (or_iff_left (Int.ne_of_gt unitsPerOne_pos))
  have placed : (whole n).isZero = decide (((0 : Int), n * (Double.unitsPerOne : Int))
      = (0, 0 * (Double.unitsPerOne : Int))) := rfl
  rw [placed, Int.zero_mul, decide_eq_decide, Prod.mk.injEq, eq_self, true_and, scaled]

/-! ### Within bounds -/

variable {j k : Nat} {a b : Number}

theorem toDouble_of_within (h : a.Within k) (hk : k ≤ 800) :
    Yields a.toDouble (Double.Below (k + 161)) := by
  cases a with
  | whole n =>
      obtain ⟨x, hx, bound⟩ := Double.ofInt?_of_lt h hk
      refine ⟨x, ?_, bound⟩
      rw [toDouble, hx]
  | double x => exact ⟨x, rfl, Double.Below.mono h (by omega)⟩

theorem times_of_within (ha : a.Within j) (hb : b.Within k) (h : j + k ≤ 600) :
    Yields (a.times b) (Within (j + k + 375)) := by
  have doubles (hab : a.times b = do pure (double ((← a.toDouble) * (← b.toDouble)))) :
      Yields (a.times b) (Within (j + k + 375)) := by
    obtain ⟨x, hx, below_x⟩ := toDouble_of_within ha (by omega)
    obtain ⟨y, hy, below_y⟩ := toDouble_of_within hb (by omega)
    refine ⟨double (x * y), ?_, ?_⟩
    · rw [hab, hx, hy]
      rfl
    · exact (Double.below_mul below_x below_y (by omega)).mono (by omega)
  -- Two whole numbers are multiplied exactly, any other two as doubles.
  cases a with
  | whole m =>
      cases b with
      | whole n =>
          refine ⟨whole (m * n), rfl, ?_⟩
          show (m * n).natAbs < 2 ^ (j + k + 375)
          rw [Int.natAbs_mul]
          calc m.natAbs * n.natAbs
              < 2 ^ j * 2 ^ k := Nat.mul_lt_mul_of_lt_of_lt ha hb
            _ = 2 ^ (j + k) := (Nat.pow_add 2 j k).symm
            _ ≤ 2 ^ (j + k + 375) := Nat.pow_le_pow_right (by decide) (by omega)
      | double y => exact doubles rfl
  | double x => exact doubles (by cases b <;> rfl)

theorem minus_of_within (ha : a.Within k) (hb : b.Within k) (h : k ≤ 600) :
    Yields (a.minus b) (Within (k + 215)) := by
  have doubles (hab : a.minus b = do pure (double ((← a.toDouble) - (← b.toDouble)))) :
      Yields (a.minus b) (Within (k + 215)) := by
    obtain ⟨x, hx, below_x⟩ := toDouble_of_within ha (by omega)
    obtain ⟨y, hy, below_y⟩ := toDouble_of_within hb (by omega)
    refine ⟨double (x - y), ?_, ?_⟩
    · rw [hab, hx, hy]
      rfl
    · exact (Double.below_sub below_x below_y (by omega)).mono (by omega)
  -- The same cases as for products.
  cases a with
  | whole m =>
      cases b with
      | whole n =>
          refine ⟨whole (m - n), rfl, ?_⟩
          show (m - n).natAbs < 2 ^ (k + 215)
          have hm : m.natAbs < 2 ^ k := ha
          have hn : n.natAbs < 2 ^ k := hb
          calc (m - n).natAbs
              < 2 ^ (k + 1) := by rw [Nat.pow_succ]; omega
            _ ≤ 2 ^ (k + 215) := Nat.pow_le_pow_right (by decide) (by omega)
      | double y => exact doubles rfl
  | double x => exact doubles (by cases b <;> rfl)

theorem floorOf_of_below {x : Float} (h : Double.Below k x) (hk : k ≤ 1024) :
    Succeeds (floorOf x) := by
  -- A finite double stands for a number, so neither fault is reached.
  have finite := Double.isFinite_of_below h hk
  have defined : Double.isUndefined x = false := by
    have := of_decide_eq_true finite
    exact decide_eq_false (by omega)
  rw [floorOf, defined, finite]
  exact succeeds_ok _

/-- A number is rounded by adding a half, which is possible. -/
theorem roundHalfUp_of_within (h : a.Within k) (hk : k ≤ 800) : Succeeds a.roundHalfUp := by
  obtain ⟨x, hx, below_x⟩ := toDouble_of_within h hk
  have half : Double.Below 0 0.5 := by
    unfold Double.Below
    decide
  have sum := Double.below_add below_x half (by omega)
  rw [roundHalfUp, hx]
  exact floorOf_of_below sum (by omega)

theorem twoPlaces_of_within (h : a.Within k) (hk : k ≤ 800) : Succeeds a.twoPlaces := by
  obtain ⟨x, hx, -⟩ := toDouble_of_within h hk
  rw [twoPlaces, hx]
  exact succeeds_pure _

end Number

/-! ## Values -/

namespace Value

def IsWithin (k : Nat) (v : Value) : Prop := ∃ a, v = .number a ∧ a.Within k

variable {j k : Nat} {v w : Value}

theorem isWithin_whole {n : Int} (h : n.natAbs < 2 ^ k) : (Value.whole n).IsWithin k :=
  ⟨.whole n, rfl, h⟩

theorem times_of_isWithin (hv : v.IsWithin j) (hw : w.IsWithin k) (h : j + k ≤ 600) :
    Yields (v.times w) (IsWithin (j + k + 375)) := by
  obtain ⟨a, rfl, ha⟩ := hv
  obtain ⟨b, rfl, hb⟩ := hw
  obtain ⟨c, hc, within⟩ := Number.times_of_within ha hb h
  refine ⟨.number c, ?_, c, rfl, within⟩
  have product : (Value.number a).times (.number b) = (a.times b >>= fun c => pure (.number c)) :=
    rfl
  rw [product, hc]
  rfl

theorem minus_of_isWithin (hv : v.IsWithin k) (hw : w.IsWithin k) (h : k ≤ 600) :
    Yields (v.minus w) (Number.Within (k + 215)) := by
  obtain ⟨a, rfl, ha⟩ := hv
  obtain ⟨b, rfl, hb⟩ := hw
  exact Number.minus_of_within ha hb h

theorem roundHalfUp_of_isWithin (h : v.IsWithin k) (hk : k ≤ 800) : Succeeds v.roundHalfUp := by
  obtain ⟨a, rfl, ha⟩ := h
  exact Number.roundHalfUp_of_within ha hk

theorem twoPlaces_of_isWithin (h : v.IsWithin k) (hk : k ≤ 800) : Succeeds v.twoPlaces := by
  obtain ⟨a, rfl, ha⟩ := h
  exact Number.twoPlaces_of_within ha hk

theorem toNumber_of_isWithin (h : v.IsWithin k) : Succeeds v.toNumber := by
  obtain ⟨a, rfl, -⟩ := h
  exact succeeds_ok a

theorem less_of_isWithin (h : v.IsWithin k) (n : Number) : Succeeds (v.less n) := by
  obtain ⟨a, rfl, -⟩ := h
  exact succeeds_pure _

theorem greater_of_isWithin (h : v.IsWithin k) (n : Number) : Succeeds (v.greater n) := by
  obtain ⟨a, rfl, -⟩ := h
  exact succeeds_pure _

theorem atLeast_of_isWithin (h : v.IsWithin k) (n : Number) : Succeeds (v.atLeast n) := by
  obtain ⟨a, rfl, -⟩ := h
  exact succeeds_pure _

end Value

end DesignMarkup
