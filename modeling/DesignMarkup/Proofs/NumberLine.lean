import Mathlib.Data.Prod.Lex
import DesignMarkup.Proofs.Numerals

/-!
# Numbers on the line

Apart from the double that stands for no number, every number has a spot on a line with an end on
either side, and the comparisons of numbers are those of their spots. Numbers at one spot may be
whole or doubles, and are written alike.
-/

namespace DesignMarkup.Number

def IsPlaced (a : Number) : Prop := a.place?.isSome = true

instance (a : Number) : Decidable a.IsPlaced := inferInstanceAs (Decidable (_ = true))

def spot (a : Number) : ℤ ×ₗ ℤ := toLex (a.place?.getD (0, 0))

section

variable {a b c : Number}

theorem IsPlaced.place?_eq (h : a.IsPlaced) : a.place? = some (ofLex a.spot) := by
  obtain ⟨p, place⟩ := Option.isSome_iff_exists.mp h
  rw [spot, place]
  rfl

theorem isPlaced_whole (n : Int) : (whole n).IsPlaced := rfl

theorem less_iff_spot (ha : a.IsPlaced) (hb : b.IsPlaced) : a.less b = true ↔ a.spot < b.spot := by
  rw [less, ha.place?_eq, hb.place?_eq, Prod.Lex.lt_iff]
  simp

theorem same_iff_spot (ha : a.IsPlaced) (hb : b.IsPlaced) : a.same b = true ↔ a.spot = b.spot := by
  rw [same, ha.place?_eq, hb.place?_eq]
  simp

theorem atLeast_iff_spot (ha : a.IsPlaced) (hb : b.IsPlaced) :
    a.atLeast b = true ↔ b.spot ≤ a.spot := by
  rw [atLeast, Bool.or_eq_true, less_iff_spot hb ha, same_iff_spot ha hb, le_iff_lt_or_eq]
  exact or_congr_right eq_comm

/-! ## The largest of several numbers -/

/-- The number is one of a list, and none of them lies above it. -/
structure IsLargest (ns : List Number) (a : Number) : Prop where
  mem : a ∈ ns
  atLeast : ∀ b ∈ ns, a.atLeast b = true

/-- The second number where it lies above the first, else the first. -/
def larger (a b : Number) : Number := if a.less b then b else a

theorem isPlaced_larger (ha : a.IsPlaced) (hb : b.IsPlaced) : (larger a b).IsPlaced := by
  unfold larger
  split
  · exact hb
  · exact ha

theorem spot_larger (ha : a.IsPlaced) (hb : b.IsPlaced) :
    (larger a b).spot = max a.spot b.spot := by
  unfold larger
  split
  · rename_i below
    exact (max_eq_right ((less_iff_spot ha hb).mp below).le).symm
  · rename_i above
    rw [less_iff_spot ha hb, not_lt] at above
    exact (max_eq_left above).symm

theorem larger_of_spot_le (ha : a.IsPlaced) (hb : b.IsPlaced) (h : b.spot ≤ a.spot) :
    larger a b = a := by
  rw [larger, if_neg]
  rwa [less_iff_spot ha hb, not_lt]

theorem larger_eq_or (a b : Number) : larger a b = a ∨ larger a b = b := by
  unfold larger
  split
  · exact Or.inr rfl
  · exact Or.inl rfl

theorem atLeast_refl (ha : a.IsPlaced) : a.atLeast a = true := (atLeast_iff_spot ha ha).mpr le_rfl

/-- Going through a list one finds its largest number. -/
theorem isLargest_foldl_larger {ns : List Number} (ha : a.IsPlaced)
    (hns : ∀ n ∈ ns, n.IsPlaced) : IsLargest (a :: ns) (ns.foldl larger a) := by
  induction ns generalizing a with
  | nil => exact ⟨List.mem_cons_self, by simpa using atLeast_refl ha⟩
  | cons b rest ih =>
      obtain ⟨hb, hrest⟩ := List.forall_mem_cons.mp hns
      have further := ih (isPlaced_larger ha hb) hrest
      have placed := List.forall_mem_cons.mpr ⟨isPlaced_larger ha hb, hrest⟩ _ further.mem
      -- What is at least the larger of two numbers is at least either.
      have first := (atLeast_iff_spot placed (isPlaced_larger ha hb)).mp
        (further.atLeast _ List.mem_cons_self)
      rw [spot_larger ha hb, max_le_iff] at first
      refine ⟨?_, List.forall_mem_cons.mpr ⟨?_, List.forall_mem_cons.mpr ⟨?_, ?_⟩⟩⟩
      · rcases List.mem_cons.mp further.mem with one | other
        · rw [List.foldl_cons, one]
          rcases larger_eq_or a b with same | same <;> simp [same]
        · exact List.mem_cons_of_mem a (List.mem_cons_of_mem b other)
      · exact (atLeast_iff_spot placed ha).mpr first.1
      · exact (atLeast_iff_spot placed hb).mpr first.2
      · exact fun n hn => further.atLeast n (List.mem_cons_of_mem _ hn)

/-- Lists with the same numbers have their largest numbers at one spot. -/
theorem IsLargest.same {ms ns : List Number} (hms : ∀ n ∈ ms, n.IsPlaced)
    (alike : ∀ n, n ∈ ms ↔ n ∈ ns) (ha : IsLargest ms a) (hb : IsLargest ns b) :
    a.same b = true := by
  have placedA := hms a ha.mem
  have placedB := hms b ((alike b).mpr hb.mem)
  have below := (atLeast_iff_spot placedA placedB).mp (ha.atLeast b ((alike b).mpr hb.mem))
  have above := (atLeast_iff_spot placedB placedA).mp (hb.atLeast a ((alike a).mp ha.mem))
  exact (same_iff_spot placedA placedB).mpr (le_antisymm above below)

end

end DesignMarkup.Number
