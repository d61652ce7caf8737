import DesignMarkup.Style.Layout
import DesignMarkup.Proofs.ValueReader

/-!
# The sides of a padding

The short form of a padding is chosen by comparing the texts of its sides. For sides that are finite
numbers that is comparing the numbers themselves, whichever of them are whole and whichever doubles,
and the short form stands for the four sides that it was made of.
-/

namespace DesignMarkup

/-! ## Lengths -/

namespace Css

def listed (v : String) : List String := (splitOutside ' ' 0 v.toList).map String.ofList

/-- The four sides, from the top clockwise, that a list of one to four lengths stands for: a side
that is left out is as the one across from it, and the right one as the top. -/
def fourSides : List String → Option (List String)
  | [all] => some [all, all, all, all]
  | [vertical, horizontal] => some [vertical, horizontal, vertical, horizontal]
  | [top, horizontal, bottom] => some [top, horizontal, bottom, horizontal]
  | [top, right, bottom, left] => some [top, right, bottom, left]
  | _ => none

/-- Lengths with blanks between them are listed. -/
theorem listed_intercalate {lengths : List String} (some : lengths ≠ [])
    (parts : ∀ t ∈ lengths, IsPart t.toList) : listed (" ".intercalate lengths) = lengths := by
  have blank : " ".toList = [' '] := rfl
  rw [listed, String.toList_intercalate, blank, splitOutside_intercalate (by simpa using some)]
  · simp
  · intro piece hpiece
    obtain ⟨t, ht, rfl⟩ := List.mem_map.mp hpiece
    exact (parts t ht).blank

theorem listed_of_isPart {t : String} (part : IsPart t.toList) : listed t = [t] := by
  have single : listed (" ".intercalate [t]) = [t] :=
    listed_intercalate (List.cons_ne_nil _ _) (by simpa using part)
  rwa [String.intercalate_singleton] at single

end Css

open Css

/-! ## Sides -/

namespace Number

def px (a : Number) : String := (Value.number a).pixels

/-- Finite numbers are the same length exactly if they are the same. -/
theorem px_eq_iff {a b : Number} (ha : a.isFinite = true) (hb : b.isFinite = true) :
    a.px = b.px ↔ a.same b = true := by
  rw [← written_eq_iff ha hb]
  exact String.append_left_inj "px"

def AllSame (ns : List Number) : Prop := ∀ a ∈ ns, ∀ b ∈ ns, a.same b = true

theorem allSame_cons_iff {first : Number} {rest : List Number}
    (finite : ∀ n ∈ first :: rest, n.isFinite = true) :
    AllSame (first :: rest) ↔ ∀ n ∈ rest, n.px = first.px := by
  have same {a b : Number} (ha : a ∈ first :: rest) (hb : b ∈ first :: rest) :
      a.px = b.px ↔ a.same b = true := px_eq_iff (finite a ha) (finite b hb)
  constructor
  · intro all n hn
    have mem := List.mem_cons_of_mem first hn
    exact (same mem List.mem_cons_self).mpr (all n mem first List.mem_cons_self)
  · intro each a ha b hb
    have like : ∀ n ∈ first :: rest, n.px = first.px := List.forall_mem_cons.mpr ⟨rfl, each⟩
    exact (same ha hb).mp ((like a ha).trans (like b hb).symm)

end Number

namespace Value

def IsFinite (v : Value) : Prop := ∃ n, v = .number n ∧ n.isFinite = true

end Value

namespace Layer

open Number (AllSame)

/-- The sides of the padding that are not zero, from the top clockwise. -/
def sides (l : Layer) : List Number := (l.paddings.filterMap Value.number?).filter (!·.isZero)

variable {l : Layer}

theorem isFinite_of_mem_sides (finite : ∀ v ∈ l.paddings, v.Maybe Value.IsFinite) :
    ∀ n ∈ l.sides, n.isFinite = true := by
  intro n hn
  obtain ⟨v, hv, number⟩ := List.mem_filterMap.mp (List.mem_filter.mp hn).1
  rcases finite v hv with rfl | ⟨m, rfl, hm⟩
  · cases number
  · obtain rfl := Option.some.inj number
    exact hm

/-- The lengths that are compared are those of the sides. -/
theorem paddingLengths_eq (finite : ∀ v ∈ l.paddings, v.Maybe Value.IsFinite) :
    l.paddingLengths = l.sides.map Number.px := by
  rw [paddingLengths, sides]
  generalize l.paddings = vs at finite
  induction vs with
  | nil => rfl
  | cons v rest ih =>
      obtain ⟨hv, hrest⟩ := List.forall_mem_cons.mp finite
      have others := ih hrest
      rcases hv with rfl | ⟨n, rfl, -⟩
      · exact others
      · have number : (Value.number n).number? = some n := rfl
        cases zero : n.isZero with
        | true => simpa [Value.isPresent, number, zero] using others
        | false => simpa [Value.isPresent, number, zero, Number.px] using others

theorem length_sides_le : l.sides.length ≤ 4 :=
  (List.length_filter_le _ _).trans (List.length_filterMap_le _ _)

theorem listed_sides (some : l.sides ≠ []) :
    listed (" ".intercalate (l.sides.map Number.px)) = l.sides.map Number.px := by
  refine listed_intercalate (by simpa using some) fun t ht => ?_
  obtain ⟨n, -, rfl⟩ := List.mem_map.mp ht
  exact isPart_pixels n

/-! ## The short form -/

/-- What is meant by a short form of the padding: there is none exactly if no side is left or the
sides are not all the same and fewer than four; there is a single length exactly if there are sides
and all are the same, and it is theirs; every other short form lists four sides. Where no side is
zero, the short form stands for the four sides. -/
structure Abbreviates (l : Layer) (short : Option String) : Prop where
  none_iff : short = none ↔ l.sides = [] ∨ (l.sides.length < 4 ∧ ¬ AllSame l.sides)
  single_iff : (∃ v, short = some v ∧ (listed v).length = 1) ↔ l.sides ≠ [] ∧ AllSame l.sides
  lengths : ∀ v, short = some v →
    (AllSame l.sides ∧ ∀ n ∈ l.sides, v = n.px) ∨
    (¬ AllSame l.sides ∧ (listed v).length = 4 ∧ listed v = l.sides.map Number.px)
  sides : (∀ v ∈ l.paddings, v.isPresent = true) → ∃ v, short = some v ∧
    fourSides (listed v) = some (l.paddings.map Value.pixels)

section

variable (finite : ∀ v ∈ l.paddings, v.Maybe Value.IsFinite)

include finite

/-- Where no side is zero, the lengths are those of the four sides. -/
theorem pixels_of_present (present : ∀ v ∈ l.paddings, v.isPresent = true) :
    l.sides.map Number.px = l.paddings.map Value.pixels := by
  rw [← paddingLengths_eq finite, paddingLengths, List.filter_eq_self.mpr present]

theorem length_sides_of_present (present : ∀ v ∈ l.paddings, v.isPresent = true) :
    l.sides.length = 4 := by
  have all := congrArg List.length (pixels_of_present finite present)
  rwa [List.length_map, List.length_map] at all

theorem paddingShorthand_of_nil (empty : l.sides = []) : l.paddingShorthand = none := by
  rw [paddingShorthand, paddingLengths_eq finite, empty]
  rfl

/-- Where all sides are the same, the short form is the length of any of them. -/
theorem paddingShorthand_of_allSame (same : AllSame l.sides) {n : Number} (hn : n ∈ l.sides) :
    l.paddingShorthand = some n.px := by
  have numbers := isFinite_of_mem_sides finite
  rw [paddingShorthand, paddingLengths_eq finite]
  cases sides : l.sides with
  | nil => rw [sides] at hn; cases hn
  | cons first rest =>
      rw [sides] at numbers hn same
      have each := (Number.allSame_cons_iff numbers).mp same
      have alike : (rest.map Number.px).all (· == first.px) = true := by
        simpa using each
      have like : ∀ n ∈ first :: rest, n.px = first.px := List.forall_mem_cons.mpr ⟨rfl, each⟩
      rw [List.map_cons, like n hn]
      exact if_pos alike

theorem paddingShorthand_of_not_allSame (different : ¬ AllSame l.sides) :
    l.paddingShorthand = if l.sides.length = 4 then some (" ".intercalate (l.sides.map Number.px))
      else none := by
  have numbers := isFinite_of_mem_sides finite
  rw [paddingShorthand, paddingLengths_eq finite]
  cases sides : l.sides with
  | nil => rw [sides] at different; exact absurd nofun different
  | cons first rest =>
      rw [sides] at numbers different
      rw [Number.allSame_cons_iff numbers] at different
      have unlike : ¬ (rest.map Number.px).all (· == first.px) = true := by
        simpa using different
      rw [List.map_cons]
      dsimp only
      rw [if_neg unlike]
      simp

theorem abbreviates_none (h : l.sides = [] ∨ (l.sides.length < 4 ∧ ¬ AllSame l.sides)) :
    l.Abbreviates none where
  none_iff := iff_of_true rfl h
  single_iff := by
    refine iff_of_false nofun fun all => ?_
    rcases h with empty | ⟨-, different⟩
    · exact all.1 empty
    · exact different all.2
  lengths := nofun
  sides present := by
    have four := length_sides_of_present finite present
    rcases h with empty | ⟨fewer, -⟩
    · rw [empty] at four
      cases four
    · omega

theorem abbreviates_single (same : AllSame l.sides) {first : Number} (mem : first ∈ l.sides) :
    l.Abbreviates (some first.px) := by
  have alike {n : Number} (hn : n ∈ l.sides) : first.px = n.px :=
    Option.some.inj ((paddingShorthand_of_allSame finite same mem).symm.trans
      (paddingShorthand_of_allSame finite same hn))
  have single : listed first.px = [first.px] := listed_of_isPart (isPart_pixels first)
  have some : l.sides ≠ [] := List.ne_nil_of_mem mem
  refine ⟨iff_of_false nofun ?_, iff_of_true ⟨_, rfl, by rw [single]; rfl⟩ ⟨some, same⟩, ?_, ?_⟩
  · rintro (empty | ⟨-, different⟩)
    · exact some empty
    · exact different same
  · rintro v given
    obtain rfl := Option.some.inj given
    exact Or.inl ⟨same, fun n hn => alike hn⟩
  · intro present
    have each : ∀ v ∈ l.paddings, v.pixels = first.px := by
      intro v hv
      have there : v.pixels ∈ l.sides.map Number.px := by
        rw [pixels_of_present finite present]
        exact List.mem_map_of_mem hv
      obtain ⟨n, hn, text⟩ := List.mem_map.mp there
      rw [← text, ← alike hn]
    refine ⟨_, rfl, ?_⟩
    rw [single, List.map_congr_left each]
    rfl

theorem abbreviates_four (different : ¬ AllSame l.sides) (four : l.sides.length = 4) :
    l.Abbreviates (some (" ".intercalate (l.sides.map Number.px))) := by
  have some : l.sides ≠ [] := List.ne_nil_of_length_pos (by omega)
  have parts := listed_sides some
  have count : (listed (" ".intercalate (l.sides.map Number.px))).length = 4 := by
    rw [parts, List.length_map, four]
  refine ⟨iff_of_false nofun ?_, iff_of_false ?_ fun h => different h.2, ?_, ?_⟩
  · rintro (empty | ⟨fewer, -⟩)
    · exact some empty
    · omega
  · rintro ⟨v, given, one⟩
    obtain rfl := Option.some.inj given
    omega
  · rintro v given
    obtain rfl := Option.some.inj given
    exact Or.inr ⟨different, count, parts⟩
  · intro present
    refine ⟨_, rfl, ?_⟩
    rw [parts, pixels_of_present finite present]
    rfl

end

/-- Comparing the texts of the sides is comparing their numbers: for sides that are absent or finite
the short form is the one that is meant. -/
theorem abbreviates_paddingShorthand (finite : ∀ v ∈ l.paddings, v.Maybe Value.IsFinite) :
    l.Abbreviates l.paddingShorthand := by
  have few := length_sides_le (l := l)
  by_cases empty : l.sides = []
  · rw [paddingShorthand_of_nil finite empty]
    exact abbreviates_none finite (Or.inl empty)
  · by_cases same : AllSame l.sides
    · obtain ⟨first, mem⟩ := List.exists_mem_of_ne_nil _ empty
      rw [paddingShorthand_of_allSame finite same mem]
      exact abbreviates_single finite same mem
    · rw [paddingShorthand_of_not_allSame finite same]
      split
      · rename_i four
        exact abbreviates_four finite same four
      · rename_i other
        exact abbreviates_none finite (Or.inr ⟨by omega, same⟩)

def paddedCard : Layer :=
  { (default : Layer) with
    paddingTop := .whole 8, paddingRight := .double 8.0
    paddingBottom := .whole 8, paddingLeft := .double 8.0 }

set_option maxRecDepth 20000 in
theorem abbreviates_paddedCard : paddedCard.Abbreviates (some "8px") := by
  have eight : Number.isFinite (.double 8.0) = true := by decide +kernel
  have finite : ∀ v ∈ paddedCard.paddings, v.Maybe Value.IsFinite := by
    simp only [paddings, paddedCard, List.forall_mem_cons]
    exact ⟨Or.inr ⟨.whole 8, rfl, rfl⟩, Or.inr ⟨.double 8.0, rfl, eight⟩,
      Or.inr ⟨.whole 8, rfl, rfl⟩, Or.inr ⟨.double 8.0, rfl, eight⟩, nofun⟩
  have short : paddedCard.paddingShorthand = some "8px" := by decide +kernel
  exact short ▸ abbreviates_paddingShorthand finite

end Layer

end DesignMarkup
