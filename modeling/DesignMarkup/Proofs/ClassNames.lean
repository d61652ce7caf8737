import DesignMarkup.Naming
import DesignMarkup.Style.Text
import DesignMarkup.Proofs.Computations
import DesignMarkup.Proofs.Entities

/-!
# The alphabet of classes and tags

A class name is written out of lower-case letters, digits and dashes, whatever the name of
the layer, and a tag comes out of a short table. Neither needs escaping, and a tag for text
is never a tag for a container.
-/

namespace DesignMarkup.Naming

def isWordChar (c : Char) : Bool := isClassChar c || c == '-'

def IsWord (s : String) : Prop := ∀ c ∈ s.toList, isWordChar c = true

instance (s : String) : Decidable (IsWord s) := List.decidableBAll _ s.toList

theorem entity_of_isWordChar {c : Char} (h : isWordChar c = true) : Text.entity c = [c] := by
  induction c using Text.special_or_plain with
  | special c special =>
      simp only [List.mem_cons, List.not_mem_nil, or_false] at special
      rcases special with rfl | rfl | rfl | rfl | rfl <;> exact absurd h (by decide)
  | plain c self _ _ => exact self

theorem IsWord.not_mem {s : String} (h : IsWord s) {c : Char} (hc : isWordChar c = false) :
    c ∉ s.toList := by
  intro hmem
  rw [h c hmem] at hc
  cases hc

/-! ## Classes -/

-- A dash stands for a whole gap, so the scan is followed both inside a gap and outside.
theorem isWordChar_of_mem_collapse {c : Char} :
    ∀ {s : List Char} {inGap : Bool}, c ∈ collapse inGap s → isWordChar c = true
  | [], _, h => by simp [collapse] at h
  | d :: rest, inGap, h => by
      rw [collapse] at h
      by_cases hd : isClassChar d
      · rw [if_pos hd, List.mem_cons] at h
        rcases h with rfl | h
        · simp [isWordChar, hd]
        · exact isWordChar_of_mem_collapse h
      · rw [if_neg hd] at h
        cases inGap with
        | true => exact isWordChar_of_mem_collapse h
        | false =>
            rcases List.mem_cons.mp h with rfl | h
            · rfl
            · exact isWordChar_of_mem_collapse h

theorem mem_of_mem_trimDashes {c : Char} {s : List Char} (h : c ∈ trimDashes s) : c ∈ s := by
  rw [trimDashes, List.mem_reverse] at h
  have h := List.dropWhile_subset _ h
  rw [List.mem_reverse] at h
  exact List.dropWhile_subset _ h

/-- Every class is a word. -/
theorem isWord_className (name : String) : IsWord (className name) := by
  intro c hc
  rw [className, String.toList_ofList, classChars] at hc
  split at hc
  · have fallback : fallbackClass.all isWordChar = true := by decide
    exact List.all_eq_true.mp fallback c hc
  · exact isWordChar_of_mem_collapse (List.mem_of_mem_take (mem_of_mem_trimDashes hc))

/-- No class is empty. -/
theorem className_ne_empty (name : String) : className name ≠ "" := by
  intro empty
  have none : classChars (Text.lower name.toList) = [] := by
    rw [← String.toList_ofList (l := classChars (Text.lower name.toList)), ← className, empty]
    rfl
  rw [classChars] at none
  split at none
  · cases none
  · rename_i trimmed
    exact trimmed (List.isEmpty_iff.mpr none)

/-! ## Tags -/

theorem occursIn_iff {word s : List Char} : occursIn word s = true ↔ word <:+: s := by
  induction s with
  | nil => rw [occursIn, List.isEmpty_iff, List.infix_nil]
  | cons c rest ih =>
      rw [occursIn, Bool.or_eq_true, List.isPrefixOf_iff_prefix, ih, List.infix_cons_iff]

def isTextTag (tag : String) : Bool :=
  tag == Layer.paragraphTag || (Layer.headings.map (·.2)).contains tag

/-- A tag by a table is the plain one or one of the table. -/
theorem tagBy_mem (rows : List (List String × String)) (lowered : List Char) :
    tagBy rows lowered ∈ plainTag :: rows.map (·.2) := by
  rw [tagBy]
  split
  · rename_i row found
    exact List.mem_cons_of_mem _ (List.mem_map_of_mem (List.mem_of_find?_eq_some found))
  · exact List.mem_cons_self

/-- The tags of elements that hold elements are words and no tags of text. -/
theorem boxTag_of_mem {tag : String} (h : tag ∈ plainTag :: tagWords.map (·.2)) :
    IsWord tag ∧ isTextTag tag = false := by
  revert tag
  decide

theorem tagForSize_mem {size : Value} {tag : String} :
    ∀ {rows : List (Int × String)}, Layer.tagForSize size rows = .ok tag →
      tag ∈ Layer.paragraphTag :: rows.map (·.2)
  | [], h => by
      obtain rfl := Except.ok.inj h
      exact List.mem_cons_self
  | (least, t) :: rest, h => by
      obtain ⟨enough, -, h⟩ := bind_eq_ok_iff.mp h
      cases enough with
      | true =>
          obtain rfl := pure_eq_ok_iff.mp h
          simp
      | false =>
          have later := tagForSize_mem h
          simp only [List.map_cons, List.mem_cons] at later ⊢
          exact later.imp_right Or.inr

theorem textTag_of_mem {tag : String}
    (h : tag ∈ Layer.paragraphTag :: Layer.headings.map (·.2)) :
    IsWord tag ∧ isTextTag tag = true := by
  revert tag
  decide

end DesignMarkup.Naming
