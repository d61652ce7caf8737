import DesignMarkup.Conversion
import DesignMarkup.Proofs.ClassWords

/-!
# The words that decide tags

The tag of a container and the class of a layer are made of the same name in two ways. The words
that decide a tag are runs of small letters, and collapsing a name neither parts such a run nor
puts two together; nor does trimming take a letter. So a tag depends on the collapsed name alone,
and the class of a name that is not too long has the tag of the name. From a longer name the cut may
take a word, but none comes of it.
-/

namespace DesignMarkup.Naming

/-! ## Rows of the table -/

/-- The number of the first row with a word in a text; the number behind the last row says that
there is none. -/
structure FirstRow (s : List Char) (i : Nat) : Prop where
  within : i ≤ tagWords.length
  here : ∀ row, tagWords[i]? = some row → ∃ word ∈ row.1, word.toList <:+: s
  before : ∀ j < i, ∀ row, tagWords[j]? = some row → ∀ word ∈ row.1, ¬ word.toList <:+: s

def rowOccurs (s : List Char) (row : List String × String) : Bool :=
  row.1.any fun word => occursIn word.toList s

theorem rowOccurs_iff {s : List Char} {row : List String × String} :
    rowOccurs s row = true ↔ ∃ word ∈ row.1, word.toList <:+: s := by
  simp only [rowOccurs, List.any_eq_true, occursIn_iff]

theorem firstRow_findIdx (s : List Char) : FirstRow s (tagWords.findIdx (rowOccurs s)) where
  within := List.findIdx_le_length
  here := by
    intro row found
    obtain ⟨within, rfl⟩ := List.getElem?_eq_some_iff.mp found
    exact rowOccurs_iff.mp List.findIdx_getElem
  before := by
    intro j earlier row found word hword occurs
    obtain ⟨within, rfl⟩ := List.getElem?_eq_some_iff.mp found
    have other := List.not_of_lt_findIdx earlier
    rw [rowOccurs_iff.mpr ⟨word, hword, occurs⟩] at other
    cases other

/-- A text with fewer words has its first row no earlier. -/
theorem FirstRow.le {s t : List Char} {i j : Nat} (hs : FirstRow s i) (ht : FirstRow t j)
    (fewer : ∀ row ∈ tagWords, ∀ word ∈ row.1, word.toList <:+: t → word.toList <:+: s) :
    i ≤ j := by
  by_contra later
  have earlier : j < i := Nat.lt_of_not_le later
  have within : j < tagWords.length := Nat.lt_of_lt_of_le earlier hs.within
  have found : tagWords[j]? = some tagWords[j] := List.getElem?_eq_getElem within
  obtain ⟨word, hword, occurs⟩ := ht.here _ found
  exact hs.before j earlier _ found word hword (fewer _ (List.getElem_mem within) word hword occurs)

theorem tagBy_eq (s : List Char) :
    tagBy tagWords s
      = ((tagWords[tagWords.findIdx (rowOccurs s)]?).map (·.2)).getD plainTag := by
  rw [← List.find?_eq_getElem?_findIdx, tagBy]
  change _ = ((tagWords.find? fun row => row.1.any fun word => occursIn word.toList s).map
    (·.2)).getD plainTag
  cases (tagWords.find? fun row => row.1.any fun word => occursIn word.toList s) with
  | none => rfl
  | some row => rfl

/-- Texts with the same words of the table have the same tag. -/
theorem tagBy_congr {s t : List Char}
    (same : ∀ row ∈ tagWords, ∀ word ∈ row.1, word.toList <:+: s ↔ word.toList <:+: t) :
    tagBy tagWords s = tagBy tagWords t := by
  have forth := (firstRow_findIdx s).le (firstRow_findIdx t) fun row hrow word hword =>
    (same row hrow word hword).mpr
  have back := (firstRow_findIdx t).le (firstRow_findIdx s) fun row hrow word hword =>
    (same row hrow word hword).mp
  rw [tagBy_eq, tagBy_eq, Nat.le_antisymm forth back]

/-! ## Words and gaps -/

structure IsRun (word : List Char) : Prop where
  full : word ≠ []
  plain : ∀ c ∈ word, isClassChar c = true

/-- The words of the table are runs, and the fallback for classes has none of them. -/
theorem isRun_of_mem_tagWords :
    ∀ row ∈ tagWords, ∀ word ∈ row.1, IsRun word.toList ∧ ¬ word.toList <:+: fallbackClass := by
  have checked : ∀ row ∈ tagWords, ∀ word ∈ row.1,
      word.toList ≠ [] ∧ word.toList.all isClassChar = true ∧
        occursIn word.toList fallbackClass = false := by
    decide
  intro row hrow word hword
  obtain ⟨full, plain, apart⟩ := checked row hrow word hword
  refine ⟨⟨full, List.all_eq_true.mp plain⟩, fun occurs => ?_⟩
  rw [occursIn_iff.mpr occurs] at apart
  cases apart

section

variable {word s : List Char}

/-- No word begins in a gap. -/
theorem IsRun.not_prefix_cons (run : IsRun word) {c : Char} (gap : ¬ isClassChar c = true) :
    ¬ word <+: c :: s := by
  intro front
  obtain ⟨d, rest, rfl⟩ := List.exists_cons_of_ne_nil run.full
  obtain rfl := (List.cons_prefix_cons.mp front).1
  exact gap (run.plain d List.mem_cons_self)

theorem IsRun.infix_cons_iff (run : IsRun word) {c : Char} (gap : ¬ isClassChar c = true) :
    word <:+: c :: s ↔ word <:+: s := by
  rw [List.infix_cons_iff]
  exact or_iff_right (run.not_prefix_cons gap)

theorem not_isClassChar_dash : ¬ isClassChar '-' = true := by decide

/-- Dashes at the ends belong to no word. -/
theorem IsRun.infix_between_iff (run : IsRun word) {front behind : List Char}
    (hfront : ∀ c ∈ front, c = '-') (hbehind : ∀ c ∈ behind, c = '-') :
    word <:+: front ++ s ++ behind ↔ word <:+: s := by
  have ahead {word t dashes : List Char} (run : IsRun word) (h : ∀ c ∈ dashes, c = '-') :
      word <:+: dashes ++ t ↔ word <:+: t := by
    induction dashes with
    | nil => rfl
    | cons c rest ih =>
        obtain ⟨rfl, others⟩ := List.forall_mem_cons.mp h
        rw [List.cons_append, run.infix_cons_iff not_isClassChar_dash, ih others]
  -- Backwards the dashes at the end are in front.
  have reversed : IsRun word.reverse :=
    ⟨mt List.reverse_eq_nil_iff.mp run.full, fun c hc => run.plain c (List.mem_reverse.mp hc)⟩
  have backwards : ∀ c ∈ behind.reverse, c = '-' := fun c hc => hbehind c (List.mem_reverse.mp hc)
  rw [List.append_assoc, ahead run hfront, ← List.reverse_infix, List.reverse_append,
    ahead reversed backwards, List.reverse_infix]

/-- Collapsing leaves the first run as it is. -/
theorem prefix_collapse_iff (plain : ∀ c ∈ word, isClassChar c = true) :
    word <+: collapse false s ↔ word <+: s := by
  induction s generalizing word with
  | nil => rfl
  | cons c rest ih =>
      cases word with
      | nil => exact iff_of_true List.nil_prefix List.nil_prefix
      | cons d more =>
          obtain ⟨first, others⟩ := List.forall_mem_cons.mp plain
          by_cases letter : isClassChar c = true
          · rw [collapse, if_pos letter, List.cons_prefix_cons, List.cons_prefix_cons, ih others]
          · have run : IsRun (d :: more) := ⟨List.cons_ne_nil _ _, plain⟩
            rw [collapse, if_neg letter]
            exact iff_of_false (run.not_prefix_cons not_isClassChar_dash)
              (run.not_prefix_cons letter)

/-- Collapsing neither parts a word nor makes one. -/
theorem IsRun.infix_collapse_iff (run : IsRun word) (inGap : Bool) :
    word <:+: collapse inGap s ↔ word <:+: s := by
  induction s generalizing inGap with
  | nil => rfl
  | cons c rest ih =>
      rw [collapse]
      by_cases letter : isClassChar c = true
      · -- Only here a word may begin, and behind a letter there is no gap.
        rw [if_pos letter, List.infix_cons_iff, List.infix_cons_iff, ih,
          ← prefix_collapse_iff run.plain (s := c :: rest), collapse, if_pos letter]
      · rw [if_neg letter, run.infix_cons_iff letter]
        cases inGap with
        | true => exact ih true
        | false => exact (run.infix_cons_iff not_isClassChar_dash).trans (ih true)

end

/-! ## Names and their classes -/

theorem lower_className (name : String) :
    Text.lower (className name).toList = (className name).toList :=
  lower_of_isWordChar (isWord_className name)

/-- The tag of a name is decided by the collapsed name. -/
theorem tagName_eq (name : String) : tagName name = tagBy tagWords (collapsed name) :=
  tagBy_congr fun row hrow word hword =>
    ((isRun_of_mem_tagWords row hrow word hword).1.infix_collapse_iff false).symm

/-- The words in a class are those in as much of the collapsed name as it is made of. -/
theorem infix_className_iff {row : List String × String} (hrow : row ∈ tagWords) {word : String}
    (hword : word ∈ row.1) (name : String) :
    word.toList <:+: (className name).toList
      ↔ word.toList <:+: (collapsed name).take maxClassLength := by
  obtain ⟨run, other⟩ := isRun_of_mem_tagWords row hrow word hword
  obtain ⟨front, behind, whole, hfront, hbehind⟩ :=
    (stripped_trimDashes ((collapsed name).take maxClassLength)).dashes
  have trimmed : word.toList <:+: (collapsed name).take maxClassLength
      ↔ word.toList <:+: trimDashes ((collapsed name).take maxClassLength) := by
    conv_lhs => rw [whole]
    exact run.infix_between_iff hfront hbehind
  rw [trimmed, className, String.toList_ofList, classChars, ← collapsed]
  split
  · -- Where nothing is left neither the fallback has the word.
    rename_i empty
    rw [List.isEmpty_iff.mp empty, List.infix_nil]
    exact iff_of_false other run.full
  · rfl

/-- The class of a name that is not cut has the tag of the name. -/
theorem tagName_className_of_short {name : String} (short : (collapsed name).length ≤ 50) :
    tagName (className name) = tagName name := by
  rw [tagName_eq name, tagName, lower_className]
  refine tagBy_congr fun row hrow word hword => ?_
  rw [infix_className_iff hrow hword, maxClassLength, List.take_of_length_le short]

/-- A word in a class is in its name. -/
theorem infix_lower_of_infix_className {row : List String × String} (hrow : row ∈ tagWords)
    {word : String} (hword : word ∈ row.1) {name : String}
    (h : word.toList <:+: Text.lower (className name).toList) :
    word.toList <:+: Text.lower name.toList := by
  rw [lower_className, infix_className_iff hrow hword] at h
  have run := (isRun_of_mem_tagWords row hrow word hword).1
  exact (run.infix_collapse_iff false).mp (h.trans (List.take_prefix _ _).isInfix)

/-! ## Exchanged characters -/

/-- A character that is neither an ASCII letter or digit nor has such a letter in its lower case. -/
def IsGap (c : Char) : Prop :=
  c.isAlphanum = false ∧ ∀ x ∈ Text.lowerChar c, x.isAlpha = false

instance (c : Char) : Decidable (IsGap c) :=
  @instDecidableAnd _ _ _ (List.decidableBAll _ (Text.lowerChar c))

/-- One character for another in a name: an ASCII letter in the other case, or one that stands in a
gap for another one. -/
inductive Exchange : Char → Char → Prop
  | same (c : Char) : Exchange c c
  | letter {c d : Char} : c.isAlpha = true → d.isAlpha = true → c.toLower = d.toLower → Exchange c d
  | gap {c d : Char} : IsGap c → IsGap d → Exchange c d

theorem lowerChar_of_ascii {c : Char} (h : c.isAlpha = true) : Text.lowerChar c = [c.toLower] := by
  have place : c.toNat ≤ 122 := by
    rcases Bool.or_eq_true_iff.mp h with upper | lower
    · have high : c.toNat ≤ 90 := UInt32.le_iff_toNat_le.mp (of_decide_eq_true upper).2
      omega
    · exact UInt32.le_iff_toNat_le.mp (of_decide_eq_true (Bool.and_eq_true_iff.mp lower).2)
  rw [Text.lowerChar, if_neg (by omega), if_neg (by omega)]

/-- The lower case of a character in a gap is the character, and no letter or digit. -/
theorem IsGap.lowerChar_eq {c : Char} (h : IsGap c) :
    Text.lowerChar c = [c] ∧ ¬ isClassChar c = true := by
  obtain ⟨other, lowered⟩ := h
  obtain ⟨noLetter, noDigit⟩ := Bool.or_eq_false_iff.mp other
  obtain ⟨noUpper, noLower⟩ := Bool.or_eq_false_iff.mp noLetter
  refine ⟨?_, by simp [isClassChar, noLower, noDigit]⟩
  have kelvin : c.toNat ≠ 0x212A := by
    intro same
    rw [Text.lowerChar, if_pos same] at lowered
    exact absurd (lowered 'k' List.mem_cons_self) (by decide)
  have dotted : c.toNat ≠ 0x130 := by
    intro same
    rw [Text.lowerChar, if_neg kelvin, if_pos same] at lowered
    exact absurd (lowered 'i' List.mem_cons_self) (by decide)
  have same : c.toLower = c := dif_neg (of_decide_eq_false noUpper)
  rw [Text.lowerChar, if_neg kelvin, if_neg dotted, same]

theorem collapse_append_congr {s t : List Char} (h : ∀ inGap, collapse inGap s = collapse inGap t)
    (front : List Char) (inGap : Bool) :
    collapse inGap (front ++ s) = collapse inGap (front ++ t) := by
  induction front generalizing inGap with
  | nil => exact h inGap
  | cons c rest ih => rw [List.cons_append, List.cons_append, collapse, collapse, ih, ih]

/-- Names that differ by such exchanges alone are one name once they are collapsed. -/
theorem collapse_lower_congr {s t : List Char} (h : List.Forall₂ Exchange s t) (inGap : Bool) :
    collapse inGap (Text.lower s) = collapse inGap (Text.lower t) := by
  induction h generalizing inGap with
  | nil => rfl
  | @cons c d s t exchange others ih =>
      show collapse inGap (Text.lowerChar c ++ Text.lower s)
        = collapse inGap (Text.lowerChar d ++ Text.lower t)
      cases exchange with
      | same => exact collapse_append_congr ih _ inGap
      | letter hc hd lowered =>
          rw [lowerChar_of_ascii hc, lowerChar_of_ascii hd, lowered]
          exact collapse_append_congr ih _ inGap
      | gap hc hd =>
          rw [hc.lowerChar_eq.1, hd.lowerChar_eq.1, List.singleton_append, List.singleton_append,
            collapse, collapse, if_neg hc.lowerChar_eq.2, if_neg hd.lowerChar_eq.2, ih]

theorem collapsed_eq_of_exchange {name other : String}
    (h : List.Forall₂ Exchange name.toList other.toList) : collapsed name = collapsed other :=
  collapse_lower_congr h false

/-! ## Tags -/

/-- What is made of the name of a layer is made of the empty one where there is none. -/
theorem made_of_nameValue (f : String → String) (name : Option String) :
    (do pure (f (← (nameValue name).textOrEmpty)) : Except Fault String)
      = .ok (f (name.getD "")) := by
  rw [textOrEmpty_nameValue]
  rfl

/-- Whatever a container is called, its tag is that of the first row of the table with a word in the
lower-cased name, and the plain one if there is none. The case of letters makes no difference to it,
nor what stands in the gaps between letters and digits. Taken for a name, the class of a name has
the tag of that name if it is not cut, and otherwise its row is no earlier one. -/
theorem tagName_of_className :
    (∀ (l : Layer) (name : Option String),
      Layer.containerTag { l with name := nameValue name } = .ok (tagName (name.getD "")) ∧
      Layer.className { l with name := nameValue name } = .ok (className (name.getD ""))) ∧
    (∀ name, ∃ i, FirstRow (Text.lower name.toList) i ∧
      tagName name = ((tagWords[i]?).map (·.2)).getD "div") ∧
    (∀ name other, List.Forall₂ Exchange name.toList other.toList →
      tagName other = tagName name) ∧
    (∀ name, (collapsed name).length ≤ 50 → tagName (className name) = tagName name) ∧
    ∀ name i j, FirstRow (Text.lower name.toList) i →
      FirstRow (Text.lower (className name).toList) j → i ≤ j := by
  refine ⟨fun l name => ⟨made_of_nameValue tagName name, made_of_nameValue className name⟩,
    fun name => ?_, fun name other exchange => ?_, fun name => tagName_className_of_short,
    fun name i j hi hj => ?_⟩
  · exact ⟨_, firstRow_findIdx _, tagBy_eq _⟩
  · rw [tagName_eq, tagName_eq, collapsed_eq_of_exchange exchange]
  · exact hi.le hj fun row hrow word hword => infix_lower_of_infix_className hrow hword

def lateWord : String := "A row of seven chairs by the window of a long hall: photo"

theorem tagName_of_className_lateWord :
    tagName "nAV ü" = tagName "Nav é" ∧ tagName "Nav é" = "nav" ∧
    (collapsed "Nav é").length ≤ 50 ∧ tagName (className "Nav é") = tagName "Nav é" ∧
    FirstRow (Text.lower lateWord.toList) 9 ∧
      FirstRow (Text.lower (className lateWord).toList) 12 ∧ 9 ≤ 12 := by
  obtain ⟨-, -, exchanged, kept, later⟩ := tagName_of_className
  have exchange : List.Forall₂ Exchange "Nav é".toList "nAV ü".toList :=
    .cons (.letter rfl rfl rfl) (.cons (.letter rfl rfl rfl) (.cons (.letter rfl rfl rfl)
      (.cons (.same ' ') (.cons (.gap (by decide) (by decide)) .nil))))
  have short : (collapsed "Nav é").length ≤ 50 := by decide
  have named := firstRow_findIdx (Text.lower lateWord.toList)
  have classed := firstRow_findIdx (Text.lower (className lateWord).toList)
  have photo : tagWords.findIdx (rowOccurs (Text.lower lateWord.toList)) = 9 := by decide
  have lost : tagWords.findIdx (rowOccurs (Text.lower (className lateWord).toList)) = 12 := by
    decide
  rw [photo] at named
  rw [lost] at classed
  exact ⟨exchanged _ _ exchange, by decide, short, kept _ short, named, classed,
    later _ _ _ named classed⟩

end DesignMarkup.Naming
