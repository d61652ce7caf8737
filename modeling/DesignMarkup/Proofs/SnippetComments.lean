import DesignMarkup.Proofs.StyleElements

/-!
# The comment of a snippet

A snippet begins with a comment that names its source. A comment may hold no two dashes in a row,
and a reader ends it at the first place where two dashes and a bracket stand, so the name is written
with a blank between any two dashes. Whatever the name, the comment then holds what the snippet
means it to hold and ends where the snippet ends it; the blanks between dashes are all that the name
gains by it, and a name that is written so stays as it is.
-/

namespace DesignMarkup.Page

/-! ## Dashes in a row -/

/-- No two dashes stand in a row. -/
def IsSpaced (s : List Char) : Prop := ¬ "--".toList <:+: s

instance : DecidablePred IsSpaced := fun s => inferInstanceAs (Decidable (¬ "--".toList <:+: s))

theorem isSpaced_cons_iff {c : Char} {s : List Char} :
    IsSpaced (c :: s) ↔ ¬ (c = '-' ∧ s.head? = some '-') ∧ IsSpaced s := by
  have dashes : "--".toList = ['-', '-'] := by decide
  have first : ['-', '-'] <+: c :: s ↔ c = '-' ∧ s.head? = some '-' := by
    rw [List.cons_prefix_cons, eq_comm]
    cases s with
    | nil => simp
    | cons d s => simp [List.cons_prefix_cons, eq_comm]
  rw [IsSpaced, IsSpaced, dashes, List.infix_cons_iff, not_or, first]

/-- Characters in front that are no dashes make no difference. -/
theorem isSpaced_append_iff {front : List Char} (h : '-' ∉ front) {s : List Char} :
    IsSpaced (front ++ s) ↔ IsSpaced s := by
  induction front with
  | nil => rfl
  | cons c front ih =>
      rw [List.mem_cons, not_or] at h
      have other : ¬ (c = '-' ∧ (front ++ s).head? = some '-') := fun dash => h.1 dash.1.symm
      rw [List.cons_append, isSpaced_cons_iff, and_iff_right other, ih h.2]

/-- And neither does a blank at the end. -/
theorem isSpaced_append_blank {s : List Char} (h : IsSpaced s) : IsSpaced (s ++ [' ']) := by
  induction s with
  | nil => decide
  | cons c s ih =>
      obtain ⟨apart, rest⟩ := isSpaced_cons_iff.mp h
      refine isSpaced_cons_iff.mpr ⟨?_, ih rest⟩
      cases s with
      | nil => simp
      | cons d s => exact apart

/-! ## Spaced names -/

theorem isSpaced_spaceDashes (s : List Char) : IsSpaced (spaceDashes s) := by
  fun_induction spaceDashes s with
  | case1 rest ih =>
      have blank : IsSpaced (' ' :: spaceDashes ('-' :: rest)) :=
        isSpaced_cons_iff.mpr ⟨by simp, ih⟩
      exact isSpaced_cons_iff.mpr ⟨by simp, blank⟩
  | case2 c rest apart ih =>
      refine isSpaced_cons_iff.mpr ⟨?_, ih⟩
      rintro ⟨rfl, next⟩
      rw [head?_spaceDashes] at next
      obtain ⟨rest', rfl⟩ := List.head?_eq_some_iff.mp next
      exact apart rest' rfl rfl
  | case3 => decide

/-- A name without two dashes in a row is written as it is, and no other one. -/
theorem spaceDashes_eq_self_iff {s : List Char} : spaceDashes s = s ↔ IsSpaced s := by
  refine ⟨fun same => same ▸ isSpaced_spaceDashes s, fun h => ?_⟩
  fun_induction spaceDashes s with
  | case1 rest ih => exact absurd ⟨rfl, rfl⟩ (isSpaced_cons_iff.mp h).1
  | case2 c rest apart ih => rw [ih (isSpaced_cons_iff.mp h).2]
  | case3 => rfl

/-- The text without the blanks that stand between two dashes, behind a character or none. -/
def joinDashes (before : Option Char) : List Char → List Char
  | [] => []
  | c :: rest =>
    if c = ' ' ∧ before = some '-' ∧ rest.head? = some '-' then joinDashes (some c) rest
    else c :: joinDashes (some c) rest

theorem joinDashes_dash (before : Option Char) (rest : List Char) :
    joinDashes before ('-' :: rest) = '-' :: joinDashes (some '-') rest :=
  if_neg fun blank => absurd blank.1 (by decide)

/-- Blanks between dashes are all that a name gains. -/
theorem joinDashes_spaceDashes (before : Option Char) (s : List Char) :
    joinDashes before (spaceDashes s) = joinDashes before s := by
  fun_induction spaceDashes s generalizing before with
  | case1 rest ih =>
      -- The blank that was put in goes again, and the next dash is behind it.
      have gone : joinDashes (some '-') (' ' :: spaceDashes ('-' :: rest))
          = joinDashes (some ' ') (spaceDashes ('-' :: rest)) :=
        if_pos ⟨rfl, rfl, head?_spaceDashes _⟩
      rw [joinDashes_dash, gone, ih, joinDashes_dash, joinDashes_dash, joinDashes_dash]
  | case2 c rest apart ih => rw [joinDashes, joinDashes, head?_spaceDashes, ih]
  | case3 => rfl

/-! ## The comment -/

/-- A mark stands behind the front of a text, and at no earlier place. -/
def StandsFirst (mark front s : List Char) : Prop :=
  front ++ mark <+: s ∧ ∀ other, other ++ mark <+: s → front <+: other

/-- Where a mark is not to be found, and does not begin, it only stands further on. -/
theorem prefix_of_isFree {mark s : List Char} (h : isFree mark s = true) {rest other : List Char}
    (stands : other ++ mark <+: s ++ rest) : s <+: other := by
  induction s generalizing other with
  | nil => exact List.nil_prefix
  | cons c s ih =>
      cases other with
      | nil => exact absurd stands (not_prefix_of_isFree h rest)
      | cons d other =>
          rw [List.cons_append, List.cons_append, List.cons_prefix_cons] at stands
          obtain ⟨rfl, stands⟩ := stands
          exact List.cons_prefix_cons.mpr ⟨rfl, ih (isFree_of_cons h) stands⟩

def commentStart : List Char := "<!-- Imported from Figma: ".toList

def commentText (source : List Char) : List Char :=
  " Imported from Figma: ".toList ++ (spaceDashes source ++ [' '])

/-- What follows the comment of a snippet: the style and the markup, without the blanks at the
end. -/
def behindComment (html css : String) : List Char :=
  "\n<style>\n".toList ++ (css.toList ++ ("\n</style>".toList
    ++ Text.trimBlankEnd ('\n' :: html.toList)))

/-- Only what is behind the last character that shows is cut off. -/
theorem trimBlankEnd_append {c : Char} (h : Text.isBlank c = false) (front back : List Char) :
    Text.trimBlankEnd (front ++ c :: back) = front ++ c :: Text.trimBlankEnd back := by
  have stop : (c :: front.reverse).dropWhile Text.isBlank = c :: front.reverse :=
    List.dropWhile_cons_of_neg (Bool.eq_false_iff.mp h)
  have backwards : (front ++ c :: back).reverse = back.reverse ++ c :: front.reverse := by simp
  rw [Text.trimBlankEnd, Text.trimBlankEnd, backwards, List.dropWhile_append, stop]
  cases back.reverse.dropWhile Text.isBlank with
  | nil => simp
  | cons d rest => simp

/-- A snippet is its comment and what follows it. -/
theorem toList_snippet (html css source : String) :
    (snippet html css source).toList
      = "<!--".toList ++ commentText source.toList ++ "-->".toList ++ behindComment html css := by
  have opening : "<!-- Imported from Figma: ".toList
      = '<' :: ("!--".toList ++ " Imported from Figma: ".toList) := by decide
  have ending : " -->\n<style>\n".toList = ' ' :: ("-->".toList ++ "\n<style>\n".toList) := by
    decide
  have closing : "\n</style>\n".toList = "\n</style".toList ++ ['>', '\n'] := by decide
  have whole : ("<!-- Imported from Figma: " ++ String.ofList (spaceDashes source.toList)
        ++ " -->\n<style>\n" ++ css ++ "\n</style>\n" ++ html).toList
      = '<' :: ("!--".toList ++ commentText source.toList ++ "-->".toList ++ "\n<style>\n".toList
        ++ css.toList ++ "\n</style".toList) ++ '>' :: '\n' :: html.toList := by
    unfold commentText
    simp only [String.toList_append, String.toList_ofList, opening, ending, closing,
      List.append_assoc, List.cons_append, List.nil_append]
  have shows : ¬ Text.isBlank '<' = true := by decide
  have bracket : Text.isBlank '>' = false := by decide
  have first : "<!--".toList = '<' :: "!--".toList := by decide
  have last : "\n</style>".toList = "\n</style".toList ++ ['>'] := by decide
  unfold snippet behindComment
  rw [String.toList_ofList, whole, Text.trimBlank, List.cons_append,
    List.dropWhile_cons_of_neg shows, ← List.cons_append, trimBlankEnd_append bracket, first, last]
  simp only [List.append_assoc, List.cons_append, List.nil_append]

/-- Whatever its source is called and whatever it shows, a snippet begins as it should, its comment
holds no two dashes in a row, and ends with the mark that is written behind the name, the first of
its kind. The name has gained blanks between dashes and nothing else, and written once more it would
gain no more. -/
theorem comment_snippet (html css source : String) :
    commentStart <+: (snippet html css source).toList ∧
    (snippet html css source).toList
      = "<!--".toList ++ commentText source.toList ++ "-->".toList ++ behindComment html css ∧
    StandsFirst "-->".toList ("<!--".toList ++ commentText source.toList)
      (snippet html css source).toList ∧
    IsSpaced (commentText source.toList) ∧
    joinDashes none (spaceDashes source.toList) = joinDashes none source.toList ∧
    spaceDashes (spaceDashes source.toList) = spaceDashes source.toList := by
  have text := toList_snippet html css source
  have start : "<!--".toList ++ commentText source.toList
      = commentStart ++ (spaceDashes source.toList ++ [' ']) := by
    have opening : commentStart = "<!--".toList ++ " Imported from Figma: ".toList := by decide
    unfold commentText
    rw [opening, List.append_assoc]
  have spaced := isSpaced_spaceDashes source.toList
  refine ⟨?_, text, ⟨?_, fun other stands => ?_⟩, ?_, joinDashes_spaceDashes none _,
    spaceDashes_eq_self_iff.mpr spaced⟩
  · rw [text, start, List.append_assoc, List.append_assoc, List.append_assoc]
    exact List.prefix_append _ _
  · rw [text, List.append_assoc]
    exact List.prefix_append _ _
  · -- The mark neither stands nor begins in the fixed start, nor in the spaced name.
    rw [text, start, List.append_assoc, List.append_assoc] at stands
    obtain ⟨rest, rfl⟩ := prefix_of_isFree (by decide) stands
    rw [List.append_assoc, List.prefix_append_right_inj] at stands
    rw [start, List.prefix_append_right_inj]
    exact prefix_of_isFree (isFree_spaceDashes _) stands
  · exact (isSpaced_append_iff (by decide)).mpr (isSpaced_append_blank spaced)

end DesignMarkup.Page
