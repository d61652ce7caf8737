import DesignMarkup.Proofs.ClassLanguage
import DesignMarkup.Proofs.FormCoding

/-!
# The words of a name

The class of a layer holds the words of its name, which are the runs of letters and digits in the
lower-cased name, with a dash between any two. As long as the collapsed name is not too long, two
layers have one class exactly if their names have the same words. A long name is cut, and as a gap
in front of its first word takes a place as well, one character less of the words may be left.
-/

namespace DesignMarkup.Naming

/-! ## Words -/

/-- The runs of letters and digits in a lower-cased text, which is cut at all other characters. -/
def runs (s : List Char) : List (List Char) :=
  (s.splitOnP (!isClassChar ·)).filter (!·.isEmpty)

/-- The words of a name, or the fallback if it has none. -/
def words (name : String) : List (List Char) :=
  if runs (Text.lower name.toList) = [] then [fallbackClass] else runs (Text.lower name.toList)

def dashed (pieces : List (List Char)) : List Char := ['-'].intercalate pieces

/-- A lower-cased name with one dash for each gap, also for a gap in front of the first word and
for one behind the last. -/
def collapsed (name : String) : List Char := collapse false (Text.lower name.toList)

def startsInGap (s : List Char) : Bool := s.head?.any (!isClassChar ·)

def startsInRun (s : List Char) : Bool := s.head?.any isClassChar

/-- A text without the dashes at its two ends. -/
structure Stripped (s t : List Char) : Prop where
  dashes : ∃ front behind, s = front ++ t ++ behind ∧ (∀ c ∈ front, c = '-') ∧ ∀ c ∈ behind, c = '-'
  head : t.head? ≠ some '-'
  last : t.getLast? ≠ some '-'

/-! ## Runs, character by character -/

section

variable {c : Char} {s : List Char}

theorem runs_cons_gap (h : ¬ isClassChar c = true) : runs (c :: s) = runs s := by
  rw [runs, List.splitOnP_cons_eq_if_modifyHead, if_pos (by simpa using h)]
  rfl

/-- In front of a run a letter belongs to it. -/
theorem runs_cons_of_startsInRun (h : isClassChar c = true) (inRun : startsInRun s = true) :
    ∃ run more, runs s = run :: more ∧ runs (c :: s) = (c :: run) :: more := by
  cases s with
  | nil => cases inRun
  | cons d rest =>
      have plain : isClassChar d = true := inRun
      obtain ⟨piece, pieces, split⟩ := List.exists_cons_of_ne_nil
        (List.splitOnP_ne_nil (!isClassChar ·) rest)
      have cut : (d :: rest).splitOnP (!isClassChar ·) = (d :: piece) :: pieces := by
        rw [List.splitOnP_cons_eq_if_modifyHead, if_neg (by simp [plain]), split]
        rfl
      refine ⟨d :: piece, pieces.filter (!·.isEmpty), ?_, ?_⟩
      · rw [runs, cut]
        rfl
      · rw [runs, List.splitOnP_cons_eq_if_modifyHead, if_neg (by simp [h]), cut]
        rfl

/-- In front of a gap, and at the end, a letter is a run of its own. -/
theorem runs_cons_of_not_startsInRun (h : isClassChar c = true) (inRun : ¬ startsInRun s = true) :
    runs (c :: s) = [c] :: runs s := by
  rw [runs, List.splitOnP_cons_eq_if_modifyHead, if_neg (by simp [h])]
  cases s with
  | nil => rfl
  | cons d rest =>
      have other : (!isClassChar d) = true := by simpa [startsInRun] using inRun
      rw [runs, List.splitOnP_cons_eq_if_modifyHead, if_pos other]
      rfl

end

/-- Runs are not empty, and they hold letters and digits only. -/
theorem plain_of_mem_runs (s : List Char) :
    ∀ run ∈ runs s, run ≠ [] ∧ ∀ c ∈ run, isClassChar c = true := by
  induction s with
  | nil => nofun
  | cons c rest ih =>
      by_cases plain : isClassChar c = true
      · by_cases inRun : startsInRun rest = true
        · obtain ⟨run, more, found, longer⟩ := runs_cons_of_startsInRun plain inRun
          rw [found] at ih
          obtain ⟨⟨-, first⟩, others⟩ := List.forall_mem_cons.mp ih
          rw [longer]
          exact List.forall_mem_cons.mpr
            ⟨⟨List.cons_ne_nil c run, List.forall_mem_cons.mpr ⟨plain, first⟩⟩, others⟩
        · rw [runs_cons_of_not_startsInRun plain inRun]
          exact List.forall_mem_cons.mpr ⟨⟨List.cons_ne_nil c [], by simpa using plain⟩, ih⟩
      · rw [runs_cons_gap plain]
        exact ih

theorem isTidy_dashed_runs (s : List Char) : IsTidy (dashed (runs s)) :=
  isTidy_intercalate (plain_of_mem_runs s)

theorem dashed_runs_eq_nil_iff {s : List Char} : dashed (runs s) = [] ↔ runs s = [] := by
  constructor
  · intro empty
    have full := fun run h => (plain_of_mem_runs s run h).1
    cases h : runs s with
    | nil => rfl
    | cons run more =>
        rw [h] at empty full
        have first := full run List.mem_cons_self
        cases more with
        | nil => exact absurd (List.intercalate_singleton.symm.trans empty) first
        | cons next more =>
            rw [dashed, List.intercalate_cons_cons] at empty
            simp at empty
  · intro none
    rw [none]
    rfl

/-! ## Collapsed texts -/

/-- The dash for a gap in front. -/
def lead (s : List Char) : List Char := if startsInGap s then ['-'] else []

theorem lead_dash (s : List Char) : ∀ c ∈ lead s, c = '-' := by
  rw [lead]
  split
  · simp
  · nofun

theorem lead_of_startsInRun {s : List Char} (h : startsInRun s = true) : lead s = [] := by
  cases s with
  | nil => cases h
  | cons c rest => exact if_neg (by simpa [startsInRun, startsInGap] using h)

theorem lead_of_not_startsInRun {s : List Char} (h : ¬ startsInRun s = true) (some : s ≠ []) :
    lead s = ['-'] := by
  cases s with
  | nil => exact absurd rfl some
  | cons c rest => exact if_pos (by simpa [startsInRun, startsInGap] using h)

theorem collapse_false_eq (s : List Char) : collapse false s = lead s ++ collapse true s := by
  cases s with
  | nil => rfl
  | cons c rest =>
      rw [collapse, collapse]
      by_cases plain : isClassChar c = true
      · have none : lead (c :: rest) = [] := lead_of_startsInRun plain
        rw [if_pos plain, if_pos plain, none, List.nil_append]
      · have dash : lead (c :: rest) = ['-'] :=
          lead_of_not_startsInRun plain (List.cons_ne_nil c rest)
        rw [if_neg plain, if_neg plain, dash]
        rfl

/-- Behind a gap a collapsed text is its runs with single dashes between them, and perhaps one
behind the last. -/
theorem exists_collapse_true_eq (s : List Char) :
    ∃ behind, (∀ c ∈ behind, c = '-') ∧ (runs s = [] → behind = []) ∧
      collapse true s = dashed (runs s) ++ behind := by
  -- A letter goes on with the run behind it, or it is a run of its own and the gap is one dash.
  induction s with
  | nil => exact ⟨[], List.forall_mem_nil _, fun _ => rfl, rfl⟩
  | cons c rest ih =>
      obtain ⟨behind, dashes, alone, text⟩ := ih
      by_cases plain : isClassChar c = true
      · have scanned : collapse true (c :: rest)
            = c :: (lead rest ++ (dashed (runs rest) ++ behind)) := by
          rw [collapse, if_pos plain, collapse_false_eq, text]
        rw [scanned]
        by_cases inRun : startsInRun rest = true
        · obtain ⟨run, more, found, longer⟩ := runs_cons_of_startsInRun plain inRun
          refine ⟨behind, dashes, fun none => absurd (longer ▸ none) (List.cons_ne_nil _ _), ?_⟩
          rw [found, longer, lead_of_startsInRun inRun, dashed, dashed,
            List.intercalate_cons_cons_left]
          rfl
        · rw [runs_cons_of_not_startsInRun plain inRun]
          by_cases none : runs rest = []
          · -- The dash of the last gap, if there is one, is the one behind the last run.
            refine ⟨lead rest, lead_dash rest, fun empty => absurd empty (List.cons_ne_nil _ _), ?_⟩
            rw [none, alone none, dashed, List.intercalate_nil, List.append_nil, List.append_nil]
            rfl
          · have dash : lead rest = ['-'] := by
              refine lead_of_not_startsInRun inRun fun empty => none ?_
              rw [empty]
              rfl
            refine ⟨behind, dashes, fun empty => absurd empty (List.cons_ne_nil _ _), ?_⟩
            rw [dash, dashed, dashed, List.intercalate_cons_of_ne_nil none]
            simp
      · refine ⟨behind, dashes, ?_, ?_⟩
        · rwa [runs_cons_gap plain]
        · rw [collapse, if_neg plain, if_pos rfl, runs_cons_gap plain, text]

/-! ## Cutting and trimming -/

theorem rdropWhile_append_dashes {behind : List Char} (dashes : ∀ c ∈ behind, c = '-')
    (s : List Char) : (s ++ behind).rdropWhile (· == '-') = s.rdropWhile (· == '-') := by
  have reversed : ∀ c ∈ behind.reverse, (c == '-') = true := by
    intro c hc
    exact beq_iff_eq.mpr (dashes c (List.mem_reverse.mp hc))
  rw [List.rdropWhile, List.reverse_append, List.dropWhile_append_of_pos reversed, List.rdropWhile]

/-- At most one dash is at the end of a text without neighbouring dashes. -/
theorem eq_rdropWhile_or {s : List Char} (apart : s.IsChain Apart) :
    s = s.rdropWhile (· == '-') ∨ s = s.rdropWhile (· == '-') ++ ['-'] := by
  rcases List.eq_nil_or_concat s with rfl | ⟨front, c, rfl⟩
  · exact .inl rfl
  · rw [List.concat_eq_append] at apart ⊢
    by_cases dash : c = '-'
    · subst dash
      have kept : front.rdropWhile (· == '-') = front := by
        refine List.rdropWhile_eq_self_iff.mpr fun full dash => ?_
        have pair := (List.isChain_append.mp apart).2.2 _ (List.getLast_mem_getLast? full) '-' rfl
        exact pair.elim (· (beq_iff_eq.mp dash)) (· rfl)
      rw [List.rdropWhile_concat_pos _ _ _ rfl, kept]
      exact .inr rfl
    · rw [List.rdropWhile_concat_neg _ _ _ (by simpa using dash)]
      exact .inl rfl

theorem stripped_trimDashes (s : List Char) : Stripped s (trimDashes s) where
  dashes := by
    refine ⟨s.takeWhile (· == '-'), (s.dropWhile (· == '-')).rtakeWhile (· == '-'), ?_, ?_, ?_⟩
    · show s = s.takeWhile (· == '-') ++ (s.dropWhile (· == '-')).rdropWhile (· == '-') ++ _
      rw [List.append_assoc, List.rdropWhile_append_rtakeWhile, List.takeWhile_append_dropWhile]
    · intro c hc
      have dash := List.mem_takeWhile_imp hc
      exact beq_iff_eq.mp dash
    · intro c hc
      have dash := List.mem_rtakeWhile_imp hc
      exact beq_iff_eq.mp dash
  head := head?_trimDashes s
  last := getLast?_trimDashes s

/-! ## Classes of words -/

/-- How many characters of the words of a name its class has room for: a gap in front of them takes
one place. -/
def room (name : String) : Nat := if startsInGap (Text.lower name.toList) then 49 else 50

theorem length_lead_add_room (name : String) :
    (lead (Text.lower name.toList)).length + room name = maxClassLength := by
  rw [lead, room]
  split <;> rfl

theorem le_room (name : String) : 49 ≤ room name := by
  rw [room]
  split <;> decide

theorem room_ne_zero (name : String) : room name ≠ 0 :=
  Nat.ne_of_gt (Nat.lt_of_lt_of_le (by decide) (le_room name))

theorem room_le (name : String) : room name ≤ 50 := by
  rw [room]
  split <;> decide

theorem plain_of_mem_words (name : String) :
    ∀ word ∈ words name, word ≠ [] ∧ ∀ c ∈ word, isClassChar c = true := by
  rw [words]
  split
  · have fallback : fallbackClass.all isClassChar = true := by decide
    simpa using ⟨by decide, List.all_eq_true.mp fallback⟩
  · exact plain_of_mem_runs _

theorem isTidy_dashed_words (name : String) : IsTidy (dashed (words name)) :=
  isTidy_intercalate (plain_of_mem_words name)

/-- Trimming takes the dash of a gap in front, and at the other end what dashes the cut left. -/
theorem trimDashes_take_collapsed (name : String) :
    trimDashes ((collapsed name).take maxClassLength)
      = ((dashed (runs (Text.lower name.toList))).take (room name)).rdropWhile (· == '-') := by
  have tidy := isTidy_dashed_runs (Text.lower name.toList)
  obtain ⟨behind, dashes, alone, text⟩ := exists_collapse_true_eq (Text.lower name.toList)
  have cut : (collapsed name).take maxClassLength = lead (Text.lower name.toList)
      ++ (dashed (runs (Text.lower name.toList)) ++ behind).take (room name) := by
    rw [collapsed, collapse_false_eq, text, ← length_lead_add_room name,
      List.take_length_add_append]
  have head : ((dashed (runs (Text.lower name.toList)) ++ behind).take (room name)).head?
      ≠ some '-' := by
    rw [List.head?_take, if_neg (room_ne_zero name)]
    by_cases none : runs (Text.lower name.toList) = []
    · rw [none, alone none]
      nofun
    · rw [List.head?_append_of_ne_nil _ fun empty => none (dashed_runs_eq_nil_iff.mp empty)]
      exact tidy.head
  have front : ∀ c ∈ lead (Text.lower name.toList), (c == '-') = true :=
    fun c hc => beq_iff_eq.mpr (lead_dash _ c hc)
  show (((collapsed name).take maxClassLength).dropWhile (· == '-')).rdropWhile (· == '-') = _
  rw [cut, List.dropWhile_append_of_pos front, dropWhile_dash_eq_self head, List.take_append,
    rdropWhile_append_dashes fun c hc => dashes c (List.mem_of_mem_take hc)]

/-- The class of a name is as much of its words as it has room for, without a dash at the end. -/
theorem toList_className_eq (name : String) :
    (className name).toList = ((dashed (words name)).take (room name)).rdropWhile (· == '-') := by
  have trimmed := trimDashes_take_collapsed name
  rw [className, String.toList_ofList, classChars, ← collapsed, trimmed, words]
  by_cases none : runs (Text.lower name.toList) = []
  · -- Nothing is left, and the fallback is shorter than the room for it.
    have short : fallbackClass.length ≤ room name := Nat.le_trans (by decide) (le_room name)
    have single : dashed [fallbackClass] = fallbackClass := List.intercalate_singleton
    have kept : fallbackClass.rdropWhile (· == '-') = fallbackClass := by decide
    rw [if_pos none, none, single, List.take_of_length_le short, kept]
    exact if_pos (by simp [dashed])
  · have left : ((dashed (runs (Text.lower name.toList))).take (room name)).rdropWhile (· == '-')
        ≠ [] := by
      intro empty
      have dashes := List.rdropWhile_eq_nil_iff.mp empty
      obtain ⟨c, rest, text⟩ := List.exists_cons_of_ne_nil (mt dashed_runs_eq_nil_iff.mp none)
      have first : c ∈ (dashed (runs (Text.lower name.toList))).take (room name) := by
        refine List.mem_of_mem_head? ?_
        rw [List.head?_take, if_neg (room_ne_zero name), text]
        rfl
      have head := (isTidy_dashed_runs (Text.lower name.toList)).head
      rw [text] at head
      exact head (congrArg Option.some (beq_iff_eq.mp (dashes c first)))
    rw [if_neg none]
    exact if_neg (by simpa using left)

/-- What the cut leaves of the words is the class, behind which a dash may have been. -/
theorem take_dashed_words (name : String) :
    (dashed (words name)).take (room name) = (className name).toList ∨
      (dashed (words name)).take (room name) = (className name).toList ++ ['-'] := by
  rw [toList_className_eq]
  exact eq_rdropWhile_or ((isTidy_dashed_words name).apart.take (room name))

/-- The words of a short name are not cut. -/
theorem length_dashed_words_le {name : String} (short : (collapsed name).length ≤ 50) :
    (dashed (words name)).length ≤ room name := by
  rw [words]
  by_cases none : runs (Text.lower name.toList) = []
  · have fallback : (dashed [fallbackClass]).length ≤ 49 := by decide
    rw [if_pos none]
    exact Nat.le_trans fallback (le_room name)
  · obtain ⟨behind, -, -, text⟩ := exists_collapse_true_eq (Text.lower name.toList)
    have total := length_lead_add_room name
    rw [if_neg none]
    rw [collapsed, collapse_false_eq, text, List.length_append, List.length_append] at short
    rw [maxClassLength] at total
    omega

theorem toList_className_of_short {name : String} (short : (collapsed name).length ≤ 50) :
    (className name).toList = dashed (words name) := by
  rw [toList_className_eq, List.take_of_length_le (length_dashed_words_le short)]
  refine List.rdropWhile_eq_self_iff.mpr fun full dash => (isTidy_dashed_words name).last ?_
  rw [List.getLast?_eq_some_getLast full, beq_iff_eq.mp dash]

/-- Words come apart again at the dashes. -/
theorem dashed_words_inj {a b : String} :
    dashed (words a) = dashed (words b) ↔ words a = words b := by
  have apart (name : String) : Text.splitAll '-' (dashed (words name)) = words name := by
    refine Text.splitAll_intercalate ?_ fun word hword dash => ?_
    · rw [words]
      split
      · exact List.cons_ne_nil _ _
      · assumption
    · exact ne_dash_of_isClassChar ((plain_of_mem_words name word hword).2 _ dash) rfl
  constructor
  · intro same
    rw [← apart a, same, apart b]
  · exact congrArg dashed

/-- Two names whose collapsed texts are not too long share a class exactly if they have the same
words, and then their class is these words with dashes between them. Any class is the first part of
the collapsed name without the dashes at its ends, or the fallback if nothing is left; and it is the
words cut to the room for them, which is one character less behind a gap in front, without a dash
that the cut may leave at the end. -/
theorem className_eq_iff_words_eq :
    (∀ a b, (collapsed a).length ≤ 50 → (collapsed b).length ≤ 50 →
      (className a = className b ↔ words a = words b)) ∧
    (∀ name, (collapsed name).length ≤ 50 → (className name).toList = dashed (words name)) ∧
    ∀ name,
      (∃ left, Stripped ((collapsed name).take 50) left ∧
        (className name).toList = if left = [] then fallbackClass else left) ∧
      49 ≤ room name ∧ room name ≤ 50 ∧
      ((dashed (words name)).take (room name) = (className name).toList ∨
        (dashed (words name)).take (room name) = (className name).toList ++ ['-']) := by
  refine ⟨?_, fun name => toList_className_of_short,
    fun name => ⟨?_, le_room name, room_le name, ?_⟩⟩
  · intro a b shortA shortB
    rw [← String.toList_inj, toList_className_of_short shortA, toList_className_of_short shortB,
      dashed_words_inj]
  · refine ⟨trimDashes ((collapsed name).take 50), stripped_trimDashes _, ?_⟩
    rw [className, String.toList_ofList, classChars]
    simp only [List.isEmpty_iff]
    rfl
  · exact take_dashed_words name

set_option maxRecDepth 20000 in
/-- Case and the signs between words make no difference, and neither does a gap at an end. -/
theorem className_eq_iff_words_eq_heroCard :
    (collapsed "Hero  Card / 2").length ≤ 50 ∧ (collapsed "(hero_card-2)").length ≤ 50 ∧
    words "Hero  Card / 2" = words "(hero_card-2)" ∧
    className "Hero  Card / 2" = className "(hero_card-2)" ∧
    (className "(hero_card-2)").toList = dashed ["hero".toList, "card".toList, "2".toList] := by
  obtain ⟨collide, joined, -⟩ := className_eq_iff_words_eq
  have shortA : (collapsed "Hero  Card / 2").length ≤ 50 := by decide
  have shortB : (collapsed "(hero_card-2)").length ≤ 50 := by decide
  have same : words "Hero  Card / 2" = words "(hero_card-2)" := by decide
  have listed : words "(hero_card-2)" = ["hero".toList, "card".toList, "2".toList] := by decide
  exact ⟨shortA, shortB, same, (collide _ _ shortA shortB).mpr same, listed ▸ joined _ shortB⟩

end DesignMarkup.Naming
