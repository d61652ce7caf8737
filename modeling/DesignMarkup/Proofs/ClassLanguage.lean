import Mathlib.Data.List.Chain
import Mathlib.Data.List.DropRight
import DesignMarkup.Conversion
import DesignMarkup.Proofs.ClassNames

/-!
# The language of class names

A class name is made of runs of lower-case letters and digits with single dashes between them, and
it has one to fifty characters. Whatever a layer is called, its class is such a text; and a text is
its own class exactly if it is such a text. So making a class of a name is a projection, and class
names are all that it yields.
-/

namespace DesignMarkup.Naming

/-! ## The language -/

/-- A letter from a to z or a digit from 0 to 9. -/
def IsPlain (c : Char) : Prop := ('a' ≤ c ∧ c ≤ 'z') ∨ ('0' ≤ c ∧ c ≤ '9')

/-- A text of one to fifty characters that consists of runs with single dashes between them. -/
structure IsClassName (s : String) : Prop where
  bounds : 1 ≤ s.length ∧ s.length ≤ 50
  runs : ∃ runs : List (List Char), (∀ run ∈ runs, run ≠ [] ∧ ∀ c ∈ run, IsPlain c) ∧
    s.toList = ['-'].intercalate runs

def Apart (a b : Char) : Prop := a ≠ '-' ∨ b ≠ '-'

/-- A text without dashes at its ends and without two dashes side by side. -/
structure IsTidy (s : List Char) : Prop where
  characters : ∀ c ∈ s, isWordChar c = true
  apart : s.IsChain Apart
  head : s.head? ≠ some '-'
  last : s.getLast? ≠ some '-'

theorem isClassChar_iff {c : Char} : isClassChar c = true ↔ IsPlain c := by
  have ranges : isClassChar c = ((decide ('a' ≤ c) && decide (c ≤ 'z'))
      || (decide ('0' ≤ c) && decide (c ≤ '9'))) := rfl
  simp only [ranges, IsPlain, Bool.or_eq_true, Bool.and_eq_true, decide_eq_true_eq]

theorem ne_dash_of_isClassChar {c : Char} (h : isClassChar c = true) : c ≠ '-' := by
  rintro rfl
  cases h

theorem isClassChar_of_ne_dash {c : Char} (h : isWordChar c = true) (other : c ≠ '-') :
    isClassChar c = true := by
  simpa [isWordChar, other] using h

theorem head?_ne_dash_of_isChain {s : List Char} (apart : ('-' :: s).IsChain Apart) :
    s.head? ≠ some '-' := by
  intro dash
  rcases apart.rel_head? dash with other | other
  · exact other rfl
  · exact other rfl

/-! ## Runs -/

theorem isTidy_nil : IsTidy [] where
  characters := nofun
  apart := .nil
  head := nofun
  last := nofun

theorem isTidy_run {run : List Char} (h : ∀ c ∈ run, isClassChar c = true) : IsTidy run where
  characters c hc := by simp [isWordChar, h c hc]
  apart := by
    refine (List.pairwise_of_forall_mem_list ?_).isChain
    intro a ha b _
    exact .inl (ne_dash_of_isClassChar (h a ha))
  head first := ne_dash_of_isClassChar (h _ (List.mem_of_head? first)) rfl
  last final := ne_dash_of_isClassChar (h _ (List.mem_of_getLast? final)) rfl

/-- One more run in front, behind which a dash stands. -/
theorem IsTidy.behind_run {run s : List Char} (tidy : IsTidy s) (some : s ≠ []) (full : run ≠ [])
    (h : ∀ c ∈ run, isClassChar c = true) : IsTidy (run ++ '-' :: s) := by
  have front := isTidy_run h
  refine ⟨?_, ?_, ?_, ?_⟩
  · intro c hc
    rcases List.mem_append.mp hc with hc | hc
    · exact front.characters c hc
    · rcases List.mem_cons.mp hc with rfl | hc
      · rfl
      · exact tidy.characters c hc
  · refine front.apart.append (tidy.apart.cons ?_) ?_
    · intro y hy
      exact .inr fun dash => tidy.head (dash ▸ hy)
    · intro x hx _ _
      exact .inl fun dash => front.last (dash ▸ hx)
  · rw [List.head?_append_of_ne_nil _ full]
    exact front.head
  · rw [List.getLast?_append_of_ne_nil _ (List.cons_ne_nil _ _), List.getLast?_cons_of_ne_nil some]
    exact tidy.last

/-- Runs with single dashes between them make a tidy text. -/
theorem isTidy_intercalate {runs : List (List Char)}
    (h : ∀ run ∈ runs, run ≠ [] ∧ ∀ c ∈ run, isClassChar c = true) :
    IsTidy (['-'].intercalate runs) := by
  induction runs with
  | nil => exact isTidy_nil
  | cons run rest ih =>
      obtain ⟨⟨full, plain⟩, others⟩ := List.forall_mem_cons.mp h
      cases rest with
      | nil =>
          rw [List.intercalate_singleton]
          exact isTidy_run plain
      | cons next rest =>
          have some : ['-'].intercalate (next :: rest) ≠ [] := by
            have := (others next List.mem_cons_self).1
            cases rest with
            | nil => rwa [List.intercalate_singleton]
            | cons _ _ => simp [List.intercalate_cons_cons, this]
          rw [List.intercalate_cons_cons, List.append_assoc]
          exact (ih others).behind_run some full plain

/-- What stands behind the front of a tidy text is tidy unless it starts with a dash. -/
theorem IsTidy.drop (front : List Char) {s : List Char} (tidy : IsTidy (front ++ s))
    (full : s ≠ []) (head : s.head? ≠ some '-') : IsTidy s where
  characters c hc := tidy.characters c (List.mem_append_right front hc)
  apart := tidy.apart.right_of_append
  head := head
  last := by
    have last := tidy.last
    rwa [List.getLast?_append_of_ne_nil front full] at last

theorem IsTidy.isClassChar_head {c : Char} {s : List Char} (tidy : IsTidy (c :: s)) :
    isClassChar c = true :=
  isClassChar_of_ne_dash (tidy.characters c List.mem_cons_self) fun dash => tidy.head (dash ▸ rfl)

/-- A tidy text comes apart into runs: a dash ends one, any other character belongs to the run of
the character behind it. -/
theorem IsTidy.exists_runs : ∀ {s : List Char}, IsTidy s →
    ∃ runs : List (List Char), (∀ run ∈ runs, run ≠ [] ∧ ∀ c ∈ run, isClassChar c = true) ∧
      s = ['-'].intercalate runs
  | [], _ => ⟨[], nofun, rfl⟩
  | [c], tidy => ⟨[[c]], by simpa using tidy.isClassChar_head, rfl⟩
  | c :: d :: rest, tidy => by
      have plain := tidy.isClassChar_head
      by_cases dash : d = '-'
      · subst dash
        have full : rest ≠ [] := by
          rintro rfl
          exact tidy.last rfl
        have head := head?_ne_dash_of_isChain tidy.apart.tail
        obtain ⟨runs, hruns, joined⟩ := (IsTidy.drop [c, '-'] tidy full head).exists_runs
        refine ⟨[c] :: runs, List.forall_mem_cons.mpr ⟨⟨by simp, by simpa using plain⟩, hruns⟩, ?_⟩
        cases runs with
        | nil => exact absurd joined full
        | cons run later =>
            rw [List.intercalate_cons_cons, ← joined]
            rfl
      · have head : (d :: rest).head? ≠ some '-' := by simpa using dash
        obtain ⟨runs, hruns, joined⟩ :=
          (IsTidy.drop [c] tidy (List.cons_ne_nil d rest) head).exists_runs
        cases runs with
        | nil => cases joined
        | cons run later =>
            obtain ⟨⟨-, first⟩, others⟩ := List.forall_mem_cons.mp hruns
            refine ⟨(c :: run) :: later, List.forall_mem_cons.mpr
              ⟨⟨List.cons_ne_nil c run, List.forall_mem_cons.mpr ⟨plain, first⟩⟩, others⟩, ?_⟩
            rw [joined]
            cases later with
            | nil => simp [List.intercalate_singleton]
            | cons next later => simp [List.intercalate_cons_cons]

/-! ## Names -/

theorem head?_collapse_gap (s : List Char) : (collapse true s).head? ≠ some '-' := by
  induction s with
  | nil => nofun
  | cons c rest ih =>
      rw [collapse]
      by_cases plain : isClassChar c = true
      · rw [if_pos plain]
        simpa using ne_dash_of_isClassChar plain
      · rw [if_neg plain, if_pos rfl]
        exact ih

/-- A gap is closed by one dash, which no other dash follows. -/
theorem isChain_collapse (s : List Char) (inGap : Bool) : (collapse inGap s).IsChain Apart := by
  induction s generalizing inGap with
  | nil => exact .nil
  | cons c rest ih =>
      rw [collapse]
      by_cases plain : isClassChar c = true
      · rw [if_pos plain]
        exact (ih false).cons fun _ _ => .inl (ne_dash_of_isClassChar plain)
      · rw [if_neg plain]
        cases inGap with
        | true => exact ih true
        | false =>
            refine (ih true).cons fun d hd => .inr fun dash => ?_
            exact head?_collapse_gap rest (dash ▸ hd)

/-- Words without neighbouring dashes have no gaps to close. -/
theorem collapse_eq_self {s : List Char} (characters : ∀ c ∈ s, isWordChar c = true)
    (apart : s.IsChain Apart) {inGap : Bool} (head : inGap = true → s.head? ≠ some '-') :
    collapse inGap s = s := by
  induction s generalizing inGap with
  | nil => rfl
  | cons c rest ih =>
      obtain ⟨first, others⟩ := List.forall_mem_cons.mp characters
      rw [collapse]
      by_cases dash : c = '-'
      · subst dash
        have outside : inGap = false := by
          rw [← Bool.not_eq_true]
          exact fun gap => head gap rfl
        have next := head?_ne_dash_of_isChain apart
        rw [outside, if_neg (by decide), if_neg (by decide), ih others apart.tail fun _ => next]
      · rw [if_pos (isClassChar_of_ne_dash first dash)]
        exact congrArg (c :: ·) (ih others apart.tail fun gap => absurd gap Bool.false_ne_true)

theorem isPrefix_trimDashes (s : List Char) : trimDashes s <+: s.dropWhile (· == '-') :=
  List.rdropWhile_prefix (· == '-') _

theorem head?_trimDashes (s : List Char) : (trimDashes s).head? ≠ some '-' := by
  intro head
  have dash := List.singleton_prefix_iff_head?_eq_some.mp
    ((List.singleton_prefix_iff_head?_eq_some.mpr head).trans (isPrefix_trimDashes s))
  have first := List.head?_dropWhile_not (· == '-') s
  rw [dash] at first
  cases first

theorem getLast?_trimDashes (s : List Char) : (trimDashes s).getLast? ≠ some '-' := by
  intro last
  obtain ⟨full, final⟩ := List.mem_getLast?_eq_getLast last
  have other := List.rdropWhile_last_not (· == '-') (s.dropWhile (· == '-')) full
  exact other (beq_iff_eq.mpr final.symm)

theorem isTidy_trimDashes {s : List Char} (characters : ∀ c ∈ s, isWordChar c = true)
    (apart : s.IsChain Apart) : IsTidy (trimDashes s) where
  characters c hc := characters c (mem_of_mem_trimDashes hc)
  apart := List.IsChain.prefix (apart.suffix (List.dropWhile_suffix _)) (isPrefix_trimDashes s)
  head := head?_trimDashes s
  last := getLast?_trimDashes s

theorem dropWhile_dash_eq_self {s : List Char} (head : s.head? ≠ some '-') :
    s.dropWhile (· == '-') = s := by
  cases s with
  | nil => rfl
  | cons c rest => exact List.dropWhile_cons_of_neg (by simpa using head)

/-- Nothing is trimmed from a tidy text. -/
theorem IsTidy.trimDashes_eq {s : List Char} (tidy : IsTidy s) : trimDashes s = s := by
  have back : s.rdropWhile (· == '-') = s := by
    refine List.rdropWhile_eq_self_iff.mpr fun full dash => tidy.last ?_
    rw [List.getLast?_eq_some_getLast full, beq_iff_eq.mp dash]
  show (s.dropWhile (· == '-')).rdropWhile (· == '-') = s
  rw [dropWhile_dash_eq_self tidy.head, back]

theorem classChars_eq_self {s : List Char} (tidy : IsTidy s) (full : s ≠ [])
    (short : s.length ≤ maxClassLength) : classChars s = s := by
  have scanned : collapse false s = s := collapse_eq_self tidy.characters tidy.apart nofun
  rw [classChars, scanned, List.take_of_length_le short, tidy.trimDashes_eq]
  exact if_neg (by simpa using full)

/-- The class of a text is tidy, not empty and not too long: neither cutting nor trimming makes
characters neighbours that were none. -/
theorem isTidy_classChars (s : List Char) :
    IsTidy (classChars s) ∧ classChars s ≠ [] ∧ (classChars s).length ≤ maxClassLength := by
  have cut : ((collapse false s).take maxClassLength).IsChain Apart :=
    (isChain_collapse s false).take maxClassLength
  have trimmed := isTidy_trimDashes
    (fun c hc => isWordChar_of_mem_collapse (List.mem_of_mem_take hc)) cut
  rw [classChars]
  split
  · exact ⟨isTidy_run (List.all_eq_true.mp (by decide)), by decide, by decide⟩
  · rename_i full
    refine ⟨trimmed, by simpa using full, ?_⟩
    calc (trimDashes ((collapse false s).take maxClassLength)).length
        ≤ (((collapse false s).take maxClassLength).dropWhile (· == '-')).length :=
          (isPrefix_trimDashes _).length_le
      _ ≤ ((collapse false s).take maxClassLength).length := (List.dropWhile_suffix _).length_le
      _ ≤ maxClassLength := List.length_take_le _ _

theorem lowerChar_of_isWordChar {c : Char} (h : isWordChar c = true) : Text.lowerChar c = [c] := by
  have place : (97 ≤ c.toNat ∧ c.toNat ≤ 122) ∨ (48 ≤ c.toNat ∧ c.toNat ≤ 57) ∨ c.toNat = 45 := by
    rcases (Bool.or_eq_true _ _).mp h with h | h
    · rcases isClassChar_iff.mp h with ⟨low, high⟩ | ⟨low, high⟩
      · exact .inl ⟨low, high⟩
      · exact .inr (.inl ⟨low, high⟩)
    · exact .inr (.inr (congrArg Char.toNat (beq_iff_eq.mp h)))
  have lower : c.toLower = c := by
    refine dif_neg fun upper => ?_
    have low : 65 ≤ c.toNat := UInt32.le_iff_toNat_le.mp upper.1
    have high : c.toNat ≤ 90 := UInt32.le_iff_toNat_le.mp upper.2
    omega
  rw [Text.lowerChar, if_neg (by omega), if_neg (by omega), lower]

/-- The characters of class names are in lower case already. -/
theorem lower_of_isWordChar {s : List Char} (h : ∀ c ∈ s, isWordChar c = true) :
    Text.lower s = s := by
  induction s with
  | nil => rfl
  | cons c rest ih =>
      obtain ⟨first, others⟩ := List.forall_mem_cons.mp h
      show Text.lowerChar c ++ Text.lower rest = c :: rest
      rw [lowerChar_of_isWordChar first, ih others]
      rfl

/-! ## The projection -/

theorem isClassName_iff {s : String} :
    IsClassName s ↔ IsTidy s.toList ∧ s.toList ≠ [] ∧ s.toList.length ≤ maxClassLength := by
  have plain : ∀ runs : List (List Char),
      (∀ run ∈ runs, run ≠ [] ∧ ∀ c ∈ run, IsPlain c) ↔
        ∀ run ∈ runs, run ≠ [] ∧ ∀ c ∈ run, isClassChar c = true := by
    simp only [isClassChar_iff, implies_true]
  have long : 1 ≤ s.length ↔ s.toList ≠ [] := by
    rw [← String.length_toList, Nat.one_le_iff_ne_zero, ne_eq, List.length_eq_zero_iff]
  constructor
  · rintro ⟨⟨low, high⟩, runs, hruns, joined⟩
    refine ⟨?_, long.mp low, String.length_toList ▸ high⟩
    rw [joined]
    exact isTidy_intercalate ((plain runs).mp hruns)
  · rintro ⟨tidy, full, short⟩
    obtain ⟨runs, hruns, joined⟩ := tidy.exists_runs
    exact ⟨⟨long.mpr full, String.length_toList ▸ short⟩, runs, (plain runs).mpr hruns, joined⟩

theorem isClassName_className (name : String) : IsClassName (className name) := by
  rw [isClassName_iff, className, String.toList_ofList]
  exact isTidy_classChars _

theorem className_of_isClassName {s : String} (h : IsClassName s) : className s = s := by
  obtain ⟨tidy, full, short⟩ := isClassName_iff.mp h
  rw [className, lower_of_isWordChar tidy.characters, classChars_eq_self tidy full short,
    String.ofList_toList]

def nameValue : Option String → Value
  | some s => .text s
  | none => .null

theorem textOrEmpty_nameValue (name : Option String) :
    (nameValue name).textOrEmpty = .ok (name.getD "") := by
  cases name with
  | none => rfl
  | some s =>
      show (if (!s.isEmpty) = true then Except.ok s else Except.ok "") = _
      by_cases empty : s = ""
      · rw [empty]
        rfl
      · rw [if_pos (by simpa using empty)]
        rfl

/-- Whatever a layer is called, its class is of the language of class names, and the texts of that
language are exactly those that are their own class. So a class is its own class, and the texts of
the language are exactly the classes that there are. -/
theorem className_eq_self_iff :
    (∀ (l : Layer) (name : Option String),
      Layer.className { l with name := nameValue name } = .ok (className (name.getD "")) ∧
        IsClassName (className (name.getD ""))) ∧
    (∀ s, className s = s ↔ IsClassName s) ∧
    (∀ s, className (className s) = className s) ∧
    ∀ s, (∃ name, className name = s) ↔ IsClassName s := by
  refine ⟨?_, ?_, ?_, ?_⟩
  · intro l name
    refine ⟨?_, isClassName_className _⟩
    show (do pure (className (← (nameValue name).textOrEmpty)) : Except Fault String) = _
    rw [textOrEmpty_nameValue]
    rfl
  · intro s
    constructor
    · intro same
      exact same ▸ isClassName_className s
    · exact className_of_isClassName
  · intro s
    exact className_of_isClassName (isClassName_className s)
  · intro s
    constructor
    · rintro ⟨name, rfl⟩
      exact isClassName_className name
    · intro h
      exact ⟨s, className_of_isClassName h⟩

end DesignMarkup.Naming
