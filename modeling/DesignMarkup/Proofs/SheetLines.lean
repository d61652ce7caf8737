import DesignMarkup.Stylesheet
import DesignMarkup.Proofs.ClassNames
import DesignMarkup.Proofs.FormCoding

/-!
# Style sheets line by line

A printed sheet has a line for each selector, for each declaration and for each closing brace, and
an empty line between rules. The front of a line tells what it is, so a value may hold braces,
colons and semicolons as long as it stays on its line. A reader that takes one line after the other
finds every rule that declares something, with all that it declares, in the order of the table.
-/

namespace DesignMarkup.Stylesheet

open Naming (IsWord)

/-! ## Reading lines -/

def selector? : List Char → Option String
  | '.' :: rest =>
    let name := rest.takeWhile (· != ' ')
    if rest = name ++ [' ', '{'] then some (String.ofList name) else none
  | _ => none

/-- The property and the value on an indented line. The first colon ends the property, and the
semicolon at the end of the line the value. -/
def declaration? : List Char → Option (String × String)
  | ' ' :: ' ' :: rest =>
    match Text.splitFirst ':' rest with
    | (name, some (' ' :: value)) =>
      if value.getLast? = some ';' then some (String.ofList name, String.ofList value.dropLast)
      else none
    | _ => none
  | _ => none

/-- Reads lines, with the rules so far and the rule that is open, if one is. -/
def readLines (rules : List Rule) : Option Rule → List (List Char) → Option (List Rule)
  | none, [] => some rules
  | none, line :: rest =>
    if line = [] then readLines rules none rest
    else (selector? line).bind fun className => readLines rules (some (className, [])) rest
  | some _, [] => none
  | some r, line :: rest =>
    if line = ['}'] then readLines (rules ++ [r]) none rest
    else (declaration? line).bind fun d => readLines rules (some (r.1, r.2 ++ [d])) rest

def lines (text : String) : List (List Char) := Text.splitAll '\n' text.toList

def read (text : String) : Option (List Rule) := readLines [] none (lines text)

/-! ## Printed lines -/

def selectorLine (className : String) : String := "." ++ className ++ " \x7b"

def ruleLines (r : Rule) : List String :=
  selectorLine r.1 :: (r.2.map printDeclaration ++ ["\x7d"])

/-- The lines of a sheet. The sheet without rules has one line, which is empty. -/
def sheetLines : List Rule → List String
  | [] => [""]
  | [r] => ruleLines r
  | r :: next :: rest => ruleLines r ++ "" :: sheetLines (next :: rest)

theorem ruleLines_ne_nil (r : Rule) : ruleLines r ≠ [] := List.cons_ne_nil _ _

theorem sheetLines_ne_nil (rules : List Rule) : sheetLines rules ≠ [] := by
  cases rules using sheetLines.fun_cases with
  | case1 => exact List.cons_ne_nil _ _
  | case2 r => exact ruleLines_ne_nil r
  | case3 r next rest => exact List.append_ne_nil_of_left_ne_nil (ruleLines_ne_nil r) _

theorem printRule_eq_intercalate {r : Rule} (declares : r.2 ≠ []) :
    printRule r = "\n".intercalate (ruleLines r) := by
  have opening : " \x7b\n" = " \x7b" ++ "\n" := by decide
  have closing : "\n\x7d" = "\n" ++ "\x7d" := by decide
  have some : r.2.map printDeclaration ≠ [] := mt List.map_eq_nil_iff.mp declares
  rw [ruleLines, String.intercalate_cons_of_ne_nil (List.append_ne_nil_of_left_ne_nil some _),
    String.intercalate_append_of_ne_nil some (List.cons_ne_nil _ _), String.intercalate_singleton,
    printRule, selectorLine, opening, closing]
  simp only [String.append_assoc]

theorem intercalate_printRule {rules : List Rule} (declare : ∀ r ∈ rules, r.2 ≠ []) :
    "\n\n".intercalate (rules.map printRule) = "\n".intercalate (sheetLines rules) := by
  induction rules using sheetLines.induct with
  | case1 => rw [sheetLines, String.intercalate_singleton, List.map_nil, String.intercalate_nil]
  | case2 r =>
      have first := declare r List.mem_cons_self
      rw [List.map_singleton, String.intercalate_singleton, sheetLines,
        printRule_eq_intercalate first]
  | case3 r next rest ih =>
      obtain ⟨first, others⟩ := List.forall_mem_cons.mp declare
      have gap : "\n\n" = "\n" ++ "\n" := by decide
      have further := ih others
      rw [List.map_cons] at further
      rw [List.map_cons, List.map_cons, String.intercalate_cons_cons, further, sheetLines,
        String.intercalate_append_of_ne_nil (ruleLines_ne_nil r) (List.cons_ne_nil _ _),
        String.intercalate_cons_of_ne_nil (sheetLines_ne_nil _),
        printRule_eq_intercalate first, gap]
      simp only [String.append_assoc, String.empty_append]

def declaring (rules : List Rule) : List Rule := rules.filter (!·.2.isEmpty)

theorem mem_declaring {rules : List Rule} {r : Rule} :
    r ∈ declaring rules ↔ r ∈ rules ∧ r.2 ≠ [] := by
  simp [declaring]

theorem print_eq_intercalate (rules : List Rule) :
    print rules = "\n".intercalate (sheetLines (declaring rules)) :=
  intercalate_printRule fun _ hr => (mem_declaring.mp hr).2

/-! ## Rules that stay on their lines -/

def IsPropertyName (s : String) : Prop := ∀ c ∈ s.toList, ('a' ≤ c ∧ c ≤ 'z') ∨ c = '-'

instance (s : String) : Decidable (IsPropertyName s) := List.decidableBAll _ s.toList

theorem IsPropertyName.not_mem {s : String} (h : IsPropertyName s) {c : Char}
    (other : ¬ (('a' ≤ c ∧ c ≤ 'z') ∨ c = '-')) : c ∉ s.toList :=
  fun present => other (h c present)

/-- A rule for a class that is a word, in which no value leaves its line. -/
structure StaysOnLines (r : Rule) : Prop where
  className : IsWord r.1
  properties : ∀ d ∈ r.2, IsPropertyName d.1
  values : ∀ d ∈ r.2, '\n' ∉ d.2.toList

instance (r : Rule) : Decidable (StaysOnLines r) :=
  decidable_of_iff
    (IsWord r.1 ∧ (∀ d ∈ r.2, IsPropertyName d.1) ∧ ∀ d ∈ r.2, '\n' ∉ d.2.toList)
    ⟨fun ⟨className, properties, values⟩ => ⟨className, properties, values⟩,
      fun ⟨className, properties, values⟩ => ⟨className, properties, values⟩⟩

theorem toList_selectorLine (className : String) :
    (selectorLine className).toList = '.' :: (className.toList ++ [' ', '{']) := by
  rw [selectorLine, String.toList_append, String.toList_append]
  rfl

theorem toList_printDeclaration (d : String × String) :
    (printDeclaration d).toList
      = ' ' :: ' ' :: (d.1.toList ++ ':' :: ' ' :: (d.2.toList ++ [';'])) := by
  simp [printDeclaration]

theorem StaysOnLines.newline_not_mem {r : Rule} (h : StaysOnLines r) :
    ∀ line ∈ ruleLines r, '\n' ∉ line.toList := by
  intro line hline
  rcases List.mem_cons.mp hline with rfl | hline
  · have word := h.className.not_mem (c := '\n') (by decide)
    simpa [toList_selectorLine] using word
  · rcases List.mem_append.mp hline with hline | hline
    · obtain ⟨d, hd, rfl⟩ := List.mem_map.mp hline
      have property := (h.properties d hd).not_mem (c := '\n') (by decide)
      simpa [toList_printDeclaration] using ⟨property, h.values d hd⟩
    · obtain rfl := List.mem_singleton.mp hline
      decide

theorem newline_not_mem_sheetLines {rules : List Rule} (h : ∀ r ∈ rules, StaysOnLines r) :
    ∀ line ∈ sheetLines rules, '\n' ∉ line.toList := by
  induction rules using sheetLines.induct with
  | case1 => simp [sheetLines]
  | case2 r => exact (h r List.mem_cons_self).newline_not_mem
  | case3 r next rest ih =>
      obtain ⟨first, others⟩ := List.forall_mem_cons.mp h
      rw [sheetLines]
      refine List.forall_mem_append.mpr ⟨first.newline_not_mem, ?_⟩
      exact List.forall_mem_cons.mpr ⟨by decide, ih others⟩

/-- The lines of a printed sheet are those of its rules that declare something. -/
theorem lines_print {rules : List Rule} (h : ∀ r ∈ rules, StaysOnLines r) :
    lines (print rules) = (sheetLines (declaring rules)).map String.toList := by
  have apart := newline_not_mem_sheetLines fun r hr => h r (mem_declaring.mp hr).1
  have newline : "\n".toList = ['\n'] := by decide
  rw [lines, print_eq_intercalate, String.toList_intercalate, newline]
  refine Text.splitAll_intercalate (mt List.map_eq_nil_iff.mp (sheetLines_ne_nil _)) ?_
  intro line hline
  obtain ⟨text, htext, rfl⟩ := List.mem_map.mp hline
  exact apart text htext

/-! ## Reading back -/

theorem selector?_selectorLine {className : String} (word : IsWord className) :
    selector? (selectorLine className).toList = some className := by
  have blank := word.not_mem (c := ' ') (by decide)
  have name : (className.toList ++ [' ', '{']).takeWhile (· != ' ') = className.toList := by
    rw [List.takeWhile_append_of_pos]
    · simp
    · intro c hc
      simpa using fun same : c = ' ' => blank (same ▸ hc)
  rw [toList_selectorLine, selector?, name, if_pos rfl, String.ofList_toList]

theorem declaration?_printDeclaration {d : String × String} (h : ':' ∉ d.1.toList) :
    declaration? (printDeclaration d).toList = some d := by
  have cut := Text.splitFirst_behind h (some (' ' :: (d.2.toList ++ [';'])))
  rw [toList_printDeclaration, declaration?]
  rw [Text.behind] at cut
  simp [cut]

/-- The lines of declarations are read one after the other. -/
theorem readLines_declarations (rules : List Rule) (className : String)
    (before : List (String × String)) {ds : List (String × String)}
    (h : ∀ d ∈ ds, ':' ∉ d.1.toList) (rest : List (List Char)) :
    readLines rules (some (className, before))
        ((ds.map printDeclaration).map String.toList ++ rest)
      = readLines rules (some (className, before ++ ds)) rest := by
  induction ds generalizing before with
  | nil =>
      rw [List.append_nil]
      rfl
  | cons d ds ih =>
      obtain ⟨first, others⟩ := List.forall_mem_cons.mp h
      have indented : (printDeclaration d).toList ≠ ['}'] := by simp [toList_printDeclaration]
      rw [List.map_cons, List.map_cons, List.cons_append, readLines, if_neg indented,
        declaration?_printDeclaration first, Option.bind_some, ih _ others, List.append_assoc]
      rfl

theorem readLines_ruleLines (rules : List Rule) {r : Rule} (h : StaysOnLines r)
    (rest : List (List Char)) :
    readLines rules none ((ruleLines r).map String.toList ++ rest)
      = readLines (rules ++ [r]) none rest := by
  have opening : (selectorLine r.1).toList ≠ [] := by simp [toList_selectorLine]
  have colon : ∀ d ∈ r.2, ':' ∉ d.1.toList := fun d hd => (h.properties d hd).not_mem (by decide)
  have closing : "\x7d".toList = ['}'] := by decide
  rw [ruleLines, List.map_cons, List.map_append, List.cons_append, List.append_assoc, readLines,
    if_neg opening, selector?_selectorLine h.className, Option.bind_some,
    readLines_declarations _ _ _ colon, List.nil_append, List.map_singleton, closing,
    List.singleton_append, readLines, if_pos rfl]

theorem readLines_sheetLines {rules : List Rule} (h : ∀ r ∈ rules, StaysOnLines r)
    (before : List Rule) :
    readLines before none ((sheetLines rules).map String.toList) = some (before ++ rules) := by
  induction rules using sheetLines.induct generalizing before with
  | case1 =>
      rw [List.append_nil]
      rfl
  | case2 r =>
      have one := readLines_ruleLines before (h r List.mem_cons_self) []
      rw [List.append_nil] at one
      exact one
  | case3 r next rest ih =>
      obtain ⟨first, others⟩ := List.forall_mem_cons.mp h
      have empty : "".toList = [] := by decide
      rw [sheetLines, List.map_append, readLines_ruleLines before first, List.map_cons, empty,
        readLines, if_pos rfl, ih others, List.append_assoc]
      rfl

/-! ## The ends of a sheet -/

/-- A sheet with rules begins with the line of a selector and ends with a closing brace. -/
theorem ends_of_sheetLines {rules : List Rule} (some : rules ≠ []) :
    (∃ className, (sheetLines rules).head? = Option.some (selectorLine className)) ∧
      (sheetLines rules).getLast? = Option.some "\x7d" := by
  induction rules using sheetLines.induct with
  | case1 => exact absurd rfl some
  | case2 r => exact ⟨⟨r.1, rfl⟩, by simp [sheetLines, ruleLines, List.getLast?_cons]⟩
  | case3 r next rest ih =>
      have further := (ih (List.cons_ne_nil next rest)).2
      refine ⟨⟨r.1, rfl⟩, ?_⟩
      rw [sheetLines, List.getLast?_append, List.getLast?_cons_of_ne_nil (sheetLines_ne_nil _),
        further]
      rfl

/-- Only the empty sheet begins or ends with a blank line. -/
theorem print_eq_empty_of_blank {rules : List Rule} (h : ∀ r ∈ rules, StaysOnLines r)
    {line : List Char} (atEnd : (lines (print rules)).head? = some line ∨
      (lines (print rules)).getLast? = some line) (blank : line.all Text.isBlank = true) :
    print rules = "" := by
  by_cases none : declaring rules = []
  · rw [print_eq_intercalate, none]
    exact String.intercalate_singleton
  · obtain ⟨⟨className, first⟩, last⟩ := ends_of_sheetLines none
    have notBlank : Text.isBlank '.' = false ∧ "\x7d".toList.all Text.isBlank = false := by decide
    rw [lines_print h, List.head?_map, List.getLast?_map, first, last] at atEnd
    rcases atEnd with same | same
    · obtain rfl := Option.some.inj same
      rw [toList_selectorLine, List.all_cons, notBlank.1] at blank
      cases blank
    · obtain rfl := Option.some.inj same
      exact absurd (notBlank.2.symm.trans blank) Bool.false_ne_true

/-! ## Printing loses nothing -/

/-- A sheet is read back from its print as the rules of the table that declare something, in the
order of the table and with all that they declare, whatever stands in the values but line ends. The
empty text is the sheet without rules, and no other sheet has a blank line at an end. -/
theorem read_print_of_staysOnLines {rules : Ordered String (Ordered String String)}
    (h : ∀ r ∈ rules, StaysOnLines r) :
    read (print rules) = some (declaring rules) ∧
    read "" = some [] ∧
    ∀ line, (lines (print rules)).head? = some line ∨ (lines (print rules)).getLast? = some line →
      line.all Text.isBlank = true → print rules = "" := by
  refine ⟨?_, rfl, fun line atEnd blank => print_eq_empty_of_blank h atEnd blank⟩
  rw [read, lines_print h, readLines_sheetLines fun r hr => h r (mem_declaring.mp hr).1,
    List.nil_append]

def crowdedRules : Ordered String (Ordered String String) :=
  [("card", [("color", "red; \x7d"), ("font-family", "\x7d\"a: b\" \x7b;")]), ("gap", []),
    ("2-up", [("width", ""), ("height", " : ;;")])]

theorem staysOnLines_crowdedRules : ∀ r ∈ crowdedRules, StaysOnLines r := by decide

theorem read_print_crowdedRules :
    (∀ r ∈ crowdedRules, StaysOnLines r) ∧
    read (print crowdedRules) = some
      [("card", [("color", "red; \x7d"), ("font-family", "\x7d\"a: b\" \x7b;")]),
        ("2-up", [("width", ""), ("height", " : ;;")])] := by
  obtain ⟨back, -⟩ := read_print_of_staysOnLines staysOnLines_crowdedRules
  exact ⟨staysOnLines_crowdedRules, back⟩

end DesignMarkup.Stylesheet
