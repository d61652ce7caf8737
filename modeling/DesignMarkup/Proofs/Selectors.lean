import DesignMarkup.Proofs.ClassWords
import DesignMarkup.Proofs.Coherent
import DesignMarkup.Proofs.Digits

/-!
# Selectors of classes

A rule counts only if its selector is one, and the selector of a class is a dot and an identifier,
which does not begin with a digit. A class begins as the words of its name do. So the rule of a
layer takes effect exactly if the first letter or digit in the name of the layer is a letter, and
then it is for the elements of that class and for no other.
-/

namespace DesignMarkup

open Css

/-! ## Identifiers -/

namespace Css

def startsIdentifier (c : Char) : Bool := c.isAlpha || c == '_'

def isIdentifierChar (c : Char) : Bool := c.isAlphanum || c == '-' || c == '_'

def isIdentifier : List Char → Bool
  | '-' :: c :: rest => (startsIdentifier c || c == '-') && rest.all isIdentifierChar
  | c :: rest => startsIdentifier c && rest.all isIdentifierChar
  | [] => false

def Token.plain? : Token → Option Char
  | .char c => some c
  | _ => none

/-- The class that a selector is for, if it is a dot and an identifier. -/
def classSelector? : List Token → Option String
  | .char '.' :: name =>
    (name.mapM Token.plain?).bind fun s =>
      if isIdentifier s then some (String.ofList s) else none
  | _ => none

/-- What a sheet declares for classes. A rule whose selector is none is dropped. -/
def inForce (sheet : List Rule) : List (String × List Declaration) :=
  sheet.filterMap fun r => (classSelector? r.1).map (·, r.2)

theorem isIdentifier_cons {c : Char} (h : c ≠ '-') (rest : List Char) :
    isIdentifier (c :: rest) = (startsIdentifier c && rest.all isIdentifierChar) := by
  rw [isIdentifier]
  exact fun _ _ dash => absurd dash h

theorem mapM_plain? (s : List Char) : (chars s).mapM Token.plain? = some s := by
  induction s with
  | nil => rfl
  | cons c rest ih =>
      rw [chars, List.map_cons, List.mapM_cons, ← chars, ih]
      rfl

theorem classSelector?_chars (className : String) :
    classSelector? (chars ('.' :: className.toList))
      = if isIdentifier className.toList then some className else none := by
  show ((chars className.toList).mapM Token.plain?).bind _ = _
  rw [mapM_plain?, Option.bind_some, String.ofList_toList]

theorem inForce_sheetOf (rules : Ordered String Declarations) :
    inForce (sheetOf rules) = (rules.filter fun r => isIdentifier r.1.toList).map
      fun r => (r.1, r.2.map declarationOf) := by
  induction rules with
  | nil => rfl
  | cons r rest ih =>
      have one : (classSelector? (ruleOf r).1).map (·, (ruleOf r).2)
          = if isIdentifier r.1.toList then some (r.1, r.2.map declarationOf) else none := by
        rw [ruleOf, classSelector?_chars]
        split <;> rfl
      rw [sheetOf, List.map_cons, inForce, List.filterMap_cons, one, ← sheetOf, ← inForce, ih,
        List.filter_cons]
      cases isIdentifier r.1.toList <;> rfl

end Css

/-! ## How classes begin -/

namespace Naming

/-- The first letter or digit in a name, in lower case. -/
def initial? (name : String) : Option Char := (Text.lower name.toList).find? isClassChar

/-- A text and its first run begin with the same letter or digit. -/
theorem head?_dashed_runs (s : List Char) : (dashed (runs s)).head? = s.find? isClassChar := by
  induction s with
  | nil => rfl
  | cons c rest ih =>
      by_cases plain : isClassChar c = true
      · rw [List.find?_cons_of_pos plain]
        by_cases inRun : startsInRun rest = true
        · obtain ⟨run, more, -, longer⟩ := runs_cons_of_startsInRun plain inRun
          rw [longer, dashed, List.intercalate_cons_cons_left]
          rfl
        · rw [runs_cons_of_not_startsInRun plain inRun]
          cases runs rest with
          | nil => rfl
          | cons next more =>
              rw [dashed, List.intercalate_cons_cons_left]
              rfl
      · rw [List.find?_cons_of_neg plain, runs_cons_gap plain, ih]

/-- A class begins with the initial of its name, or as the fallback does. -/
theorem head?_className (name : String) :
    (className name).toList.head? = ((initial? name).or (some 'e')) := by
  have front : (className name).toList <+: dashed (words name) := by
    rw [toList_className_eq]
    exact (List.rdropWhile_prefix _ _).trans (List.take_prefix _ _)
  have full : (className name).toList ≠ [] := by
    rw [ne_eq, String.toList_eq_nil_iff]
    exact className_ne_empty name
  have same : (className name).toList.head? = (dashed (words name)).head? := by
    rw [List.head?_eq_some_head full, front.head full]
    exact (List.head?_eq_some_head _).symm
  rw [same, initial?, ← head?_dashed_runs, words]
  by_cases none : runs (Text.lower name.toList) = []
  · rw [if_pos none, none]
    rfl
  · obtain ⟨c, rest, text⟩ := List.exists_cons_of_ne_nil (mt dashed_runs_eq_nil_iff.mp none)
    rw [if_neg none, text]
    rfl

theorem isIdentifierChar_of_isWordChar {c : Char} (h : isWordChar c = true) :
    Css.isIdentifierChar c = true := by
  simp only [isWordChar, isClassChar, Bool.or_eq_true] at h
  rw [Css.isIdentifierChar, Bool.or_eq_true, Bool.or_eq_true]
  rcases h with (lower | digit) | dash
  · exact .inl (.inl (Bool.or_eq_true_iff.mpr (.inl (Bool.or_eq_true_iff.mpr (.inr lower)))))
  · exact .inl (.inl (Bool.or_eq_true_iff.mpr (.inr digit)))
  · exact .inl (.inr dash)

/-- Both alphabets lie behind the digits. -/
theorem isAlpha_of_isDigit {c : Char} (h : c.isDigit = true) : c.isAlpha = false := by
  obtain ⟨-, high⟩ := Decimal.toNat_of_isDigit h
  refine Bool.eq_false_iff.mpr fun letter => ?_
  rcases Bool.or_eq_true_iff.mp letter with upper | lower
  · have low : 65 ≤ c.toNat := UInt32.le_iff_toNat_le.mp (of_decide_eq_true upper).1
    omega
  · obtain ⟨from97, -⟩ := Bool.and_eq_true_iff.mp lower
    have low : 97 ≤ c.toNat := UInt32.le_iff_toNat_le.mp (of_decide_eq_true from97)
    omega

/-- Of the characters of words the letters begin identifiers, and the digits do not. -/
theorem startsIdentifier_of_isClassChar {c : Char} (h : isClassChar c = true) :
    Css.startsIdentifier c = !c.isDigit := by
  cases digit : c.isDigit with
  | false =>
      have lower : c.isLower = true := by simpa [isClassChar, digit] using h
      have letter : c.isAlpha = true := Bool.or_eq_true_iff.mpr (.inr lower)
      rw [Css.startsIdentifier, letter]
      rfl
  | true =>
      have underscore : c ≠ '_' := by
        rintro rfl
        exact absurd digit (by decide)
      rw [Css.startsIdentifier, isAlpha_of_isDigit digit]
      simpa using underscore

/-- A class is an identifier unless its name has a digit for its initial. -/
theorem isIdentifier_className (name : String) :
    Css.isIdentifier (className name).toList = !(initial? name).any Char.isDigit := by
  have tidy : IsTidy (className name).toList := (isClassName_iff.mp (isClassName_className name)).1
  have first := head?_className name
  have word := isWord_className name
  cases text : (className name).toList with
  | nil =>
      rw [String.toList_eq_nil_iff] at text
      exact absurd text (className_ne_empty name)
  | cons c rest =>
      rw [IsWord, text] at word
      rw [text] at tidy first
      have plain := tidy.isClassChar_head
      have others : rest.all Css.isIdentifierChar = true := by
        refine List.all_eq_true.mpr fun d hd => ?_
        exact isIdentifierChar_of_isWordChar (word d (List.mem_cons_of_mem c hd))
      rw [Css.isIdentifier_cons (ne_dash_of_isClassChar plain), others, Bool.and_true,
        startsIdentifier_of_isClassChar plain]
      cases initial : initial? name with
      | none =>
          rw [initial] at first
          obtain rfl := Option.some.inj first
          rfl
      | some d =>
          rw [initial] at first
          obtain rfl := Option.some.inj first
          rfl

end Naming

/-! ## The elements of a selector -/

namespace Element

mutual

def elements : Element → List Element
  | text tag className content => [text tag className content]
  | box tag className label children => box tag className label children :: elementsAll children

def elementsAll : List Element → List Element
  | [] => []
  | e :: rest => elements e ++ elementsAll rest

end

def classAttribute : Element → String
  | text _ className _ => className
  | box _ className _ _ => className

/-- Classes stand apart by spaces, tabs and the ends of lines and pages. -/
def isClassSpace (c : Char) : Bool := ['\t', '\n', '\x0c', '\r', ' '].contains c

def classList (e : Element) : List (List Char) :=
  (e.classAttribute.toList.splitOnP isClassSpace).filter (!·.isEmpty)

/-- The elements in a page that the selector of a class is for. -/
def selected (className : String) (page : Element) : List Element :=
  page.elements.filter (·.classList.contains className.toList)

mutual

theorem map_classAttribute_elements :
    ∀ e : Element, e.elements.map classAttribute = e.classes
  | text _ _ _ => rfl
  | box _ className _ children => by
      rw [elements, List.map_cons, map_classAttribute_elementsAll children]
      rfl

theorem map_classAttribute_elementsAll :
    ∀ es : List Element, (elementsAll es).map classAttribute = classesAll es
  | [] => rfl
  | e :: rest => by
      rw [elementsAll, List.map_append, map_classAttribute_elements e,
        map_classAttribute_elementsAll rest, classesAll]

end

/-- An element whose attribute is a word has that class alone. -/
theorem classList_of_isWord {e : Element} (word : Naming.IsWord e.classAttribute)
    (full : e.classAttribute ≠ "") : e.classList = [e.classAttribute.toList] := by
  have noSpace : ∀ c ∈ e.classAttribute.toList, isClassSpace c = false := by
    intro c hc
    rw [Bool.eq_false_iff]
    intro space
    have spaces : ['\t', '\n', '\x0c', '\r', ' '].all (!Naming.isWordChar ·) = true := by decide
    have other := List.all_eq_true.mp spaces c (List.contains_iff_mem.mp space)
    rw [word c hc] at other
    cases other
  have nonempty : e.classAttribute.toList ≠ [] := mt String.toList_eq_nil_iff.mp full
  rw [classList, List.splitOnP_eq_singleton noSpace]
  exact List.filter_cons_of_pos (by simpa using nonempty)

end Element

/-! ## Rules in force -/

namespace Node

/-- What is shown of a design has one class an element, so a selector is for the elements whose
attribute is its class. -/
theorem selected_shown (n : Node) (className : String) :
    n.shown.selected className = n.shown.elements.filter (·.classAttribute = className) := by
  refine List.filter_congr fun e he => ?_
  have shown : e.classAttribute ∈ n.visited.map (·.layer.classOf) := by
    rw [← classes_shown, ← Element.map_classAttribute_elements]
    exact List.mem_map_of_mem he
  obtain ⟨m, -, same⟩ := List.mem_map.mp shown
  have word : Naming.IsWord e.classAttribute := same ▸ Naming.isWord_className _
  have full : e.classAttribute ≠ "" := same ▸ Naming.className_ne_empty _
  rw [Element.classList_of_isWord word full, Bool.eq_iff_iff]
  simp [String.toList_inj, eq_comm]

section

variable [Arctangent]

theorem mem_keys_rules_iff {n : Node} {o : Options} {r : Converted} (h : n.convert o = .ok r)
    (className : String) : className ∈ (n.rules o).keys ↔
      ∃ m ∈ n.visited, m.layer.classOf = className ∧ m.layer.ownStyle o ≠ [] := by
  have none : Harvest.empty.rules.keys.Nodup := List.nodup_nil
  obtain ⟨rules, -⟩ := fold_of_convert h
  rw [rules, Harvest.mem_keys_foldl_visit o n.visited none]
  exact or_iff_right List.not_mem_nil

/-- A selector with a rule is for some element. -/
theorem selected_shown_ne_nil {n : Node} {o : Options} {r : Converted} (h : n.convert o = .ok r)
    {className : String} (ruled : className ∈ (n.rules o).keys) :
    n.shown.selected className ≠ [] := by
  obtain ⟨m, hm, same, -⟩ := (mem_keys_rules_iff h className).mp ruled
  have shown : className ∈ n.shown.classes := by
    rw [classes_shown]
    exact List.mem_map.mpr ⟨m, hm, same⟩
  rw [← Element.map_classAttribute_elements] at shown
  obtain ⟨e, he, same⟩ := List.mem_map.mp shown
  rw [selected_shown]
  exact List.ne_nil_of_mem (List.mem_filter.mpr ⟨he, decide_eq_true same⟩)

/-- All selectors are identifiers exactly if no layer that declares something has a name with a
digit for its initial. -/
theorem isIdentifier_keys_iff {n : Node} {o : Options} {r : Converted} (h : n.convert o = .ok r) :
    (∀ c ∈ (n.rules o).keys, Css.isIdentifier c.toList = true) ↔
      ∀ m ∈ n.visited, m.layer.ownStyle o ≠ [] →
        (Naming.initial? m.layer.name.textOrBlank).any Char.isDigit = false := by
  have begins (m : Node) : Css.isIdentifier m.layer.classOf.toList = true ↔
      (Naming.initial? m.layer.name.textOrBlank).any Char.isDigit = false := by
    rw [Layer.classOf, Naming.isIdentifier_className, Bool.not_eq_true']
  constructor
  · intro identifiers m hm declares
    exact (begins m).mp (identifiers _ ((mem_keys_rules_iff h _).mpr ⟨m, hm, rfl, declares⟩))
  · intro letters c hc
    obtain ⟨m, hm, rfl, declares⟩ := (mem_keys_rules_iff h c).mp hc
    exact (begins m).mpr (letters m hm declares)

/-- A class is an identifier unless the initial of its name is a digit, so the selectors of a
converted design are all in order exactly if no layer that declares something has such a name. The
selector of any rule is for the elements whose class attribute is its class, of which there is one,
and what a reader of the sheet keeps are the rules whose class is an identifier. -/
theorem selectors_of_convert {n : Node} {o : Options} {r : Converted} (h : n.convert o = .ok r) :
    (∀ name, Css.isIdentifier (Naming.className name).toList
      = !(Naming.initial? name).any Char.isDigit) ∧
    ((∀ c ∈ (n.rules o).keys, Css.isIdentifier c.toList = true) ↔
      ∀ m ∈ n.visited, m.layer.ownStyle o ≠ [] →
        (Naming.initial? m.layer.name.textOrBlank).any Char.isDigit = false) ∧
    (∃ page, Markup.read r.html = some page ∧ ∀ c ∈ (n.rules o).keys,
      page.selected c = page.elements.filter (·.classAttribute = c) ∧ page.selected c ≠ []) ∧
    r.css = Harvest.css ⟨n.rules o, r.images⟩ ∧
    (n.Typed Value.IsNumber →
      (∀ rule ∈ n.rules o, ∀ name, fontDeclaration name ∈ rule.2 → Quotable name.toList) →
      (Css.read r.css).map Css.inForce
        = some (((n.rules o).filter fun rule => Css.isIdentifier rule.1.toList).map
            fun rule => (rule.1, rule.2.map declarationOf))) := by
  obtain ⟨-, css, -⟩ := fold_of_convert h
  refine ⟨Naming.isIdentifier_className, isIdentifier_keys_iff h, ?_, css, ?_⟩
  · obtain ⟨html, -⟩ := convert_of_ok h
    refine ⟨n.shown, ?_, fun c hc => ⟨selected_shown n c, selected_shown_ne_nil h hc⟩⟩
    rw [html]
    exact Markup.read_print (proper_shown n) 0
  · intro typed quotable
    obtain ⟨e, drawn, -⟩ := bind_eq_ok_iff.mp h
    have readable := (@Css.read_css_iff ⟨n.rules o, r.images⟩
      (printable_of_mem_rules typed drawn)).mpr quotable
    rw [css, readable, Option.map_some, Css.inForce_sheetOf]

end

end Node

/-! ## Columns -/

def Layer.titled (name : String) : Layer := { Layer.label "Inter" with name := .text name }

theorem Layer.typed_titled (Q : Value → Prop) (name : String) : (Layer.titled name).Typed Q :=
  { Layer.typed_label Q "Inter" with name := Or.inr ⟨name, rfl⟩ }

namespace Node

def numberedCard : Node :=
  node { Layer.titled "Card" with kind := .frame }
    [node (.titled "Column 2") [], node (.titled "2 Columns") []]

theorem typed_numberedCard (Q : Value → Prop) : numberedCard.Typed Q :=
  ⟨{ Layer.typed_titled Q "Card" with }, ⟨Layer.typed_titled Q _, trivial⟩,
    ⟨Layer.typed_titled Q _, trivial⟩, trivial⟩

set_option maxRecDepth 20000 in
/-- Of the two rules one is kept. -/
theorem selectors_numberedCard :
    ∃ r page, numberedCard.convert .standard = .ok r ∧ Markup.read r.html = some page ∧
      page.selected "column-2" ≠ [] ∧ page.selected "2-columns" ≠ [] ∧
      (Css.read r.css).map Css.inForce
        = some [("column-2", [declarationOf (fontDeclaration "Inter")])] := by
  obtain ⟨r, h⟩ : ∃ r, numberedCard.convert .standard = .ok r := exists_ok_of_isOk (by decide)
  have ruled : numberedCard.rules .standard
      = [("column-2", [fontDeclaration "Inter"]), ("2-columns", [fontDeclaration "Inter"])] := by
    decide
  obtain ⟨-, -, ⟨page, html, elements⟩, -, kept⟩ := selectors_of_convert h
  have inter : Faithful (fontDeclaration "Inter") := faithful_fontDeclaration.mpr (by decide)
  have alike : ∀ rule ∈ numberedCard.rules .standard, rule.2 = [fontDeclaration "Inter"] := by
    rw [ruled]
    exact List.forall_mem_cons.mpr ⟨rfl, List.forall_mem_singleton.mpr rfl⟩
  have inForce := kept (typed_numberedCard _) fun rule hrule name hname => by
    rw [alike rule hrule] at hname
    exact inter name (List.mem_singleton.mp hname).symm
  rw [ruled] at inForce elements
  have column := (elements "column-2" (by decide)).2
  have numbered := (elements "2-columns" (by decide)).2
  exact ⟨r, page, h, html, column, numbered, inForce.trans (by decide)⟩

set_option maxRecDepth 20000 in
/-- The rule of a label whose name begins with a digit is there, and a reader drops it. -/
theorem not_isIdentifier_numberedLabel :
    ∃ r, (node (.titled "2 Columns") []).convert .standard = .ok r ∧
      ((node (.titled "2 Columns") []).rules .standard).keys = ["2-columns"] ∧
      Css.isIdentifier "2-columns".toList = false ∧
      (Css.read r.css).map (List.map (·.1)) = some [chars ".2-columns".toList] ∧
      (Css.read r.css).map Css.inForce = some [] := by
  obtain ⟨r, h⟩ : ∃ r, (node (.titled "2 Columns") []).convert .standard = .ok r :=
    exists_ok_of_isOk (by decide)
  have read : ((node (.titled "2 Columns") []).convert .standard).toOption.bind (Css.read ·.css)
      = some [(chars ".2-columns".toList, [declarationOf (fontDeclaration "Inter")])] := by decide
  rw [h] at read
  have sheet : Css.read r.css
      = some [(chars ".2-columns".toList, [declarationOf (fontDeclaration "Inter")])] := read
  refine ⟨r, h, by decide, by decide, ?_, ?_⟩
  · rw [sheet]
    rfl
  · rw [sheet]
    decide

end Node

end DesignMarkup
