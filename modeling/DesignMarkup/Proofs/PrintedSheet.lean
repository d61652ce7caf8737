import DesignMarkup.Proofs.Harvested
import DesignMarkup.Proofs.InertText
import DesignMarkup.Proofs.PrintedPage
import DesignMarkup.Proofs.StylesheetReader

/-!
# The style sheet of a design

A printed sheet ought to read back as the rules of its table: the same selectors, the same
properties, and for a font family one string that is the name of the font. It does exactly
when every name of a font can stand between quotes as it is. A quote, a backslash or a line
end in a name breaks out of the string.
-/

namespace DesignMarkup

namespace Css

/-! ## What ought to be read -/

def fontTail : List Char := ", sans-serif".toList

theorem quotable_fontTail : Quotable fontTail := by decide

/-- The name in the value of a font family, which stands between quotes in front of the
generic family. -/
def fontIn (v : String) : List Char :=
  (v.toList.drop 1).take (v.toList.length - (fontTail.length + 2))

def valueOf (d : Property × String) : List Token :=
  if d.1 = .fontFamily then .string (fontIn d.2) :: chars fontTail else trim (chars d.2.toList)

def declarationOf (d : Property × String) : Declaration := (chars d.1.name.toList, valueOf d)

def ruleOf (r : String × Declarations) : Rule :=
  (chars ('.' :: r.1.toList), r.2.map declarationOf)

def sheetOf (rules : Ordered String Declarations) : List Rule := rules.map ruleOf

/-! ## Declarations -/

def fontDeclaration (name : String) : Property × String :=
  (.fontFamily, Layer.fontFamilyText (.text name))

/-- A declaration of a font family, or one of another property with an inert value. -/
def Admissible (d : Property × String) : Prop :=
  (d.1 ≠ .fontFamily ∧ Inert d.2) ∨ ∃ name, d = fontDeclaration name

/-- A declaration whose font, if it is one of a font, can stand between quotes as it is. -/
def Faithful (d : Property × String) : Prop :=
  ∀ name, d = fontDeclaration name → Quotable name.toList

theorem toList_fontFamilyText (name : String) :
    (Layer.fontFamilyText (.text name)).toList = '"' :: (name.toList ++ '"' :: fontTail) := by
  have opening : "\"".toList = ['"'] := by decide
  have closing : "\", sans-serif".toList = '"' :: fontTail := by decide
  rw [Layer.fontFamilyText, String.toList_append, String.toList_append, opening, closing,
    List.append_assoc]
  rfl

theorem valueOf_fontDeclaration (name : String) :
    valueOf (fontDeclaration name) = .string name.toList :: chars fontTail := by
  have length : (name.toList ++ '"' :: fontTail).length + 1 - (fontTail.length + 2)
      = name.toList.length := by
    rw [List.length_append, List.length_cons]
    omega
  rw [valueOf, fontDeclaration, if_pos rfl, fontIn, toList_fontFamilyText, List.length_cons,
    length]
  simp

theorem fontDeclaration_injective {name other : String}
    (h : fontDeclaration name = fontDeclaration other) : name = other := by
  have value := congrArg valueOf h
  rw [valueOf_fontDeclaration, valueOf_fontDeclaration] at value
  exact String.toList_injective (Token.string.inj (List.cons.inj value).1)

theorem faithful_fontDeclaration {name : String} :
    Faithful (fontDeclaration name) ↔ Quotable name.toList := by
  constructor
  · exact fun h => h name rfl
  · intro h other same
    rwa [← fontDeclaration_injective same]

theorem faithful_of_ne {d : Property × String} (h : d.1 ≠ .fontFamily) : Faithful d := by
  rintro name rfl
  exact absurd rfl h

def declarationText (d : Property × String) : List Char :=
  '\n' :: (Stylesheet.printDeclaration (d.1.name, d.2)).toList

theorem isLayout_blanks : ∀ t ∈ chars ['\n', ' ', ' '], isLayout t = true := by decide

theorem not_isLayout_word {s : String} (h : Naming.IsWord s) :
    ∀ t ∈ chars s.toList, isLayout t = false := by
  intro t ht
  obtain ⟨c, hc, rfl⟩ := List.mem_map.mp ht
  have word := h c hc
  rw [isLayout, Bool.or_eq_false_iff, beq_eq_false_iff_ne, beq_eq_false_iff_ne]
  constructor
  · intro blank
    obtain rfl := Token.char.inj blank
    revert word
    decide
  · intro lineEnd
    obtain rfl := Token.char.inj lineEnd
    revert word
    decide

section

variable (rules : List Rule) (selector : List Token) (declarations : List Declaration)

theorem readFrom_declarationText (d : Property × String) (rest : List Char) :
    readFrom (.inName rules selector declarations []) (declarationText d ++ rest)
      = readFrom (.inValue rules selector declarations (chars d.1.name.toList) [.char ' '])
          (d.2.toList ++ ';' :: rest) := by
  have text : declarationText d ++ rest
      = ['\n', ' ', ' '] ++ (d.1.name.toList ++ ':' :: ([' '] ++ (d.2.toList ++ ';' :: rest))) := by
    simp [declarationText, Stylesheet.printDeclaration]
  have name := @trim_between _ _ [] isLayout_blanks (not_isLayout_word (isWord_name d.1)) nofun
  rw [List.append_nil] at name
  rw [text, readFrom_inert (by decide), readFrom_inert (inert_of_isWord (isWord_name d.1)), Progress.add_add]
  rw [Progress.add, List.nil_append, readFrom_colon, name, readFrom_inert (by decide)]
  rfl

variable (name : List Token)

theorem readFrom_inertValue {v : String} (hv : Inert v) (rest : List Char) :
    readFrom (.inValue rules selector declarations name [.char ' ']) (v.toList ++ ';' :: rest)
      = readFrom (.inName rules selector (declarations ++ [(name, trim (chars v.toList))]) [])
          rest := by
  rw [readFrom_inert hv, Progress.add, readFrom_semicolon, trim_append (by decide)]

theorem readFrom_fontValue {font : String} (hfont : Quotable font.toList) (rest : List Char) :
    readFrom (.inValue rules selector declarations name [.char ' '])
        ((Layer.fontFamilyText (.text font)).toList ++ ';' :: rest)
      = readFrom (.inName rules selector
          (declarations ++ [(name, .string font.toList :: chars fontTail)]) []) rest := by
  have tail : InertChars fontTail := by decide
  rw [toList_fontFamilyText, List.cons_append, List.append_assoc, List.cons_append,
    readFrom_quotable hfont, readFrom_inert tail, Progress.add, Progress.add, readFrom_semicolon,
    List.append_assoc, trim_append (by decide)]
  rfl

/-- Behind a name that breaks out of its quotes no sheet is read in which that name stands. -/
theorem readFrom_fontValue_ne {font : String} (hfont : ¬ Quotable font.toList) (rest : List Char)
    {more : List Declaration} {sheet : List Rule}
    (expected : rules ++ [(selector,
      declarations ++ (name, .string font.toList :: chars fontTail) :: more)] <+: sheet) :
    readFrom (.inValue rules selector declarations name [.char ' '])
      ((Layer.fontFamilyText (.text font)).toList ++ ';' :: '\n' :: rest) ≠ some sheet := by
  intro read
  obtain ⟨other, ts, runs, differs⟩ := readFrom_not_quotable hfont quotable_fontTail
    (.inValue rules selector declarations name [.char ' ']) rest
  rw [toList_fontFamilyText, List.cons_append, List.append_assoc, List.cons_append, runs] at read
  obtain ⟨tail, more', found⟩ := leads_of_run read
  -- Both rules stand at the same place of the sheet.
  have same := (List.prefix_of_prefix_length_le expected found (by simp)).eq_of_length (by simp)
  obtain ⟨vs, value⟩ := @trim_string [.char ' '] (by decide) other tail
  rw [List.append_cancel_left_eq, List.cons.injEq, Prod.mk.injEq, List.append_cancel_left_eq,
    List.cons.injEq, Prod.mk.injEq] at same
  have strings := same.1.2.1.2.trans value
  exact differs (Token.string.inj (List.cons.inj strings).1).symm

end

/-- What stands behind declarations begins with a line end when it did before. -/
theorem flatMap_declarationText (ds : List (Property × String)) (rest : List Char) :
    ∃ more, ds.flatMap declarationText ++ '\n' :: rest = '\n' :: more := by
  cases ds with
  | nil => exact ⟨rest, rfl⟩
  | cons d ds => exact ⟨_, rfl⟩

theorem readFrom_declarations_iff {rules : List Rule} {selector : List Token} {sheet : List Rule}
    (rest : List Char) {ds : List (Property × String)} (admissible : ∀ d ∈ ds, Admissible d)
    {declarations : List Declaration}
    (expected : rules ++ [(selector, declarations ++ ds.map declarationOf)] <+: sheet) :
    readFrom (.inName rules selector declarations [])
        (ds.flatMap declarationText ++ '\n' :: rest) = some sheet ↔
      (∀ d ∈ ds, Faithful d) ∧
        readFrom (.inName rules selector (declarations ++ ds.map declarationOf) [])
          ('\n' :: rest) = some sheet := by
  -- The declarations read so far grow, and the rule at hand stays the one that is expected.
  induction ds generalizing declarations with
  | nil =>
      rw [List.map_nil, List.append_nil]
      exact ⟨fun h => ⟨nofun, h⟩, fun h => h.2⟩
  | cons d ds ih =>
      obtain ⟨hd, hds⟩ := List.forall_mem_cons.mp admissible
      have together : declarations ++ (d :: ds).map declarationOf
          = declarations ++ [declarationOf d] ++ ds.map declarationOf := by
        rw [List.map_cons, List.append_assoc]
        rfl
      have further := ih hds (together ▸ expected)
      rw [List.flatMap_cons, List.append_assoc, readFrom_declarationText, List.forall_mem_cons,
        together, and_assoc, ← further]
      rcases hd with ⟨other, inert⟩ | ⟨font, rfl⟩
      · have value : declarationOf d = (chars d.1.name.toList, trim (chars d.2.toList)) := by
          rw [declarationOf, valueOf, if_neg other]
        rw [readFrom_inertValue _ _ _ _ inert, ← value]
        exact ⟨fun h => ⟨faithful_of_ne other, h⟩, fun h => h.2⟩
      · have value : declarationOf (fontDeclaration font)
            = (chars Property.fontFamily.name.toList,
                .string font.toList :: chars fontTail) := by
          rw [declarationOf, valueOf_fontDeclaration]
          rfl
        rw [faithful_fontDeclaration, value]
        by_cases quotable : Quotable font.toList
        · have read := readFrom_fontValue rules selector declarations
            (chars Property.fontFamily.name.toList) quotable
            (ds.flatMap declarationText ++ '\n' :: rest)
          exact ⟨fun h => ⟨quotable, read.symm.trans h⟩, fun h => read.trans h.2⟩
        · -- A name that cannot be quoted spoils its own declaration, whatever follows.
          obtain ⟨more, hmore⟩ := flatMap_declarationText ds rest
          rw [List.map_cons, value] at expected
          have missed := readFrom_fontValue_ne rules selector declarations _ quotable more expected
          rw [hmore]
          exact ⟨fun h => absurd h missed, fun h => absurd h.1 quotable⟩

/-! ## Rules -/

/-- What is known of the rules of a design. -/
def Printable (r : String × Declarations) : Prop :=
  Naming.IsWord r.1 ∧ r.2 ≠ [] ∧ ∀ d ∈ r.2, Admissible d

def ruleText (r : String × Declarations) : List Char :=
  (Stylesheet.printRule (r.1, Stylesheet.named r.2)).toList

theorem toList_intercalate_declarations (d : Property × String) (ds : List (Property × String)) :
    '\n' :: ("\n".intercalate
        ((Stylesheet.named (d :: ds)).map Stylesheet.printDeclaration)).toList
      = (d :: ds).flatMap declarationText := by
  induction ds generalizing d with
  | nil =>
      rw [List.flatMap_cons, List.flatMap_nil, List.append_nil, declarationText]
      rfl
  | cons e ds ih =>
      have lineEnd : "\n".toList = ['\n'] := by decide
      have next := ih e
      rw [Stylesheet.named, List.map_cons, List.map_cons] at next ⊢
      rw [List.map_cons, List.map_cons, String.intercalate_cons_cons, String.toList_append,
        String.toList_append, lineEnd, List.append_assoc, List.cons_append, List.nil_append, next]
      rfl

theorem ruleText_eq {r : String × Declarations} (h : r.2 ≠ []) :
    ruleText r = ['.'] ++ (r.1.toList ++ ([' '] ++ '{' :: (r.2.flatMap declarationText
      ++ ['\n', '}']))) := by
  obtain ⟨className, style⟩ := r
  cases style with
  | nil => exact absurd rfl h
  | cons d ds =>
      have dot : ".".toList = ['.'] := by decide
      have opening : " \x7b\n".toList = [' ', '{', '\n'] := by decide
      have closing : "\n\x7d".toList = ['\n', '}'] := by decide
      rw [← toList_intercalate_declarations, ruleText, Stylesheet.printRule]
      simp only [String.toList_append, dot, opening, closing, List.append_assoc, List.cons_append,
        List.nil_append]

theorem readFrom_rule_iff {rules : List Rule} {piece : List Token} {sheet : List Rule}
    {r : String × Declarations} (hr : Printable r) (rest : List Char)
    (layout : ∀ t ∈ piece, isLayout t = true) (expected : rules ++ [ruleOf r] <+: sheet) :
    readFrom (.inSelector rules piece) (ruleText r ++ rest) = some sheet ↔
      (∀ d ∈ r.2, Faithful d) ∧
        readFrom (.inSelector (rules ++ [ruleOf r]) []) rest = some sheet := by
  obtain ⟨word, nonempty, admissible⟩ := hr
  have text : ruleText r ++ rest
      = ['.'] ++ (r.1.toList ++ ([' '] ++ '{' :: (r.2.flatMap declarationText
          ++ '\n' :: '}' :: rest))) := by
    rw [ruleText_eq nonempty]
    simp only [List.append_assoc, List.cons_append, List.nil_append]
  have selector : trim (piece ++ chars ['.'] ++ chars r.1.toList ++ chars [' '])
      = chars ('.' :: r.1.toList) := by
    have between := @trim_between piece (chars ('.' :: r.1.toList)) (chars [' ']) layout
      (List.forall_mem_cons.mpr ⟨rfl, not_isLayout_word word⟩) (by decide)
    rw [← between, List.append_assoc, List.append_assoc, ← List.append_assoc (chars ['.'])]
    rfl
  have closed : readFrom (.inName rules (chars ('.' :: r.1.toList)) (r.2.map declarationOf) [])
      ('\n' :: '}' :: rest) = readFrom (.inSelector (rules ++ [ruleOf r]) []) rest := by
    rw [readFrom_inert_cons (by decide)]
    exact readFrom_closeBrace _ _ _ (by decide) rest
  rw [text, readFrom_inert (by decide), readFrom_inert (inert_of_isWord word),
    readFrom_inert (by decide), Progress.add_add, Progress.add_add, Progress.add,
    ← List.append_assoc, readFrom_openBrace, ← List.append_assoc, selector,
    readFrom_declarations_iff _ admissible expected, List.nil_append, closed]

theorem readFrom_rules_iff {rules : Ordered String Declarations}
    (hrules : ∀ r ∈ rules, Printable r) {before : List Rule} {piece : List Token}
    (layout : ∀ t ∈ piece, isLayout t = true) :
    readFrom (.inSelector before piece) ("\n\n".intercalate
        (rules.map fun r => Stylesheet.printRule (r.1, Stylesheet.named r.2))).toList
        = some (before ++ sheetOf rules) ↔
      ∀ r ∈ rules, ∀ d ∈ r.2, Faithful d := by
  induction rules generalizing before piece with
  | nil =>
      have finished : readFrom (.inSelector before piece) [] = some before := by
        rw [readFrom, lex, run, finish, if_pos (trim_layout layout)]
      have empty : before ++ sheetOf [] = before := List.append_nil before
      rw [List.map_nil, String.intercalate_nil, empty]
      exact ⟨fun _ r hr => absurd hr List.not_mem_nil, fun _ => finished⟩
  | cons r rules ih =>
      obtain ⟨hr, hrest⟩ := List.forall_mem_cons.mp hrules
      have together : before ++ sheetOf (r :: rules) = before ++ [ruleOf r] ++ sheetOf rules := by
        rw [List.append_assoc]
        rfl
      have expected : before ++ [ruleOf r] <+: before ++ sheetOf (r :: rules) := by
        rw [together]
        exact List.prefix_append _ _
      rw [List.forall_mem_cons]
      -- The last rule ends the text, any other is followed by a blank line.
      cases rules with
      | nil =>
          have one := readFrom_rule_iff hr [] layout expected
          rw [List.append_nil] at one
          rw [List.map_singleton, String.intercalate_singleton]
          refine one.trans (and_congr_right fun _ => ?_)
          exact ⟨fun _ r hr => absurd hr List.not_mem_nil, fun _ => rfl⟩
      | cons next rules =>
          have gap : "\n\n".toList = ['\n', '\n'] := by decide
          rw [List.map_cons, List.map_cons, String.intercalate_cons_cons, String.toList_append,
            String.toList_append, gap, List.append_assoc]
          refine (readFrom_rule_iff hr _ layout expected).trans (and_congr_right fun _ => ?_)
          rw [readFrom_inert (by decide), together]
          exact @ih hrest _ (chars ['\n', '\n']) (by decide)

/-- No rule is empty, so none is left out in print. -/
theorem css_of_printable {h : Harvest} (hrules : ∀ r ∈ h.rules, Printable r) :
    h.css = "\n\n".intercalate
      (h.rules.map fun r => Stylesheet.printRule (r.1, Stylesheet.named r.2)) := by
  have kept : (h.rules.map fun r => (r.1, Stylesheet.named r.2)).filter (!·.2.isEmpty)
      = h.rules.map fun r => (r.1, Stylesheet.named r.2) := by
    rw [List.filter_eq_self]
    intro r hr
    obtain ⟨s, hs, rfl⟩ := List.mem_map.mp hr
    have nonempty := (hrules s hs).2.1
    cases style : s.2 with
    | nil => exact absurd style nonempty
    | cons d ds => rfl
  rw [Harvest.css, Stylesheet.print, kept, List.map_map]
  rfl

/-- A printed sheet reads back as its table exactly when every font in it has a name that can
stand between quotes as it is. -/
theorem read_css_iff {h : Harvest} (hrules : ∀ r ∈ h.rules, Printable r) :
    read h.css = some (sheetOf h.rules) ↔
      ∀ r ∈ h.rules, ∀ name, fontDeclaration name ∈ r.2 → Quotable name.toList := by
  have readable := @readFrom_rules_iff h.rules hrules [] [] nofun
  rw [css_of_printable hrules]
  refine readable.trans ⟨?_, ?_⟩
  · exact fun faithful r hr name hname => faithful r hr _ hname name rfl
  · rintro quotable r hr d hd name rfl
    exact quotable r hr name hd

end Css

/-! ## Designs -/

open Css

namespace Node

mutual

/-- Only typed nodes of a typed tree are visited. -/
theorem typed_of_mem_visited {Q : Value → Prop} : ∀ {n : Node}, n.Typed Q →
    ∀ m ∈ n.visited, m.layer.Typed Q
  | node l cs, ⟨hl, hcs⟩, m, hm => by
      rw [visited, List.mem_cons] at hm
      rcases hm with rfl | hm
      · exact hl
      · split at hm
        · exact typed_of_mem_visitedAll hcs m hm
        · cases hm

theorem typed_of_mem_visitedAll {Q : Value → Prop} : ∀ {ns : List Node}, TypedAll Q ns →
    ∀ m ∈ visitedAll ns, m.layer.Typed Q
  | [], _, m, hm => by cases hm
  | n :: rest, ⟨hn, hrest⟩, m, hm => by
      rw [visitedAll, List.mem_append] at hm
      rcases hm with hm | hm
      · exact typed_of_mem_visited hn m hm
      · exact typed_of_mem_visitedAll hrest m hm

end

end Node

section

variable [Arctangent]

/-- What stands in the style of a layer is something that the layer can declare. -/
theorem Layer.declared_of_mem_ownStyle {l : Layer} {o : Options} {d : Property × String}
    (h : d ∈ l.ownStyle o) : l.Declared d.1 d.2 := by
  rcases Ordered.mem_putAll h with h | h
  · cases h
  · obtain ⟨entry, hentry, hd⟩ := List.mem_filterMap.mp h
    have written := l.written_style o l.classOf entry hentry
    cases entry with
    | declare p v =>
        obtain rfl := Option.some.inj hd
        exact written
    | image use => cases hd

/-- A typed layer declares what is admissible. -/
theorem Layer.admissible_of_declared {l : Layer} (hl : l.Typed Value.IsNumber)
    {d : Property × String} (h : l.Declared d.1 d.2) : Admissible d := by
  obtain ⟨p, v⟩ := d
  by_cases font : p = .fontFamily
  · subst font
    obtain ⟨name, rfl⟩ := Layer.eq_fontFamilyText_of_declared hl h
    exact Or.inr ⟨name, rfl⟩
  · exact Or.inl ⟨font, Layer.inert_of_declared hl font h⟩

namespace Node

def rules (n : Node) (o : Options) : Ordered String Declarations :=
  (Harvest.empty.addAll (n.draw o).written).rules

/-- The rules behind a walk that succeeds are those of a fold over the visited nodes. -/
theorem rules_of_draw {n : Node} {o : Options} {e : Element} (h : (n.draw o).outcome = .ok e) :
    n.rules o = (n.visited.foldl (Harvest.visit o) .empty).rules := by
  rw [rules, draw_of_ok o n h, Harvest.addAll_ownEntries]

theorem printable_of_mem_rules {n : Node} (typed : n.Typed Value.IsNumber) {o : Options}
    {e : Element} (h : (n.draw o).outcome = .ok e) : ∀ r ∈ n.rules o, Printable r := by
  intro r hr
  rw [rules_of_draw h, Harvest.rules_foldl_visit] at hr
  rcases Ordered.mem_putAll hr with hr | hr
  · cases hr
  · obtain ⟨m, hm, declares, rfl⟩ := Harvest.mem_ownRules.mp hr
    have hl := typed_of_mem_visited typed m hm
    refine ⟨Naming.isWord_className _, declares, fun d hd => ?_⟩
    exact Layer.admissible_of_declared hl (Layer.declared_of_mem_ownStyle hd)

/-- The style sheet of a converted design whose numbers are numbers reads back as its rules
exactly when every font that they name has a name without quotes, backslashes and line ends. -/
theorem read_css_of_convert_iff {n : Node} (typed : n.Typed Value.IsNumber) {o : Options}
    {r : Converted} (h : n.convert o = .ok r) :
    Css.read r.css = some (sheetOf (n.rules o)) ↔
      ∀ rule ∈ n.rules o, ∀ name, fontDeclaration name ∈ rule.2 → Quotable name.toList := by
  obtain ⟨e, he, h⟩ := bind_eq_ok_iff.mp h
  obtain rfl := pure_eq_ok_iff.mp h
  exact read_css_iff (printable_of_mem_rules typed he)

end Node

end

def Layer.label (font : String) : Layer :=
  { (default : Layer) with
    name := .text "Label", kind := .text,
    textStyle := some { (default : TextStyle) with fontFamily := .text font } }

theorem Layer.typed_label (Q : Value → Prop) (font : String) : (Layer.label font).Typed Q where
  name := Or.inr ⟨"Label", rfl⟩
  box := nofun
  fills := nofun
  strokes := nofun
  effects := nofun
  cornerRadius := Or.inl rfl
  cornerRadii := nofun
  opacity := Or.inl rfl
  primaryAlign := Or.inl rfl
  counterAlign := Or.inl rfl
  paddings := by
    intro p hp
    simp only [Layer.paddings, List.mem_cons, List.not_mem_nil, or_false] at hp
    rcases hp with rfl | rfl | rfl | rfl <;> exact Or.inl rfl
  itemSpacing := Or.inl rfl
  layoutGrow := Or.inl rfl
  characters := Or.inl rfl
  textStyle := by
    rintro s same
    obtain rfl := Option.some.inj same
    have absent {P : Value → Prop} : Value.Maybe P .null := Or.inl rfl
    exact ⟨Or.inr ⟨font, rfl⟩, absent, absent, absent, absent, absent, absent, absent⟩

namespace Node

def label (font : String) : Node := node (.label font) []

theorem typed_label (Q : Value → Prop) (font : String) : (label font).Typed Q :=
  ⟨Layer.typed_label Q font, trivial⟩

/-- Braces and semicolons are safe between quotes. -/
def bracedFont : String := "A \x7d .b \x7b c: d;"

set_option maxRecDepth 20000 in
theorem read_css_bracedFont : ∃ r, (label bracedFont).convert .standard = .ok r ∧
    Css.read r.css = some [(chars ".label".toList,
      [(chars "font-family".toList, .string bracedFont.toList :: chars fontTail)])] := by
  obtain ⟨r, h⟩ : ∃ r, (label bracedFont).convert .standard = .ok r :=
    exists_ok_of_isOk (by decide)
  have ruled : (label bracedFont).rules .standard = [("label", [fontDeclaration bracedFont])] := by
    decide
  have faithful : Faithful (fontDeclaration bracedFont) :=
    faithful_fontDeclaration.mpr (by decide)
  have read := read_css_of_convert_iff (typed_label _ bracedFont) h
  rw [ruled] at read
  refine ⟨r, h, (read.mpr ?_).trans ?_⟩
  · intro rule hrule name hname
    obtain rfl := List.mem_singleton.mp hrule
    exact faithful name (List.mem_singleton.mp hname).symm
  · decide

/-- A quote in the name of a font ends the string, and what stands behind it is read as
declarations. -/
def quotedFont : String := "A\"; color: red; b: \""

set_option maxRecDepth 20000 in
/-- The rule of a text with that font comes back with three properties instead of one. -/
theorem read_css_quotedFont : (label quotedFont).Typed Value.IsNumber ∧
    ∃ r, (label quotedFont).convert .standard = .ok r ∧
      Css.read r.css = some [(chars ".label".toList,
        [(chars "font-family".toList, [.string ['A']]), (chars "color".toList, chars "red".toList),
          (chars ['b'], .string [] :: chars fontTail)])] ∧
      Css.read r.css ≠ some (sheetOf ((label quotedFont).rules .standard)) := by
  obtain ⟨r, h⟩ : ∃ r, (label quotedFont).convert .standard = .ok r :=
    exists_ok_of_isOk (by decide)
  have read : ((label quotedFont).convert .standard).toOption.bind (Css.read ·.css)
      = some [(chars ".label".toList,
        [(chars "font-family".toList, [.string ['A']]), (chars "color".toList, chars "red".toList),
          (chars ['b'], .string [] :: chars fontTail)])] := by decide
  rw [h] at read
  refine ⟨typed_label _ _, r, h, read, ?_⟩
  intro same
  have impossible := read.symm.trans same
  revert impossible
  decide

end Node

end DesignMarkup
