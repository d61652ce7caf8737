import DesignMarkup.Page
import DesignMarkup.Proofs.PrintedSheet

/-!
# Style elements

A style sheet is put into a page as it is, between a tag that opens a style element and one that
closes it. A reader of pages ends the element where the text first looks like the closing tag,
whether or not it stands there for the style sheet too. Nothing that a typed design declares opens
a tag, apart from the names of fonts, so these decide whether the element ends where it should.
-/

namespace DesignMarkup

namespace Page

/-! ## Readers -/

/-- The part behind the first place where a mark stands. -/
def behindFirst (mark : List Char) : List Char → Option (List Char)
  | [] => none
  | c :: rest =>
    if mark.isPrefixOf (c :: rest) then some ((c :: rest).drop mark.length)
    else behindFirst mark rest

def closing : List Char := "</style".toList

def closesStyle (s : List Char) : Bool := closing.isPrefixOf (s.map Char.toLower)

/-- The text up to the first place where a style element is closed, and the text from there. -/
def cutStyle : List Char → List Char × List Char
  | [] => ([], [])
  | c :: rest =>
    if closesStyle (c :: rest) then ([], c :: rest)
    else (c :: (cutStyle rest).1, (cutStyle rest).2)

/-- What is in the first style element of a page, and what follows it. -/
def styleElement (page : List Char) : Option (List Char × List Char) :=
  (behindFirst "<style>".toList page).map cutStyle

/-- Somewhere in the text a style element is closed. -/
def breaksStyle : List Char → Bool
  | [] => false
  | c :: rest => closesStyle (c :: rest) || breaksStyle rest

/-! ## Where no tag is closed -/

theorem isPrefixOf_append_of_not_mem {mark : List Char} {d : Char} (h : d ∉ mark)
    (s rest : List Char) : mark.isPrefixOf (s ++ d :: rest) = mark.isPrefixOf s := by
  induction mark generalizing s with
  | nil => rfl
  | cons m mark ih =>
      rw [List.mem_cons, not_or] at h
      cases s with
      | nil => simp [List.isPrefixOf, Ne.symm h.1]
      | cons c s => simp [List.isPrefixOf, ih h.2]

theorem ne_toLower {c : Char} (h : c ≠ '<') : c.toLower ≠ '<' := by
  intro same
  unfold Char.toLower at same
  split at same
  · rename_i upper
    have low : 65 ≤ c.val.toNat := UInt32.le_iff_toNat_le.mp upper.1
    have high : c.val.toNat ≤ 90 := UInt32.le_iff_toNat_le.mp upper.2
    have value : (c.val.toNat + 32) % 2 ^ 32 = 60 := congrArg (fun d : Char => d.val.toNat) same
    omega
  · exact h same

theorem closesStyle_of_ne {c : Char} (h : c ≠ '<') (rest : List Char) :
    closesStyle (c :: rest) = false := by
  have bracket : closing = '<' :: "/style".toList := by decide
  have other : ('<' == c.toLower) = false := by simpa using Ne.symm (ne_toLower h)
  rw [closesStyle, List.map_cons, bracket, List.isPrefixOf_cons_cons, other, Bool.false_and]

section

variable {d : Char} (apart : d.toLower ∉ closing)

include apart

theorem closesStyle_append (s rest : List Char) :
    closesStyle (s ++ d :: rest) = closesStyle s := by
  rw [closesStyle, List.map_append, List.map_cons, isPrefixOf_append_of_not_mem apart,
    ← closesStyle]

/-- What closes a tag stands on one side of a character that no closing tag has. -/
theorem breaksStyle_append (s rest : List Char) :
    breaksStyle (s ++ d :: rest) = (breaksStyle s || breaksStyle rest) := by
  induction s with
  | nil =>
      have begins := closesStyle_append apart [] rest
      show (closesStyle (d :: rest) || breaksStyle rest) = (false || breaksStyle rest)
      rw [List.nil_append] at begins
      rw [begins]
      rfl
  | cons c s ih =>
      have begins := closesStyle_append apart (c :: s) rest
      rw [List.cons_append] at begins ⊢
      rw [breaksStyle, begins, ih, breaksStyle, Bool.or_assoc]

/-- Behind such a character a style element is cut at its own closing tag, if there is none in
front of it. -/
theorem cutStyle_iff {following : List Char} (closes : closesStyle following = true)
    (s : List Char) :
    cutStyle (s ++ d :: following) = (s ++ [d], following) ↔ breaksStyle s = false := by
  have ends : cutStyle following = ([], following) := by
    cases following with
    | nil => rfl
    | cons c rest => rw [cutStyle, if_pos closes]
  induction s with
  | nil =>
      have begins := closesStyle_append apart [] following
      rw [List.nil_append] at begins ⊢
      rw [cutStyle, begins, ends]
      exact iff_of_true rfl rfl
  | cons c s ih =>
      have begins := closesStyle_append apart (c :: s) following
      rw [List.cons_append] at begins ⊢
      rw [cutStyle, begins, breaksStyle]
      cases closesStyle (c :: s) with
      | true => simp
      | false =>
          refine Iff.trans ?_ ih
          simp [Prod.ext_iff]

end

theorem breaksStyle_calm {s : List Char} (h : '<' ∉ s) (rest : List Char) :
    breaksStyle (s ++ rest) = breaksStyle rest := by
  induction s with
  | nil => rfl
  | cons c s ih =>
      rw [List.mem_cons, not_or] at h
      rw [List.cons_append, breaksStyle, closesStyle_of_ne (Ne.symm h.1), Bool.false_or, ih h.2]

theorem breaksStyle_of_calm {s : List Char} (h : '<' ∉ s) : breaksStyle s = false := by
  have whole := breaksStyle_calm h []
  rwa [List.append_nil] at whole

/-! ## Printed sheets -/

open Css

theorem calm_of_inert {s : List Char} (h : InertChars s) : '<' ∉ s := by
  intro bracket
  obtain ⟨-, -, -, -, -, -, other⟩ := not_special_of_isInert (h '<' bracket)
  exact other rfl

/-- An admissible declaration closes a style element exactly if it is one of a font whose name
does. -/
theorem breaksStyle_of_admissible {d : Property × String} (h : Admissible d) :
    breaksStyle d.2.toList = false ↔
      ∀ font, d = fontDeclaration font → breaksStyle font.toList = false := by
  rcases h with ⟨other, inert⟩ | ⟨font, rfl⟩
  · refine iff_of_true (breaksStyle_of_calm (calm_of_inert inert)) ?_
    rintro font rfl
    exact absurd rfl other
  · have quote : '<' ∉ ['"'] := by decide
    have value : breaksStyle (fontDeclaration font).2.toList = breaksStyle font.toList := by
      have tail : breaksStyle fontTail = false := by decide
      rw [fontDeclaration, toList_fontFamilyText]
      show breaksStyle (['"'] ++ (font.toList ++ '"' :: fontTail)) = _
      rw [breaksStyle_calm quote, breaksStyle_append (by decide), tail, Bool.or_false]
    rw [value]
    constructor
    · intro harmless other same
      rwa [← fontDeclaration_injective same]
    · exact fun harmless => harmless font rfl

theorem breaksStyle_declarationText (d : Property × String) (rest : List Char) :
    breaksStyle (declarationText d ++ rest) = (breaksStyle d.2.toList || breaksStyle rest) := by
  have text : declarationText d ++ rest
      = ['\n', ' ', ' '] ++ (d.1.name.toList ++ ([':', ' '] ++ (d.2.toList ++ ';' :: rest))) := by
    simp [declarationText, Stylesheet.printDeclaration]
  have name := calm_of_inert (inert_of_isWord (isWord_name d.1))
  rw [text, breaksStyle_calm (by decide), breaksStyle_calm name, breaksStyle_calm (by decide),
    breaksStyle_append (by decide)]

theorem breaksStyle_declarations (ds : Declarations) (rest : List Char) :
    breaksStyle (ds.flatMap declarationText ++ rest)
      = (ds.any (breaksStyle ·.2.toList) || breaksStyle rest) := by
  induction ds with
  | nil => rfl
  | cons d ds ih =>
      rw [List.flatMap_cons, List.append_assoc, breaksStyle_declarationText, ih, List.any_cons,
        Bool.or_assoc]

theorem breaksStyle_ruleText {r : String × Declarations} (h : Printable r) (rest : List Char) :
    breaksStyle (ruleText r ++ rest) = (r.2.any (breaksStyle ·.2.toList) || breaksStyle rest) := by
  obtain ⟨word, nonempty, -⟩ := h
  have text : ruleText r ++ rest
      = ['.'] ++ (r.1.toList ++ ([' ', '{'] ++ (r.2.flatMap declarationText
        ++ (['\n', '}'] ++ rest)))) := by
    rw [ruleText_eq nonempty]
    simp
  rw [text, breaksStyle_calm (by decide), breaksStyle_calm (calm_of_inert (inert_of_isWord word)),
    breaksStyle_calm (by decide), breaksStyle_declarations, breaksStyle_calm (by decide)]

theorem breaksStyle_rules {rules : Ordered String Declarations} (h : ∀ r ∈ rules, Printable r) :
    breaksStyle ("\n\n".intercalate
        (rules.map fun r => Stylesheet.printRule (r.1, Stylesheet.named r.2))).toList
      = rules.any fun r => r.2.any (breaksStyle ·.2.toList) := by
  induction rules with
  | nil => rw [List.map_nil, String.intercalate_nil]; rfl
  | cons r rules ih =>
      obtain ⟨first, others⟩ := List.forall_mem_cons.mp h
      have last := breaksStyle_ruleText first []
      rw [List.append_nil, breaksStyle, Bool.or_false] at last
      cases rules with
      | nil =>
          rw [List.map_singleton, String.intercalate_singleton, List.any_cons, List.any_nil,
            Bool.or_false]
          exact last
      | cons next rules =>
          have gap : "\n\n".toList = ['\n', '\n'] := by decide
          have rest := ih others
          rw [List.map_cons] at rest
          rw [List.map_cons, List.map_cons, String.intercalate_cons_cons, String.toList_append,
            String.toList_append, gap, List.append_assoc, List.any_cons]
          refine (breaksStyle_ruleText first _).trans ?_
          rw [breaksStyle_calm (by decide), rest]

/-- A printed sheet closes a style element exactly if the name of a font does. -/
theorem breaksStyle_css_iff {h : Harvest} (hrules : ∀ r ∈ h.rules, Printable r) :
    breaksStyle h.css.toList = false ↔
      ∀ r ∈ h.rules, ∀ font, fontDeclaration font ∈ r.2 → breaksStyle font.toList = false := by
  rw [css_of_printable hrules, breaksStyle_rules hrules]
  simp only [List.any_eq_false, Bool.not_eq_true]
  constructor
  · intro harmless r hr font hfont
    have admissible := (hrules r hr).2.2 _ hfont
    exact (breaksStyle_of_admissible admissible).mp (harmless r hr _ hfont) font rfl
  · intro harmless r hr d hd
    refine (breaksStyle_of_admissible ((hrules r hr).2.2 d hd)).mpr ?_
    rintro font rfl
    exact harmless r hr font hd

/-! ## Marks -/

/-- A mark neither stands in the text nor begins in it. -/
def isFree (mark : List Char) : List Char → Bool
  | [] => true
  | c :: rest =>
    !mark.isPrefixOf (c :: rest) && !(c :: rest).isPrefixOf mark && isFree mark rest

theorem isFree_of_cons {mark s : List Char} {c : Char} (h : isFree mark (c :: s) = true) :
    isFree mark s = true := by
  rw [isFree, Bool.and_eq_true] at h
  exact h.2

theorem not_prefix_of_isFree {mark s : List Char} {c : Char} (h : isFree mark (c :: s) = true)
    (rest : List Char) : ¬ mark <+: c :: s ++ rest := by
  simp only [isFree, Bool.and_eq_true, Bool.not_eq_true'] at h
  obtain ⟨⟨outside, apart⟩, -⟩ := h
  intro begins
  rcases List.prefix_or_prefix_of_prefix begins (List.prefix_append _ _) with inside | beyond
  · rw [List.isPrefixOf_iff_prefix.mpr inside] at outside
    cases outside
  · rw [List.isPrefixOf_iff_prefix.mpr beyond] at apart
    cases apart

theorem behindFirst_of_isFree {mark s : List Char} (h : isFree mark s = true) (rest : List Char) :
    behindFirst mark (s ++ rest) = behindFirst mark rest := by
  induction s with
  | nil => rfl
  | cons c s ih =>
      have absent : ¬ mark.isPrefixOf (c :: (s ++ rest)) = true :=
        fun begins => not_prefix_of_isFree h rest (List.isPrefixOf_iff_prefix.mp begins)
      rw [List.cons_append, behindFirst, if_neg absent, ih (isFree_of_cons h)]

theorem isFree_calm {mark s : List Char} (h : '<' ∉ s) : isFree ('<' :: mark) s = true := by
  induction s with
  | nil => rfl
  | cons c s ih =>
      rw [List.mem_cons, not_or] at h
      simp [isFree, List.isPrefixOf, h.1, Ne.symm h.1, ih h.2]

theorem head?_spaceDashes (s : List Char) : (spaceDashes s).head? = s.head? := by
  fun_cases spaceDashes s <;> rfl

/-- A name with its dashes apart does not end a comment. -/
theorem isFree_spaceDashes (s : List Char) :
    isFree "-->".toList (spaceDashes s ++ [' ']) = true := by
  fun_induction spaceDashes s with
  | case1 rest ih => simpa [isFree, List.isPrefixOf] using ih
  | case2 c rest apart ih =>
      have next : (spaceDashes rest ++ [' ']).head? = some '-' → c ≠ '-' := by
        rintro dash rfl
        rw [List.head?_append, head?_spaceDashes] at dash
        cases rest with
        | nil => cases dash
        | cons d rest =>
            obtain rfl := Option.some.inj dash
            exact apart rest rfl rfl
      rw [List.cons_append, isFree, ih, Bool.and_true]
      cases tail : spaceDashes rest ++ [' '] with
      | nil => simp at tail
      | cons d more =>
          rw [tail] at next
          by_cases dash : c = '-'
          · have other : d ≠ '-' := fun same => next (by rw [same]; rfl) dash
            simp [List.isPrefixOf, other, Ne.symm other]
          · simp [List.isPrefixOf, dash, Ne.symm dash]
  | case3 => decide

/-! ## Pages -/

/-- A printed element ends with a bracket and the end of a line. -/
theorem exists_print (depth : Int) (e : Element) :
    ∃ front, (e.print depth).toList = front ++ ['>', '\n'] := by
  have ends : ∀ front tag : String, ∃ s, (front ++ Element.closeTag tag ++ "\n").toList
      = s ++ ['>', '\n'] := by
    intro front tag
    refine ⟨front.toList ++ ("</".toList ++ tag.toList), ?_⟩
    simp [Element.closeTag]
  cases e with
  | text tag className content => exact ends _ tag
  | box tag className label children =>
      cases children with
      | nil => exact ends _ tag
      | cons child rest => exact ends _ tag

/-- A text between brackets loses the end of its line and nothing else. -/
theorem trimBlank_bracketed (s : List Char) :
    Text.trimBlank ('<' :: (s ++ ['>', '\n'])) = '<' :: (s ++ ['>']) := by
  have opening : ¬ Text.isBlank '<' = true := by decide
  have closing : ¬ Text.isBlank '>' = true := by decide
  have lineEnd : Text.isBlank '\n' = true := by decide
  have back : ('<' :: (s ++ ['>', '\n'])).reverse = '\n' :: '>' :: ('<' :: s).reverse := by simp
  rw [Text.trimBlank, List.dropWhile_cons_of_neg opening, Text.trimBlankEnd, back,
    List.dropWhile_cons_of_pos lineEnd, List.dropWhile_cons_of_neg closing]
  simp

section

variable (html css : String)

def documentTail : List Char :=
  "</style>\n</head>\n<body>\n".toList ++ (html.toList ++ "</body>\n</html>".toList)

/-- A document from its style element on. -/
theorem behindFirst_document (title : String) :
    behindFirst "<style>".toList (document html (some css) title).toList
      = some ('\n' :: (css.toList ++ '\n' :: ([' ', ' ', ' '] ++ ' ' :: documentTail html))) := by
  have titled : isFree "<style>".toList (Text.escape title).toList = true :=
    isFree_calm fun bracket => (Markup.unbracketed_escape title '<' bracket).1 rfl
  have opened : ∀ rest, behindFirst "<style>".toList ("    <style>\n".toList ++ rest)
      = some ('\n' :: rest) := fun _ => rfl
  have sheet : css.toList ++ ("\n    </style>".toList ++ ("\n</head>\n<body>\n".toList
        ++ (html.toList ++ "</body>\n</html>".toList)))
      = css.toList ++ '\n' :: ([' ', ' ', ' '] ++ ' ' :: documentTail html) := by
    unfold documentTail
    simp
  unfold document styleBlock
  simp only [String.toList_append, List.append_assoc]
  rw [behindFirst_of_isFree (by decide), behindFirst_of_isFree (by decide),
    behindFirst_of_isFree (by decide), behindFirst_of_isFree titled,
    behindFirst_of_isFree (by decide), opened, sheet]

/-- The style element of a document is cut where it should be exactly if nothing in the sheet closes
it. -/
theorem styleElement_document_iff (title : String) :
    styleElement (document html (some css) title).toList
      = some (("\n" ++ css ++ "\n    ").toList, documentTail html) ↔
      breaksStyle css.toList = false := by
  have closes : closesStyle (documentTail html) = true := rfl
  have blanks : breaksStyle [' ', ' ', ' '] = false := by decide
  have before : breaksStyle ('\n' :: (css.toList ++ '\n' :: [' ', ' ', ' ']))
      = breaksStyle css.toList := by
    show breaksStyle (['\n'] ++ (css.toList ++ '\n' :: [' ', ' ', ' '])) = _
    rw [breaksStyle_calm (by decide), breaksStyle_append (by decide), blanks, Bool.or_false]
  have cut := cutStyle_iff (d := ' ') (by decide) closes
    ('\n' :: (css.toList ++ '\n' :: [' ', ' ', ' ']))
  have text : '\n' :: (css.toList ++ '\n' :: ([' ', ' ', ' '] ++ ' ' :: documentTail html))
      = ('\n' :: (css.toList ++ '\n' :: [' ', ' ', ' '])) ++ ' ' :: documentTail html := by
    simp
  have content : ("\n" ++ css ++ "\n    ").toList
      = ('\n' :: (css.toList ++ '\n' :: [' ', ' ', ' '])) ++ [' '] := by
    simp
  rw [styleElement, behindFirst_document, Option.map_some, Option.some_inj, text, content, cut,
    before]

/-- What follows the sheet in a snippet: the end of the last line is left out. -/
def snippetTail : List Char := "</style>\n".toList ++ html.toList.dropLast

/-- A snippet behind its comment, which no name ends early. -/
theorem behindFirst_snippet {front : List Char} (ends : html.toList = front ++ ['>', '\n'])
    (source : String) :
    behindFirst "-->".toList (snippet html css source).toList
      = some ("\n<style>\n".toList ++ (css.toList ++ '\n' :: snippetTail html)) := by
  have found : ∀ rest, behindFirst "-->".toList ("-->\n<style>\n".toList ++ rest)
      = some ("\n<style>\n".toList ++ rest) := fun _ => rfl
  have text : (snippet html css source).toList = "<!-- Imported from Figma: ".toList
      ++ (spaceDashes source.toList ++ [' '] ++ ("-->\n<style>\n".toList
        ++ (css.toList ++ '\n' :: snippetTail html))) := by
    have whole : ("<!-- Imported from Figma: " ++ String.ofList (spaceDashes source.toList)
          ++ " -->\n<style>\n" ++ css ++ "\n</style>\n" ++ html).toList
        = '<' :: ("!-- Imported from Figma: ".toList ++ (spaceDashes source.toList
          ++ (" -->\n<style>\n".toList ++ (css.toList ++ ("\n</style>\n".toList ++ front))))
          ++ ['>', '\n']) := by
      simp [ends]
    have last : (front ++ ['>', '\n']).dropLast = front ++ ['>'] := by simp
    unfold snippet snippetTail
    rw [String.toList_ofList, whole, trimBlank_bracketed, ends, last]
    simp
  rw [text, behindFirst_of_isFree (by decide), behindFirst_of_isFree (isFree_spaceDashes _), found]

/-- And so is that of a snippet. -/
theorem styleElement_snippet_iff {front : List Char} (ends : html.toList = front ++ ['>', '\n'])
    (source : String) :
    (behindFirst "-->".toList (snippet html css source).toList).bind styleElement
      = some (("\n" ++ css ++ "\n").toList, snippetTail html) ↔
      breaksStyle css.toList = false := by
  have closes : closesStyle (snippetTail html) = true := rfl
  have opened : ∀ rest, behindFirst "<style>".toList ("\n<style>\n".toList ++ rest)
      = some ('\n' :: rest) := fun _ => rfl
  have before : breaksStyle ('\n' :: css.toList) = breaksStyle css.toList := by
    show breaksStyle (['\n'] ++ css.toList) = _
    rw [breaksStyle_calm (by decide)]
  have cut := cutStyle_iff (d := '\n') (by decide) closes ('\n' :: css.toList)
  have content : ("\n" ++ css ++ "\n").toList = '\n' :: css.toList ++ ['\n'] := by simp
  rw [behindFirst_snippet html css ends, Option.bind_some, styleElement, opened, Option.map_some,
    Option.some_inj, content, ← List.cons_append, cut, before]

end

end Page

namespace Node

open Css Page

/-- No font that the rules of a node declare has a name that closes a style element. -/
def FontsHarmless (n : Node) (o : Options) : Prop :=
  ∀ rule ∈ n.rules o, ∀ font, fontDeclaration font ∈ rule.2 → breaksStyle font.toList = false

theorem breaksStyle_of_convert_iff {n : Node} (typed : n.Typed Value.IsNumber) {o : Options}
    {r : Converted} (h : n.convert o = .ok r) :
    breaksStyle r.css.toList = false ↔ n.FontsHarmless o := by
  obtain ⟨e, drawn, h⟩ := bind_eq_ok_iff.mp h
  obtain rfl := pure_eq_ok_iff.mp h
  exact breaksStyle_css_iff (printable_of_mem_rules typed drawn)

/-- In the snippet and in the document of a converted design the style element holds the whole
style sheet and the rest of the page follows it, whatever the names and the title, exactly if no
font has a name that closes it. -/
theorem styleElement_of_convert_iff {n : Node} (typed : n.Typed Value.IsNumber) {o : Options}
    {r : Converted} (h : n.convert o = .ok r) (source title : String) :
    ((behindFirst "-->".toList (Page.snippet r.html r.css source).toList).bind styleElement
        = some (("\n" ++ r.css ++ "\n").toList, snippetTail r.html) ↔ n.FontsHarmless o) ∧
      (styleElement (Page.document r.html (some r.css) title).toList
        = some (("\n" ++ r.css ++ "\n    ").toList, documentTail r.html) ↔ n.FontsHarmless o) := by
  have harmless := breaksStyle_of_convert_iff typed h
  obtain ⟨html, -⟩ := convert_of_ok h
  obtain ⟨front, ends⟩ := exists_print 0 n.shown
  rw [← html] at ends
  exact ⟨(styleElement_snippet_iff r.html r.css ends source).trans harmless,
    (styleElement_document_iff r.html r.css title).trans harmless⟩

/-- A label is as harmless as its font. -/
theorem fontsHarmless_label_iff {font : String}
    (ruled : (label font).rules .standard = [("label", [fontDeclaration font])]) :
    (label font).FontsHarmless .standard ↔ breaksStyle font.toList = false := by
  rw [FontsHarmless, ruled]
  constructor
  · intro harmless
    exact harmless _ (List.mem_singleton_self _) font (List.mem_singleton_self _)
  · intro harmless rule hrule other hother
    obtain rfl := List.mem_singleton.mp hrule
    obtain rfl := fontDeclaration_injective (List.mem_singleton.mp hother)
    exact harmless

def bracketFont : String := "A <b> </b>"

set_option maxRecDepth 20000 in
theorem styleElement_bracketFont : (label bracketFont).Typed Value.IsNumber ∧
    ∃ r, (label bracketFont).convert .standard = .ok r ∧
      styleElement (Page.document r.html (some r.css) "<style>").toList
        = some (("\n" ++ r.css ++ "\n    ").toList, documentTail r.html) := by
  obtain ⟨r, h⟩ : ∃ r, (label bracketFont).convert .standard = .ok r :=
    exists_ok_of_isOk (by decide)
  have typed := typed_label Value.IsNumber bracketFont
  have harmless : (label bracketFont).FontsHarmless .standard :=
    (fontsHarmless_label_iff (by decide)).mpr (by decide)
  exact ⟨typed, r, h, (styleElement_of_convert_iff typed h "" "<style>").2.mpr harmless⟩

/-- A font whose name closes the style element and opens a script. -/
def scriptFont : String := "</Style><script>alert(1)</script>"

set_option maxRecDepth 20000 in
theorem styleElement_scriptFont : (label scriptFont).Typed Value.IsNumber ∧
    ∃ r, (label scriptFont).convert .standard = .ok r ∧
      (∀ source, (behindFirst "-->".toList (Page.snippet r.html r.css source).toList).bind
        styleElement ≠ some (("\n" ++ r.css ++ "\n").toList, snippetTail r.html)) ∧
      ∀ title, styleElement (Page.document r.html (some r.css) title).toList
        ≠ some (("\n" ++ r.css ++ "\n    ").toList, documentTail r.html) := by
  obtain ⟨r, h⟩ : ∃ r, (label scriptFont).convert .standard = .ok r :=
    exists_ok_of_isOk (by decide)
  have typed := typed_label Value.IsNumber scriptFont
  have broken : ¬ breaksStyle r.css.toList = false := by
    rw [breaksStyle_of_convert_iff typed h, fontsHarmless_label_iff (by decide)]
    decide
  obtain ⟨html, -⟩ := convert_of_ok h
  obtain ⟨front, ends⟩ := exists_print 0 (label scriptFont).shown
  rw [← html] at ends
  refine ⟨typed, r, h, fun source => ?_, fun title => ?_⟩
  · exact mt (styleElement_snippet_iff r.html r.css ends source).mp broken
  · exact mt (styleElement_document_iff r.html r.css title).mp broken

end Node

end DesignMarkup
