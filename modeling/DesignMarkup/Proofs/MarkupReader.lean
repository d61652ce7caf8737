import DesignMarkup.Markup
import DesignMarkup.Proofs.Entities
import DesignMarkup.Proofs.FormCoding
import DesignMarkup.Proofs.ClassNames

/-!
# Markup, read back

A strict reader of markup, which knows nothing but the text. It cuts the text at its angle
brackets, matches each closing tag with the element that is open, reads entities in texts
and attributes, and lets nothing but layout stand between elements. `read_print` says that
it finds in a printed element that element, so that printing loses nothing and no text can
pass for markup.
-/

namespace DesignMarkup.Markup

open Naming (IsWord isTextTag isWordChar)

/-! ## Tags -/

inductive Tag
  | opening (name className : String) (label : Option String)
  | closing (name : String)

/-- The text that stands in an attribute or in an element. -/
def content (s : List Char) : Option String := (Text.unescape s).map String.ofList

/-- An opening tag out of what stands in front of its class and the class. -/
def openingTag (front classText : List Char) (label : Option String) : Option Tag :=
  let name := front.takeWhile (· != ' ')
  if front = name ++ " class=".toList then
    (content classText).map fun className => .opening (String.ofList name) className label
  else none

/-- Reads what stands between angle brackets, cut at its quotes: a slash and a name, or a
name with a class, or a name with a class and a label. -/
def readTag (text : List Char) : Option Tag :=
  match Text.splitAll '"' text with
  | ['/' :: name] => some (.closing (String.ofList name))
  | [front, classText, []] => openingTag front classText none
  | [front, classText, between, labelText, []] =>
    if between = " aria-label=".toList then
      (content labelText).bind fun label => openingTag front classText (some label)
    else none
  | _ => none

/-! ## Elements -/

/-- An element that is open: its tag, and the elements in front of it. -/
structure OpenElement where
  name : String
  className : String
  label : Option String
  before : List Element

/-- How far a reader is: the elements read on the present level, and the open elements
around them, the innermost first. -/
structure Progress where
  elements : List Element
  around : List OpenElement

def isLayout (s : List Char) : Bool := s.all fun c => c == ' ' || c == '\n'

namespace Progress

def start : Progress := ⟨[], []⟩

def push (p : Progress) (e : Element) : Progress := ⟨p.elements ++ [e], p.around⟩

/-- The innermost open element is one for text. -/
def inText (p : Progress) : Bool :=
  match p.around with
  | [] => false
  | o :: _ => isTextTag o.name

/-- Takes in a tag and the text in front of it. -/
def take (p : Progress) (lead : List Char) : Tag → Option Progress
  | .opening name className label =>
    if p.inText || !isLayout lead then none
    else some ⟨[], ⟨name, className, label, p.elements⟩ :: p.around⟩
  | .closing name =>
    match p.around with
    | [] => none
    | o :: outer =>
      if o.name != name then none
      else if isTextTag name then
        if o.label.isSome then none
        else (content lead).map fun text => ⟨o.before ++ [.text name o.className text], outer⟩
      else if isLayout lead then
        some ⟨o.before ++ [.box name o.className o.label p.elements], outer⟩
      else none

/-- The one element that was read, when nothing is open. -/
def only? : Progress → Option Element
  | ⟨[e], []⟩ => some e
  | _ => none

end Progress

/-! ## Texts -/

/-- Which part of the text is being read: some text between tags, or a tag and the text in
front of it. -/
inductive Scan
  | outside (text : List Char)
  | inside (lead tag : List Char)

def readFrom : Scan → Progress → List Char → Option Element
  | .outside text, p, [] => if isLayout text then p.only? else none
  | .inside _ _, _, [] => none
  | .outside text, p, c :: rest =>
    if c = '<' then readFrom (.inside text []) p rest
    else if c = '>' then none
    else readFrom (.outside (text ++ [c])) p rest
  | .inside lead tag, p, c :: rest =>
    if c = '>' then
      ((readTag tag).bind (p.take lead)).bind fun p => readFrom (.outside []) p rest
    else if c = '<' then none
    else readFrom (.inside lead (tag ++ [c])) p rest

def read (s : String) : Option Element := readFrom (.outside []) .start s.toList

/-! ## Runs without angle brackets -/

def Unbracketed (s : List Char) : Prop := ∀ c ∈ s, c ≠ '<' ∧ c ≠ '>'

instance (s : List Char) : Decidable (Unbracketed s) := List.decidableBAll _ s

theorem Unbracketed.append {s t : List Char} (hs : Unbracketed s) (ht : Unbracketed t) :
    Unbracketed (s ++ t) := by
  intro c hc
  rcases List.mem_append.mp hc with h | h
  · exact hs c h
  · exact ht c h

theorem unbracketed_escape (s : String) : Unbracketed (Text.escape s).toList := by
  intro c hc
  rw [Text.escape, String.toList_ofList] at hc
  have := Text.not_isMark_of_mem_escapeChars hc
  simp only [Text.isMark, Bool.or_eq_false_iff, beq_eq_false_iff_ne] at this
  exact ⟨this.1.1.1, this.1.1.2⟩

theorem unbracketed_word {s : String} (h : IsWord s) : Unbracketed s.toList := by
  intro c hc
  have := h c hc
  constructor
  · rintro rfl
    exact absurd this (by decide)
  · rintro rfl
    exact absurd this (by decide)

theorem readFrom_text {p : Progress} {t : List Char} (ht : Unbracketed t) (lead rest : List Char) :
    readFrom (.outside lead) p (t ++ rest) = readFrom (.outside (lead ++ t)) p rest := by
  -- The text gathered so far grows with every character, so it is any text here.
  induction t generalizing lead with
  | nil => simp
  | cons c t ih =>
      obtain ⟨lt, gt⟩ := ht c List.mem_cons_self
      rw [List.cons_append, readFrom, if_neg lt, if_neg gt,
        ih (fun d hd => ht d (List.mem_cons_of_mem c hd))]
      simp

theorem readFrom_inside {p : Progress} {t : List Char} (ht : Unbracketed t)
    (lead tag rest : List Char) :
    readFrom (.inside lead tag) p (t ++ rest) = readFrom (.inside lead (tag ++ t)) p rest := by
  induction t generalizing tag with
  | nil => simp
  | cons c t ih =>
      obtain ⟨lt, gt⟩ := ht c List.mem_cons_self
      rw [List.cons_append, readFrom, if_neg gt, if_neg lt,
        ih (fun d hd => ht d (List.mem_cons_of_mem c hd))]
      simp

/-- A tag is taken in with the text in front of it. -/
theorem readFrom_tag {p p' : Progress} {t : List Char} {tag : Tag} (ht : Unbracketed t)
    {lead : List Char} (hread : readTag t = some tag) (htake : p.take lead tag = some p')
    (rest : List Char) :
    readFrom (.outside lead) p ('<' :: t ++ '>' :: rest) = readFrom (.outside []) p' rest := by
  rw [List.cons_append, readFrom, if_pos rfl, readFrom_inside ht, List.nil_append, readFrom,
    if_pos rfl, hread, Option.bind_some, htake, Option.bind_some]

/-! ## Printed tags -/

theorem content_escape (s : String) : content (Text.escape s).toList = some s := by
  rw [content, Text.escape, String.toList_ofList, Text.unescape_escapeChars, Option.map_some,
    String.ofList_toList]

theorem content_word {s : String} (h : IsWord s) : content s.toList = some s := by
  have self : Text.escapeChars s.toList = s.toList :=
    Text.escapeChars_of_plain fun c hc => Naming.entity_of_isWordChar (h c hc)
  have read := Text.unescape_escapeChars s.toList
  rw [self] at read
  rw [content, read, Option.map_some, String.ofList_toList]

def tagText (tag className : String) (label : Option String) : List Char :=
  tag.toList ++ " class=".toList ++ '"' :: (className.toList ++ '"' ::
    (match label with
      | some l => " aria-label=".toList ++ '"' :: ((Text.escape l).toList ++ ['"'])
      | none => []))

theorem toList_openTag (tag className : String) (label : Option String) :
    (Element.openTag tag className label).toList = '<' :: tagText tag className label ++ ['>'] := by
  cases label <;> simp [Element.openTag, tagText]

theorem toList_closeTag (tag : String) :
    (Element.closeTag tag).toList = '<' :: ('/' :: tag.toList) ++ ['>'] := by
  simp [Element.closeTag]

theorem openingTag_eq {tag className : String} (htag : IsWord tag) (hclass : IsWord className)
    (label : Option String) :
    openingTag (tag.toList ++ " class=".toList) className.toList label
      = some (.opening tag className label) := by
  -- The name ends at the first blank, and a word holds none.
  have name : (tag.toList ++ " class=".toList).takeWhile (· != ' ') = tag.toList := by
    rw [List.takeWhile_append_of_pos]
    · simp
    · intro c hc
      have : c ≠ ' ' := fun blank => htag.not_mem (by decide) (blank ▸ hc)
      simpa using this
  rw [openingTag, name, if_pos rfl, content_word hclass, Option.map_some, String.ofList_toList]

theorem readTag_tagText {tag className : String} (htag : IsWord tag) (hclass : IsWord className)
    (label : Option String) :
    readTag (tagText tag className label) = some (.opening tag className label) := by
  -- The quotes that are printed are the only ones: neither a word nor an escaped text holds any.
  have front : '"' ∉ tag.toList ++ " class=".toList := by
    rw [List.mem_append, not_or]
    exact ⟨htag.not_mem (by decide), by decide⟩
  have middle : '"' ∉ className.toList := hclass.not_mem (by decide)
  cases label with
  | none =>
      rw [readTag, tagText, Text.splitAll_append front, Text.splitAll_append middle]
      simp only [Text.splitAll]
      exact openingTag_eq htag hclass none
  | some l =>
      have between : '"' ∉ " aria-label=".toList := by decide
      have last : '"' ∉ (Text.escape l).toList := by
        intro h
        rw [Text.escape, String.toList_ofList] at h
        exact absurd (Text.not_isMark_of_mem_escapeChars h) (by decide)
      rw [readTag, tagText, Text.splitAll_append front, Text.splitAll_append middle,
        Text.splitAll_append between, Text.splitAll_append last]
      simp only [Text.splitAll, if_true, content_escape, Option.bind_some]
      exact openingTag_eq htag hclass (some l)

theorem readTag_closing {tag : String} (htag : IsWord tag) :
    readTag ('/' :: tag.toList) = some (.closing tag) := by
  have : '"' ∉ '/' :: tag.toList := by
    rw [List.mem_cons, not_or]
    exact ⟨by decide, htag.not_mem (by decide)⟩
  rw [readTag, Text.splitAll_of_not_mem this]
  simp [String.ofList_toList]

theorem unbracketed_tagText {tag className : String} (htag : IsWord tag)
    (hclass : IsWord className) (label : Option String) :
    Unbracketed (tagText tag className label) := by
  have front : Unbracketed (tag.toList ++ " class=".toList) :=
    (unbracketed_word htag).append (by decide)
  have quote : Unbracketed ['"'] := by decide
  have name : Unbracketed " aria-label=".toList := by decide
  have middle := (quote.append (unbracketed_word hclass)).append quote
  unfold tagText
  cases label with
  | none => simpa using front.append middle
  | some l =>
      have labelText := ((name.append quote).append (unbracketed_escape l)).append quote
      simpa using (front.append middle).append labelText

theorem unbracketed_closing {tag : String} (htag : IsWord tag) :
    Unbracketed ('/' :: tag.toList) :=
  Unbracketed.append (s := ['/']) (by decide) (unbracketed_word htag)

/-! ## Printed elements -/

theorem Progress.inText_push {p : Progress} (h : p.inText = false) (e : Element) :
    (p.push e).inText = false :=
  h

theorem isLayout_append {s t : List Char} (hs : isLayout s = true) (ht : isLayout t = true) :
    isLayout (s ++ t) = true := by
  rw [isLayout, List.all_append, Bool.and_eq_true]
  exact ⟨hs, ht⟩

theorem isLayout_indent (depth : Int) : isLayout (Element.indent depth).toList = true := by
  rw [Element.indent, String.toList_ofList, isLayout, List.all_eq_true]
  intro c hc
  obtain ⟨unit, hunit, hc⟩ := List.mem_flatten.mp hc
  obtain rfl := List.eq_of_mem_replicate hunit
  have blanks : isLayout Element.indentUnit.toList = true := by decide
  exact List.all_eq_true.mp blanks c hc

theorem readFrom_layout {p : Progress} {t : List Char} (ht : isLayout t = true)
    (lead rest : List Char) :
    readFrom (.outside lead) p (t ++ rest) = readFrom (.outside (lead ++ t)) p rest := by
  refine readFrom_text ?_ lead rest
  intro c hc
  have blank := List.all_eq_true.mp ht c hc
  constructor <;> rintro rfl <;> exact absurd blank (by decide)

section

variable {tag className : String} {label : Option String} {p : Progress} {lead : List Char}

/-- A printed opening tag opens its element. -/
theorem readFrom_openTag (htag : IsWord tag) (hclass : IsWord className)
    (hp : p.inText = false) (hlead : isLayout lead = true) (rest : List Char) :
    readFrom (.outside lead) p ((Element.openTag tag className label).toList ++ rest)
      = readFrom (.outside []) ⟨[], ⟨tag, className, label, p.elements⟩ :: p.around⟩ rest := by
  have taken : p.take lead (.opening tag className label)
      = some ⟨[], ⟨tag, className, label, p.elements⟩ :: p.around⟩ := by
    simp [Progress.take, hp, hlead]
  have read := readFrom_tag (unbracketed_tagText htag hclass label)
    (readTag_tagText htag hclass label) taken rest
  rw [toList_openTag]
  simpa using read

/-- A printed closing tag closes an element that holds elements. -/
theorem readFrom_closeTag (htag : IsWord tag) (hbox : isTextTag tag = false)
    (hlead : isLayout lead = true) (before elements : List Element) (around : List OpenElement)
    (rest : List Char) :
    readFrom (.outside lead) ⟨elements, ⟨tag, className, label, before⟩ :: around⟩
        ((Element.closeTag tag).toList ++ rest)
      = readFrom (.outside []) ⟨before ++ [.box tag className label elements], around⟩ rest := by
  have taken : Progress.take ⟨elements, ⟨tag, className, label, before⟩ :: around⟩ lead
      (.closing tag) = some ⟨before ++ [.box tag className label elements], around⟩ := by
    simp [Progress.take, hbox, hlead]
  have read := readFrom_tag (unbracketed_closing htag) (readTag_closing htag) taken rest
  rw [toList_closeTag]
  simpa using read

/-- A printed closing tag closes an element that holds text, whatever the text. -/
theorem readFrom_closeText (htag : IsWord tag) (htext : isTextTag tag = true)
    (before : List Element) (around : List OpenElement) (s : String) (rest : List Char) :
    readFrom (.outside []) ⟨[], ⟨tag, className, none, before⟩ :: around⟩
        ((Text.escape s).toList ++ ((Element.closeTag tag).toList ++ rest))
      = readFrom (.outside []) ⟨before ++ [.text tag className s], around⟩ rest := by
  have taken : Progress.take ⟨[], ⟨tag, className, none, before⟩ :: around⟩
      (Text.escape s).toList (.closing tag)
        = some ⟨before ++ [.text tag className s], around⟩ := by
    simp [Progress.take, htext, content_escape]
  have read := readFrom_tag (unbracketed_closing htag) (readTag_closing htag) taken rest
  rw [readFrom_text (unbracketed_escape s), List.nil_append, toList_closeTag]
  simpa using read

end

mutual

/-- An element whose tag and class are words and whose tag tells what it holds. -/
def Proper : Element → Prop
  | .text tag className _ => IsWord tag ∧ isTextTag tag = true ∧ IsWord className
  | .box tag className _ children =>
    (IsWord tag ∧ isTextTag tag = false ∧ IsWord className) ∧ ProperAll children

def ProperAll : List Element → Prop
  | [] => True
  | e :: rest => Proper e ∧ ProperAll rest

end

mutual

/-- The reader finds a printed element at the end of the present level, wherever it is
printed and whatever follows. -/
theorem readFrom_print {lead : List Char} (hlead : isLayout lead = true) :
    ∀ (e : Element) (_ : Proper e) (depth : Int) {p : Progress} (_ : p.inText = false)
      (rest : List Char),
      readFrom (.outside lead) p ((e.print depth).toList ++ rest)
        = readFrom (.outside ['\n']) (p.push e) rest
  | .text tag className s, ⟨htag, htext, hclass⟩, depth, p, hp, rest => by
      simp only [Element.print, String.toList_append, List.append_assoc]
      rw [readFrom_layout (isLayout_indent depth),
        readFrom_openTag htag hclass hp (isLayout_append hlead (isLayout_indent depth)),
        readFrom_closeText htag htext]
      rfl
  -- Without children the closing tag follows at once.
  | .box tag className label [], ⟨⟨htag, hbox, hclass⟩, _⟩, depth, p, hp, rest => by
      simp only [Element.print, String.toList_append, List.append_assoc]
      rw [readFrom_layout (isLayout_indent depth),
        readFrom_openTag htag hclass hp (isLayout_append hlead (isLayout_indent depth)),
        readFrom_closeTag htag hbox rfl]
      rfl
  -- With children a line end stands behind the opening tag, each child ends its own line, and
  -- the closing tag is indented.
  | .box tag className label (child :: others), ⟨⟨htag, hbox, hclass⟩, hchild, hothers⟩, depth,
      p, hp, rest => by
      have inside : Progress.inText ⟨[], ⟨tag, className, label, p.elements⟩ :: p.around⟩
          = false := hbox
      simp only [Element.print, String.toList_append, List.append_assoc]
      rw [readFrom_layout (isLayout_indent depth),
        readFrom_openTag htag hclass hp (isLayout_append hlead (isLayout_indent depth)),
        readFrom_layout (t := "\n".toList) (by decide), List.nil_append,
        readFrom_print (by decide) child hchild (depth + 1) inside,
        readFrom_printAll rfl others hothers (depth + 1) (Progress.inText_push inside child),
        readFrom_layout (isLayout_indent depth)]
      simp only [Progress.push]
      rw [readFrom_closeTag htag hbox (isLayout_append (by decide) (isLayout_indent depth))]
      rfl

theorem readFrom_printAll {lead : List Char} (hlead : lead = ['\n']) :
    ∀ (es : List Element) (_ : ProperAll es) (depth : Int) {p : Progress} (_ : p.inText = false)
      (rest : List Char),
      readFrom (.outside lead) p ((Element.printAll depth es).toList ++ rest)
        = readFrom (.outside lead) ⟨p.elements ++ es, p.around⟩ rest
  | [], _, depth, p, _, rest => by simp [Element.printAll]
  | e :: others, ⟨he, hothers⟩, depth, p, hp, rest => by
      subst hlead
      simp only [Element.printAll, String.toList_append, List.append_assoc]
      rw [readFrom_print (by decide) e he depth hp,
        readFrom_printAll rfl others hothers depth (Progress.inText_push hp e)]
      simp [Progress.push]

end

/-- The reader finds in a printed element that element. -/
theorem read_print {e : Element} (he : Proper e) (depth : Int) : read (e.print depth) = some e := by
  have nothing : isLayout [] = true := rfl
  have read := readFrom_print nothing e he depth (p := .start) rfl []
  rw [List.append_nil] at read
  rw [Markup.read, read]
  rfl

end DesignMarkup.Markup
