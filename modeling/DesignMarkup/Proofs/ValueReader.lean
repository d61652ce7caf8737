import Mathlib.Data.List.Forall2
import DesignMarkup.Proofs.InertText
import DesignMarkup.Proofs.Numerals

/-!
# Values, read back

The value of a declaration is a list with commas, and an item of that list is a row of parts with
blanks between them; commas and blanks inside of brackets belong to a part. The reader here knows
nothing but the text. It takes rows apart, numbers from their units and functions from their
arguments, and a colour that was written reads back as its channels and the text of its alpha.
-/

namespace DesignMarkup.Css

/-! ## Pieces -/

def depthAfter (depth : Nat) (c : Char) : Nat :=
  if c = '(' then depth + 1 else if c = ')' then depth - 1 else depth

/-- The pieces of a text between the separators that stand outside of brackets. -/
def splitOutside (separator : Char) : Nat → List Char → List (List Char)
  | _, [] => [[]]
  | depth, c :: rest =>
    if depth = 0 ∧ c = separator then [] :: splitOutside separator 0 rest
    else
      match splitOutside separator (depthAfter depth c) rest with
      | [] => [[c]]
      | piece :: more => (c :: piece) :: more

def rows (s : List Char) : List (List (List Char)) :=
  (splitOutside ',' 0 s).map fun item => splitOutside ' ' 0 (item.dropWhile (· == ' '))

/-- A text that closes the brackets that are open, and has no separator outside of brackets. -/
def Closes (separator : Char) : Nat → List Char → Prop
  | depth, [] => depth = 0
  | depth, c :: rest => ¬ (depth = 0 ∧ c = separator) ∧ Closes separator (depthAfter depth c) rest

section

variable {separator : Char} {depth : Nat} {s t : List Char}

theorem splitOutside_append (h : Closes separator depth s) (rest : List Char) :
    splitOutside separator depth (s ++ separator :: rest)
      = s :: splitOutside separator 0 rest := by
  induction s generalizing depth with
  | nil =>
      obtain rfl : depth = 0 := h
      simp [splitOutside]
  | cons c s ih =>
      obtain ⟨inside, further⟩ := h
      rw [List.cons_append, splitOutside, if_neg inside, ih further]

theorem splitOutside_of_closes (h : Closes separator depth s) :
    splitOutside separator depth s = [s] := by
  induction s generalizing depth with
  | nil => rfl
  | cons c s ih =>
      obtain ⟨inside, further⟩ := h
      rw [splitOutside, if_neg inside, ih further]

theorem Closes.append (hs : Closes separator depth s) (ht : Closes separator 0 t) :
    Closes separator depth (s ++ t) := by
  induction s generalizing depth with
  | nil =>
      obtain rfl : depth = 0 := hs
      exact ht
  | cons c s ih => exact ⟨hs.1, ih hs.2⟩

/-- What is put together with separators comes apart at them. -/
theorem splitOutside_intercalate {pieces : List (List Char)} (some : pieces ≠ [])
    (h : ∀ piece ∈ pieces, Closes separator 0 piece) :
    splitOutside separator 0 ([separator].intercalate pieces) = pieces := by
  induction pieces with
  | nil => exact absurd rfl some
  | cons piece rest ih =>
      have alone := h piece List.mem_cons_self
      cases rest with
      | nil => rw [List.intercalate_singleton, splitOutside_of_closes alone]
      | cons next rest =>
          have others := ih (List.cons_ne_nil _ _) fun p hp => h p (List.mem_cons_of_mem _ hp)
          rw [List.intercalate_cons_cons, List.append_assoc, List.singleton_append,
            splitOutside_append alone, others]

/-! ## Plain texts and functions -/

def isPlain (c : Char) : Bool := !([' ', ',', '(', ')'].contains c)

def isBracketless (c : Char) : Bool := !(['(', ')'].contains c)

theorem closes_of_isPlain (h : ∀ c ∈ s, isPlain c = true) (hs : isPlain separator = false) :
    Closes separator 0 s := by
  induction s with
  | nil => rfl
  | cons c s ih =>
      obtain ⟨hc, hrest⟩ := List.forall_mem_cons.mp h
      have other : c ≠ separator := by
        rintro rfl
        rw [hc] at hs
        cases hs
      have flat : depthAfter 0 c = 0 := by
        have : c ≠ '(' ∧ c ≠ ')' := by
          simp [isPlain] at hc
          exact hc.2.2
        rw [depthAfter, if_neg this.1, if_neg this.2]
      refine ⟨fun same => other same.2, ?_⟩
      rw [flat]
      exact ih hrest

theorem closes_arguments (h : ∀ c ∈ s, isBracketless c = true) :
    Closes separator 1 (s ++ [')']) := by
  induction s with
  | nil => exact ⟨fun same => absurd same.1 (by decide), rfl⟩
  | cons c s ih =>
      obtain ⟨hc, hrest⟩ := List.forall_mem_cons.mp h
      have flat : depthAfter 1 c = 1 := by
        have : c ≠ '(' ∧ c ≠ ')' := by simpa [isBracketless] using hc
        rw [depthAfter, if_neg this.1, if_neg this.2]
      refine ⟨fun same => absurd same.1 (by decide), ?_⟩
      rw [flat]
      exact ih hrest

end

/-- A part of a row: some text that neither a comma nor a blank outside of brackets takes apart. -/
structure IsPart (s : List Char) : Prop where
  some : s ≠ []
  comma : Closes ',' 0 s
  blank : Closes ' ' 0 s

theorem isPart_of_isPlain {s : List Char} (some : s ≠ []) (h : s.all isPlain = true) : IsPart s :=
  have plain := List.all_eq_true.mp h
  ⟨some, closes_of_isPlain plain (by decide), closes_of_isPlain plain (by decide)⟩

/-- A function with arguments that have no brackets is a part. -/
theorem isPart_function {name arguments : List Char} (hname : name.all isPlain = true)
    (harguments : arguments.all isBracketless = true) :
    IsPart (name ++ '(' :: (arguments ++ [')'])) := by
  have plain := List.all_eq_true.mp hname
  have flat := List.all_eq_true.mp harguments
  have closes {separator : Char} (hs : isPlain separator = false) (other : separator ≠ '(') :
      Closes separator 0 (name ++ '(' :: (arguments ++ [')'])) :=
    (closes_of_isPlain plain hs).append ⟨fun same => other same.2.symm, closes_arguments flat⟩
  exact ⟨List.append_ne_nil_of_right_ne_nil _ (List.cons_ne_nil _ _),
    closes (by decide) (by decide), closes (by decide) (by decide)⟩

/-! ## Rows -/

def IsRow (row : List (List Char)) : Prop := row ≠ [] ∧ ∀ part ∈ row, IsPart part

section

variable {row : List (List Char)}

theorem closes_row (parts : ∀ part ∈ row, IsPart part) : Closes ',' 0 ([' '].intercalate row) := by
  induction row with
  | nil => rfl
  | cons part rest ih =>
      have first := (parts part List.mem_cons_self).comma
      cases rest with
      | nil => rwa [List.intercalate_singleton]
      | cons next rest =>
          have others := ih fun p hp => parts p (List.mem_cons_of_mem _ hp)
          have blank : Closes ',' 0 [' '] := ⟨by decide, rfl⟩
          rw [List.intercalate_cons_cons]
          exact (first.append blank).append others

/-- A row does not begin with a blank, so that blanks in front of it can go. -/
theorem dropWhile_row (h : IsRow row) :
    ([' '].intercalate row).dropWhile (· == ' ') = [' '].intercalate row := by
  obtain ⟨some, parts⟩ := h
  obtain ⟨part, rest, rfl⟩ := List.exists_cons_of_ne_nil some
  have first := parts part List.mem_cons_self
  obtain ⟨c, more, rfl⟩ := List.exists_cons_of_ne_nil first.some
  have noBlank : (c == ' ') = false := by
    have := first.blank.1
    simpa using this
  cases rest with
  | nil =>
      rw [List.intercalate_singleton, List.dropWhile_cons, noBlank]
      rfl
  | cons next rest =>
      rw [List.intercalate_cons_cons, List.append_assoc, List.cons_append, List.dropWhile_cons,
        noBlank]
      rfl

theorem splitOutside_ne_nil (separator : Char) (depth : Nat) (s : List Char) :
    splitOutside separator depth s ≠ [] := by
  cases s with
  | nil => exact List.cons_ne_nil _ _
  | cons c rest =>
      rw [splitOutside]
      split
      · exact List.cons_ne_nil _ _
      · split <;> exact List.cons_ne_nil _ _

/-- A blank behind a comma is not a part of the row. -/
theorem rows_blank (s : List Char) : rows (' ' :: s) = rows s := by
  obtain ⟨item, more, items⟩ := List.exists_cons_of_ne_nil (splitOutside_ne_nil ',' 0 s)
  have pieces : splitOutside ',' 0 (' ' :: s) = (' ' :: item) :: more := by
    have flat : depthAfter 0 ' ' = 0 := by decide
    rw [splitOutside, if_neg (by decide), flat, items]
  rw [rows, rows, pieces, items, List.map_cons, List.map_cons, List.dropWhile_cons,
    if_pos (by decide)]

theorem splitOutside_row (h : IsRow row) :
    splitOutside ' ' 0 (([' '].intercalate row).dropWhile (· == ' ')) = row := by
  rw [dropWhile_row h, splitOutside_intercalate h.1 fun part hpart => (h.2 part hpart).blank]

/-- Rows that are put together with commas and blanks come apart again. -/
theorem rows_intercalate {table : List (List (List Char))} (some : table ≠ [])
    (h : ∀ row ∈ table, IsRow row) :
    rows ([',', ' '].intercalate (table.map ([' '].intercalate ·))) = table := by
  induction table with
  | nil => exact absurd rfl some
  | cons row rest ih =>
      have first := h row List.mem_cons_self
      have closed := closes_row first.2
      cases rest with
      | nil =>
          rw [List.map_cons, List.map_nil, List.intercalate_singleton, rows,
            splitOutside_of_closes closed, List.map_cons, List.map_nil, splitOutside_row first]
      | cons next rest =>
          have others := ih (List.cons_ne_nil _ _) fun r hr => h r (List.mem_cons_of_mem _ hr)
          rw [List.map_cons] at others
          rw [List.map_cons, List.map_cons, List.intercalate_cons_cons, List.append_assoc]
          show rows (_ ++ ',' :: (' ' :: _)) = _
          rw [rows, splitOutside_append closed, List.map_cons, splitOutside_row first]
          exact congrArg (row :: ·) ((rows_blank _).trans others)

/-- Parts that are put together with commas and blanks come apart, each into a row of its own. -/
theorem rows_parts {parts : List (List Char)} (some : parts ≠ [])
    (h : ∀ part ∈ parts, IsPart part) :
    rows ([',', ' '].intercalate parts) = parts.map fun part => [part] := by
  have single : (parts.map fun part => [part]).map ([' '].intercalate ·) = parts := by
    rw [List.map_map]
    exact List.map_id'' (fun _ => List.intercalate_singleton) parts
  have rows : ∀ row ∈ parts.map fun part => [part], IsRow row := by
    simpa [IsRow] using h
  have whole := rows_intercalate (by simpa using some) rows
  rwa [single] at whole

end

/-! ## Numbers and functions -/

/-- A text without the unit behind it. -/
def withoutUnit? (unit : String) (s : List Char) : Option (List Char) := s.dropSuffix? unit.toList

def arguments? (name : String) (s : List Char) : Option (List Char) :=
  (s.dropPrefix? (name.toList ++ ['('])).bind (·.dropSuffix? [')'])

theorem withoutUnit?_append (unit : String) (s : List Char) :
    withoutUnit? unit (s ++ unit.toList) = some s :=
  List.dropSuffix?_eq_some_iff.mpr ⟨_, rfl, beq_self_eq_true _⟩

theorem arguments?_function (name : String) (s : List Char) :
    arguments? name (name.toList ++ '(' :: (s ++ [')'])) = some s := by
  have front : (name.toList ++ '(' :: (s ++ [')'])).dropPrefix? (name.toList ++ ['('])
      = some (s ++ [')']) :=
    List.dropPrefix?_eq_some_iff.mpr ⟨_, by simp, beq_self_eq_true _⟩
  rw [arguments?, front, Option.bind_some]
  exact List.dropSuffix?_eq_some_iff.mpr ⟨_, rfl, beq_self_eq_true _⟩

open Decimal (NumeralChars ne_of_isNumeralChar)

theorem isPlain_of_isNumeralChar {c : Char} (h : Decimal.isNumeralChar c = true) :
    isPlain c = true := by
  have differs {d : Char} := @ne_of_isNumeralChar c d h
  simp [isPlain, differs (d := ' ') (by decide), differs (d := ',') (by decide),
    differs (d := '(') (by decide), differs (d := ')') (by decide)]

theorem isBracketless_of_isPlain {c : Char} (h : isPlain c = true) : isBracketless c = true := by
  simp [isPlain] at h
  simp [isBracketless, h.2.2]

/-- A numeral is a part, with a unit behind it or without. -/
theorem isPart_numeral {s unit : List Char} (some : s ≠ []) (h : NumeralChars s)
    (hunit : unit.all isPlain = true) : IsPart (s ++ unit) := by
  have plain : s.all isPlain = true :=
    List.all_eq_true.mpr fun c hc => isPlain_of_isNumeralChar (h c hc)
  refine isPart_of_isPlain (List.append_ne_nil_of_left_ne_nil some _) ?_
  rw [List.all_append, plain, hunit]
  rfl

end DesignMarkup.Css

namespace DesignMarkup

namespace Decimal

theorem whole_ne_nil (n : Int) : whole n ≠ [] := by
  unfold whole
  split
  · exact List.cons_ne_nil _ _
  · exact (isRun_natural _).1

theorem twoPlaces_ne_nil (x : Float) : twoPlaces x ≠ [] := by
  unfold twoPlaces hundredths
  dsimp only
  split
  · exact List.cons_ne_nil _ _
  · split
    · exact List.append_ne_nil_of_right_ne_nil _ (List.cons_ne_nil _ _)
    · exact List.append_ne_nil_of_right_ne_nil _
        (List.append_ne_nil_of_right_ne_nil _ (List.cons_ne_nil _ _))

theorem layout_ne_nil (d : Decimal) : layout d ≠ [] := by
  obtain ⟨n, proper, text, -⟩ := exists_numeral_layout d
  rw [text]
  exact List.append_ne_nil_of_left_ne_nil proper.whole.1 _

theorem double_ne_nil (x : Float) : double x ≠ [] := by
  unfold double
  dsimp only
  split
  · exact List.cons_ne_nil _ _
  · split
    · exact List.append_ne_nil_of_right_ne_nil _ (List.cons_ne_nil _ _)
    · split
      · exact List.append_ne_nil_of_right_ne_nil _ (List.cons_ne_nil _ _)
      · exact List.append_ne_nil_of_right_ne_nil _ (layout_ne_nil _)

end Decimal

theorem Number.toList_written_ne_nil (n : Number) : n.written.toList ≠ [] := by
  cases n with
  | whole n => rw [written, String.toList_ofList]; exact Decimal.whole_ne_nil n
  | double x =>
      rw [written]
      split
      · rw [String.toList_ofList]; exact Decimal.whole_ne_nil _
      · rw [String.toList_ofList]; exact Decimal.double_ne_nil x

namespace Css

open Decimal (NumeralChars)

def quantity (n : Int) (unit : String) : List Char := Decimal.whole n ++ unit.toList

def quantity? (unit : String) (s : List Char) : Option Int :=
  (withoutUnit? unit s).bind Decimal.readWhole?

@[simp] theorem quantity?_quantity (n : Int) (unit : String) :
    quantity? unit (quantity n unit) = some n := by
  rw [quantity?, quantity, withoutUnit?_append, Option.bind_some, Decimal.readWhole?_whole]

/-- A number in pixels is a part. -/
theorem isPart_pixels (n : Number) : IsPart (Value.number n).pixels.toList := by
  have text : (Value.number n).pixels.toList = n.written.toList ++ ['p', 'x'] :=
    String.toList_append
  rw [text]
  exact isPart_numeral n.toList_written_ne_nil n.numeralChars_written (by decide)

theorem isPart_quantity (n : Int) {unit : String} (h : unit.toList.all isPlain = true) :
    IsPart (quantity n unit) :=
  isPart_numeral (Decimal.whole_ne_nil n) (Decimal.numeralChars_whole n) h

/-! ## Colours -/

/-- A colour as a style sheet has it. -/
structure PrintedColor where
  red : Int
  green : Int
  blue : Int
  alpha : Option String
deriving DecidableEq

def channels? (s : List Char) : Option PrintedColor :=
  match rows s with
  | [[r], [g], [b]] => do
    pure ⟨← Decimal.readWhole? r, ← Decimal.readWhole? g, ← Decimal.readWhole? b, none⟩
  | [[r], [g], [b], [a]] => do
    pure ⟨← Decimal.readWhole? r, ← Decimal.readWhole? g, ← Decimal.readWhole? b,
      some (String.ofList a)⟩
  | _ => none

/-- The colour that a text is, with an alpha or without. -/
def color? (s : List Char) : Option PrintedColor :=
  ((arguments? "rgb" s).or (arguments? "rgba" s)).bind channels?

namespace PrintedColor

def parts (c : PrintedColor) : List (List Char) :=
  [Decimal.whole c.red, Decimal.whole c.green, Decimal.whole c.blue]
    ++ (c.alpha.map String.toList).toList

def name (c : PrintedColor) : String := if c.alpha.isSome then "rgba" else "rgb"

def text (c : PrintedColor) : List Char :=
  c.name.toList ++ '(' :: ([',', ' '].intercalate c.parts ++ [')'])

/-- The alpha, where there is one, is a numeral. -/
def Proper (c : PrintedColor) : Prop :=
  ∀ a, c.alpha = some a → a.toList ≠ [] ∧ NumeralChars a.toList

variable {c : PrintedColor}

theorem Proper.numerals (h : c.Proper) : ∀ part ∈ c.parts, part ≠ [] ∧ NumeralChars part := by
  have whole (n : Int) := And.intro (Decimal.whole_ne_nil n) (Decimal.numeralChars_whole n)
  refine List.forall_mem_append.mpr ⟨by simp [whole], ?_⟩
  intro part hpart
  cases alpha : c.alpha with
  | none => rw [alpha] at hpart; cases hpart
  | some a =>
      rw [alpha] at hpart
      obtain rfl := List.mem_singleton.mp hpart
      exact h a alpha

theorem Proper.isPart_of_mem (h : c.Proper) : ∀ part ∈ c.parts, IsPart part := by
  intro part hpart
  obtain ⟨some, numeral⟩ := h.numerals part hpart
  have plain : IsPart (part ++ []) := isPart_numeral some numeral rfl
  rwa [List.append_nil] at plain

/-- The parts of a colour read back. -/
theorem channels?_parts (h : c.Proper) : channels? ([',', ' '].intercalate c.parts) = some c := by
  have some : c.parts ≠ [] := List.cons_ne_nil _ _
  rw [channels?, rows_parts some h.isPart_of_mem]
  obtain ⟨r, g, b, alpha⟩ := c
  cases alpha <;> simp [parts, Decimal.readWhole?_whole]

/-- A colour reads back. -/
theorem color?_text (h : c.Proper) : color? c.text = some c := by
  have brackets : (arguments? "rgb" c.text).or (arguments? "rgba" c.text)
      = some ([',', ' '].intercalate c.parts) := by
    rw [text, name]
    split
    · rw [arguments?_function "rgba"]
      rfl
    · rw [arguments?_function "rgb"]
      rfl
  rw [color?, brackets, Option.bind_some, channels?_parts h]

theorem isPart_text (h : c.Proper) : IsPart c.text := by
  refine isPart_function ?_ (List.all_eq_true.mpr fun ch hch => ?_)
  · rw [name]
    split <;> decide
  · rcases Text.mem_of_mem_intercalate hch with hch | ⟨part, hpart, hch⟩
    · have separator : [',', ' '].all isBracketless = true := by decide
      exact List.all_eq_true.mp separator ch hch
    · exact isBracketless_of_isPlain (isPlain_of_isNumeralChar ((h.numerals part hpart).2 ch hch))

end PrintedColor

end Css

namespace Color

open Css (PrintedColor)

/-- What a colour comes to in a style sheet: the channels up to 255, and the alpha with two places
unless it is one. -/
structure Prints (c : Color) (printed : PrintedColor) : Prop where
  red : channel c.r = .ok printed.red
  green : channel c.g = .ok printed.green
  blue : channel c.b = .ok printed.blue
  opaque_iff : printed.alpha = none ↔ c.a.isSame (.whole 1) = true
  alpha : ∀ a, printed.alpha = some a → c.a.twoPlaces = .ok a

variable {c : Color} {s : String}

theorem toList_channelsText (r g b : Int) : (channelsText r g b).toList
    = [',', ' '].intercalate [Decimal.whole r, Decimal.whole g, Decimal.whole b] := by
  simp [channelsText, Number.plain]

theorem Prints.proper {printed : PrintedColor} (h : c.Prints printed) : printed.Proper := by
  intro a alpha
  obtain ⟨x, rfl⟩ := Value.exists_eq_of_twoPlaces (h.alpha a alpha)
  rw [String.toList_ofList]
  exact ⟨Decimal.twoPlaces_ne_nil x, Decimal.numeralChars_twoPlaces x⟩

/-- The text of a colour is that of what the colour comes to. -/
theorem exists_text_of_css (h : c.css = .ok s) :
    ∃ printed, c.Prints printed ∧ s.toList = printed.text := by
  obtain ⟨r, red, h⟩ := bind_eq_ok_iff.mp h
  obtain ⟨g, green, h⟩ := bind_eq_ok_iff.mp h
  obtain ⟨b, blue, h⟩ := bind_eq_ok_iff.mp h
  split at h
  · rename_i same
    obtain rfl := pure_eq_ok_iff.mp h
    refine ⟨⟨r, g, b, none⟩, ⟨red, green, blue, by simp [same], nofun⟩, ?_⟩
    simp [PrintedColor.text, PrintedColor.name, PrintedColor.parts, toList_channelsText]
  · rename_i other
    obtain ⟨a, alpha, h⟩ := bind_eq_ok_iff.mp h
    obtain rfl := pure_eq_ok_iff.mp h
    refine ⟨⟨r, g, b, some a⟩, ⟨red, green, blue, by simp [other], ?_⟩, ?_⟩
    · rintro t same
      rwa [← Option.some.inj same]
    · simp [PrintedColor.text, PrintedColor.name, PrintedColor.parts, toList_channelsText]

/-- The text of a colour is a part, and reads back as what the colour comes to. -/
theorem exists_prints_of_css (h : c.css = .ok s) :
    ∃ printed, c.Prints printed ∧ Css.IsPart s.toList ∧ Css.color? s.toList = some printed := by
  obtain ⟨printed, prints, text⟩ := exists_text_of_css h
  rw [text]
  exact ⟨printed, prints, PrintedColor.isPart_text prints.proper,
    PrintedColor.color?_text prints.proper⟩

end Color

/-! ## Texts that are rows -/

namespace Css

variable {α β : Type} {read : List (List Char) → Option β}

/-- A text is a row of parts that reads as something. -/
def ReadsAs (read : List (List Char) → Option β) (t : String) (b : β) : Prop :=
  ∃ row, IsRow row ∧ t.toList = [' '].intercalate row ∧ read row = some b

/-- Where the text of an item reads as what the item comes to, the texts of a list read as what its
items come to, in order. -/
theorem exists_forall₂_of_mapM {f : α → Except Fault String} {R : α → β → Prop} {l : List α}
    {ts : List String} (each : ∀ a ∈ l, ∀ t, f a = .ok t → ∃ b, R a b ∧ ReadsAs read t b)
    (h : l.mapM f = .ok ts) : ∃ bs, List.Forall₂ R l bs ∧ List.Forall₂ (ReadsAs read) ts bs := by
  induction l generalizing ts with
  | nil =>
      obtain rfl := pure_eq_ok_iff.mp h
      exact ⟨[], .nil, .nil⟩
  | cons a rest ih =>
      rw [List.mapM_cons] at h
      obtain ⟨t, ht, h⟩ := bind_eq_ok_iff.mp h
      obtain ⟨others, hothers, h⟩ := bind_eq_ok_iff.mp h
      obtain rfl := pure_eq_ok_iff.mp h
      obtain ⟨ha, hrest⟩ := List.forall_mem_cons.mp each
      obtain ⟨b, hb, first⟩ := ha t ht
      obtain ⟨bs, hbs, further⟩ := ih hrest hothers
      exact ⟨b :: bs, .cons hb hbs, .cons first further⟩

theorem exists_table {ts : List String} {bs : List β} (h : List.Forall₂ (ReadsAs read) ts bs) :
    ∃ table : List (List (List Char)), (∀ row ∈ table, IsRow row) ∧
      ts.map String.toList = table.map ([' '].intercalate ·) ∧
      table.mapM read = some bs := by
  induction h with
  | nil => exact ⟨[], nofun, rfl, rfl⟩
  | cons first _ ih =>
      obtain ⟨row, hrow, text, one⟩ := first
      obtain ⟨table, htable, texts, others⟩ := ih
      refine ⟨row :: table, List.forall_mem_cons.mpr ⟨hrow, htable⟩, ?_, ?_⟩
      · rw [List.map_cons, List.map_cons, text, texts]
      · simp only [List.mapM_cons, one, others, Option.bind_eq_bind, Option.bind_some,
          Option.pure_def]

section

variable {ts : List String} {bs : List β} (some : ts ≠ [])
  (h : List.Forall₂ (ReadsAs read) ts bs)

include some h

theorem exists_rows : ∃ table : List (List (List Char)), table ≠ [] ∧ (∀ row ∈ table, IsRow row) ∧
    (", ".intercalate ts).toList = [',', ' '].intercalate (table.map ([' '].intercalate ·)) ∧
    table.mapM read = .some bs := by
  obtain ⟨table, htable, texts, each⟩ := exists_table h
  refine ⟨table, ?_, htable, ?_, each⟩
  · rintro rfl
    exact some (List.map_eq_nil_iff.mp texts)
  · rw [String.toList_intercalate, texts]
    rfl

/-- Texts that are put together with commas and blanks read back. -/
theorem mapM_rows : (rows (", ".intercalate ts).toList).mapM read = .some bs := by
  obtain ⟨table, nonempty, htable, text, each⟩ := exists_rows some h
  rw [text, rows_intercalate nonempty htable, each]

/-- A part in front of them is a row of its own. -/
theorem rows_behind {first : List Char} (part : IsPart first) :
    rows (first ++ [',', ' '] ++ (", ".intercalate ts).toList)
      = [first] :: rows (", ".intercalate ts).toList := by
  obtain ⟨table, nonempty, htable, text, -⟩ := exists_rows some h
  have front : IsRow [first] := ⟨List.cons_ne_nil _ _, by simpa using part⟩
  have read := rows_intercalate (List.cons_ne_nil _ _) (List.forall_mem_cons.mpr ⟨front, htable⟩)
  rw [List.map_cons, List.intercalate_singleton,
    List.intercalate_cons_of_ne_nil (by simpa using nonempty)] at read
  rw [text, rows_intercalate nonempty htable, read]

end

end Css

end DesignMarkup
