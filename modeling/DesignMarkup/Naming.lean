import DesignMarkup.Text.Chars

/-!
# Names

The name that a designer gave a layer decides two things: the class of its element
and, by the words it holds, the tag. Both look at the lower-cased name.
-/

namespace DesignMarkup.Naming

/-! ## Class names -/

/-- No class name is longer. -/
def maxClassLength : Nat := 50

/-- The class of a layer whose name has no letter and no digit. -/
def fallbackClass : List Char := "element".toList

def isClassChar (c : Char) : Bool := c.isLower || c.isDigit

/-- Writes one dash for each run of other characters; `inGap` says that the dash of the
run at hand is written already. -/
def collapse : Bool → List Char → List Char
  | _, [] => []
  | inGap, c :: rest =>
    if isClassChar c then c :: collapse false rest
    else if inGap then collapse true rest
    else '-' :: collapse true rest

def trimDashes (s : List Char) : List Char :=
  ((s.dropWhile (· == '-')).reverse.dropWhile (· == '-')).reverse

/-- The class of a lower-cased name: runs of other characters become dashes, the text is
cut to the greatest length, and dashes at its ends go. -/
def classChars (lowered : List Char) : List Char :=
  let trimmed := trimDashes ((collapse false lowered).take maxClassLength)
  if trimmed.isEmpty then fallbackClass else trimmed

def className (name : String) : String := String.ofList (classChars (Text.lower name.toList))

/-! ## Tags -/

/-- The words that decide a tag. The first row with a word that occurs in the name wins. -/
def tagWords : List (List String × String) :=
  [(["nav", "menu"], "nav"),
   (["header"], "header"),
   (["footer"], "footer"),
   (["section"], "section"),
   (["article"], "article"),
   (["aside", "sidebar"], "aside"),
   (["main"], "main"),
   (["button", "btn"], "button"),
   (["link"], "a"),
   (["image", "img", "photo"], "figure"),
   (["list"], "ul"),
   (["item"], "li")]

/-- The tag of a container whose name holds none of the words. -/
def plainTag : String := "div"

def occursIn (word : List Char) : List Char → Bool
  | [] => word.isEmpty
  | c :: rest => word.isPrefixOf (c :: rest) || occursIn word rest

def tagBy (rows : List (List String × String)) (lowered : List Char) : String :=
  match rows.find? fun row => row.1.any fun word => occursIn word.toList lowered with
  | some row => row.2
  | none => plainTag

def tagName (name : String) : String := tagBy tagWords (Text.lower name.toList)

end DesignMarkup.Naming
