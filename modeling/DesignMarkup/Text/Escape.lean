/-!
# Markup text

The five characters that mean something in markup are written as entities. The
ampersand goes first, so that the ampersands of the entities written later stay.
-/

namespace DesignMarkup.Text

def replaceChar (c : Char) (replacement : List Char) (s : List Char) : List Char :=
  s.flatMap fun x => if x = c then replacement else [x]

/-- The text with its five special characters written as entities. -/
def escapeChars (s : List Char) : List Char :=
  let s := replaceChar '&' "&amp;".toList s
  let s := replaceChar '<' "&lt;".toList s
  let s := replaceChar '>' "&gt;".toList s
  let s := replaceChar '"' "&quot;".toList s
  replaceChar '\'' "&#039;".toList s

def escape (s : String) : String := String.ofList (escapeChars s.toList)

end DesignMarkup.Text
