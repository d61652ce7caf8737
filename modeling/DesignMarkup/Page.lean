import DesignMarkup.Text.Escape
import DesignMarkup.Text.Chars

/-!
# Pages

What a converted design is delivered in: a page of its own, or a snippet to be put into
another page.
-/

namespace DesignMarkup.Page

/-! ## Documents -/

def defaultTitle : String := "Figma Design Export"

/-- How a page gets its style: from a style sheet beside it, or from one inside. -/
def styleBlock : Option String → String
  | none => "    <link rel=\"stylesheet\" href=\"styles.css\">"
  | some css => "    <style>\n" ++ css ++ "\n    </style>"

def document (body : String) (css : Option String) (title : String) : String :=
  "<!DOCTYPE html>\n<html lang=\"en\">\n<head>\n    <meta charset=\"UTF-8\">\n"
    ++ "    <meta name=\"viewport\" content=\"width=device-width, initial-scale=1.0\">\n"
    ++ "    <title>" ++ Text.escape title ++ "</title>\n"
    ++ styleBlock css ++ "\n</head>\n<body>\n" ++ body ++ "</body>\n</html>"

/-! ## Snippets -/

/-- The text with a blank between any two dashes, so that it cannot end a comment. -/
def spaceDashes : List Char → List Char
  | '-' :: '-' :: rest => '-' :: ' ' :: spaceDashes ('-' :: rest)
  | c :: rest => c :: spaceDashes rest
  | [] => []

/-- A snippet: a comment that names the source, the style, and the markup. -/
def snippet (html css source : String) : String :=
  let text := "<!-- Imported from Figma: " ++ String.ofList (spaceDashes source.toList)
    ++ " -->\n<style>\n" ++ css ++ "\n</style>\n" ++ html
  String.ofList (Text.trimBlank text.toList)

end DesignMarkup.Page
