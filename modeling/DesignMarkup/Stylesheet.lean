import DesignMarkup.Style.Declaration
import DesignMarkup.Value.Plain

/-!
# Style sheets

A style sheet is a table of rules, one for each class, each a table of declarations.
Rules without declarations are left out.
-/

namespace DesignMarkup.Stylesheet

/-- A rule in print: a class and what it declares. -/
abbrev Rule := String × List (String × String)

def printDeclaration (d : String × String) : String := "  " ++ d.1 ++ ": " ++ d.2 ++ ";"

def printRule (r : Rule) : String :=
  "." ++ r.1 ++ " \x7b\n" ++ "\n".intercalate (r.2.map printDeclaration) ++ "\n\x7d"

/-- A style sheet with a blank line between rules. -/
def print (rules : List Rule) : String :=
  "\n\n".intercalate ((rules.filter (!·.2.isEmpty)).map printRule)

def named (style : Declarations) : List (String × String) := style.map fun d => (d.1.name, d.2)

/-! ## Images -/

def imageRule (className url : String) : String :=
  "." ++ className ++ " \x7b background-image: url('" ++ url ++ "'); \x7d"

/-- The rule for the use of an image, if there is an address for its node and a class to
carry it. -/
def imageRule? (urls : Members) (use : ImageUse) : Except Fault (Option String) := do
  let url := (← use.nodeId.lookupIn urls).getD .null
  pure (if url.isPresent && use.className.isPresent then
    some (imageRule use.className.plain url.plain) else none)

/-- The rules for image uses, one a line. -/
def printImages (uses : List ImageUse) (urls : Members) : Except Fault String := do
  pure ("\n".intercalate ((← uses.mapM (imageRule? urls)).filterMap id))

end DesignMarkup.Stylesheet
