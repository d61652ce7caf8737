import DesignMarkup.Text.Escape

/-!
# Markup

The elements that a design becomes, and how they are printed: one element a line, the
children of an element indented below it, texts and labels escaped.
-/

namespace DesignMarkup

inductive Element
  /-- A run of text. -/
  | text (tag className content : String)
  /-- An element for others to stand in, with a label if it stands for a drawing. -/
  | box (tag className : String) (label : Option String) (children : List Element)
deriving Inhabited

namespace Element

def indentUnit : String := "  "

/-- The indentation of a depth; a depth below zero has none. -/
def indent (depth : Int) : String :=
  String.ofList (List.replicate depth.toNat indentUnit.toList).flatten

def openTag (tag className : String) (label : Option String) : String :=
  let labelText :=
    match label with
    | some l => " aria-label=\"" ++ Text.escape l ++ "\""
    | none => ""
  "<" ++ tag ++ " class=\"" ++ className ++ "\"" ++ labelText ++ ">"

def closeTag (tag : String) : String := "</" ++ tag ++ ">"

mutual

def print (depth : Int) : Element → String
  | text tag className content =>
    indent depth ++ openTag tag className none ++ Text.escape content ++ closeTag tag ++ "\n"
  | box tag className label [] =>
    indent depth ++ openTag tag className label ++ closeTag tag ++ "\n"
  | box tag className label (child :: rest) =>
    indent depth ++ openTag tag className label ++ "\n"
      ++ print (depth + 1) child ++ printAll (depth + 1) rest
      ++ indent depth ++ closeTag tag ++ "\n"

def printAll (depth : Int) : List Element → String
  | [] => ""
  | e :: rest => print depth e ++ printAll depth rest

end

end Element

end DesignMarkup
