import DesignMarkup.Value.Basic
import DesignMarkup.Text.Quoted

/-!
# The plain text of a value

How a value appears inside other text: a text as it is, everything else in a fixed
spelling, and inside a list or an object every text quoted.
-/

namespace DesignMarkup.Value

def nullWord : String := "None"

def truthWord (b : Bool) : String := if b then "True" else "False"

mutual

def nested : Value → String
  | null => nullWord
  | bool b => truthWord b
  | number n => n.plain
  | text s => String.ofList (Text.quoted s.toList)
  | list items => "[" ++ nestedItems items ++ "]"
  | object members => "\x7b" ++ nestedMembers members ++ "\x7d"

def nestedItems : List Value → String
  | [] => ""
  | [v] => nested v
  | v :: w :: rest => nested v ++ ", " ++ nestedItems (w :: rest)

def nestedMembers : List (String × Value) → String
  | [] => ""
  | [(name, v)] => String.ofList (Text.quoted name.toList) ++ ": " ++ nested v
  | (name, v) :: m :: rest =>
    String.ofList (Text.quoted name.toList) ++ ": " ++ nested v ++ ", " ++ nestedMembers (m :: rest)

end

def plain : Value → String
  | text s => s
  | v => nested v

/-- The text of a value where a style sheet wants a number. -/
def written : Value → String
  | number n => n.written
  | v => v.plain

def pixels (v : Value) : String := v.written ++ "px"

/-- The texts of a list of values with a separator between them; every value must be a text. -/
def joinTexts (separator : String) (vs : List Value) : Except Fault String := do
  let texts ← vs.mapM fun v =>
    match v with
    | text s => Except.ok s
    | _ => Except.error Fault.wrongKind
  pure (separator.intercalate texts)

end DesignMarkup.Value
