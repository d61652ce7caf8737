import DesignMarkup.Settings.Basic
import DesignMarkup.Text.Chars

/-!
# Environment files

Stands for the loader of environment files that the program is run with. The loader is no part of
the program: settings are made of an environment, wherever its variables come from.

A file of variables, one binding a line: a name, an equals sign and a value, which may
stand in quotes. A name without an equals sign binds nothing. A line that fits no form
is passed over. In a value, a name in braces behind a dollar sign stands for the value
of a variable: that of the environment, else that of a binding further up. A variable of
the environment can keep the file from being used at all.
-/

namespace DesignMarkup.EnvFile

open Text

/-! ## Bindings -/

/-- A name, and the text bound to it if there is an equals sign. -/
abbrev Binding := List Char × Option (List Char)

/-- A reader of a part of a line: the part and the rest, or the place where it gave up. -/
abbrev Reader (α : Type) := List Char → Except (List Char) (α × List Char)

def unifyLines : List Char → List Char
  | '\r' :: '\n' :: rest => '\n' :: unifyLines rest
  | '\r' :: rest => '\n' :: unifyLines rest
  | c :: rest => c :: unifyLines rest
  | [] => []

/-- A blank that does not end a line. -/
def isInnerBlank (c : Char) : Bool := isBlank c && c != '\n' && c != '\r'

/-- The rest behind the word that marks a binding for export. -/
def dropExport (s : List Char) : List Char :=
  match "export".toList.isPrefixOf? s with
  | some (c :: rest) => if isInnerBlank c then rest.dropWhile isInnerBlank else s
  | _ => s

def isNameChar (c : Char) : Bool := c != '=' && c != '#' && !isBlank c

/-- A name, bare or in single quotes; none in front of a comment. -/
def readName : Reader (Option (List Char)) := fun s =>
  match s with
  | '#' :: _ => .ok (none, s)
  | '\'' :: rest =>
    let name := rest.takeWhile (· != '\'')
    match rest.dropWhile (· != '\'') with
    | _ :: rest' => if name.isEmpty then .error s else .ok (some name, rest')
    | [] => .error s
  | _ =>
    let name := s.takeWhile isNameChar
    if name.isEmpty then .error s else .ok (some name, s.dropWhile isNameChar)

/-- The text up to a quote, and the rest behind that quote. What follows a backslash
belongs to it, whatever it is. -/
def untilQuote (quote : Char) : List Char → Option (List Char × List Char)
  | [] => none
  | '\\' :: c :: rest => (untilQuote quote rest).map fun r => ('\\' :: c :: r.1, r.2)
  | c :: rest =>
    if c = quote then some ([], rest) else (untilQuote quote rest).map fun r => (c :: r.1, r.2)

def escape? (quote c : Char) : Option Char :=
  if c == '\\' || c == '\'' then some c
  else if quote == '\'' then none
  else
    match c with
    | '"' => some '"'
    | 'a' => some '\x07'
    | 'b' => some '\x08'
    | 'f' => some '\x0c'
    | 'n' => some '\n'
    | 'r' => some '\r'
    | 't' => some '\t'
    | 'v' => some '\x0b'
    | _ => none

def unescape (quote : Char) : List Char → List Char
  | '\\' :: c :: rest =>
    match escape? quote c with
    | some c' => c' :: unescape quote rest
    | none => '\\' :: unescape quote (c :: rest)
  | c :: rest => c :: unescape quote rest
  | [] => []

def readQuoted (quote : Char) (start : List Char) : Reader (List Char) := fun s =>
  match untilQuote quote s with
  | some (body, rest) => .ok (unescape quote body, rest)
  | none => .error start

/-- The text up to a number sign with a blank before it. -/
def untilComment : Bool → List Char → List Char
  | _, [] => []
  | afterBlank, c :: rest =>
    if c = '#' ∧ afterBlank = true then [] else c :: untilComment (isBlank c) rest

def readText (afterBlank : Bool) : Reader (List Char) := fun s =>
  match s with
  | [] => .ok ([], s)
  | '\n' :: _ => .ok ([], s)
  | '\'' :: rest => readQuoted '\'' s rest
  | '"' :: rest => readQuoted '"' s rest
  | _ =>
    .ok (trimBlankEnd (untilComment afterBlank (s.takeWhile (· != '\n'))), s.dropWhile (· != '\n'))

/-- The rest behind a comment and the end of the line. -/
def endLine (s : List Char) : Except (List Char) (List Char) :=
  let comment := s.dropWhile isInnerBlank
  let s' := if comment.head? == some '#' then comment.dropWhile (· != '\n') else s
  match s'.dropWhile isInnerBlank with
  | [] => .ok []
  | '\n' :: rest => .ok rest
  | _ => .error s'

def readBinding : Reader (Option Binding) := fun s => do
  let (name, rest) ← readName (dropExport s)
  match rest.dropWhile isInnerBlank with
  | '=' :: more => do
    let (value, rest') ← readText (more.head?.any isInnerBlank) (more.dropWhile isInnerBlank)
    pure (name.map (·, some value), ← endLine rest')
  | rest' => do pure (name.map (·, none), ← endLine rest')

/-- The bindings of a file in order; `fuel` bounds the number of lines. -/
def readAll : Nat → List Char → List Binding
  | 0, _ => []
  | fuel + 1, s =>
    match s.dropWhile isBlank with
    | [] => []
    | s' =>
      match readBinding s' with
      | .ok (some binding, rest) => binding :: readAll fuel rest
      | .ok (none, rest) => readAll fuel rest
      | .error rest => readAll fuel ((rest.dropWhile (· != '\n')).drop 1)

def dropMark : List Char → List Char
  | [] => []
  | c :: rest => if c = byteOrderMark then rest else c :: rest

def bindings (text : List Char) : List Binding :=
  let s := unifyLines (dropMark text)
  readAll (s.length + 1) s

/-! ## Variables in values -/

/-- A variable in braces behind a dollar sign: its name, the text that stands for it when
it has no value, and what follows. -/
def reference? (s : List Char) : Option (List Char × List Char × List Char) :=
  let isEnd := fun c : Char => c == '\x7d' || c == ':'
  let name := s.takeWhile (!isEnd ·)
  match s.dropWhile (!isEnd ·) with
  | '\x7d' :: rest => some (name, [], rest)
  | ':' :: '-' :: rest =>
    match rest.dropWhile (· != '\x7d') with
    | _ :: rest' => some (name, rest.takeWhile (· != '\x7d'), rest')
    | [] => none
  | _ => none

/-- The value with the references in it replaced; `fuel` bounds the length. -/
def expand (value? : List Char → Option (List Char)) : Nat → List Char → List Char
  | 0, s => s
  | _, [] => []
  | fuel + 1, '$' :: '\x7b' :: rest =>
    match reference? rest with
    | some (name, otherwise, rest') => (value? name).getD otherwise ++ expand value? fuel rest'
    | none => '$' :: expand value? fuel ('\x7b' :: rest)
  | fuel + 1, c :: rest => c :: expand value? fuel rest

def references : Nat → List Char → List (List Char)
  | 0, _ => []
  | _, [] => []
  | fuel + 1, '$' :: '\x7b' :: rest =>
    match reference? rest with
    | some (name, _, rest') => name :: references fuel rest'
    | none => references fuel ('\x7b' :: rest)
  | fuel + 1, _ :: rest => references fuel rest

def names (text : String) : List String :=
  (bindings text.toList).flatMap fun b =>
    let value := b.2.getD []
    (b.1 :: references (value.length + 1) value).map String.ofList

/-- What is bound so far, a name without a value standing for itself. -/
abbrev Bound := Ordered String (Option String)

/-- The value of a variable: that of the environment, else that of a binding so far. -/
def valueOf (env : Environment) (bound : Bound) (name : List Char) : Option (List Char) :=
  match List.lookup (String.ofList name) env with
  | some v => some v.toList
  | none => (List.lookup (String.ofList name) bound).map fun v => (v.getD "").toList

def bind (env : Environment) (bound : Bound) (b : Binding) : Bound :=
  let value := b.2.map fun v => String.ofList (expand (valueOf env bound) (v.length + 1) v)
  bound.put (String.ofList b.1) value

def complaint? (b : String × String) : Option String :=
  if b.1.toList.contains '\x00' || b.2.toList.contains '\x00' then some "embedded null byte"
  else if b.1.toList.contains '=' then some "illegal environment variable name"
  else none

def disabler : String := "PYTHON_DOTENV_DISABLED"

/-- The values of that variable that do so, in any case. -/
def disablingWords : List String := ["1", "true", "t", "yes", "y"]

/-- A text without its case, as far as ASCII is concerned: besides what has ASCII in its
lower case the long s counts as an s. -/
def withoutCase (s : String) : String :=
  String.ofList ((lower s.toList).map fun c => if c.toNat = 0x17F then 's' else c)

/-- The environment keeps the file from being used. -/
def isDisabled (env : Environment) : Bool :=
  match List.lookup disabler env with
  | some v => disablingWords.contains (withoutCase v)
  | none => false

def missing (env : Environment) (text : String) : Environment :=
  let bound : Bound := (bindings text.toList).foldl (bind env) []
  bound.filterMap fun b =>
    if (List.lookup b.1 env).isSome then none else b.2.map (b.1, ·)

/-- The environment with the variables of a file added; it keeps what it has. -/
def extend (env : Environment) (text : String) : Except Fault Environment :=
  if isDisabled env then .ok env
  else
    match (missing env text).findSome? complaint? with
    | some complaint => .error (.badValue complaint)
    | none => .ok (env ++ missing env text)

end DesignMarkup.EnvFile
