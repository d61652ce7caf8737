import DesignMarkup.Value.Basic
import DesignMarkup.Decimal.Reading
import DesignMarkup.Text.Encoding
import DesignMarkup.Text.Quoted

/-!
# Values as JSON

`Json.read` reads the text of a value and `Json.write` writes one. A number without a
point and an exponent is a whole number, any other one a double. When a text is no JSON,
the fault says what was expected and how much of the text was left.
-/

namespace DesignMarkup

/-- Why a text is no JSON; `left` counts the characters from the offending one to the end. -/
inductive JsonFault
  | expectingValue (left : Nat)
  | expectingName (left : Nat)
  | expectingColon (left : Nat)
  | expectingComma (left : Nat)
  | unterminated (left : Nat)
  | control (left : Nat)
  | badEscape (left : Nat)
  | badCodePoint (left : Nat)
  /-- A byte order mark stands in front. -/
  | marked (left : Nat)
  | extraData (left : Nat)
  /-- A whole number with more digits than are read. -/
  | tooManyDigits (count : Nat)
deriving DecidableEq, Repr

namespace Json

/-! ## Reading -/

/-- A reader takes a part off the front of a text. -/
abbrev Reader (α : Type) := List Char → Except JsonFault (α × List Char)

/-- The text behind its leading blanks, of which JSON knows four. -/
def skipBlanks (s : List Char) : List Char :=
  s.dropWhile fun c => c == ' ' || c == '\t' || c == '\n' || c == '\r'

def after? (word : String) (s : List Char) : Option (List Char) :=
  word.toList.isPrefixOf? s

def hexValue? (c : Char) : Option Nat :=
  if '0' ≤ c ∧ c ≤ '9' then some (c.toNat - 48)
  else if 'a' ≤ c ∧ c ≤ 'f' then some (c.toNat - 87)
  else if 'A' ≤ c ∧ c ≤ 'F' then some (c.toNat - 55)
  else none

/-- Four hexadecimal digits and what follows them, which must not be nothing. -/
def fourHex? : List Char → Option (Nat × List Char)
  | a :: b :: c :: d :: next :: rest => do
    let n := (← hexValue? a) * 4096 + (← hexValue? b) * 256 + (← hexValue? c) * 16 + (← hexValue? d)
    pure (n, next :: rest)
  | _ => none

/-- The character that a pair of units stands for when the first is a high surrogate and
a low one follows; else that of the first alone. -/
def joinUnits (unit : Nat) (rest : List Char) : Char × List Char :=
  if 0xD800 ≤ unit ∧ unit < 0xDC00 then
    match rest with
    | '\\' :: 'u' :: more =>
      match fourHex? more with
      | some (low, rest') =>
        if 0xDC00 ≤ low ∧ low < 0xE000 then
          (Char.ofNat (0x10000 + (unit - 0xD800) * 1024 + (low - 0xDC00)), rest')
        else (Text.lone unit, rest)
      | none => (Text.lone unit, rest)
    | _ => (Text.lone unit, rest)
  else if 0xDC00 ≤ unit ∧ unit < 0xE000 then (Text.lone unit, rest)
  else (Char.ofNat unit, rest)

def escaped? : Char → Option Char
  | '"' => some '"'
  | '\\' => some '\\'
  | '/' => some '/'
  | 'b' => some '\x08'
  | 'f' => some '\x0c'
  | 'n' => some '\n'
  | 'r' => some '\r'
  | 't' => some '\t'
  | _ => none

/-- The characters of a text behind its opening quote. `start` is what was left at that quote. -/
def textBody (start : Nat) : Nat → List Char → List Char → Except JsonFault (String × List Char)
  | 0, _, _ => .error (.unterminated start)
  | _, _, [] => .error (.unterminated start)
  | _ + 1, done, '"' :: rest => .ok (String.ofList done.reverse, rest)
  | fuel + 1, done, '\\' :: rest =>
    match rest with
    | [] => .error (.unterminated start)
    | 'u' :: more =>
      match fourHex? more with
      | some (unit, rest') =>
        let (c, rest'') := joinUnits unit rest'
        textBody start fuel (c :: done) rest''
      | none => .error (.badCodePoint rest.length)
    | c :: more =>
      match escaped? c with
      | some c' => textBody start fuel (c' :: done) more
      | none => .error (.badEscape (rest.length + 1))
  | fuel + 1, done, c :: rest =>
    if c.toNat < 0x20 then .error (.control (rest.length + 1))
    else textBody start fuel (c :: done) rest

def readText (s : List Char) : Except JsonFault (String × List Char) :=
  textBody (s.length + 1) (s.length + 1) [] s

def splitDigits (s : List Char) : List Char × List Char := s.span Char.isDigit

def splitFraction (s : List Char) : Option (List Char) × List Char :=
  match s with
  | '.' :: rest =>
    match splitDigits rest with
    | ([], _) => (none, s)
    | (ds, rest') => (some ds, rest')
  | _ => (none, s)

def splitExponent (s : List Char) : Option Int × List Char :=
  match s with
  | [] => (none, s)
  | c :: rest =>
    if c == 'e' || c == 'E' then
      let (negative, digits) := Decimal.splitSign rest
      match splitDigits digits with
      | ([], _) => (none, s)
      | (ds, rest') =>
        let n : Int := Nat.ofDigitChars 10 ds 0
        (some (if negative then -n else n), rest')
    else (none, s)

/-- A number behind its sign. A leading zero stands alone. -/
def readNumber (left : Nat) (negative : Bool) (s : List Char) : Except JsonFault (Value × List Char) :=
  let (ds, rest) :=
    match s with
    | '0' :: rest => (['0'], rest)
    | _ => splitDigits s
  match ds with
  | [] => .error (.expectingValue left)
  | _ =>
    let (fraction, rest') := splitFraction rest
    let (exponent, rest'') := splitExponent rest'
    match fraction, exponent with
    | none, none =>
      if ds.length ≤ Decimal.maxDigits then
        let n : Int := Nat.ofDigitChars 10 ds 0
        .ok (.whole (if negative then -n else n), rest'')
      else .error (.tooManyDigits ds.length)
    | _, _ =>
      let fs := fraction.getD []
      let size := Decimal.nearest (Nat.ofDigitChars 10 (ds ++ fs) 0) (exponent.getD 0 - fs.length)
      .ok (.double (if negative then -size else size), rest'')

/-- Replaces the member of a name where it stands, or adds it at the end. -/
def setMember (name : String) (v : Value) : Members → Members
  | [] => [(name, v)]
  | (n, w) :: rest => if n == name then (n, v) :: rest else (n, w) :: setMember name v rest

mutual

def readValue : Nat → List Char → Except JsonFault (Value × List Char)
  | 0, s => .error (.expectingValue s.length)
  | fuel + 1, s =>
    match s with
    | '"' :: rest => do
      let (t, rest') ← readText rest
      pure (.text t, rest')
    | '[' :: rest =>
      match skipBlanks rest with
      | ']' :: rest' => .ok (.list [], rest')
      | rest' => do
        let (items, rest'') ← readItems fuel [] rest'
        pure (.list items, rest'')
    | '\x7b' :: rest =>
      match skipBlanks rest with
      | '\x7d' :: rest' => .ok (.object [], rest')
      | rest' => do
        let (members, rest'') ← readMembers fuel [] rest'
        pure (.object members, rest'')
    | '-' :: rest =>
      match after? "Infinity" rest with
      | some rest' => .ok (.double (-Double.infinity), rest')
      | none => readNumber s.length true rest
    | _ =>
      match after? "null" s, after? "true" s, after? "false" s, after? "NaN" s, after? "Infinity" s with
      | some rest, _, _, _, _ => .ok (.null, rest)
      | _, some rest, _, _, _ => .ok (.bool true, rest)
      | _, _, some rest, _, _ => .ok (.bool false, rest)
      | _, _, _, some rest, _ => .ok (.double Double.undefinedValue, rest)
      | _, _, _, _, some rest => .ok (.double Double.infinity, rest)
      | _, _, _, _, _ => readNumber s.length false s

def readItems : Nat → List Value → List Char → Except JsonFault (List Value × List Char)
  | 0, _, s => .error (.expectingValue s.length)
  | fuel + 1, done, s => do
    let (v, rest) ← readValue fuel s
    match skipBlanks rest with
    | ']' :: rest' => pure ((v :: done).reverse, rest')
    | ',' :: rest' => readItems fuel (v :: done) (skipBlanks rest')
    | rest' => .error (.expectingComma rest'.length)

/-- The members of an object up to its closing brace; at least one. Of two members with
one name the later replaces the earlier where that stands. -/
def readMembers : Nat → Members → List Char → Except JsonFault (Members × List Char)
  | 0, _, s => .error (.expectingName s.length)
  | fuel + 1, done, s =>
    match s with
    | '"' :: rest => do
      let (name, rest') ← readText rest
      match skipBlanks rest' with
      | ':' :: rest'' => do
        let (v, more) ← readValue fuel (skipBlanks rest'')
        match skipBlanks more with
        | '\x7d' :: more' => pure (setMember name v done, more')
        | ',' :: more' => readMembers fuel (setMember name v done) (skipBlanks more')
        | more' => .error (.expectingComma more'.length)
      | rest'' => .error (.expectingColon rest''.length)
    | _ => .error (.expectingName s.length)

end

def read (s : List Char) : Except JsonFault Value := do
  if s.head?.isEqSome Text.byteOrderMark then throw (.marked s.length)
  let (v, rest) ← readValue (2 * s.length + 2) (skipBlanks s)
  match skipBlanks rest with
  | [] => pure v
  | rest' => .error (.extraData rest'.length)

/-! ## What was wrong -/

/-- The words for a fault, and how much of the text was left at it. -/
def complaint : JsonFault → String × Nat
  | .expectingValue n => ("Expecting value", n)
  | .expectingName n => ("Expecting property name enclosed in double quotes", n)
  | .expectingColon n => ("Expecting ':' delimiter", n)
  | .expectingComma n => ("Expecting ',' delimiter", n)
  | .unterminated n => ("Unterminated string starting at", n)
  | .control n => ("Invalid control character at", n)
  | .badEscape n => ("Invalid \\escape", n)
  | .badCodePoint n => ("Invalid \\uXXXX escape", n)
  | .marked n => ("Unexpected UTF-8 BOM (decode using utf-8-sig)", n)
  | .extraData n => ("Extra data", n)
  | .tooManyDigits _ => ("", 0)

/-- The message for a fault in a text, with the line, the column and the offset of the place. -/
def message (s : List Char) (fault : JsonFault) : String :=
  let (words, left) := complaint fault
  let before := s.take (s.length - left)
  let line := before.count '\n' + 1
  let column := (before.reverse.takeWhile (· != '\n')).length + 1
  words ++ ": line " ++ toString line ++ " column " ++ toString column
    ++ " (char " ++ toString before.length ++ ")"

/-! ## Writing -/

def unitEscape (n : Nat) : List Char := '\\' :: 'u' :: Text.hex 4 n

/-- A character of a text; whatever is not ASCII is written by its 16-bit units. -/
def escapeChar (c : Char) : List Char :=
  if c == '"' then ['\\', '"']
  else if c == '\\' then ['\\', '\\']
  else if c == '\n' then ['\\', 'n']
  else if c == '\r' then ['\\', 'r']
  else if c == '\t' then ['\\', 't']
  else if c.toNat = 0x08 then ['\\', 'b']
  else if c.toNat = 0x0C then ['\\', 'f']
  else if 0x20 ≤ c.toNat ∧ c.toNat < 0x7F then [c]
  else if c.toNat < 0x10000 then unitEscape c.toNat
  else
    match Text.surrogate? c with
    | some unit => unitEscape unit
    | none =>
      unitEscape (0xD800 + (c.toNat - 0x10000) / 1024)
        ++ unitEscape (0xDC00 + (c.toNat - 0x10000) % 1024)

def writeText (s : String) : String := String.ofList ('"' :: s.toList.flatMap escapeChar ++ ['"'])

def writeNumber : Number → String
  | .whole n => (Number.whole n).plain
  | .double x =>
    if Double.isUndefined x then "NaN"
    else if Double.isFinite x then (Number.double x).plain
    else if Double.isNegative x then "-Infinity"
    else "Infinity"

mutual

def write : Value → String
  | .null => "null"
  | .bool b => if b then "true" else "false"
  | .number n => writeNumber n
  | .text s => writeText s
  | .list items => "[" ++ writeItems items ++ "]"
  | .object members => "\x7b" ++ writeMembers members ++ "\x7d"

def writeItems : List Value → String
  | [] => ""
  | [v] => write v
  | v :: w :: rest => write v ++ ", " ++ writeItems (w :: rest)

def writeMembers : List (String × Value) → String
  | [] => ""
  | [(name, v)] => writeText name ++ ": " ++ write v
  | (name, v) :: m :: rest => writeText name ++ ": " ++ write v ++ ", " ++ writeMembers (m :: rest)

end

end Json

end DesignMarkup
