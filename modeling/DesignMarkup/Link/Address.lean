import DesignMarkup.Text.Form

/-!
# Addresses

An address in its parts: host, path and query. Blanks and control characters in front
and tabs and line breaks anywhere are dropped first. An address is refused when its
authority has unpaired brackets, brackets around what is no address of the sixth
version of the protocol or later, or a character that another writing would turn
into a delimiter.
-/

namespace DesignMarkup

/-- The parts of an address that a share link is found by. The host is in lower case up
to a percent sign. -/
structure Address where
  host : List Char
  path : List Char
  query : List Char
deriving DecidableEq, Repr

namespace Address

open Text

/-! ## Hosts in brackets -/

def isGroup (s : List Char) : Bool :=
  !s.isEmpty && decide (s.length ≤ 4) && s.all fun c => (hexDigit? c).isSome

/-- A decimal number from 0 to 255 without leading zeros. -/
def isOctet (s : List Char) : Bool :=
  !s.isEmpty && decide (s.length ≤ 3) && s.all Char.isDigit
    && (s == ['0'] || !s.head?.isEqSome '0') && decide (Nat.ofDigitChars 10 s 0 ≤ 255)

def isOctets (s : List Char) : Bool :=
  let parts := splitAll '.' s
  parts.length == 4 && parts.all isOctet

def expandOctets (parts : List (List Char)) : Option (List (List Char)) :=
  match parts.getLast? with
  | some last =>
    if last.contains '.' then
      if isOctets last then some (parts.dropLast ++ [['0'], ['0']]) else none
    else some parts
  | none => some parts

def innerGaps (parts : List (List Char)) : Nat := parts.dropLast.tail.countP (·.isEmpty)

/-- The parts between colons make up eight groups, or fewer with one gap that stands for
the missing ones. A part at an end is empty only beside the gap. -/
def isGroups (parts : List (List Char)) : Bool :=
  let groups := parts.filter (!·.isEmpty)
  groups.all isGroup &&
    if innerGaps parts == 0 then parts.length == 8 && groups.length == 8
    else innerGaps parts == 1 && decide (groups.length ≤ 7)
      && (!parts.head?.isEqSome [] || parts.tail.head?.isEqSome [])
      && (!parts.getLast?.isEqSome [] || parts.dropLast.getLast?.isEqSome [])

/-- An address of the sixth version, with or without a zone behind a percent sign. -/
def isSixth (s : List Char) : Bool :=
  let (address, zone) := splitFirst '%' s
  let zoneFits :=
    match zone with
    | none => true
    | some z => !z.isEmpty && !z.contains '%'
  let parts := splitAll ':' address
  zoneFits && decide (3 ≤ parts.length) &&
    match expandOctets parts with
    | some parts => isGroups parts
    | none => false

/-- An address of a later version: a `v`, hexadecimal digits, a point, and more. -/
def isLater (s : List Char) : Bool :=
  match s with
  | 'v' :: rest =>
    let digits := rest.takeWhile fun c => (hexDigit? c).isSome
    let more := rest.dropWhile fun c => (hexDigit? c).isSome
    !digits.isEmpty && more.head?.isEqSome '.' && decide (2 ≤ more.length)
  | _ => false

def isBracketed (s : List Char) : Bool :=
  if s.head?.isEqSome 'v' then isLater s else isSixth s

/-! ## Authorities -/

/-- Characters whose compatibility form holds one of `/`, `?`, `#`, `@` and `:`. -/
def delimiterLikes : List Nat :=
  [0x2047, 0x2048, 0x2049, 0x2100, 0x2101, 0x2105, 0x2106, 0x2A74, 0xFE13, 0xFE16, 0xFE55,
   0xFE56, 0xFE5F, 0xFE6B, 0xFF03, 0xFF0F, 0xFF1A, 0xFF1F, 0xFF20]

def betweenBrackets (s : List Char) : List Char :=
  (splitFirst ']' ((splitFirst '[' s).2.getD [])).1

def behindBrackets (s : List Char) : List Char :=
  (splitFirst ']' ((splitFirst '[' s).2.getD [])).2.getD []

/-- The place in an authority with brackets: nothing but a port stands beside them. Where
only the user has brackets the host must be what may stand in some. -/
def isBracketedPlace (place : List Char) : Bool :=
  if place.contains '[' then
    place.head?.isEqSome '[' && isBracketed (betweenBrackets place)
      && ((behindBrackets place).isEmpty || (behindBrackets place).head?.isEqSome ':')
  else isBracketed (splitFirst ':' place).1

def isAuthority (s : List Char) : Bool :=
  (s.contains '[' == s.contains ']')
    && (!s.contains '[' || isBracketedPlace (afterLast '@' s))
    && s.all fun c => !delimiterLikes.contains c.toNat

/-- Lower case up to a percent sign. -/
def lowerHost (s : List Char) : List Char :=
  (s.takeWhile (· != '%')).map Char.toLower ++ s.dropWhile (· != '%')

/-- The host of an authority: what follows the user, without brackets and port. -/
def hostOf (authority : List Char) : List Char :=
  let place := afterLast '@' authority
  if place.contains '[' then lowerHost (betweenBrackets place)
  else lowerHost (splitFirst ':' place).1

/-! ## Splitting -/

/-- The address without leading blanks and controls and without tabs and line breaks. -/
def clean (s : List Char) : List Char :=
  (s.dropWhile fun c => decide (c.toNat ≤ 0x20)).filter fun c => c != '\t' && c != '\r' && c != '\n'

def isSchemeChar (c : Char) : Bool :=
  (decide (c.toNat < 128) && c.isAlphanum) || c == '+' || c == '-' || c == '.'

def afterScheme (s : List Char) : List Char :=
  match splitFirst ':' s with
  | (scheme, some rest) =>
    if scheme.head?.any Char.isAlpha && scheme.all isSchemeChar then rest else s
  | _ => s

def endsAuthority (c : Char) : Bool := c == '/' || c == '?' || c == '#'

/-- The authority and what follows it; without two slashes there is none. -/
def splitAuthority (s : List Char) : List Char × List Char :=
  match s with
  | '/' :: '/' :: rest =>
    (rest.takeWhile (!endsAuthority ·), rest.dropWhile (!endsAuthority ·))
  | _ => ([], s)

def ofText? (s : List Char) : Option Address :=
  let (authority, rest) := splitAuthority (afterScheme (clean s))
  if isAuthority authority then
    let (path, query) := splitFirst '?' (splitFirst '#' rest).1
    some { host := hostOf authority, path := path, query := query.getD [] }
  else none

end Address

end DesignMarkup
