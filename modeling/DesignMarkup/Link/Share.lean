import DesignMarkup.Link.Address
import DesignMarkup.Naming
import DesignMarkup.Value.Basic

/-!
# Share links

A share link names a file and perhaps a node of it. The key of the file stands in the
path behind `/file/` or `/design/`; the node stands in the query, with dashes where its
identifier has colons. Parameters behind the last path segment need no treatment: a
semicolon ends a key anyway.
-/

namespace DesignMarkup

structure ShareLink where
  fileKey : String
  nodeId : Option String
deriving DecidableEq, Repr

namespace ShareLink

open Text

def serviceHost : List Char := "figma.com".toList

/-- What stands before the key of a file. -/
def keyIntroductions : List (List Char) := ["/file/".toList, "/design/".toList]

def isKeyChar (c : Char) : Bool := decide (c.toNat < 128) && c.isAlphanum

def keyHere? (path : List Char) : Option (List Char) :=
  keyIntroductions.findSome? fun intro =>
    match intro.isPrefixOf? path with
    | some rest =>
      let key := rest.takeWhile isKeyChar
      if key.isEmpty then none else some key
    | none => none

/-- The leftmost key in a path. -/
def findKey? : List Char → Option (List Char)
  | [] => none
  | c :: rest =>
    match keyHere? (c :: rest) with
    | some key => some key
    | none => findKey? rest

def nodeField : List Char := "node-id".toList

/-- The identifier of a node as it is outside addresses. -/
def nodeIdOf (s : List Char) : String := String.ofList (s.map fun c => if c = '-' then ':' else c)

def ofAddress? (a : Address) : Option ShareLink :=
  if Naming.occursIn serviceHost a.host then
    (findKey? a.path).map fun key =>
      { fileKey := String.ofList key
        nodeId := ((formFields a.query).lookup nodeField).map nodeIdOf }
  else none

def ofText? (s : String) : Option ShareLink := do ofAddress? (← Address.ofText? s.toList)

/-- The link that a value is; a value that does not count as present is none. -/
def ofValue? (v : Value) : Except Fault (Option ShareLink) :=
  if v.isPresent then v.text?.map ofText? else .ok none

end ShareLink

end DesignMarkup
