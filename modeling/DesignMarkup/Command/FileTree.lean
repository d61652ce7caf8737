import DesignMarkup.Failure
import DesignMarkup.Ordered

/-!
# File trees

The files that a command finds and leaves: texts at paths. A path is the list of its
segments, without empty ones and dots. It starts where the command runs; one that leads
upwards from there, or that starts at the root, leads outside. Every proper start of a
file's path is a directory; others are kept in a list of their own.
-/

namespace DesignMarkup

/-- A path as its segments. -/
abbrev Path := List String

structure FileTree where
  files : Ordered Path String
  directories : List Path
deriving DecidableEq, Repr

namespace FileTree

def root : String := "/"

def upwards : String := ".."

/-- Follows a segment from a path. Upwards from where nothing is above stays in the path,
and nothing is above the root. -/
def follow (path : Path) (segment : String) : Path :=
  if segment == "." then path
  else if segment == upwards then
    match path.getLast? with
    | none => [upwards]
    | some last =>
      if last == upwards then path ++ [upwards]
      else if last == root then path
      else path.dropLast
  else path ++ [segment]

def segments (text : String) : List String := (text.splitToList (· == '/')).filter (!·.isEmpty)

def startOf (text : String) : Path := if text.startsWith "/" then [root] else []

def pathOf (text : String) : Path := (segments text).foldl follow (startOf text)

def pathText : Path → String
  | [] => "."
  | first :: rest =>
    if first == root then root ++ "/".intercalate rest else "/".intercalate (first :: rest)

/-- A path with a name put behind a text that names a directory. -/
def join (directory name : String) : String :=
  if directory.endsWith "/" then directory ++ name else directory ++ "/" ++ name

/-- A segment of a text that names a path, and how many bytes the text has up to the
segment's end. -/
structure Step where
  segment : String
  extent : Nat
deriving DecidableEq, Repr

def stepsThrough (before : Nat) : List String → List Step
  | [] => []
  | piece :: rest =>
    let extent := before + piece.utf8ByteSize
    if piece.isEmpty then stepsThrough (extent + 1) rest
    else { segment := piece, extent := extent } :: stepsThrough (extent + 1) rest

/-- The steps with the last one reaching to a given number of bytes. -/
def extendLast (extent : Nat) : List Step → List Step
  | [] => []
  | [last] => [{ last with extent := extent }]
  | step :: next :: rest => step :: extendLast extent (next :: rest)

/-- The steps along a text that names a path. Slashes at its end belong to the last one. -/
def steps (text : String) : List Step :=
  extendLast text.utf8ByteSize (stepsThrough 0 (text.splitToList (· == '/')))

def hasFile (t : FileTree) (path : Path) : Bool := (List.lookup path t.files).isSome

def hasDirectory (t : FileTree) (path : Path) : Bool :=
  path.isEmpty || t.directories.contains path
    || t.files.any fun f => path.isPrefixOf f.1 && decide (path.length < f.1.length)

/-- No name of a file has more bytes. -/
def longestName : Nat := 255

/-- No text that names a path has more bytes. -/
def longestText : Nat := 4095

/-- What keeps a step from being taken, whatever there is. -/
def Step.fault? (s : Step) : Option FileFault :=
  if s.segment.toList.contains '\x00' then some .unnameable
  else if longestText < s.extent then some .longName
  else none

/-- A file stands where a path was to be followed on. A step that cannot be taken at all is
refused for that. -/
def blocked (rest : List Step) : FileFault :=
  match rest with
  | [] => .fileInTheWay
  | next :: _ => next.fault?.getD .throughFile

/-- Makes the directories that are passed when steps are taken from a path. -/
def makeAlong (t : FileTree) (path : Path) : List Step → Except FileFault FileTree
  | [] => .ok t
  | s :: rest =>
    let path' := follow path s.segment
    match s.fault? with
    | some fault => .error fault
    | none =>
      if longestName < s.segment.utf8ByteSize then .error .longName
      else if t.hasFile path' then .error (blocked rest)
      else if t.directories.contains path' then makeAlong t path' rest
      else makeAlong { t with directories := t.directories ++ [path'] } path' rest

/-- Makes a directory and those that are passed on the way to it. -/
def makeDirectory (t : FileTree) (text : String) : Except FileFault FileTree :=
  if text.isEmpty then .error .nowhere else t.makeAlong (startOf text) (steps text)

/-- Puts a text into the file that a text names, in the place of what it held. -/
def write (t : FileTree) (place text : String) : Except FileFault FileTree :=
  let path := pathOf place
  if longestText < place.utf8ByteSize then .error .longName
  else if t.hasDirectory path then .error .directoryInTheWay
  else .ok { t with files := t.files.put path text }

end FileTree

end DesignMarkup
