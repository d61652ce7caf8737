import DesignMarkup.Command.Arguments
import DesignMarkup.Command.FileTree
import DesignMarkup.Import
import DesignMarkup.Text.Encoding

/-!
# The command

Imports the design that a link names and writes a page and a style sheet into a
directory. Failures that can be put into words are told, and nothing is written then.
-/

namespace DesignMarkup.Command

/-! ## Outcome -/

inductive Ending
  | finished
  | exited (code : Nat)
  | failed (f : Failure)

structure Report where
  ending : Ending
  output : String
  complaints : String
  files : FileTree
  wire : Wire

/-! ## What is written -/

def pageName : String := "output.html"

def styleName : String := "styles.css"

/-- The title of the page: the name of the node, or else that of the file. -/
def titleOf (i : Imported) : Value := i.nodeName.orElse i.fileName

/-! ## Texts that are encoded -/

variable [Encoding]

def encoded (text : String) : Except Failure String :=
  if Encoding.file text then .ok text else .error .unencodable

/-- The text of the page, for which the title has to be a text. -/
def pageText (i : Imported) : Except Failure String := do
  let title ← orFail (titleOf i).text?
  encoded (Page.document i.converted.html none title)

def styleText (i : Imported) : Except Failure String := encoded i.converted.css

/-! ## Writing the result -/

/-- Files, and what keeps them from being as they should. -/
abbrev Writes := FileTree × Option Failure

def thenWrite (w : Writes) (next : FileTree → Writes) : Writes :=
  match w with
  | (t, none) => next t
  | (t, some f) => (t, some f)

def makeRoom (t : FileTree) (directory : String) : Writes :=
  match t.makeDirectory directory with
  | .ok t' => (t', none)
  | .error f => (t, some (.file f))

def putFile (t : FileTree) (place text : String) : Writes :=
  match t.write place text with
  | .ok t' => (t', none)
  | .error f => (t, some (.file f))

/-- Opens a file, which empties it, and puts a text into it. A text that cannot be had leaves the
file empty. -/
def fillFile (t : FileTree) (place : String) (text : Except Failure String) : Writes :=
  thenWrite (putFile t place "") fun t' =>
    -- The text is looked at behind the opening of the file, and so is what keeps it from being had.
    match text with
    | .ok text => putFile t' place text
    | .error f => (t', some f)

/-- Writes the page and the style sheet into a directory. -/
def writeResult (i : Imported) (directory : String) (t : FileTree) : Writes :=
  thenWrite (makeRoom t directory) fun t =>
    thenWrite (fillFile t (FileTree.join directory pageName) (pageText i)) fun t =>
      fillFile t (FileTree.join directory styleName) (styleText i)

/-! ## Telling -/

def opening : String := "Fetching Figma file..."

def apology (f : Failure) : String := "Error importing Figma design: " ++ f.message

def closing (i : Imported) (directory : String) : List String :=
  ["✓ Conversion complete!",
   "  - " ++ FileTree.join directory pageName,
   "  - " ++ FileTree.join directory styleName,
   "\nConverted \"" ++ i.nodeName.plain ++ "\" from " ++ i.fileName.plain]
    ++ (if i.converted.images.isEmpty then []
        else ["Image fills: " ++ (Number.whole i.converted.images.length).plain])

/-- Tells lines, up to the first that the terminal does not take. -/
def tell : List String → String × Option Failure
  | [] => ("", none)
  | line :: rest =>
    if Encoding.terminal line then
      let (told, failure) := tell rest
      (line ++ "\n" ++ told, failure)
    else ("", some .unencodable)

/-! ## Running -/

def optionsOf (a : Arguments) : Options :=
  { Options.standard with
    preserveAutoLayout := !a.noAutoLayout
    convertEffects := !a.noEffects
    useFlexbox := !a.noFlexbox }

/-- The token that arguments or else the settings give. -/
def tokenOf (s : Settings) (a : Arguments) : Value :=
  ((a.token.map Value.text).getD .null).orElse s.accessToken

def importing (s : Settings) (a : Arguments) : Session Imported := do
  let client ← Session.check (Client.create s (tokenOf s a) .null)
  Imported.ofUrl client (.text a.link) (.ok (optionsOf a))

/-- Imports the design and writes what came of it; `told` is what was told before. -/
def deliver (s : Settings) (a : Arguments) (told : String) (files : FileTree) (wire : Wire) :
    Report :=
  match (importing s a).on wire with
  | (.error f, wire') =>
    if f.isExplained then
      let (words, failure) := tell [apology f]
      { ending := failure.elim (.exited 1) .failed, output := told ++ words, complaints := ""
        files := files, wire := wire' }
    else { ending := .failed f, output := told, complaints := "", files := files, wire := wire' }
  | (.ok i, wire') =>
    match writeResult i a.directory files with
    | (files', some f) =>
      { ending := .failed f, output := told, complaints := "", files := files', wire := wire' }
    | (files', none) =>
      let (words, failure) := tell (closing i a.directory)
      { ending := failure.elim .finished .failed, output := told ++ words, complaints := ""
        files := files', wire := wire' }

def perform (s : Settings) (a : Arguments) (files : FileTree) (wire : Wire) : Report :=
  match tell [opening] with
  | (told, some f) =>
    { ending := .failed f, output := told, complaints := "", files := files, wire := wire }
  | (told, none) => deliver s a told files wire

def run (s : Settings) (arguments : List String) (files : FileTree) (wire : Wire) : Report :=
  match readArguments arguments with
  | .ok a => perform s a files wire
  | .error .help =>
    if Encoding.terminal helpText then
      { ending := .exited 0, output := helpText, complaints := "", files := files, wire := wire }
    else
      { ending := .failed .unencodable, output := "", complaints := "", files := files, wire := wire }
  | .error (.fault f) =>
    { ending := .exited 2, output := "", complaints := complaint f, files := files, wire := wire }

end DesignMarkup.Command
