import DesignMarkup.Command.Run
import DesignMarkup.Main.EnvFile
import DesignMarkup.Service.Recording

/-!
# The program

Runs the command where it is started: on its arguments, on the environment and the
environment file found there, and on a recording of the network that comes in on
standard input, one outcome a line. All that is decided is decided by `Command.run`;
here files and texts come in and go out.
-/

namespace DesignMarkup.Program

def environmentFile : String := ".env"

/-- The text of a file, empty where it cannot be read. -/
def contentOrEmpty (name : String) : IO String := do
  try IO.FS.readFile name
  catch _ => pure ""

def environment (names : List String) : IO Environment :=
  names.eraseDups.filterMapM fun name => do pure ((← IO.getEnv name).map (name, ·))

def settings : IO (Except Fault Settings) := do
  let text ← contentOrEmpty environmentFile
  let env ← environment (EnvFile.disabler :: Settings.variableNames ++ EnvFile.names text)
  pure (do Settings.ofEnvironment (← EnvFile.extend env text))

partial def lines (stream : IO.FS.Stream) : IO (List String) := do
  let line ← stream.getLine
  if line.isEmpty then pure [] else do pure (line :: (← lines stream))

def noFiles : FileTree := { files := [], directories := [] }

def save (files : FileTree) : IO Unit := do
  for directory in files.directories do
    IO.FS.createDirAll (FileTree.pathText directory)
  for (path, text) in files.files do
    IO.FS.writeFile (FileTree.pathText path) text

def exitCode : Command.Ending → UInt32
  | .finished => 0
  | .exited code => code.toUInt32
  | .failed _ => 1

/-- The words for a failure that the command does not tell by itself. -/
def lastWords : Command.Ending → String
  | .failed f => "figma-to-html: " ++ f.message ++ "\n"
  | _ => ""

/-- What is told of a line that the log cannot write. -/
def logError : String := "--- Logging error ---"

def runWith (s : Settings) (arguments : List String) : IO UInt32 := do
  let outcomes := Outcome.ofLines (← lines (← IO.getStdin))
  let report := Command.run s arguments noFiles (Wire.fresh outcomes)
  save report.files
  for line in report.wire.log do
    IO.eprintln (line.text.toOption.getD logError)
  IO.print report.output
  IO.eprint (report.complaints ++ lastWords report.ending)
  pure (exitCode report.ending)

end DesignMarkup.Program

def main (arguments : List String) : IO UInt32 := do
  match ← DesignMarkup.Program.settings with
  | .ok s => DesignMarkup.Program.runWith s arguments
  | .error f => do
    IO.eprintln (DesignMarkup.Failure.data f).message
    pure 1
