import DesignMarkup.Value.Plain

/-!
# Failures

Why an import, a conversion or a request came to nothing, and the message for each cause.
-/

namespace DesignMarkup

inductive Missing
  | node (id : String)
  | page
  | frame
deriving DecidableEq, Repr

inductive FileFault
  /-- The directory has no name. -/
  | nowhere
  /-- A file has the name of the directory. -/
  | fileInTheWay
  /-- A part of the path is a file. -/
  | throughFile
  /-- A directory has the name of the file. -/
  | directoryInTheWay
  /-- A name that no file can have. -/
  | unnameable
  /-- A name that is too long for a file, or a text that is too long to name one. -/
  | longName
deriving DecidableEq, Repr

inductive Failure
  /-- Data that cannot be used. -/
  | data (fault : Fault)
  /-- There is no access token. -/
  | noToken
  /-- There are no client credentials. -/
  | noCredentials
  /-- There is no client identifier. -/
  | noClientId
  /-- The service answered with an error status. -/
  | refused (status : Int) (body : String)
  /-- The address is no share link. -/
  | noShareLink
  /-- The file does not hold what was asked for. -/
  | notFound (what : Missing)
  /-- The design has more levels than are allowed. -/
  | tooDeep (depth : Nat) (limit : Value)
  /-- The request did not get through. -/
  | network (kind message : String)
  /-- The body of a response is no JSON. -/
  | notJson (message : String)
  /-- The system failed. -/
  | system (message : String)
  /-- No response was left to be had. -/
  | silence
  /-- A file could not be written. -/
  | file (fault : FileFault)
  /-- A text could not be encoded. -/
  | unencodable

namespace Failure

def missingMessage : Missing → String
  | .node id => "Node " ++ id ++ " not found in Figma file"
  | .page => "No pages found in Figma file"
  | .frame => "No frames found on the first page. Please select a specific frame."

/-- The message for a failure; data faults other than bad values and faults of files have none. -/
def message : Failure → String
  | data (.badValue reason) => reason
  | data _ => ""
  | noToken => "Figma access token is not configured. Pass a token or set FIGMA_ACCESS_TOKEN."
  | noCredentials =>
    "Figma OAuth credentials not configured. Set FIGMA_CLIENT_ID and FIGMA_CLIENT_SECRET."
  | noClientId => "FIGMA_CLIENT_ID not configured"
  | refused status body => "Figma API error: " ++ (Number.whole status).plain ++ " - " ++ body
  | noShareLink => "Invalid Figma URL. Please provide a valid Figma file or frame link."
  | notFound what => missingMessage what
  | tooDeep depth limit =>
    "Design tree depth " ++ (Number.whole depth).plain ++ " exceeds the limit of " ++ limit.plain
  | network _ text => text
  | notJson text => text
  | system text => text
  | silence => ""
  | file _ => ""
  | unencodable => ""

/-- A failure of the service, of the network or of a setting, which an import can survive
where it concerns images alone. -/
def isReported : Failure → Bool
  | noToken | noCredentials | noClientId | refused _ _ | noShareLink | notFound _ | tooDeep _ _
  | network _ _ | notJson _ => true
  | _ => false

/-- A failure that the command line reports in words: one that is reported anyway, or a
value that is no good. -/
def isExplained : Failure → Bool
  | data (.badValue _) => true
  | f => f.isReported

end Failure

def orFail {α : Type} (x : Except Fault α) : Except Failure α := x.mapError Failure.data

end DesignMarkup
