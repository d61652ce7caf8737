import DesignMarkup.Service.Session
import DesignMarkup.Value.Arithmetic

/-!
# Recordings

Outcomes of requests as values, so that a session can be held on what was recorded
before. A response is recorded as an object with its status, its headers, and its body
either as a value or as a text. An outcome is a response, or an object that says why
there is none.
-/

namespace DesignMarkup

def Response.defaultStatus : Int := 200

def Response.statusOf (v : Value) : Int :=
  match v.number? with
  | some (.whole n) => n
  | _ => Response.defaultStatus

def Response.headersOf (v : Value) : Members :=
  match v with
  | .object ms => ms
  | _ => []

def Response.ofMembers (ms : Members) : Response where
  status := statusOf (Members.get ms "status")
  headers := headersOf (Members.get ms "headers")
  body :=
    match ms.lookup "json" with
    | some v => .json v
    | none => .text (Members.getOr ms "text" (.text "")).plain

def Outcome.ofMembers (ms : Members) : Outcome :=
  match ms.lookup "unreachable" with
  | some kind => .unreachable kind.plain (Members.getOr ms "message" (.text "")).plain
  | none => .answered (Response.ofMembers ms)

/-- A line of a recording. A line that is no object records a silent network. -/
def Outcome.ofLine (line : String) : Outcome :=
  match Json.read line.toList with
  | .ok (.object ms) => ofMembers ms
  | _ => .broken .silence

/-- A recording, one outcome a line; blank lines say nothing. -/
def Outcome.ofLines (lines : List String) : List Outcome :=
  (lines.filter fun line => !(line.toList.all Text.isBlank)).map ofLine

end DesignMarkup
