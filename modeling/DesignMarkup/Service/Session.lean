import DesignMarkup.Failure
import DesignMarkup.Value.Json
import DesignMarkup.Value.Numeral

/-!
# Sessions

A session with the service sends requests and gets outcomes. The outcomes that the
network has in store are a list, taken from the front; what was sent, how long was
waited and what was reported is kept beside it, whether or not the session succeeds.
-/

namespace DesignMarkup

/-! ## Requests and responses -/

inductive Payload
  /-- Parameters for the query, null when there are none. -/
  | query (params : Value)
  /-- The fields of a form. -/
  | form (fields : Members)

structure Request where
  method : String
  url : Value
  headers : Members
  payload : Payload
  timeout : Value

inductive Body
  | json (v : Value)
  | text (s : String)

structure Response where
  status : Int
  headers : Members
  body : Body

namespace Response

/-- The status is no error. -/
def isOk (r : Response) : Bool := !(decide (400 ≤ r.status) && decide (r.status < 600))

def text (r : Response) : String :=
  match r.body with
  | .json v => Json.write v
  | .text s => s

def json (r : Response) : Except Failure Value :=
  match r.body with
  | .json v => .ok v
  | .text s =>
    match Json.read s.toList with
    | .ok v => .ok v
    | .error (.tooManyDigits n) =>
      .error (.data (.badValue (Value.tooManyDigitsRead n)))
    | .error fault => .error (.notJson (Json.message s.toList fault))

/-- A header by its name, in whatever case it is written; of several the last. -/
def header? (r : Response) (name : String) : Option Value :=
  (r.headers.reverse.find? fun h => h.1.toLower == name.toLower).map (·.2)

end Response

inductive Outcome
  | answered (r : Response)
  /-- The network failed; trying again may help. -/
  | unreachable (kind message : String)
  /-- Something else failed. -/
  | broken (f : Failure)

/-! ## Reports -/

inductive Level
  | info
  | warning
  | error
deriving DecidableEq, Repr

/-- A line of the log: its text, or what keeps the log from writing it. -/
structure LogLine where
  level : Level
  text : Except Fault String

/-! ## Sessions -/

/-- The outcomes to come, and what has happened so far. -/
structure Wire where
  outcomes : List Outcome
  requests : List Request
  waits : List Value
  log : List LogLine

/-- A wire on which nothing has happened. -/
def Wire.fresh (outcomes : List Outcome) : Wire :=
  { outcomes := outcomes, requests := [], waits := [], log := [] }

/-- A computation on a wire. What it did to the wire stays when it fails. -/
abbrev Session (α : Type) := ExceptT Failure (StateM Wire) α

namespace Session

variable {α : Type}

def on (s : Session α) (w : Wire) : Except Failure α × Wire := s.run.run w

def fail (f : Failure) : Session α := throw f

/-- A step that uses no wire. -/
def check (x : Except Failure α) : Session α :=
  match x with
  | .ok a => pure a
  | .error f => throw f

def data (x : Except Fault α) : Session α := check (orFail x)

/-- Reports something. A text that cannot be made is the log's concern: the session goes on. -/
def report (level : Level) (text : Except Fault String) : Session Unit :=
  modify fun w => { w with log := w.log ++ [{ level := level, text := text }] }

def wait (v : Value) : Session Unit := modify fun w => { w with waits := w.waits ++ [v] }

/-- Sends a request and takes the next outcome. -/
def send (r : Request) : Session Outcome := do
  let w ← get
  match w.outcomes with
  | [] =>
    set { w with requests := w.requests ++ [r] }
    fail .silence
  | o :: rest =>
    set { w with outcomes := rest, requests := w.requests ++ [r] }
    pure o

end Session

end DesignMarkup
