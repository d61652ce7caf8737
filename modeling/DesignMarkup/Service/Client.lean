import DesignMarkup.Service.Session
import DesignMarkup.Settings.Basic
import DesignMarkup.Value.Arithmetic

/-!
# The client

Requests to the service that holds the designs. A request is tried again, a bounded
number of times, when the network fails or the service asks to come back later; the
pauses double, unless the service says how long to wait. Any other outcome decides.
-/

namespace DesignMarkup

/-- A client: whose token it sends, where the service is, and the settings. -/
structure Client where
  token : Value
  baseUrl : Value
  settings : Settings

namespace Client

/-- A client for a token; without an address of its own it uses the one in the settings. -/
def create (settings : Settings) (token baseUrl : Value) : Except Failure Client :=
  if token.isPresent then
    .ok { token := token, baseUrl := baseUrl.orElse settings.apiBase, settings := settings }
  else .error .noToken

def headers (c : Client) : Members :=
  [("X-Figma-Token", c.token), ("Content-Type", .text "application/json")]

/-! ## Trying again -/

def busyStatus : Int := 429

def laterHeader : String := "Retry-After"

/-- The pause that a busy service asks for, if it does so in digits. -/
def askedPause? (r : Response) : Except Fault (Option Value) :=
  match r.header? laterHeader with
  | none => .ok none
  | some v =>
    if v.isPresent then do
      let text ← v.text?
      if text.toList.all Text.isDigit then pure (some (.whole (← Value.wholeOfText text)))
      else pure none
    else .ok none

def backoff (c : Client) (attempts : Nat) : Except Fault Value :=
  c.settings.initialBackoff.times (.whole (Double.twoTo attempts))

def busyPause (c : Client) (r : Response) (attempts : Nat) : Except Fault Value := do
  match ← askedPause? r with
  | some pause => pure pause
  | none => c.backoff attempts

def failureReport (message : String) (pause : Value) : Except Fault String := do
  pure ("Request failed: " ++ message ++ ". Retrying in " ++ (← pause.plainComputed)
    ++ " seconds...")

def busyReport (pause : Value) (attempts limit : Nat) : Except Fault String := do
  pure ("Rate limit hit (429). Waiting " ++ (← pause.plainComputed) ++ " seconds before retry "
    ++ (← (Value.whole attempts).plainComputed) ++ "/" ++ (← (Value.whole limit).plainComputed)
    ++ "...")

def decision (r : Response) : Session Response :=
  if r.isOk then pure r else Session.fail (.refused r.status r.text)

/-- Sends a request until its outcome decides, `left` times at most, of `limit` times in
all. No response where it may not be sent at all. -/
def attempt (c : Client) (request : Request) (limit : Nat) : Nat → Session (Option Response)
  | 0 => pure none
  | left + 1 => do
    match ← Session.send request with
    | .broken f => Session.fail f
    | .unreachable kind message =>
      if left = 0 then Session.fail (.network kind message)
      else do
        -- `left + 1` attempts were left, so this is the one of number `limit - (left + 1)` from zero.
        let pause ← Session.data (c.backoff (limit - (left + 1)))
        Session.report .warning (failureReport message pause)
        Session.wait pause
        attempt c request limit left
    | .answered r =>
      if r.status = busyStatus ∧ left ≠ 0 then do
        let pause ← Session.data (c.busyPause r (limit - (left + 1)))
        Session.report .warning (busyReport pause (limit - left) limit)
        Session.wait pause
        attempt c request limit left
      else do pure (some (← decision r))

/-- How often a request may be sent; fewer than once counts as never. -/
def attemptLimit (c : Client) : Except Fault Nat := do
  match c.settings.maxRetries.number? with
  | some (.whole n) => pure n.toNat
  | _ => .error .wrongKind

/-- Sends a request until its outcome decides. -/
def sendPatiently (c : Client) (request : Request) : Session (Option Response) := do
  let limit ← Session.data c.attemptLimit
  c.attempt request limit limit

/-! ## Questions -/

def ask (c : Client) (place : String) (params : Value) : Session Value := do
  let request : Request :=
    { method := "GET"
      url := .text (c.baseUrl.plain ++ place)
      headers := c.headers
      payload := .query params
      timeout := c.settings.requestTimeout }
  match ← c.sendPatiently request with
  | some r => Session.check r.json
  | none => Session.fail (.data .noSuchPart)

/-- Texts with commas between them, whatever value holds them. -/
def commaJoined (v : Value) : Except Fault Value := do
  pure (.text (← Value.joinTexts "," (← v.items?)))

def me (c : Client) : Session Value := c.ask "/me" .null

def file (c : Client) (key depth : Value) : Session Value :=
  c.ask ("/files/" ++ key.plain) (if depth.isPresent then .object [("depth", depth)] else .null)

def fileNodes (c : Client) (key ids : Value) : Session Value := do
  let joined ← Session.data (commaJoined ids)
  c.ask ("/files/" ++ key.plain ++ "/nodes") (.object [("ids", joined)])

def images (c : Client) (key ids format scale : Value) : Session Value := do
  let joined ← Session.data (commaJoined ids)
  c.ask ("/images/" ++ key.plain) (.object [("ids", joined), ("format", format), ("scale", scale)])

def localVariables (c : Client) (key : Value) : Session Value :=
  c.ask ("/files/" ++ key.plain ++ "/variables/local") .null

def defaultFormat : Value := .text "png"

def defaultScale : Value := .whole 2

end Client

end DesignMarkup
