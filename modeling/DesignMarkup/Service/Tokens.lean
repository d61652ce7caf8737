import DesignMarkup.Service.Session
import DesignMarkup.Settings.Basic
import DesignMarkup.Text.Form

/-!
# Authorization

A user authorizes the application at an address that carries the application's
parameters. The code that comes of it is exchanged for tokens, and an expired access
token for a new one. These requests are sent once.
-/

namespace DesignMarkup

structure Tokens where
  accessToken : Value
  refreshToken : Value
  expiresIn : Value
  userId : Value

namespace Tokens

/-! ## Where users authorize -/

/-- A parameter of an address, values by their plain text. -/
def parameter (name : String) (v : Value) : List Char × List Char := (name.toList, v.plain.toList)

/-- The parameters of the address where users authorize; the state only if there is one. -/
def authParameters (s : Settings) (state : Value) : List (List Char × List Char) :=
  [parameter "client_id" s.clientId, parameter "redirect_uri" s.redirectUri,
   parameter "scope" s.oauthScope, parameter "response_type" (.text "code")]
    ++ (if state.isPresent then [parameter "state" state] else [])

def authUrl (s : Settings) (state : Value) : Except Failure String :=
  if s.clientId.isPresent then
    .ok (s.oauthAuthUrl.plain ++ "?" ++ String.ofList (Text.formPairs (authParameters s state)))
  else .error .noClientId

/-! ## Exchanges -/

def haveCredentials (s : Settings) : Session Unit :=
  if s.clientId.isPresent && s.clientSecret.isPresent then pure () else Session.fail .noCredentials

/-- Sends a form once and takes the value of the response. -/
def postForm (s : Settings) (url : Value) (fields : Members) : Session Value := do
  let request : Request :=
    { method := "POST"
      url := url
      headers := [("Content-Type", .text "application/x-www-form-urlencoded")]
      payload := .form fields
      timeout := s.requestTimeout }
  match ← Session.send request with
  | .broken f => Session.fail f
  | .unreachable kind message => Session.fail (.network kind message)
  | .answered r =>
    if r.isOk then Session.check r.json else Session.fail (.refused r.status r.text)

def required (v : Value) (name : String) : Except Fault Value :=
  match v with
  | .object ms =>
    match ms.lookup name with
    | some w => .ok w
    | none => .error .missingMember
  | _ => .error .wrongKind

def exchangeReport (redirectUri : Value) : String :=
  "Exchanging authorization code (redirect_uri=" ++ redirectUri.plain ++ ")"

def exchange (s : Settings) (code : Value) : Session Tokens := do
  haveCredentials s
  Session.report .info (.ok (exchangeReport s.redirectUri))
  let answer ← postForm s s.oauthTokenUrl
    [("client_id", s.clientId), ("client_secret", s.clientSecret),
     ("redirect_uri", s.redirectUri), ("code", code), ("grant_type", .text "authorization_code")]
  Session.report .info (.ok "Token exchange succeeded")
  let access ← Session.data (required answer "access_token")
  let refresh ← Session.data (required answer "refresh_token")
  let expires ← Session.data (required answer "expires_in")
  let ms ← Session.data answer.members?
  pure { accessToken := access, refreshToken := refresh, expiresIn := expires
         userId := Members.get ms "user_id" }

/-- Gets a new access token for a refresh token, which stays as it is. -/
def refresh (s : Settings) (refreshToken : Value) : Session Tokens := do
  haveCredentials s
  let answer ← postForm s s.oauthRefreshUrl
    [("client_id", s.clientId), ("client_secret", s.clientSecret), ("refresh_token", refreshToken)]
  let access ← Session.data (required answer "access_token")
  let expires ← Session.data (required answer "expires_in")
  pure { accessToken := access, refreshToken := refreshToken, expiresIn := expires, userId := .null }

end Tokens

end DesignMarkup
