import DesignMarkup.Ordered
import DesignMarkup.Value.Numeral

/-!
# Settings

Where the service is, who asks, and within what limits. Settings come from the environment that
the program is run in.
-/

namespace DesignMarkup

abbrev Environment := Ordered String String

/-- The settings. A setting may be replaced by any value; it is looked at where it is used. -/
structure Settings where
  apiBase : Value
  oauthAuthUrl : Value
  oauthTokenUrl : Value
  oauthRefreshUrl : Value
  oauthScope : Value
  accessToken : Value
  appUrl : Value
  clientId : Value
  clientSecret : Value
  redirectUri : Value
  requestTimeout : Value
  maxRetries : Value
  initialBackoff : Value
  maxTreeDepth : Value
  logLevel : Value

namespace Settings

def variableOr (env : Environment) (name other : String) : String :=
  (List.lookup name env).getD other

def variableNames : List String :=
  ["FIGMA_API_BASE", "APP_URL", "FIGMA_REQUEST_TIMEOUT", "FIGMA_MAX_TREE_DEPTH",
   "FIGMA_ACCESS_TOKEN", "FIGMA_CLIENT_ID", "FIGMA_CLIENT_SECRET", "FIGMA_REDIRECT_URI", "LOG_LEVEL"]

def ofEnvironment (env : Environment) : Except Fault Settings := do
  let apiBase := variableOr env "FIGMA_API_BASE" "https://api.figma.com/v1"
  let appUrl := variableOr env "APP_URL" "http://localhost:3000"
  let timeout ← Value.doubleOfText (variableOr env "FIGMA_REQUEST_TIMEOUT" "30")
  let maxDepth ← Value.wholeOfText (variableOr env "FIGMA_MAX_TREE_DEPTH" "200")
  pure {
    apiBase := .text apiBase
    oauthAuthUrl := .text "https://www.figma.com/oauth"
    oauthTokenUrl := .text (apiBase ++ "/oauth/token")
    oauthRefreshUrl := .text (apiBase ++ "/oauth/refresh")
    oauthScope := .text "file_content:read"
    accessToken := .text (variableOr env "FIGMA_ACCESS_TOKEN" "")
    appUrl := .text appUrl
    clientId := .text (variableOr env "FIGMA_CLIENT_ID" "")
    clientSecret := .text (variableOr env "FIGMA_CLIENT_SECRET" "")
    redirectUri := .text (variableOr env "FIGMA_REDIRECT_URI" (appUrl ++ "/api/figma/auth/callback"))
    requestTimeout := .double timeout
    maxRetries := .whole 5
    initialBackoff := .whole 1
    maxTreeDepth := .whole maxDepth
    logLevel := .text (variableOr env "LOG_LEVEL" "WARNING") }

end Settings

end DesignMarkup
