import DesignMarkup.Proofs.AcceptedStatuses
import DesignMarkup.Proofs.Parallel

/-!
# Secrets

An access token, the secret of the application, an authorization code and a refresh token leave in
one place each: in a header, or in a field of a form. Everything else that a run shows, its failure
and what it reports included, is the same whatever they are.
-/

namespace DesignMarkup

/-! ## What is hidden -/

/-- Where requests carry secrets: in the values of some headers and of some fields of a form. -/
structure Secrets where
  headers : List String
  fields : List String

def Members.redacted (names : List String) (ms : Members) : Members :=
  ms.map fun m => (m.1, if m.1 ∈ names then .null else m.2)

namespace Secrets

def ofImport : Secrets := ⟨["X-Figma-Token"], []⟩

def ofExchange : Secrets := ⟨[], ["client_secret", "code"]⟩

def ofRefresh : Secrets := ⟨[], ["client_secret", "refresh_token"]⟩

variable (hidden : Secrets)

def seenPayload : Payload → Payload
  | .query params => .query params
  | .form fields => .form (Members.redacted hidden.fields fields)

def seen (r : Request) : Request :=
  { r with headers := Members.redacted hidden.headers r.headers
           payload := hidden.seenPayload r.payload }

/-- Two wires that differ in the secrets of their requests at most. -/
structure SameWires (w w' : Wire) : Prop where
  outcomes : w.outcomes = w'.outcomes
  requests : w.requests.map hidden.seen = w'.requests.map hidden.seen
  waits : w.waits = w'.waits
  log : w.log = w'.log

theorem sameWires_refl (w : Wire) : hidden.SameWires w w := ⟨rfl, rfl, rfl, rfl⟩

/-- Wires and requests compared by what is seen of them. -/
def comparison : Comparison where
  Wires := hidden.SameWires
  Requests r r' := hidden.seen r = hidden.seen r'
  outcomes same := same.outcomes
  sent same r r' h :=
    { outcomes := congrArg List.tail same.outcomes
      requests := by simp [Wire.sent, same.requests, h]
      waits := same.waits
      log := same.log }
  waited same pause := { same with waits := congrArg (· ++ [pause]) same.waits }
  reported same lines := { same with log := congrArg (· ++ lines) same.log }

/-- Two sessions keep secrets from whoever sees a wire: they end in the same failure or in values
that are related, and leave wires that differ in the secrets of their requests at most. -/
structure Kept {α : Type} (R : α → α → Prop) (w : Wire) (x y : Session α) : Prop where
  result : Agree R (x.on w).1 (y.on w).1
  wires : hidden.SameWires (x.on w).2 (y.on w).2

theorem kept_of_parallel {α : Type} {R : α → α → Prop} {x y : Session α}
    (h : Session.Parallel hidden.comparison R x y) (w : Wire) : hidden.Kept R w x y := by
  obtain ⟨_, _, _, _, left, right, agree, wires⟩ := h w w (hidden.sameWires_refl w)
  exact ⟨by rw [left, right]; exact agree, by rw [left, right]; exact wires⟩

end Secrets

/-! ## Imports -/

theorem Client.create_of_isPresent {token : Value} (present : token.isPresent = true)
    (s : Settings) (baseUrl : Value) :
    create s token baseUrl
      = .ok { token := token, baseUrl := baseUrl.orElse s.apiBase, settings := s } :=
  if_pos present

/-- The token is seen in no request, and no other setting depends on it. -/
theorem Client.peers_of_token (c : Client) (token spare token' spare' : Value) :
    Peers Secrets.ofImport.comparison
      { c with token := token, settings := { c.settings with accessToken := spare } }
      { c with token := token', settings := { c.settings with accessToken := spare' } } where
  question _ _ := rfl
  maxRetries := rfl
  initialBackoff := rfl
  maxTreeDepth := rfl

def Imported.withToken (s : Settings) (token baseUrl url : Value)
    (options : Except Fault Options) : Session Imported := do
  let c ← Session.check (Client.create s token baseUrl)
  ofUrl c url options

theorem Imported.parallel_withToken (s : Settings) {token token' : Value}
    (present : token.isPresent = true) (present' : token'.isPresent = true)
    (spare spare' baseUrl url : Value) (options : Except Fault Options) :
    Session.Parallel Secrets.ofImport.comparison Eq
      (withToken { s with accessToken := spare } token baseUrl url options)
      (withToken { s with accessToken := spare' } token' baseUrl url options) := by
  rw [withToken, withToken, Client.create_of_isPresent present,
    Client.create_of_isPresent present']
  exact parallel_ofUrl
    (Client.peers_of_token ⟨token, baseUrl.orElse s.apiBase, s⟩ token spare token' spare')
    url options

/-! ## Authorization -/

namespace Tokens

open Session

variable (s : Settings)

theorem haveCredentials_of_isPresent {secret : Value} (present : secret.isPresent = true) :
    haveCredentials { s with clientSecret := secret }
      = if s.clientId.isPresent then pure () else fail .noCredentials := by
  simp [haveCredentials, present]

theorem parallel_haveCredentials {C : Comparison} {secret secret' : Value}
    (present : secret.isPresent = true) (present' : secret'.isPresent = true) :
    Parallel C Eq (haveCredentials { s with clientSecret := secret })
      (haveCredentials { s with clientSecret := secret' }) := by
  rw [haveCredentials_of_isPresent s present, haveCredentials_of_isPresent s present']
  split
  · exact parallel_pure rfl
  · exact parallel_fail _

theorem parallel_postForm {C : Comparison} {s s' : Settings} {url : Value}
    {fields fields' : Members}
    (h : C.Requests (posted s url fields) (posted s' url fields')) :
    Parallel C Eq (postForm s url fields) (postForm s' url fields') := by
  refine (parallel_send h).bind fun o => ?_
  cases o with
  | broken f => exact parallel_fail f
  | unreachable kind message => exact parallel_fail _
  | answered r =>
      dsimp only
      split
      · exact parallel_check _
      · exact parallel_fail _

variable {secret secret' : Value} (present : secret.isPresent = true)
  (present' : secret'.isPresent = true)

include present present'

theorem parallel_exchange (code code' : Value) :
    Parallel Secrets.ofExchange.comparison Eq
      (exchange { s with clientSecret := secret } code)
      (exchange { s with clientSecret := secret' } code') := by
  refine (parallel_haveCredentials s present present').bind fun _ =>
    (parallel_report _ _).bind fun _ => (parallel_postForm ?_).bind fun answer =>
    (parallel_report _ _).bind fun _ => (parallel_data _).bind fun access =>
    (parallel_data _).bind fun refresh => (parallel_data _).bind fun expires =>
    (parallel_data _).bind fun ms => parallel_pure rfl
  rfl

/-- Tokens of two refreshes, each with the refresh token that it started from. -/
structure CarryOver (refreshToken refreshToken' : Value) (t t' : Tokens) : Prop where
  carried : t.refreshToken = refreshToken
  same : t' = { t with refreshToken := refreshToken' }

theorem parallel_refresh (refreshToken refreshToken' : Value) :
    Parallel Secrets.ofRefresh.comparison (CarryOver refreshToken refreshToken')
      (refresh { s with clientSecret := secret } refreshToken)
      (refresh { s with clientSecret := secret' } refreshToken') := by
  refine (parallel_haveCredentials s present present').bind fun _ =>
    (parallel_postForm ?_).bind fun answer => (parallel_data _).bind fun access =>
    (parallel_data _).bind fun expires => parallel_pure ⟨rfl, rfl⟩
  rfl

end Tokens

/-- Without credentials nothing is sent, nor anything else done to the wire. -/
theorem Tokens.on_of_missing {s : Settings}
    (missing : s.clientId.isPresent = false ∨ s.clientSecret.isPresent = false) (v : Value)
    (w : Wire) :
    (exchange s v).on w = (.error .noCredentials, w) ∧
      (refresh s v).on w = (.error .noCredentials, w) := by
  have failed : (haveCredentials s).on w = (.error .noCredentials, w) := by
    rcases missing with missing | missing <;> simp [haveCredentials, missing]
  exact ⟨Session.on_bind_of_error failed, Session.on_bind_of_error failed⟩

/-! ## Every run -/

namespace Secrets

/-- Whatever comes of their requests, imports keep their token, exchanges and refreshes keep the
secret of the application and what they start from, and without credentials nothing is sent. -/
theorem kept_on_every_run (s : Settings) (w : Wire) :
    (∀ token token' : Value, token.isPresent = true → token'.isPresent = true →
      ∀ spare spare' baseUrl url options,
        ofImport.Kept Eq w
          (Imported.withToken { s with accessToken := spare } token baseUrl url options)
          (Imported.withToken { s with accessToken := spare' } token' baseUrl url options)) ∧
    (∀ secret secret' : Value, secret.isPresent = true → secret'.isPresent = true →
      (∀ code code',
        ofExchange.Kept Eq w
          (Tokens.exchange { s with clientSecret := secret } code)
          (Tokens.exchange { s with clientSecret := secret' } code')) ∧
      ∀ refreshToken refreshToken',
        ofRefresh.Kept (Tokens.CarryOver refreshToken refreshToken') w
          (Tokens.refresh { s with clientSecret := secret } refreshToken)
          (Tokens.refresh { s with clientSecret := secret' } refreshToken')) ∧
    (s.clientId.isPresent = false ∨ s.clientSecret.isPresent = false → ∀ v,
      (Tokens.exchange s v).on w = (.error .noCredentials, w) ∧
      (Tokens.refresh s v).on w = (.error .noCredentials, w)) := by
  refine ⟨?_, ?_, fun missing v => Tokens.on_of_missing missing v w⟩
  · intro token token' present present' spare spare' baseUrl url options
    exact kept_of_parallel _
      (Imported.parallel_withToken s present present' spare spare' baseUrl url options) w
  · intro secret secret' present present'
    constructor
    · intro code code'
      exact kept_of_parallel _ (Tokens.parallel_exchange s present present' code code') w
    · intro refreshToken refreshToken'
      exact kept_of_parallel _
        (Tokens.parallel_refresh s present present' refreshToken refreshToken') w

def application : Settings := { Gallery.visitor.settings with clientId := .text "app" }

def busyThenGone : Wire :=
  Wire.fresh [.answered ⟨429, [], .text ""⟩, .answered ⟨404, [], .text "gone"⟩]

def gallery (token : String) : Session Imported :=
  Imported.withToken { application with accessToken := .null } (.text token) .null
    (.text Gallery.url) (.ok .standard)

/-- The gallery is asked for twice, each time with the token. -/
theorem on_gallery (token : String) (some : (Value.text token).isPresent = true) :
    ((gallery token).on busyThenGone).1 = .error (.refused 404 "gone") ∧
      ((gallery token).on busyThenGone).2.requests.map (·.headers.lookup "X-Figma-Token")
        = [.some (.text token), .some (.text token)] := by
  let c : Client := ⟨.text token, Value.null.orElse .null, application⟩
  have fetched : ((Imported.fetchTarget c Gallery.link).on busyThenGone).1
      = .error (.refused 404 "gone") := rfl
  have sent : ((Imported.fetchTarget c Gallery.link).on busyThenGone).2.requests.map
      (·.headers.lookup "X-Figma-Token") = [.some (.text token), .some (.text token)] := rfl
  have run : (gallery token).on busyThenGone = (.error (.refused 404 "gone"),
      ((Imported.fetchTarget c Gallery.link).on busyThenGone).2) := by
    rw [gallery, Imported.withToken, Client.create_of_isPresent some]
    exact Imported.on_ofUrl_of_unfetched Gallery.parsed (Prod.ext fetched rfl)
  rw [run]
  exact ⟨rfl, sent⟩

def granting : Wire :=
  Wire.fresh
    [.answered ⟨200, [], .json (.object
      [("access_token", .text "A"), ("refresh_token", .text "R"), ("expires_in", .whole 60)])⟩]

/-- Imports with two tokens, exchanges of two codes and refreshes by two tokens, and one without
credentials. -/
theorem kept_on_two_runs :
    ofImport.Kept Eq busyThenGone (gallery "alpha") (gallery "beta") ∧
      (gallery "alpha").on busyThenGone ≠ (gallery "beta").on busyThenGone ∧
      ofExchange.Kept Eq granting
        (Tokens.exchange { application with clientSecret := .text "one" } (.text "first"))
        (Tokens.exchange { application with clientSecret := .text "two" } (.text "second")) ∧
      ofRefresh.Kept (Tokens.CarryOver (.text "first") (.text "second")) granting
        (Tokens.refresh { application with clientSecret := .text "one" } (.text "first"))
        (Tokens.refresh { application with clientSecret := .text "two" } (.text "second")) ∧
      ((Tokens.refresh { application with clientSecret := .text "one" } (.text "first")).on
        granting).1 = .ok ⟨.text "A", .text "first", .whole 60, .null⟩ ∧
      (Tokens.exchange application (.text "first")).on granting
        = (.error .noCredentials, granting) := by
  have some : ∀ s ∈ ["alpha", "beta", "one", "two"], (Value.text s).isPresent = true := by decide
  obtain ⟨imports, -, -⟩ := kept_on_every_run application busyThenGone
  obtain ⟨-, authorizations, unsent⟩ := kept_on_every_run application granting
  obtain ⟨exchanges, refreshes⟩ :=
    authorizations (.text "one") (.text "two") (some _ (by decide)) (some _ (by decide))
  refine ⟨imports _ _ (some _ (by decide)) (some _ (by decide)) _ _ _ _ _, ?_, exchanges _ _,
    refreshes _ _, rfl, (unsent (Or.inr rfl) _).1⟩
  intro same
  have sent := (on_gallery "alpha" (some _ (by decide))).2
  rw [same, (on_gallery "beta" (some _ (by decide))).2] at sent
  have head := (List.cons.inj sent).1
  exact absurd (Value.text.inj (Option.some.inj head)) (by decide)

end Secrets

end DesignMarkup
