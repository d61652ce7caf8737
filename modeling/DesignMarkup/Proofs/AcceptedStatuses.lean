import DesignMarkup.Proofs.Exchanges
import DesignMarkup.Service.Tokens

/-!
# Accepted statuses

The operations of the service, those of a client and the two that exchange tokens, answer with the
body of a response whose status is no error. A status is accepted from 200 to 299 and an error from
400 to 599, and what lies outside of both is neither: such a response is handed on as an answer.
Each operation ends in one of two ways, at the outcome that decides it or before any does. The steps
around its request take no outcome, and when they fail it is not as the service refuses, so the
ending of the request is the ending of the operation.
-/

namespace DesignMarkup

/-! ## What an operation should come to -/

def Response.IsAccepted (r : Response) : Prop := 200 ≤ r.status ∧ r.status ≤ 299

def Outcome.response? : Outcome → Option Response
  | answered r => some r
  | _ => none

def lastResponse? (heard : List Outcome) : Option Response :=
  (heard.filterMap Outcome.response?).getLast?

/-- The last response that was heard judges a result: a value comes behind a response that was
accepted, and any other response is the failure, told with its status and its body. -/
structure Judges {α : Type} (heard : List Outcome) (result : Except Failure α) : Prop where
  accepts : ∀ a, result = .ok a → ∃ r, lastResponse? heard = some r ∧ r.IsAccepted
  refuses : ∀ r, lastResponse? heard = some r → ¬ r.IsAccepted →
    ∃ f, result = .error f ∧ f = .refused r.status r.text ∧
      f.message = "Figma API error: " ++ (Number.whole r.status).plain ++ " - " ++ r.text

inductive Operation
  | me (c : Client)
  | file (c : Client) (key depth : Value)
  | fileNodes (c : Client) (key ids : Value)
  | images (c : Client) (key ids format scale : Value)
  | localVariables (c : Client) (key : Value)
  | exchange (s : Settings) (code : Value)
  | refresh (s : Settings) (refreshToken : Value)

def Client.attempts (c : Client) : Nat :=
  match c.attemptLimit with
  | .ok n => n
  | .error _ => 0

namespace Operation

def run : Operation → Session (Value ⊕ Tokens)
  | me c => do pure (.inl (← c.me))
  | file c key depth => do pure (.inl (← c.file key depth))
  | fileNodes c key ids => do pure (.inl (← c.fileNodes key ids))
  | images c key ids format scale => do pure (.inl (← c.images key ids format scale))
  | localVariables c key => do pure (.inl (← c.localVariables key))
  | exchange s code => do pure (.inr (← Tokens.exchange s code))
  | refresh s refreshToken => do pure (.inr (← Tokens.refresh s refreshToken))

def attempts : Operation → Nat
  | me c | file c _ _ | fileNodes c _ _ | images c _ _ _ _ | localVariables c _ => c.attempts
  | exchange _ _ | refresh _ _ => 1

end Operation

/-! ## Endings -/

/-- A failure that is no refusal by the service. -/
def Failure.IsOwn (f : Failure) : Prop := ∀ status body, f ≠ .refused status body

theorem Failure.isOwn_data (fault : Fault) : (data fault).IsOwn := fun _ _ => Failure.noConfusion

theorem Failure.isOwn_of_not_isReported {f : Failure} (h : f.isReported = false) : f.IsOwn := by
  rintro status body rfl
  cases h

/-- How a request that is sent a number of times at most has ended, by the outcomes that were
heard: at one that decides, as the outcome says, or earlier, for a reason of its own. -/
inductive Ending {α : Type} (attempts : Nat) (heard : List Outcome) (result : Except Failure α) :
    Prop
  | decided (before : List Outcome) (o : Outcome) (whole : heard = before ++ [o])
      (undecided : ∀ p ∈ before, ¬ p.IsConclusive)
      (final : heard.length = attempts ∨ o.IsConclusive)
      (refuses : ∀ f, o.verdict = .error f → result = .error f)
      (accepts : ∀ x, o.verdict = .ok x → ∀ f, result = .error f → f.IsOwn)
  | stopped (f : Failure) (undecided : ∀ p ∈ heard, ¬ p.IsConclusive)
      (short : heard = [] ∨ heard.length < attempts) (own : f.IsOwn) (failed : result = .error f)

namespace Ending

variable {α β : Type} {attempts : Nat} {heard : List Outcome}

/-- Where nothing was heard a failure is an own one. -/
theorem of_unheard {f : Failure} (own : f.IsOwn) :
    Ending attempts [] (.error f : Except Failure α) :=
  .stopped f (fun _ none => absurd none List.not_mem_nil) (Or.inl rfl) own rfl

/-- A failure is the same ending for any result that it stands in place of. -/
theorem of_error {f : Failure} (h : Ending attempts heard (.error f : Except Failure α)) :
    Ending attempts heard (.error f : Except Failure β) := by
  cases h with
  | stopped f' undecided short own failed =>
      exact .stopped f undecided short (Except.error.inj failed ▸ own) rfl
  | decided before o whole undecided final refuses accepts =>
      refine .decided before o whole undecided final (fun f' h => ?_) fun x h f' same => ?_
      · exact congrArg Except.error (Except.error.inj (refuses f' h))
      · exact accepts x h f' (congrArg Except.error (Except.error.inj same))

/-- What is made of a success leaves the ending as it is, if it fails only on its own. -/
theorem of_ok {a : α} {result : Except Failure β}
    (h : Ending attempts heard (.ok a : Except Failure α))
    (own : ∀ f, result = .error f → f.IsOwn) : Ending attempts heard result := by
  cases h with
  | stopped f undecided short own failed => cases failed
  | decided before o whole undecided final refuses accepts =>
      exact .decided before o whole undecided final (fun f h => nomatch refuses f h) fun _ _ => own

end Ending

theorem lastResponse?_append (before : List Outcome) (o : Outcome) :
    lastResponse? (before ++ [o]) = o.response?.or (lastResponse? before) := by
  rw [lastResponse?, List.filterMap_append]
  cases h : o.response? with
  | none => simp [h, lastResponse?]
  | some r => simp [h]

theorem status_of_lastResponse? {heard : List Outcome} (undecided : ∀ p ∈ heard, ¬ p.IsConclusive)
    {r : Response} (last : lastResponse? heard = some r) : r.status = Client.busyStatus := by
  obtain ⟨o, mem, answered⟩ := List.mem_filterMap.mp (List.mem_of_getLast? last)
  have busy := undecided o mem
  cases o with
  | answered r' =>
      obtain rfl := Option.some.inj answered
      exact Classical.not_not.mp busy
  | unreachable kind message => cases answered
  | broken f => cases answered

theorem Response.not_isAccepted_of_busy {r : Response} (busy : r.status = Client.busyStatus) :
    ¬ r.IsAccepted := by
  rw [IsAccepted, busy]
  decide

theorem Response.isOk_eq_false_iff {r : Response} :
    r.isOk = false ↔ 400 ≤ r.status ∧ r.status ≤ 599 := by
  rw [isOk, Bool.not_eq_false', Bool.and_eq_true, decide_eq_true_eq, decide_eq_true_eq]
  omega

section

variable {α : Type} {heard : List Outcome}

/-- Behind a response that is not accepted an own failure is judged wrong. -/
theorem judges_own_iff {f : Failure} (own : f.IsOwn) {P : Response → Prop}
    (never : ∀ r, lastResponse? heard = some r → ¬ r.IsAccepted ∧ ¬ P r) :
    Judges heard (.error f : Except Failure α) ↔ ∀ r, lastResponse? heard = some r → P r := by
  cases last : lastResponse? heard with
  | none =>
      refine iff_of_true ⟨fun a h => (nomatch h), fun r h => ?_⟩ fun r h => (nomatch h)
      cases last.symm.trans h
  | some r =>
      obtain ⟨other, no⟩ := never r last
      refine iff_of_false (fun judges => ?_) fun h => no (h r rfl)
      obtain ⟨f', same, refused, -⟩ := judges.refuses r last other
      obtain rfl := Except.error.inj same
      exact own _ _ refused

/-- A response that decides is judged by its own status: what is neither accepted nor an error is
handed on. -/
theorem judges_answered_iff {result : Except Failure α} {r : Response}
    (last : lastResponse? heard = some r)
    (refuses : r.isOk = false → result = .error (.refused r.status r.text))
    (accepts : r.isOk = true → ∀ f, result = .error f → f.IsOwn) :
    Judges heard result ↔ r.IsAccepted ∨ 400 ≤ r.status ∧ r.status ≤ 599 := by
  rw [← Response.isOk_eq_false_iff]
  constructor
  · intro judges
    cases ok : r.isOk with
    | false => exact Or.inr rfl
    | true =>
        refine Or.inl (Classical.byContradiction fun other => ?_)
        obtain ⟨f, failed, refused, -⟩ := judges.refuses r last other
        exact accepts ok f failed _ _ refused
  · rintro (accepted | bad)
    · refine ⟨fun a _ => ⟨r, last, accepted⟩, fun r' last' other => ?_⟩
      obtain rfl := Option.some.inj (last.symm.trans last')
      exact absurd accepted other
    · obtain rfl := refuses bad
      refine ⟨fun a h => (nomatch h), fun r' last' _ => ?_⟩
      obtain rfl := Option.some.inj (last.symm.trans last')
      exact ⟨_, rfl, rfl, rfl⟩

end

/-- An ending is judged right exactly where the last response is the last outcome, with a status
that is accepted or an error, and where no busy service was left before its time. -/
theorem Ending.judges_iff {α : Type} {attempts : Nat} {heard : List Outcome}
    {result : Except Failure α} (h : Ending attempts heard result)
    (network : ∀ o ∈ heard, ∀ f, o ≠ .broken f) :
    Judges heard result ↔ ∀ r, lastResponse? heard = some r →
      heard.getLast? = some (.answered r) ∧
        (r.IsAccepted ∨ 400 ≤ r.status ∧ r.status ≤ 599) ∧
        (r.status = Client.busyStatus → heard.length = attempts) := by
  cases h with
  | stopped f undecided short own failed =>
      subst failed
      refine judges_own_iff own fun r last => ?_
      have busy := status_of_lastResponse? undecided last
      refine ⟨Response.not_isAccepted_of_busy busy, fun h => ?_⟩
      have full := h.2.2 busy
      rcases short with rfl | short
      · cases last
      · omega
  | decided before o whole undecided final refuses accepts =>
      subst whole
      have ending : (before ++ [o]).getLast? = some o := List.getLast?_concat
      have last := lastResponse?_append before o
      cases o with
      | broken f => exact absurd rfl (network _ List.mem_concat_self f)
      | unreachable kind message =>
          obtain rfl := refuses _ rfl
          refine judges_own_iff (fun _ _ => Failure.noConfusion) fun r answered => ?_
          have busy := status_of_lastResponse? undecided (last.symm.trans answered)
          refine ⟨Response.not_isAccepted_of_busy busy, fun h => ?_⟩
          cases ending.symm.trans h.1
      | answered r =>
          have last : lastResponse? (before ++ [.answered r]) = some r := last
          have judged : Judges (before ++ [.answered r]) result
              ↔ r.IsAccepted ∨ 400 ≤ r.status ∧ r.status ≤ 599 := by
            refine judges_answered_iff last (fun bad => refuses _ ?_) fun ok => accepts (some r) ?_
            · rw [Outcome.verdict, bad]
              rfl
            · rw [Outcome.verdict, ok]
              rfl
          rw [judged, last, ending]
          constructor
          · rintro status _ ⟨⟩
            exact ⟨rfl, status, fun busy => final.resolve_right fun other => other busy⟩
          · exact fun h => (h r rfl).2.1

/-! ## Sessions -/

namespace Session

variable {α β : Type} {n : Nat}

/-- The session takes no outcome from a wire, and what it fails with is its own. -/
def Quiet (x : Session α) : Prop :=
  ∀ w, (x.on w).2.outcomes = w.outcomes ∧ ∀ f, (x.on w).1 = .error f → f.IsOwn

/-- The session sends one request, a number of times at most, and what it takes from a wire are the
outcomes that it ends by. -/
def Ends (n : Nat) (x : Session α) : Prop :=
  ∀ w, ∃ heard, w.outcomes = heard ++ (x.on w).2.outcomes ∧ Ending n heard (x.on w).1

theorem quiet_pure (a : α) : (pure a : Session α).Quiet :=
  fun _ => ⟨rfl, fun _ h => (nomatch h)⟩

theorem quiet_report (level : Level) (text : Except Fault String) : (report level text).Quiet :=
  fun _ => ⟨rfl, fun _ h => (nomatch h)⟩

theorem quiet_fail {f : Failure} (own : f.IsOwn) : (fail f : Session α).Quiet :=
  fun _ => ⟨rfl, fun _ h => Except.error.inj h ▸ own⟩

theorem quiet_data (x : Except Fault α) : (data x).Quiet := by
  intro w
  rw [on_data]
  refine ⟨rfl, fun f h => ?_⟩
  cases x with
  | error fault => exact Except.error.inj h ▸ Failure.isOwn_data fault
  | ok a => cases h

theorem Quiet.bind {x : Session α} {k : α → Session β} (hx : x.Quiet) (hk : ∀ a, (k a).Quiet) :
    (x >>= k).Quiet := by
  intro w
  obtain ⟨same, own⟩ := hx w
  cases run : x.on w with
  | mk result w' =>
      rw [run] at same own
      cases result with
      | error f =>
          rw [on_bind_of_error run]
          exact ⟨same, fun _ h => Except.error.inj h ▸ own f rfl⟩
      | ok a =>
          rw [on_bind_of_ok run]
          exact ⟨(hk a w').1.trans same, (hk a w').2⟩

/-- A session that took no outcome has ended if it failed on its own. -/
theorem exists_ending_of_unheard {x : Session α} {w w' : Wire} {f : Failure}
    (run : x.on w = (.error f, w')) (same : w'.outcomes = w.outcomes) (own : f.IsOwn) :
    ∃ heard, w.outcomes = heard ++ (x.on w).2.outcomes ∧ Ending n heard (x.on w).1 := by
  rw [run]
  exact ⟨[], same.symm, .of_unheard own⟩

/-- Quiet steps in front leave a session to end as it does. -/
theorem Ends.behind {x : Session α} {k : α → Session β} (hk : ∀ a, (k a).Ends n) (hx : x.Quiet) :
    (x >>= k).Ends n := by
  intro w
  obtain ⟨same, own⟩ := hx w
  cases run : x.on w with
  | mk result w' =>
      rw [run] at same own
      cases result with
      | error f => exact exists_ending_of_unheard (on_bind_of_error run) same (own f rfl)
      | ok a =>
          rw [on_bind_of_ok run, ← same]
          exact hk a w'

/-- Quiet steps behind a session leave it ended as it has, though they may fail. -/
theorem Ends.before {x : Session α} {k : α → Session β} (hx : x.Ends n) (hk : ∀ a, (k a).Quiet) :
    (x >>= k).Ends n := by
  intro w
  obtain ⟨heard, split, ending⟩ := hx w
  cases run : x.on w with
  | mk result w' =>
      rw [run] at split ending
      cases result with
      | error f =>
          rw [on_bind_of_error run]
          exact ⟨heard, split, ending.of_error⟩
      | ok a =>
          obtain ⟨same, own⟩ := hk a w'
          rw [on_bind_of_ok run, same]
          exact ⟨heard, split, ending.of_ok own⟩

end Session

/-- What stands in a response is no refusal, even where it is no value. -/
theorem Client.isOwn_of_answer {response : Option Response} {f : Failure}
    (h : answer response = .error f) : f.IsOwn := by
  cases response with
  | none => exact Except.error.inj h ▸ Failure.isOwn_data _
  | some r =>
      have h : r.json = .error f := h
      rw [Response.json] at h
      split at h
      · cases h
      · split at h
        · cases h
        · exact Except.error.inj h ▸ Failure.isOwn_data _
        · exact Except.error.inj h ▸ fun _ _ => Failure.noConfusion

/-- A request that an outcome decides has ended there if its answer is the reply of the outcome. -/
theorem Ending.of_reply {attempts : Nat} {before : List Outcome} {o : Outcome}
    (undecided : ∀ p ∈ before, ¬ p.IsConclusive)
    (final : before.length + 1 = attempts ∨ o.IsConclusive) :
    Ending attempts (before ++ [o]) o.reply := by
  refine .decided before o rfl undecided (by rwa [List.length_append]) ?_ ?_
  · intro f h
    rw [Outcome.reply, h]
    rfl
  · intro response h f failed
    rw [Outcome.reply, h] at failed
    exact Client.isOwn_of_answer failed

/-- A request that fails behind outcomes that leave it open has ended for a reason of its own. -/
theorem Ending.of_pending {α : Type} {attempts : Nat} {before : List Outcome} {o : Outcome}
    {f : Failure} (undecided : ∀ p ∈ before, ¬ p.IsConclusive) (pending : ¬ o.IsConclusive)
    (more : before.length + 1 < attempts) (unreported : f.isReported = false) :
    Ending attempts (before ++ [o]) (.error f : Except Failure α) := by
  refine .stopped f (fun p hp => ?_) (Or.inr (by rwa [List.length_append]))
    (Failure.isOwn_of_not_isReported unreported) rfl
  rcases List.mem_append.mp hp with hp | hp
  · exact undecided p hp
  · exact List.mem_singleton.mp hp ▸ pending

namespace Client

theorem attempts_of_limit {c : Client} {limit : Nat} (h : c.attemptLimit = .ok limit) :
    c.attempts = limit := by
  rw [attempts, h]

theorem not_isConclusive_of_mem_take {c : Client} {limit k : Nat} {outcomes : List Outcome}
    (before : ∀ i < k, c.LeavesOpen limit outcomes i) :
    ∀ p ∈ outcomes.take k, ¬ p.IsConclusive := by
  intro p hp
  obtain ⟨i, hi, rfl⟩ := List.mem_take_iff_getElem.mp hp
  obtain ⟨o, here, undecided, -⟩ := before i (by omega)
  rw [List.getElem?_eq_getElem (by omega)] at here
  exact Option.some.inj here ▸ undecided

theorem ends_ask_of_limited {c : Client} {limit : Nat}
    (limited : c.settings.maxRetries.number? = some (.whole limit)) (once : 1 ≤ limit)
    (place : String) (params : Value) : (c.ask place params).Ends limit := by
  intro w
  obtain ⟨k, within, before, result, respites, run, ending⟩ :=
    on_ask_cases limited place params once w
  have undecided := not_isConclusive_of_mem_take before
  rw [run]
  refine ⟨w.outcomes.take (k + 1), (List.take_append_drop _ _).symm, ?_⟩
  rw [List.take_add_one]
  cases here : w.outcomes[k]? with
  | none =>
      -- The network had nothing more to say.
      rcases ending with ⟨o, decides, -⟩ | ⟨f, unreported, rfl⟩
      · cases here.symm.trans decides.here
      · rw [Option.toList_none, List.append_nil]
        have length := List.length_take_le k w.outcomes
        exact .stopped f undecided (Or.inr (by omega))
          (Failure.isOwn_of_not_isReported unreported) rfl
  | some o =>
      have length : (w.outcomes.take k).length = k :=
        List.length_take_of_le (List.getElem?_eq_some_iff.mp here).1.le
      rw [Option.toList_some]
      by_cases final : k + 1 = limit ∨ o.IsConclusive
      · have decides : c.Decides limit w.outcomes k o := ⟨within, before, here, final⟩
        obtain ⟨respites', run'⟩ := on_ask_of_decides limited place params decides
        obtain rfl : result = o.reply := congrArg Prod.fst (run.symm.trans run')
        exact .of_reply undecided (by rwa [length])
      · rcases ending with ⟨o', decides, -⟩ | ⟨f, unreported, rfl⟩
        · obtain rfl := Option.some.inj (here.symm.trans decides.here)
          exact absurd decides.final final
        · obtain ⟨more, pending⟩ := not_or.mp final
          exact .of_pending undecided pending (by omega) unreported

theorem ends_ask (c : Client) (place : String) (params : Value) :
    (c.ask place params).Ends c.attempts := by
  cases limit : c.attemptLimit with
  | error fault =>
      intro w
      have run : (c.ask place params).on w = (.error (.data fault), w) := by
        rw [on_ask, sendPatiently, limit, Session.on_bind_of_error (Session.on_data _ w)]
        rfl
      exact Session.exists_ending_of_unheard run rfl (Failure.isOwn_data fault)
  | ok n =>
      rw [attempts_of_limit limit]
      cases n with
      | zero =>
          intro w
          have run : (c.ask place params).on w = (.error (.data .noSuchPart), w) := by
            rw [on_ask, sendPatiently, limit, Session.on_bind_of_ok (Session.on_data _ w)]
            rfl
          exact Session.exists_ending_of_unheard run rfl (Failure.isOwn_data .noSuchPart)
      | succ n =>
          have some : n + 1 ≠ 0 := Nat.succ_ne_zero n
          exact ends_ask_of_limited (attemptLimit_eq_ok limit some) (by omega) place params

end Client

namespace Tokens

theorem quiet_haveCredentials (s : Settings) : (haveCredentials s).Quiet := by
  rw [haveCredentials]
  split
  · exact Session.quiet_pure ()
  · exact Session.quiet_fail fun _ _ => Failure.noConfusion

def posted (s : Settings) (url : Value) (fields : Members) : Request where
  method := "POST"
  url := url
  headers := [("Content-Type", .text "application/x-www-form-urlencoded")]
  payload := .form fields
  timeout := s.requestTimeout

theorem on_postForm (s : Settings) (url : Value) (fields : Members) {w : Wire} {o : Outcome}
    (next : w.outcomes.head? = some o) :
    (postForm s url fields).on w = (o.reply, w.sent (posted s url fields)) := by
  rw [postForm, Session.on_bind_of_ok (Session.on_send next _)]
  cases o with
  | answered r =>
      dsimp only
      rw [Outcome.reply, Outcome.verdict]
      cases r.isOk with
      | true => exact Session.on_check _ _
      | false => rfl
  | unreachable kind message => rfl
  | broken f => rfl

theorem ends_postForm (s : Settings) (url : Value) (fields : Members) :
    (postForm s url fields).Ends 1 := by
  rintro ⟨outcomes, requests, waits, log⟩
  cases outcomes with
  | nil => exact ⟨[], rfl, .of_unheard (f := .silence) fun _ _ => Failure.noConfusion⟩
  | cons o rest =>
      rw [on_postForm s url fields rfl]
      exact ⟨[o], rfl, .of_reply (fun _ none => absurd none List.not_mem_nil) (Or.inl rfl)⟩

open Session

theorem ends_exchange (s : Settings) (code : Value) : (exchange s code).Ends 1 := by
  have told (answer : Value) : Quiet (do
      report .info (.ok "Token exchange succeeded")
      let access ← data (required answer "access_token")
      let refresh ← data (required answer "refresh_token")
      let expires ← data (required answer "expires_in")
      let ms ← data answer.members?
      pure { accessToken := access, refreshToken := refresh, expiresIn := expires
             userId := Members.get ms "user_id" : Tokens }) :=
    (quiet_report _ _).bind fun _ => (quiet_data _).bind fun _ => (quiet_data _).bind fun _ =>
      (quiet_data _).bind fun _ => (quiet_data _).bind fun _ => quiet_pure _
  exact .behind (fun _ => .behind (fun _ => (ends_postForm s _ _).before told) (quiet_report _ _))
    (quiet_haveCredentials s)

theorem ends_refresh (s : Settings) (refreshToken : Value) : (refresh s refreshToken).Ends 1 := by
  have told (answer : Value) : Quiet (do
      let access ← data (required answer "access_token")
      let expires ← data (required answer "expires_in")
      pure { accessToken := access, refreshToken := refreshToken, expiresIn := expires
             userId := .null : Tokens }) :=
    (quiet_data _).bind fun _ => (quiet_data _).bind fun _ => quiet_pure _
  exact .behind (fun _ => (ends_postForm s _ _).before told) (quiet_haveCredentials s)

end Tokens

namespace Operation

theorem ends_run (op : Operation) : op.run.Ends op.attempts := by
  have joined {c : Client} {ids : Value} {place : String} {params : Value → Value} :
      Session.Ends c.attempts (do
        let joined ← Session.data (Client.commaJoined ids)
        c.ask place (params joined)) :=
    .behind (fun _ => c.ends_ask _ _) (Session.quiet_data _)
  cases op with
  | me c => exact (c.ends_ask _ _).before fun _ => Session.quiet_pure _
  | file c key depth => exact (c.ends_ask _ _).before fun _ => Session.quiet_pure _
  | fileNodes c key ids => exact joined.before fun _ => Session.quiet_pure _
  | images c key ids format scale => exact joined.before fun _ => Session.quiet_pure _
  | localVariables c key => exact (c.ends_ask _ _).before fun _ => Session.quiet_pure _
  | exchange s code => exact (Tokens.ends_exchange s code).before fun _ => Session.quiet_pure _
  | refresh s token => exact (Tokens.ends_refresh s token).before fun _ => Session.quiet_pure _

/-- Over a network that fails or answers, an operation takes some outcomes, and the last response
among them judges it exactly if nothing came behind that response, its status is accepted or an
error, and a busy service was asked as often as it may be. -/
theorem judges_run_iff (op : Operation) (w : Wire)
    (network : ∀ o ∈ w.outcomes, ∀ f, o ≠ .broken f) :
    ∃ heard, w.outcomes = heard ++ (op.run.on w).2.outcomes ∧
      (Judges heard (op.run.on w).1 ↔ ∀ r, lastResponse? heard = some r →
        heard.getLast? = some (.answered r) ∧
          (r.IsAccepted ∨ 400 ≤ r.status ∧ r.status ≤ 599) ∧
          (r.status = Client.busyStatus → heard.length = op.attempts)) := by
  obtain ⟨heard, split, ending⟩ := op.ends_run w
  refine ⟨heard, split, ending.judges_iff fun o mem => network o ?_⟩
  rw [split]
  exact List.mem_append_left _ mem

/-! ### Two runs -/

/-- The network fails, then the service is busy, then the design is gone. -/
def gone : List Outcome :=
  [Client.down, .answered { status := 429, headers := [], body := .text "" },
   .answered { status := 404, headers := [], body := .text "gone" }]

theorem judges_run_gone :
    ((me (Client.patient 3 (.whole 1))).run.on (Wire.fresh gone)).1
        = .error (.refused 404 "gone") ∧
      Judges gone ((me (Client.patient 3 (.whole 1))).run.on (Wire.fresh gone)).1 := by
  have network : ∀ o ∈ gone, ∀ f, o ≠ .broken f := by
    intro o mem f
    rcases List.mem_cons.mp mem with rfl | mem
    · exact Outcome.noConfusion
    · rcases List.mem_pair.mp mem with rfl | rfl <;> exact Outcome.noConfusion
  obtain ⟨heard, split, judged⟩ :=
    judges_run_iff (me (Client.patient 3 (.whole 1))) (Wire.fresh gone) network
  have rest : ((me (Client.patient 3 (.whole 1))).run.on (Wire.fresh gone)).2.outcomes = [] := rfl
  rw [rest, List.append_nil] at split
  obtain rfl : gone = heard := split
  refine ⟨rfl, judged.mpr fun r last => ?_⟩
  obtain rfl := Option.some.inj last
  exact ⟨rfl, Or.inr (by decide), fun busy => absurd busy (by decide)⟩

def choice : Response where
  status := 300
  headers := []
  body := .json (.object [("id", .text "me")])

theorem not_judges_choice :
    ((me (Client.patient 5 (.whole 1))).run.on (Wire.fresh [.answered choice])).1
        = .ok (.inl (.object [("id", .text "me")])) ∧
      ((me (Client.patient 5 (.whole 1))).run.on (Wire.fresh [.answered choice])).2.outcomes = [] ∧
      ¬ Judges [.answered choice]
        ((me (Client.patient 5 (.whole 1))).run.on (Wire.fresh [.answered choice])).1 := by
  have result : ((me (Client.patient 5 (.whole 1))).run.on (Wire.fresh [.answered choice])).1
      = .ok (.inl (.object [("id", .text "me")])) := rfl
  refine ⟨result, rfl, fun judges => ?_⟩
  obtain ⟨r, last, -, low⟩ := judges.accepts _ result
  obtain rfl := Option.some.inj last
  exact absurd low (by decide)

end Operation

end DesignMarkup
