import Mathlib.Tactic.Choose
import DesignMarkup.Proofs.Patience

/-!
# Exchanges

A question to the service is one request, sent until an outcome decides. Whatever the outcomes
and whatever the pauses that they call for, an exchange comes to one of two things: an outcome
decides it, and the answer is what that outcome holds; or the client itself comes to grief over a
pause, or over a network that has nothing more to say, and that is no failure that it reports.
-/

namespace DesignMarkup

def Outcome.reply (o : Outcome) : Except Failure Value := o.verdict >>= Client.answer

theorem Outcome.reply_answered {r : Response} (accepted : r.isOk = true) :
    (answered r).reply = r.json := by
  rw [reply, verdict, if_pos accepted]
  rfl

/-- An answer is the body of a response that is no error. -/
theorem Outcome.answered_of_reply {o : Outcome} {v : Value} (h : o.reply = .ok v) :
    ∃ r, o = .answered r ∧ r.isOk = true ∧ r.json = .ok v := by
  cases o with
  | answered r =>
      cases accepted : r.isOk with
      | true =>
          rw [reply_answered accepted] at h
          exact ⟨r, rfl, accepted, h⟩
      | false =>
          rw [reply, verdict, accepted] at h
          cases h
  | unreachable kind message => cases h
  | broken f => cases h

/-- A response that is no error is not that of a busy service. -/
theorem Outcome.isConclusive_of_isOk {r : Response} (accepted : r.isOk = true) :
    (answered r).IsConclusive := by
  intro busy
  rw [Response.isOk, busy] at accepted
  exact absurd accepted (by decide)

namespace Client

section

variable (c : Client) (limit : Nat) (outcomes : List Outcome)

/-- The outcome of a number leaves a request open: it decides nothing, and the pause that it calls
for can be had. -/
def LeavesOpen (i : Nat) : Prop :=
  ∃ o, outcomes[i]? = some o ∧ ¬ o.IsConclusive ∧ Succeeds (c.respite limit i o)

/-- An outcome decides a request: those before it leave it open, and it is conclusive or the
last. -/
structure Decides (k : Nat) (o : Outcome) : Prop where
  within : k < limit
  before : ∀ i < k, c.LeavesOpen limit outcomes i
  here : outcomes[k]? = some o
  final : k + 1 = limit ∨ o.IsConclusive

end

variable {c : Client} {limit : Nat} {w : Wire} (request : Request)

/-- As long as the outcomes leave it open the request is sent again. -/
theorem on_attempt_of_leavesOpen {k : Nat} (more : k < limit)
    (before : ∀ i < k, c.LeavesOpen limit w.outcomes i) :
    ∃ respites, (c.attempt request limit limit).on w
      = (c.attempt request limit (limit - k)).on (w.after request k respites) := by
  have : Nonempty Outcome := ⟨.broken .silence⟩
  have : Nonempty Respite := ⟨⟨.null, .ok ""⟩⟩
  choose! o here undecided t respites using before
  exact ⟨_, on_attempt_after here more fun i hi => ⟨undecided i hi, respites i hi⟩⟩

theorem on_attempt_of_decides {k : Nat} {o : Outcome} (h : c.Decides limit w.outcomes k o) :
    ∃ respites, (c.attempt request limit limit).on w
      = (o.verdict, w.after request (k + 1) respites) := by
  obtain ⟨respites, run⟩ := on_attempt_of_leavesOpen request h.within h.before
  obtain ⟨left, hleft⟩ : ∃ left, limit - k = left + 1 := ⟨limit - k - 1, by have := h.within; omega⟩
  have next := (w.head_outcomes_after request k respites).trans h.here
  have last : left = 0 ∨ o.IsConclusive := h.final.imp_left fun _ => by omega
  exact ⟨respites, by rw [run, hleft, on_attempt_of_decided next last, Wire.sent_after]⟩

/-- Where the network has no outcome in store a request gets no answer. -/
theorem on_attempt_of_silence {left : Nat} (none : w.outcomes.head? = none) :
    (c.attempt request limit (left + 1)).on w = (.error .silence, w.sent request) :=
  Session.on_bind_of_error (Session.on_send_of_silence none request)

/-- A request is sent until an outcome decides, or ends at the first outcome that neither decides
nor leaves it open. -/
theorem on_attempt_cases (once : 1 ≤ limit) (w : Wire) :
    ∃ k < limit, (∀ i < k, c.LeavesOpen limit w.outcomes i) ∧ ∃ result respites,
      (c.attempt request limit limit).on w = (result, w.after request (k + 1) respites) ∧
      ((∃ o, c.Decides limit w.outcomes k o ∧ result = o.verdict) ∨
        ∃ f, f.isReported = false ∧ result = .error f) := by
  classical
  -- The run ends at the first outcome that does not leave it open, or at the limit.
  have ends : ∃ k, k + 1 = limit ∨ ¬ c.LeavesOpen limit w.outcomes k := ⟨limit - 1, by omega⟩
  let k := Nat.find ends
  have stop : k + 1 = limit ∨ ¬ c.LeavesOpen limit w.outcomes k := Nat.find_spec ends
  have before : ∀ i < k, c.LeavesOpen limit w.outcomes i := by
    intro i hi
    have := Nat.find_min ends hi
    exact Classical.not_not.mp (not_or.mp this).2
  have within : k < limit := by
    have : k ≤ limit - 1 := Nat.find_min' ends (Or.inl (by omega))
    omega
  refine ⟨k, within, before, ?_⟩
  obtain ⟨respites, run⟩ := on_attempt_of_leavesOpen request within before
  obtain ⟨left, hleft⟩ : ∃ left, limit - k = left + 1 := ⟨limit - k - 1, by omega⟩
  have next := w.head_outcomes_after request k respites
  cases here : w.outcomes[k]? with
  | none =>
      refine ⟨.error .silence, respites, ?_, Or.inr ⟨.silence, rfl, rfl⟩⟩
      rw [run, hleft, on_attempt_of_silence request (next.trans here), Wire.sent_after]
  | some o =>
      by_cases final : k + 1 = limit ∨ o.IsConclusive
      · have decides : c.Decides limit w.outcomes k o := ⟨within, before, here, final⟩
        obtain ⟨respites, run⟩ := on_attempt_of_decides request decides
        exact ⟨o.verdict, respites, run, Or.inl ⟨o, decides, rfl⟩⟩
      · obtain ⟨more, undecided⟩ := not_or.mp final
        cases respite : c.respite limit k o with
        | ok t => exact absurd ⟨o, here, undecided, t, respite⟩ (stop.resolve_left more)
        | error fault =>
            refine ⟨.error (.data fault), respites, ?_, Or.inr ⟨.data fault, rfl, rfl⟩⟩
            have number : limit - (left + 1) = k := by omega
            rw [run, hleft, on_attempt_of_open (next.trans here) (by omega) (by omega) undecided,
              number, respite, Wire.sent_after]

/-! ## Questions -/

section

variable (limited : c.settings.maxRetries.number? = some (.whole limit))
  (place : String) (params : Value)

include limited

theorem on_ask_eq (w : Wire) :
    (c.ask place params).on w
      = (((c.attempt (c.question place params) limit limit).on w).1 >>= answer,
          ((c.attempt (c.question place params) limit limit).on w).2) := by
  rw [on_ask, sendPatiently_eq limited]

theorem on_ask_of_decides {k : Nat} {o : Outcome} (h : c.Decides limit w.outcomes k o) :
    ∃ respites, (c.ask place params).on w
      = (o.reply, w.after (c.question place params) (k + 1) respites) := by
  obtain ⟨respites, run⟩ := on_attempt_of_decides (c.question place params) h
  exact ⟨respites, by rw [on_ask_eq limited, run]; rfl⟩

/-- A question is sent at least once and up to the limit, the same each time, and again only
behind outcomes that leave it open; the outcome that decides it answers it, or its failure is none
that is reported. -/
theorem on_ask_cases (once : 1 ≤ limit) (w : Wire) :
    ∃ k < limit, (∀ i < k, c.LeavesOpen limit w.outcomes i) ∧ ∃ result respites,
      (c.ask place params).on w
        = (result, w.after (c.question place params) (k + 1) respites) ∧
      ((∃ o, c.Decides limit w.outcomes k o ∧ result = o.reply) ∨
        ∃ f, f.isReported = false ∧ result = .error f) := by
  obtain ⟨k, within, before, result, respites, run, ending⟩ :=
    on_attempt_cases (c := c) (c.question place params) once w
  refine ⟨k, within, before, result >>= answer, respites, ?_, ?_⟩
  · rw [on_ask_eq limited, run]
  · rcases ending with ⟨o, decides, rfl⟩ | ⟨f, unreported, rfl⟩
    · exact Or.inl ⟨o, decides, rfl⟩
    · exact Or.inr ⟨f, unreported, rfl⟩

end

theorem attemptLimit_eq_ok {n : Nat} (h : c.attemptLimit = .ok n) (some : n ≠ 0) :
    c.settings.maxRetries.number? = .some (.whole n) := by
  rw [attemptLimit] at h
  split at h
  · rename_i m hm
    obtain rfl := pure_eq_ok_iff.mp h
    have : ((m.toNat : Nat) : Int) = m := by omega
    rw [hm, this]
  · cases h

/-- Where a question is answered the limit is a number and leaves room for an attempt. -/
theorem limited_of_on_ask {place : String} {params v : Value} {w' : Wire}
    (h : (c.ask place params).on w = (.ok v, w')) :
    ∃ limit, c.settings.maxRetries.number? = some (.whole (limit : Nat)) ∧ 1 ≤ limit := by
  rw [on_ask] at h
  obtain ⟨response, sent, answered⟩ := bind_eq_ok_iff.mp (Prod.mk.inj h).1
  rw [sendPatiently] at sent
  cases limited : c.attemptLimit with
  | error fault =>
      rw [limited, Session.on_bind_of_error (Session.on_data _ w)] at sent
      cases sent
  | ok n =>
      rw [limited, Session.on_bind_of_ok (Session.on_data (.ok n) w)] at sent
      cases n with
      | zero =>
          -- Without an attempt there is no response.
          obtain rfl := Except.ok.inj sent
          cases answered
      | succ n => exact ⟨n + 1, attemptLimit_eq_ok limited (Nat.succ_ne_zero n), by omega⟩

end Client

end DesignMarkup
