import DesignMarkup.Service.Session

/-!
# Sessions, opened

What a session does to a wire, one equation for each way in which it is put together. A later
proof follows a session along its wire with these and never looks inside its layers.
-/

namespace DesignMarkup.Session

variable {α β : Type}

@[simp] theorem on_pure (a : α) (w : Wire) : (pure a : Session α).on w = (.ok a, w) := rfl

@[simp] theorem on_fail (e : Failure) (w : Wire) : (fail e : Session α).on w = (.error e, w) := rfl

@[simp] theorem on_check (y : Except Failure α) (w : Wire) : (check y).on w = (y, w) := by
  cases y <;> rfl

@[simp] theorem on_data (y : Except Fault α) (w : Wire) : (data y).on w = (orFail y, w) :=
  on_check _ w

@[simp] theorem on_report (level : Level) (text : Except Fault String) (w : Wire) :
    (report level text).on w = (.ok (), { w with log := w.log ++ [⟨level, text⟩] }) :=
  rfl

@[simp] theorem on_wait (v : Value) (w : Wire) :
    (wait v).on w = (.ok (), { w with waits := w.waits ++ [v] }) :=
  rfl

variable {x : Session α} {f : α → Session β} {w w' : Wire}

/-- Behind a success the next step takes the wire as it was left. -/
theorem on_bind_of_ok {a : α} (h : x.on w = (.ok a, w')) : (x >>= f).on w = (f a).on w' := by
  show ExceptT.bindCont f (x.on w).1 (x.on w).2 = _
  rw [h]
  rfl

/-- Behind a failure nothing more is done to the wire. -/
theorem on_bind_of_error {e : Failure} (h : x.on w = (.error e, w')) :
    (x >>= f).on w = (.error e, w') := by
  show ExceptT.bindCont f (x.on w).1 (x.on w).2 = _
  rw [h]
  rfl

/-- A step behind another that uses no wire. -/
theorem on_bind_check {g : α → Except Failure β} {r : Except Failure α} (h : x.on w = (r, w')) :
    (x >>= fun a => check (g a)).on w = (r >>= g, w') := by
  cases r with
  | error e => exact on_bind_of_error h
  | ok a => exact (on_bind_of_ok h).trans (on_check _ w')

theorem check_bind (y : Except Failure α) (g : α → Except Failure β) :
    check (y >>= g) = (do check (g (← check y))) := by
  cases y <;> rfl

/-- A handler takes the wire as a failure left it. -/
theorem on_tryCatch {handler : Failure → Session α} {r : Except Failure α}
    (h : x.on w = (r, w')) :
    (tryCatch x handler).on w
      = match r with
        | .ok a => (.ok a, w')
        | .error e => (handler e).on w' := by
  have run : StateT.run (m := Id) x w = (r, w') := h
  simp only [on, tryCatch, tryCatchThe, MonadExceptOf.tryCatch, ExceptT.tryCatch, ExceptT.run_mk,
    StateT.run_bind, run]
  cases r <;> rfl

/-- A request that is sent takes the next outcome from the wire. -/
theorem on_send {o : Outcome} (h : w.outcomes.head? = some o) (r : Request) :
    (send r).on w
      = (.ok o, { w with outcomes := w.outcomes.tail, requests := w.requests ++ [r] }) := by
  obtain ⟨outcomes, requests, waits, log⟩ := w
  cases outcomes with
  | nil => cases h
  | cons first rest =>
      obtain rfl := Option.some.inj h
      rfl

/-- Where the network has no outcome in store a request is sent and gets none. -/
theorem on_send_of_silence (none : w.outcomes.head? = none) (r : Request) :
    (send r).on w
      = (.error .silence, { w with outcomes := w.outcomes.tail, requests := w.requests ++ [r] }) := by
  obtain ⟨outcomes, requests, waits, log⟩ := w
  obtain rfl : outcomes = [] := List.head?_eq_none_iff.mp none
  rfl

/-! ## What a session sees -/

/-- The session sees nothing of a wire but the outcomes on it. -/
def Blind (x : Session α) : Prop :=
  ∀ w w' : Wire, w.outcomes = w'.outcomes →
    ∃ result v v', x.on w = (result, v) ∧ x.on w' = (result, v') ∧ v.outcomes = v'.outcomes

theorem blind_check (y : Except Failure α) : (check y).Blind :=
  fun w w' same => ⟨y, w, w', on_check y w, on_check y w', same⟩

theorem Blind.bind (hx : x.Blind) (hf : ∀ a, (f a).Blind) : (x >>= f).Blind := by
  intro w w' same
  obtain ⟨result, v, v', left, right, outcomes⟩ := hx w w' same
  cases result with
  | error e => exact ⟨_, v, v', on_bind_of_error left, on_bind_of_error right, outcomes⟩
  | ok a =>
      rw [on_bind_of_ok left, on_bind_of_ok right]
      exact hf a v v' outcomes

end DesignMarkup.Session
