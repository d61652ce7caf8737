import DesignMarkup.Proofs.Imports

/-!
# Sessions side by side

Two sessions that take the same steps on wires that compare end alike and leave wires that compare.
What is compared is a choice, made once: everything that a step does to a wire has to respect it.
For an import nothing else of its client matters than the requests it sends, how patient it is and
how deep a design may be.
-/

namespace DesignMarkup

/-- A comparison of wires, and of requests, that outlasts all that a session does to wires. -/
structure Comparison where
  Wires : Wire → Wire → Prop
  Requests : Request → Request → Prop
  outcomes : ∀ {w w'}, Wires w w' → w.outcomes = w'.outcomes
  sent : ∀ {w w'}, Wires w w' → ∀ {r r'}, Requests r r' → Wires (w.sent r) (w'.sent r')
  waited : ∀ {w w'}, Wires w w' → ∀ pause,
    Wires { w with waits := w.waits ++ [pause] } { w' with waits := w'.waits ++ [pause] }
  reported : ∀ {w w'}, Wires w w' → ∀ lines, Wires (w.reporting lines) (w'.reporting lines)

/-- Results that come to the same failure, or to values that are related. -/
inductive Agree {α : Type} (R : α → α → Prop) : Except Failure α → Except Failure α → Prop
  | ok {a b : α} (related : R a b) : Agree R (.ok a) (.ok b)
  | error (f : Failure) : Agree R (.error f) (.error f)

theorem agree_eq_iff {α : Type} {x y : Except Failure α} : Agree Eq x y ↔ x = y := by
  constructor
  · rintro (same | f)
    · exact congrArg Except.ok same
    · rfl
  · rintro rfl
    cases x with
    | ok a => exact .ok rfl
    | error f => exact .error f

namespace Session

variable {α β : Type} {C : Comparison} {R : α → α → Prop} {S : β → β → Prop}

/-- On wires that compare, two sessions come to results that agree and leave wires that compare. -/
def Parallel (C : Comparison) (R : α → α → Prop) (x y : Session α) : Prop :=
  ∀ w w', C.Wires w w' → ∃ result result' v v', x.on w = (result, v) ∧ y.on w' = (result', v') ∧
    Agree R result result' ∧ C.Wires v v'

theorem parallel_check (y : Except Failure α) : Parallel C Eq (check y) (check y) :=
  fun w w' same => ⟨y, y, w, w', on_check y w, on_check y w', agree_eq_iff.mpr rfl, same⟩

theorem parallel_data (y : Except Fault α) : Parallel C Eq (data y) (data y) := parallel_check _

theorem parallel_fail (f : Failure) : Parallel C R (fail f) (fail f) :=
  fun w w' same => ⟨_, _, w, w', on_fail f w, on_fail f w', .error f, same⟩

theorem parallel_pure {a b : α} (related : R a b) : Parallel C R (pure a) (pure b) :=
  fun w w' same => ⟨_, _, w, w', on_pure a w, on_pure b w', .ok related, same⟩

theorem parallel_report (level : Level) (text : Except Fault String) :
    Parallel C Eq (report level text) (report level text) :=
  fun w w' same => ⟨_, _, _, _, on_report level text w, on_report level text w', .ok rfl,
    C.reported same [⟨level, text⟩]⟩

theorem parallel_wait (pause : Value) : Parallel C Eq (wait pause) (wait pause) :=
  fun w w' same => ⟨_, _, _, _, on_wait pause w, on_wait pause w', .ok rfl, C.waited same pause⟩

theorem parallel_send {r r' : Request} (h : C.Requests r r') :
    Parallel C Eq (send r) (send r') := by
  intro w w' same
  have outcomes := C.outcomes same
  cases first : w.outcomes.head? with
  | none =>
      have first' : w'.outcomes.head? = none := by rw [← outcomes, first]
      exact ⟨_, _, _, _, on_send_of_silence first r, on_send_of_silence first' r',
        .error .silence, C.sent same h⟩
  | some o =>
      have first' : w'.outcomes.head? = some o := by rw [← outcomes, first]
      exact ⟨_, _, _, _, on_send first r, on_send first' r', .ok rfl, C.sent same h⟩

variable {x y : Session α}

theorem Parallel.bind {f g : α → Session β} (h : Parallel C Eq x y)
    (next : ∀ a, Parallel C S (f a) (g a)) : Parallel C S (x >>= f) (y >>= g) := by
  intro w w' same
  obtain ⟨_, _, v, v', left, right, agree, wires⟩ := h w w' same
  cases agree with
  | error e =>
      exact ⟨_, _, v, v', on_bind_of_error left, on_bind_of_error right, .error e, wires⟩
  | ok related =>
      obtain rfl := related
      rw [on_bind_of_ok left, on_bind_of_ok right]
      exact next _ v v' wires

theorem Parallel.tryCatch {handler handler' : Failure → Session α} (h : Parallel C R x y)
    (handled : ∀ e, Parallel C R (handler e) (handler' e)) :
    Parallel C R (tryCatch x handler) (tryCatch y handler') := by
  intro w w' same
  obtain ⟨_, _, v, v', left, right, agree, wires⟩ := h w w' same
  rw [on_tryCatch left, on_tryCatch right]
  cases agree with
  | error e => exact handled e v v' wires
  | ok related => exact ⟨_, _, v, v', rfl, rfl, .ok related, wires⟩

end Session

open Session

variable {C : Comparison} {c c' : Client}

/-- Clients that send requests which compare, have the same patience and allow designs of the same
depth. -/
structure Client.Peers (C : Comparison) (c c' : Client) : Prop where
  question : ∀ place params, C.Requests (c.question place params) (c'.question place params)
  maxRetries : c.settings.maxRetries = c'.settings.maxRetries
  initialBackoff : c.settings.initialBackoff = c'.settings.initialBackoff
  maxTreeDepth : c.settings.maxTreeDepth = c'.settings.maxTreeDepth

namespace Client.Peers

variable (peers : Peers C c c')

include peers

theorem backoff_eq (attempts : Nat) : c.backoff attempts = c'.backoff attempts := by
  rw [backoff, backoff, peers.initialBackoff]

theorem busyPause_eq (r : Response) (attempts : Nat) :
    c.busyPause r attempts = c'.busyPause r attempts := by
  rw [busyPause, busyPause, peers.backoff_eq]

theorem attemptLimit_eq : c.attemptLimit = c'.attemptLimit := by
  rw [attemptLimit, attemptLimit, peers.maxRetries]

theorem parallel_attempt {r r' : Request} (h : C.Requests r r') (limit left : Nat) :
    Parallel C Eq (c.attempt r limit left) (c'.attempt r' limit left) := by
  induction left with
  | zero => exact parallel_pure rfl
  | succ left ih =>
      -- Both wait and try again, or neither does.
      have again (pause : Except Fault Value) (line : Value → Except Fault String) :
          Parallel C Eq
            (do
              let pause ← data pause
              report .warning (line pause)
              wait pause
              c.attempt r limit left)
            (do
              let pause ← data pause
              report .warning (line pause)
              wait pause
              c'.attempt r' limit left) :=
        (parallel_data _).bind fun pause => (parallel_report _ (line pause)).bind fun _ =>
          (parallel_wait pause).bind fun _ => ih
      refine (parallel_send h).bind fun o => ?_
      cases o with
      | broken f => exact parallel_fail f
      | unreachable kind message =>
          dsimp only
          split
          · exact parallel_fail _
          · rw [peers.backoff_eq]
            exact again _ (failureReport message)
      | answered response =>
          dsimp only
          split
          · rw [peers.busyPause_eq]
            exact again _ (busyReport · (limit - left) limit)
          · refine Parallel.bind ?_ fun r => parallel_pure rfl
            rw [decision]
            split
            · exact parallel_pure rfl
            · exact parallel_fail _

theorem parallel_ask (place : String) (params : Value) :
    Parallel C Eq (c.ask place params) (c'.ask place params) := by
  have patient : Parallel C Eq (c.sendPatiently (c.question place params))
      (c'.sendPatiently (c'.question place params)) := by
    rw [sendPatiently, sendPatiently, peers.attemptLimit_eq]
    exact (parallel_data _).bind fun limit =>
      peers.parallel_attempt (peers.question place params) limit limit
  refine patient.bind fun response => ?_
  cases response with
  | some r => exact parallel_check _
  | none => exact parallel_fail _

theorem parallel_file (key depth : Value) : Parallel C Eq (c.file key depth) (c'.file key depth) :=
  peers.parallel_ask _ _

theorem parallel_fileNodes (key ids : Value) :
    Parallel C Eq (c.fileNodes key ids) (c'.fileNodes key ids) :=
  (parallel_data _).bind fun _ => peers.parallel_ask _ _

theorem parallel_images (key ids format scale : Value) :
    Parallel C Eq (c.images key ids format scale) (c'.images key ids format scale) :=
  (parallel_data _).bind fun _ => peers.parallel_ask _ _

end Client.Peers

/-! ## Imports -/

variable (peers : c.Peers C c')

include peers

namespace ImageUse

theorem parallel_resolve (key : Value) (uses : List ImageUse) (format scale : Value) :
    Parallel C Eq (resolve c key uses format scale) (resolve c' key uses format scale) := by
  have reported (ids : List String) (urls : Members) :
      Parallel C Eq
        (if (unaddressed ids urls).isEmpty then pure urls
          else do
            report .warning (.ok (missingReport (unaddressed ids urls)))
            pure urls)
        (if (unaddressed ids urls).isEmpty then pure urls
          else do
            report .warning (.ok (missingReport (unaddressed ids urls)))
            pure urls) := by
    split
    · exact parallel_pure rfl
    · exact (parallel_report _ _).bind fun _ => parallel_pure rfl
  rw [resolve, resolve]
  split
  · exact parallel_pure rfl
  · refine (parallel_data _).bind fun ids => (peers.parallel_images _ _ _ _).bind fun response =>
      (parallel_data _).bind fun answer => ?_
    dsimp only
    split
    · exact (parallel_data _).bind fun urls => reported _ _
    · exact (parallel_pure rfl).bind fun urls => reported _ _

end ImageUse

namespace Imported

theorem parallel_tryResolve (key : String) (uses : List ImageUse) :
    Parallel C Eq (tryResolve c key uses) (tryResolve c' key uses) := by
  have resolved := ImageUse.parallel_resolve peers (.text key) uses Client.defaultFormat
    Client.defaultScale
  refine Parallel.tryCatch (resolved.bind fun urls => parallel_pure rfl) fun f => ?_
  split
  · exact (parallel_report _ _).bind fun _ => parallel_pure rfl
  · exact parallel_fail f

theorem parallel_withImages (key : String) (r : Converted) :
    Parallel C Eq (withImages c key r) (withImages c' key r) := by
  rw [withImages, withImages]
  split
  · exact parallel_pure rfl
  · refine (parallel_tryResolve peers key r.images).bind fun urls => ?_
    cases urls with
    | none => exact parallel_pure rfl
    | some urls => exact (parallel_data _).bind fun extra => parallel_pure rfl

theorem parallel_fetchTarget (link : ShareLink) :
    Parallel C Eq (fetchTarget c link) (fetchTarget c' link) := by
  rw [fetchTarget, fetchTarget]
  cases link.nodeId with
  | some id => exact (peers.parallel_fileNodes _ _).bind fun response => parallel_check _
  | none => exact (peers.parallel_file _ _).bind fun response => parallel_check _

theorem parallel_ofUrl (url : Value) (options : Except Fault Options) :
    Parallel C Eq (ofUrl c url options) (ofUrl c' url options) := by
  rw [ofUrl, ofUrl]
  refine (parallel_data _).bind fun link => ?_
  cases link with
  | none => exact parallel_fail _
  | some link =>
      refine (parallel_fetchTarget peers link).bind fun target => ?_
      obtain ⟨node, fileName⟩ := target
      dsimp only
      rw [peers.maxTreeDepth]
      exact (parallel_check _).bind fun _ => (parallel_data _).bind fun options =>
        (parallel_data _).bind fun converted =>
        (parallel_withImages peers link.fileKey converted).bind fun converted =>
        (parallel_data _).bind fun ms => parallel_pure rfl

end Imported

end DesignMarkup
