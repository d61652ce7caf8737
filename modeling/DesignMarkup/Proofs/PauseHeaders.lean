import DesignMarkup.Proofs.Patience

/-!
# Pause headers

A busy service may ask for a pause in a header, in whatever text it likes. The client tells by one
class of digits whether the text is a number and reads the number by a narrower one. A text between
the two ends the run with the complaint of the reader; any other text only says how long the pause
is. So a run fails as its last outcome does exactly if no header on the way misleads it and each
pause that is asked for in no header can be had.
-/

namespace DesignMarkup

namespace Outcome

/-- An outcome as it comes over the network: a response, in which a busy service asks for its pause
in a text or not at all, or a failure of the network itself. -/
def OverNetwork : Outcome → Prop
  | answered r => r.status = Client.busyStatus → r.AsksInText
  | unreachable _ _ => True
  | broken _ => False

/-- An outcome brings a failure: the refusal with the status and the text of its response, or the
failure of the network. -/
def Brings (f : Failure) : Outcome → Prop
  | answered r => f = .refused r.status r.text
  | unreachable kind message => f = .network kind message
  | broken _ => False

/-- The pause after the attempt of a number can be had: no header misleads, and where none asks for
a pause the first one can be doubled so often. -/
def Manages (b : Number) (i : Nat) (o : Outcome) : Prop :=
  (∀ s, ¬ o.MisleadsBy s) ∧ (o.seconds ≠ none ∨ b.CanDouble i)

/-- Why the pause cannot be had: the complaint about the text that misleads, or else the number is a
double that is doubled too often. -/
def FailsWith (b : Number) (i : Nat) (fault : Fault) (o : Outcome) : Prop :=
  (∃ s, o.MisleadsBy s ∧ fault = .badValue (Value.wholeComplaint s)) ∨
    (∀ s, ¬ o.MisleadsBy s) ∧ ¬ (o.seconds ≠ none ∨ b.CanDouble i) ∧ fault = .outOfRange

/-- The respites after the first outcomes: the seconds that a header spells, else the doubled
pause. -/
def respites (b : Number) (limit : Nat) (o : Nat → Outcome) (times : Nat) : List Respite :=
  (List.range times).map fun i => (o i).respiteOf b limit i (o i).seconds

variable {b : Number} {i : Nat} {o : Outcome}

theorem exists_failsWith (h : ¬ o.Manages b i) : ∃ fault, o.FailsWith b i fault := by
  by_cases clear : ∀ s, ¬ o.MisleadsBy s
  · exact ⟨_, Or.inr ⟨clear, fun possible => h ⟨clear, possible⟩, rfl⟩⟩
  · obtain ⟨s, misled⟩ := Classical.not_forall_not.mp clear
    exact ⟨_, Or.inl ⟨s, misled, rfl⟩⟩

theorem asksInText_of_overNetwork (h : o.OverNetwork) : o.AsksInText := by
  cases o with
  | answered r => exact h
  | unreachable kind message => trivial
  | broken f => trivial

/-- An outcome that decides either has an answer or brings its own failure. -/
theorem brings_of_verdict {f : Failure} (h : o.OverNetwork) (failed : o.verdict = .error f) :
    o.Brings f := by
  cases o with
  | answered r =>
      rw [verdict] at failed
      split at failed
      · cases failed
      · exact (Except.error.inj failed).symm
  | unreachable kind message => exact (Except.error.inj failed).symm
  | broken f => exact h

theorem not_brings_data (fault : Fault) : ¬ o.Brings (.data fault) := by
  cases o with
  | answered r => exact Failure.noConfusion
  | unreachable kind message => exact Failure.noConfusion
  | broken f => exact id

end Outcome

namespace Client

variable {c : Client} {b : Number} {limit i : Nat} {o : Outcome}

theorem respite_of_manages (hb : c.settings.initialBackoff.number? = some b) (h : o.OverNetwork)
    (undecided : ¬ o.IsConclusive) (managed : o.Manages b i) :
    c.respite limit i o = .ok (o.respiteOf b limit i o.seconds) :=
  respite_of_possible (Outcome.asksInText_of_overNetwork h) managed.1 undecided hb managed.2

theorem respite_of_failsWith (hb : c.settings.initialBackoff.number? = some b) (h : o.OverNetwork)
    (undecided : ¬ o.IsConclusive) {fault : Fault} (fails : o.FailsWith b i fault) :
    c.respite limit i o = .error fault := by
  rcases fails with ⟨s, misled, rfl⟩ | ⟨clear, impossible, rfl⟩
  · exact respite_of_misleadsBy undecided misled
  · exact respite_of_impossible (Outcome.asksInText_of_overNetwork h) clear undecided hb impossible

/-- Over the network a request is sent up to the first outcome that decides, or up to the limit,
and fails as that outcome does, or not at all, exactly if each pause before it can be had. Then the
pauses are the seconds that the headers spell, and the doubled pause where a header spells none. At
the first pause that cannot be had the run ends instead, with the fault of that pause. -/
theorem failures_of_sendPatiently {c : Client} {limit : Nat} {b : Number} {o : Nat → Outcome}
    {w : Wire} (hlimit : c.settings.maxRetries.number? = some (.whole limit)) (once : 1 ≤ limit)
    (hb : c.settings.initialBackoff.number? = some b)
    (outcomes : ∀ i < limit, w.outcomes[i]? = some (o i))
    (network : ∀ i < limit, (o i).OverNetwork) :
    ∃ k, IsLeast {k | k + 1 = limit ∨ (o k).IsConclusive} k ∧ ∀ request,
      ((∀ f, ((c.sendPatiently request).on w).1 = .error f → (o k).Brings f) ↔
        ∀ i < k, (o i).Manages b i) ∧
      ((∀ i < k, (o i).Manages b i) →
        (c.sendPatiently request).on w
          = ((o k).verdict, w.after request (k + 1) (Outcome.respites b limit o k))) ∧
      ∀ j < k, (∀ i < j, (o i).Manages b i) → ∀ fault, (o j).FailsWith b j fault →
        (c.sendPatiently request).on w
          = (.error (.data fault), w.after request (j + 1) (Outcome.respites b limit o j)) := by
  obtain ⟨k, below, least, undecided⟩ := exists_isLeast_decided o once
  have rests {j : Nat} (hj : j ≤ k) (managed : ∀ i < j, (o i).Manages b i) :
      ∀ i < j, ¬ (o i).IsConclusive ∧
        c.respite limit i (o i) = .ok ((o i).respiteOf b limit i (o i).seconds) := by
    intro i hi
    have undecided := (undecided i (by omega)).2
    exact ⟨undecided, respite_of_manages hb (network i (by omega)) undecided (managed i hi)⟩
  have decided (managed : ∀ i < k, (o i).Manages b i) (request : Request) :
      (c.sendPatiently request).on w
        = ((o k).verdict, w.after request (k + 1) (Outcome.respites b limit o k)) := by
    rw [sendPatiently_eq hlimit]
    exact on_attempt_decided (fun i hi => outcomes i (by omega)) below
      (rests (Nat.le_refl k) managed) least.1
  have ended {j : Nat} (hj : j < k) (managed : ∀ i < j, (o i).Manages b i) {fault : Fault}
      (fails : (o j).FailsWith b j fault) (request : Request) :
      (c.sendPatiently request).on w
        = (.error (.data fault), w.after request (j + 1) (Outcome.respites b limit o j)) := by
    obtain ⟨more, undecided⟩ := undecided j hj
    rw [sendPatiently_eq hlimit]
    exact on_attempt_cut_short (fun i hi => outcomes i (by omega)) (by omega)
      (rests (Nat.le_of_lt hj) managed) undecided
      (respite_of_failsWith hb (network j (by omega)) undecided fails)
  refine ⟨k, least, fun request => ⟨⟨fun brought => ?_, fun managed f failed => ?_⟩,
    fun managed => decided managed request,
    fun j hj managed fault fails => ended hj managed fails request⟩⟩
  · -- The pauses are followed up to the first that cannot be had; its fault no outcome brings.
    intro i
    induction i using Nat.strong_induction_on with
    | _ i managed =>
        intro hi
        by_contra unmanaged
        obtain ⟨fault, fails⟩ := Outcome.exists_failsWith unmanaged
        have run := ended hi (fun j hj => managed j hj (by omega)) fails request
        exact Outcome.not_brings_data fault (brought _ (congrArg Prod.fst run))
  · rw [decided managed request] at failed
    exact Outcome.brings_of_verdict (network k below) failed

/-! ### Two runs -/

def busyAsking (s : String) : Response where
  status := 429
  headers := [("Retry-After", .text s)]
  body := .text "x"

theorem header_busyAsking (s : String) :
    (busyAsking s).header? laterHeader = some (.text s) := by
  simp [Response.header?, busyAsking, laterHeader]

theorem seconds_busyAsking (s : String) :
    (Outcome.answered (busyAsking s)).seconds = Decimal.numberIn? s.toList := by
  rw [Outcome.seconds, Response.seconds, header_busyAsking]

theorem overNetwork_busyAsking (s : String) :
    (Outcome.answered (busyAsking s)).OverNetwork := by
  intro _ v hv
  exact ⟨s, (Option.some.inj ((header_busyAsking s).symm.trans hv)).symm⟩

theorem eq_of_misleadsBy_busyAsking {s s' : String}
    (h : (Outcome.answered (busyAsking s)).MisleadsBy s') : s' = s := by
  have same := h.1.symm.trans (header_busyAsking s)
  exact Value.text.inj (Option.some.inj same)

def one : Response where
  status := 200
  headers := []
  body := .json (.object [("ra", .whole 1)])

def threeThenSoon : List Outcome :=
  [.answered (busyAsking "٣"), .answered (busyAsking "soon"), .answered one]

theorem failures_of_sendPatiently_threeThenSoon :
    ((patient 3 (.whole 1)).sendPatiently ((patient 3 (.whole 1)).question "/me" .null)).on
        (Wire.fresh threeThenSoon)
      = (.ok (some one),
          { outcomes := []
            requests := List.replicate 3 ((patient 3 (.whole 1)).question "/me" .null)
            waits := [.whole 3, .whole 2]
            log :=
              [⟨.warning, .ok "Rate limit hit (429). Waiting 3 seconds before retry 1/3..."⟩,
               ⟨.warning, .ok "Rate limit hit (429). Waiting 2 seconds before retry 2/3..."⟩] }) := by
  have three : Decimal.numberIn? "٣".toList = some 3 := by decide +kernel
  have soon : Decimal.numberIn? "soon".toList = none := by decide +kernel
  have outcomes : ∀ i < 3, (Wire.fresh threeThenSoon).outcomes[i]?
      = some (threeThenSoon.getD i down) :=
    outcomes_fresh (Nat.le_refl 3)
  have network : ∀ i < 3, (threeThenSoon.getD i down).OverNetwork := by
    intro i hi
    match i, hi with
    | 0, _ => exact overNetwork_busyAsking "٣"
    | 1, _ => exact overNetwork_busyAsking "soon"
    | 2, _ =>
        intro busy
        exact absurd busy (by decide)
  have limited : (patient 3 (.whole 1)).settings.maxRetries.number? = some (.whole (3 : Nat)) := rfl
  obtain ⟨k, least, runs⟩ := failures_of_sendPatiently limited (by decide) rfl outcomes network
  have third : k = 2 := by
    have atMost : k ≤ 2 := least.2 (Or.inl rfl)
    match k, atMost, least.1 with
    | 0, _, .inl last => exact absurd last (by decide)
    | 0, _, .inr conclusive => exact absurd rfl conclusive
    | 1, _, .inl last => exact absurd last (by decide)
    | 1, _, .inr conclusive => exact absurd rfl conclusive
    | 2, _, _ => rfl
  subst third
  have managed : ∀ i < 2, (threeThenSoon.getD i down).Manages (.whole 1) i := by
    intro i hi
    match i, hi with
    | 0, _ =>
        have spelt := (seconds_busyAsking "٣").trans three
        refine ⟨fun s misled => ?_, Or.inl fun none => ?_⟩
        · obtain rfl := eq_of_misleadsBy_busyAsking misled
          cases three.symm.trans misled.2.2.2
        · cases spelt.symm.trans none
    | 1, _ =>
        refine ⟨fun s misled => ?_, Or.inr trivial⟩
        obtain rfl := eq_of_misleadsBy_busyAsking misled
        exact absurd (misled.2.2.1 's' (by decide)) (by decide)
  have respites : Outcome.respites (.whole 1) 3 (threeThenSoon.getD · down) 2
      = [⟨.whole 3, .ok "Rate limit hit (429). Waiting 3 seconds before retry 1/3..."⟩,
         ⟨.whole 2, .ok "Rate limit hit (429). Waiting 2 seconds before retry 2/3..."⟩] := by
    have first := (seconds_busyAsking "٣").trans three
    have second := (seconds_busyAsking "soon").trans soon
    show [Outcome.respiteOf (.whole 1) 3 0 (Outcome.seconds (.answered (busyAsking "٣"))) _,
      Outcome.respiteOf (.whole 1) 3 1 (Outcome.seconds (.answered (busyAsking "soon"))) _] = _
    rw [first, second]
    rfl
  rw [(runs _).2.1 managed, respites]
  rfl

/-- A digit that is not decimal, and behind it the answer that the request never comes to. -/
def superscript : List Outcome := [.answered (busyAsking "²"), .answered one]

theorem sendPatiently_superscript :
    ((patient 5 (.whole 1)).sendPatiently ((patient 5 (.whole 1)).question "/me" .null)).on
        (Wire.fresh superscript)
      = (.error (.data (.badValue "invalid literal for int() with base 10: '²'")),
          (Wire.fresh superscript).after ((patient 5 (.whole 1)).question "/me" .null) 1 []) ∧
      ∀ o ∈ superscript,
        ¬ o.Brings (.data (.badValue "invalid literal for int() with base 10: '²'")) := by
  have digits : "²".toList.all Text.isDigit = true := by decide +kernel
  have misled : (Outcome.answered (busyAsking "²")).MisleadsBy "²" :=
    ⟨header_busyAsking "²", by decide, List.all_eq_true.mp digits, by decide +kernel⟩
  have complaint : Value.wholeComplaint "²" = "invalid literal for int() with base 10: '²'" := by
    decide +kernel
  have undecided : ¬ (Outcome.answered (busyAsking "²")).IsConclusive := fun other => other rfl
  have limited : (patient 5 (.whole 1)).settings.maxRetries.number? = some (.whole (5 : Nat)) := rfl
  have run : ((patient 5 (.whole 1)).attempt ((patient 5 (.whole 1)).question "/me" .null) 5 5).on
      (Wire.fresh superscript)
      = (.error (.data (.badValue (Value.wholeComplaint "²"))),
          (Wire.fresh superscript).sent ((patient 5 (.whole 1)).question "/me" .null)) := by
    refine (on_attempt_of_open rfl (by decide) (by decide) undecided).trans ?_
    rw [respite_of_misleadsBy undecided misled]
  refine ⟨?_, fun o _ => Outcome.not_brings_data _⟩
  rw [sendPatiently_eq limited, run, complaint]
  rfl

end Client

end DesignMarkup
