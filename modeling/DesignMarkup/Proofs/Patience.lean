import Mathlib.Order.Nat
import DesignMarkup.Service.Client
import DesignMarkup.Proofs.Computations
import DesignMarkup.Proofs.Digits
import DesignMarkup.Proofs.Doubles
import DesignMarkup.Proofs.Sessions

/-!
# Patience

A client sends a request until an outcome decides: a response other than that of a busy service,
or whatever comes of the last attempt. Before it tries again it reports a pause and waits. The
run is followed attempt by attempt; an attempt comes to one of three things, and an induction
over the attempts carries the wire along.
-/

namespace DesignMarkup

/-! ## Outcomes -/

namespace Response

/-- The seconds for which a busy service asks: the number that decimal digits of any script
spell. -/
def seconds (r : Response) : Option Nat :=
  match r.header? Client.laterHeader with
  | some (.text s) => Decimal.numberIn? s.toList
  | _ => none

/-- The header in which a pause is asked for is absent or a text. -/
def AsksInText (r : Response) : Prop :=
  ∀ v, r.header? Client.laterHeader = some v → ∃ s, v = .text s

/-- A pause is asked for in a text of nothing but digits that spells no number: a digit in it is
not decimal, or they are too many. -/
def MisleadsBy (s : String) (r : Response) : Prop :=
  r.header? Client.laterHeader = some (.text s) ∧ s ≠ "" ∧
    (∀ ch ∈ s.toList, Text.isDigit ch = true) ∧ Decimal.numberIn? s.toList = none

/-- The seconds for which a busy service asks, which a run of ASCII digits spells. -/
def askedSeconds (r : Response) : Option Nat :=
  match r.header? Client.laterHeader with
  | some (.text s) =>
    if !s.isEmpty && s.toList.all Char.isDigit then some (Nat.ofDigitChars 10 s.toList 0) else none
  | _ => none

/-- The header in which a pause is asked for is absent, a run of ASCII digits that is not too long
to be read, or a text that is empty or not all digits. -/
def AsksPlainly (r : Response) : Prop :=
  ∀ v, r.header? Client.laterHeader = some v → ∃ s, v = .text s ∧
    (s = "" ∨ (∀ ch ∈ s.toList, ch.isDigit = true) ∧ s.length ≤ Decimal.maxDigits ∨
      ∃ ch ∈ s.toList, Text.isDigit ch = false)

end Response

namespace Outcome

/-- An outcome after which the request is not sent again: neither the network failed nor is the
service busy. -/
def IsConclusive : Outcome → Prop
  | answered r => r.status ≠ Client.busyStatus
  | unreachable _ _ => False
  | broken _ => True

def verdict : Outcome → Except Failure (Option Response)
  | answered r => if r.isOk then .ok (some r) else .error (.refused r.status r.text)
  | unreachable kind message => .error (.network kind message)
  | broken f => .error f

/-- A busy service asks for its pause in a way that is understood. -/
def AsksPlainly : Outcome → Prop
  | answered r => r.status = Client.busyStatus → r.AsksPlainly
  | _ => True

def askedSeconds : Outcome → Option Nat
  | answered r => r.askedSeconds
  | _ => none

def seconds : Outcome → Option Nat
  | answered r => r.seconds
  | _ => none

/-- A busy service asks for its pause in a text, whatever the text is. -/
def AsksInText : Outcome → Prop
  | answered r => r.status = Client.busyStatus → r.AsksInText
  | _ => True

def MisleadsBy (s : String) : Outcome → Prop
  | answered r => r.MisleadsBy s
  | _ => False

end Outcome

/-! ## Respites -/

/-- A pause with the text of the line that reports it, or what keeps the log from writing that. -/
structure Respite where
  pause : Value
  line : Except Fault String

namespace Wire

variable (w : Wire) (request : Request)

def sent : Wire :=
  { w with outcomes := w.outcomes.tail, requests := w.requests ++ [request] }

def rested (t : Respite) : Wire :=
  { w with
    waits := w.waits ++ [t.pause], log := w.log ++ [{ level := .warning, text := t.line }] }

def after (times : Nat) (respites : List Respite) : Wire where
  outcomes := w.outcomes.drop times
  requests := w.requests ++ List.replicate times request
  waits := w.waits ++ respites.map (·.pause)
  log := w.log ++ respites.map fun t => { level := .warning, text := t.line }

theorem after_zero : w.after request 0 [] = w := by
  obtain ⟨outcomes, requests, waits, log⟩ := w
  simp [after]

theorem sent_after (times : Nat) (respites : List Respite) :
    (w.after request times respites).sent request = w.after request (times + 1) respites := by
  simp [after, sent, List.replicate_succ', List.tail_drop]

theorem rested_after (times : Nat) (respites : List Respite) (t : Respite) :
    (w.after request times respites).rested t = w.after request times (respites ++ [t]) := by
  simp [after, rested]

/-- Where the attempt of a number begins the outcome of that number comes next. -/
theorem head_outcomes_after (k : Nat) (respites : List Respite) :
    (w.after request k respites).outcomes.head? = w.outcomes[k]? :=
  List.head?_drop

end Wire

def Respite.of (line : Value → Except Fault String) (pause : Value) : Respite := ⟨pause, line pause⟩

/-- A session goes on behind a respite, and fails where the pause cannot be had. -/
theorem Session.on_respite {α : Type} (pause : Except Fault Value)
    (line : Value → Except Fault String) (next : Session α) (w : Wire) :
    (do
      let p ← Session.data pause
      Session.report .warning (line p)
      Session.wait p
      next : Session α).on w
      = match pause.map (Respite.of line) with
        | .ok t => next.on (w.rested t)
        | .error fault => (.error (.data fault), w) := by
  cases pause with
  | error fault => exact Session.on_bind_of_error (Session.on_data _ w)
  | ok p =>
      rw [Session.on_bind_of_ok (Session.on_data (.ok p) w)]
      rw [Session.on_bind_of_ok (Session.on_report _ _ _),
        Session.on_bind_of_ok (Session.on_wait _ _)]
      rfl

def Outcome.report (limit i : Nat) (pause : Value) : Outcome → Except Fault String
  | unreachable _ message => Client.failureReport message pause
  | answered _ => Client.busyReport pause (i + 1) limit
  | broken _ => .error .noSuchPart

namespace Client

/-- The pause that an outcome calls for, behind the attempt of a number counted from zero. -/
def pause (c : Client) (i : Nat) : Outcome → Except Fault Value
  | .unreachable _ _ => c.backoff i
  | .answered r => c.busyPause r i
  | .broken _ => .error .noSuchPart

/-- The respite between the attempt of a number and the next one. A report that cannot be written
keeps no respite from being had. -/
def respite (c : Client) (limit i : Nat) (o : Outcome) : Except Fault Respite :=
  (c.pause i o).map (Respite.of (o.report limit i))

/-! ## One attempt -/

section

variable {c : Client} {request : Request} {limit left : Nat} {w : Wire} {o : Outcome}

/-- What an outcome decides is final, and on the last attempt any outcome decides. -/
theorem on_attempt_of_decided (next : w.outcomes.head? = some o)
    (h : left = 0 ∨ o.IsConclusive) :
    (c.attempt request limit (left + 1)).on w = (o.verdict, w.sent request) := by
  rw [attempt, Session.on_bind_of_ok (Session.on_send next request)]
  cases o with
  | answered r =>
      have last : ¬ (r.status = busyStatus ∧ left ≠ 0) := by
        rintro ⟨busy, more⟩
        rcases h with h | h
        · exact more h
        · exact h busy
      dsimp only
      rw [if_neg last, decision, Outcome.verdict]
      cases r.isOk <;> rfl
  | unreachable kind message =>
      obtain rfl : left = 0 := h.resolve_right id
      rfl
  | broken f => rfl

/-- Behind any other outcome comes a respite and the next attempt. -/
theorem on_attempt_of_open (next : w.outcomes.head? = some o) (more : left ≠ 0)
    (within : left < limit) (h : ¬ o.IsConclusive) :
    (c.attempt request limit (left + 1)).on w
      = match c.respite limit (limit - (left + 1)) o with
        | .ok t => (c.attempt request limit left).on ((w.sent request).rested t)
        | .error fault => (.error (.data fault), w.sent request) := by
  rw [attempt, Session.on_bind_of_ok (Session.on_send next request)]
  cases o with
  | answered r =>
      have busy : r.status = busyStatus ∧ left ≠ 0 := ⟨Classical.not_not.mp h, more⟩
      have number : limit - (left + 1) + 1 = limit - left := by omega
      dsimp only
      rw [if_pos busy, respite]
      dsimp only [Outcome.report]
      rw [number]
      exact Session.on_respite _ (busyReport · (limit - left) limit) _ _
  | unreachable kind message =>
      dsimp only
      rw [if_neg more]
      exact Session.on_respite _ _ _ _
  | broken f => exact absurd trivial h

end

/-! ## The run -/

section

variable {c : Client} {request : Request} {limit k : Nat} {w : Wire} {o : Nat → Outcome}
  {t : Nat → Respite}

/-- As long as no outcome decides, attempts send the request and keep their respites. -/
theorem on_attempt_after (outcomes : ∀ i < k, w.outcomes[i]? = some (o i)) (more : k < limit)
    (respites : ∀ i < k, ¬ (o i).IsConclusive ∧ c.respite limit i (o i) = .ok (t i)) :
    (c.attempt request limit limit).on w
      = (c.attempt request limit (limit - k)).on (w.after request k ((List.range k).map t)) := by
  -- The induction is on the attempts so far; what is left of the run goes on where they end.
  induction k with
  | zero =>
      have : w.after request 0 ((List.range 0).map t) = w := w.after_zero request
      rw [this, Nat.sub_zero]
  | succ k ih =>
      have before := ih (fun i hi => outcomes i (by omega)) (by omega)
        (fun i hi => respites i (by omega))
      obtain ⟨undecided, rest⟩ := respites k (by omega)
      have next := (w.head_outcomes_after request k ((List.range k).map t)).trans
        (outcomes k (by omega))
      have left : limit - k = limit - (k + 1) + 1 := by omega
      have number : limit - (limit - (k + 1) + 1) = k := by omega
      rw [before, left, on_attempt_of_open next (by omega) (by omega) undecided, number, rest,
        Wire.sent_after, List.range_succ, List.map_append]
      dsimp only
      rw [Wire.rested_after]
      rfl

theorem on_attempt_decided (outcomes : ∀ i ≤ k, w.outcomes[i]? = some (o i)) (more : k < limit)
    (respites : ∀ i < k, ¬ (o i).IsConclusive ∧ c.respite limit i (o i) = .ok (t i))
    (decided : k + 1 = limit ∨ (o k).IsConclusive) :
    (c.attempt request limit limit).on w
      = ((o k).verdict, w.after request (k + 1) ((List.range k).map t)) := by
  have before := @on_attempt_after c request limit k w o t
    (fun i hi => outcomes i (Nat.le_of_lt hi)) more respites
  obtain ⟨left, hleft⟩ : ∃ left, limit - k = left + 1 := ⟨limit - k - 1, by omega⟩
  have last : left = 0 ∨ (o k).IsConclusive := decided.imp_left fun h => by omega
  have next := (w.head_outcomes_after request k ((List.range k).map t)).trans
    (outcomes k (Nat.le_refl k))
  rw [before, hleft, on_attempt_of_decided next last, Wire.sent_after]

theorem on_attempt_cut_short (outcomes : ∀ i ≤ k, w.outcomes[i]? = some (o i))
    (more : k + 1 < limit)
    (respites : ∀ i < k, ¬ (o i).IsConclusive ∧ c.respite limit i (o i) = .ok (t i))
    (undecided : ¬ (o k).IsConclusive) {fault : Fault}
    (none : c.respite limit k (o k) = .error fault) :
    (c.attempt request limit limit).on w
      = (.error (.data fault), w.after request (k + 1) ((List.range k).map t)) := by
  have before := @on_attempt_after c request limit k w o t
    (fun i hi => outcomes i (Nat.le_of_lt hi)) (by omega) respites
  obtain ⟨left, hleft⟩ : ∃ left, limit - k = left + 1 := ⟨limit - k - 1, by omega⟩
  have number : limit - (left + 1) = k := by omega
  have next := (w.head_outcomes_after request k ((List.range k).map t)).trans
    (outcomes k (Nat.le_refl k))
  rw [before, hleft, on_attempt_of_open next (by omega) (by omega) undecided, number, none,
    Wire.sent_after]

end

end Client

/-! ## Pauses -/

namespace Number

/-- The number times a power of two: exactly for a whole number, as the product of doubles for a
double. -/
def doubled (i : Nat) : Number → Number
  | whole n => whole (n * (2 ^ i : Nat))
  | double x => double (x * Float.ofScientific (2 ^ i) false 0)

/-- The product with a power of two can be had: always for a whole number, and for a double if the
power is one, too. -/
def CanDouble (i : Nat) : Number → Prop
  | whole _ => True
  | double _ => i < 1024

theorem times_twoTo_double (x : Float) (i : Nat) :
    (double x).times (.whole (Double.twoTo i))
      = if i < 1024 then .ok ((double x).doubled i) else .error .outOfRange := by
  have power : (whole (Double.twoTo i)).toDouble
      = if i < 1024 then .ok (Float.ofScientific (2 ^ i) false 0) else .error .outOfRange := by
    rw [toDouble, Double.ofInt?_twoTo]
    by_cases h : i < 1024
    · rw [if_pos h, if_pos h]
    · rw [if_neg h, if_neg h]
  show (do pure (double ((← (double x).toDouble) * (← (whole (Double.twoTo i)).toDouble)))) = _
  rw [power]
  split <;> rfl

variable {b : Number} {i : Nat}

theorem times_twoTo_of_canDouble (h : b.CanDouble i) :
    b.times (.whole (Double.twoTo i)) = .ok (b.doubled i) := by
  cases b with
  | whole n => rfl
  | double x => exact (times_twoTo_double x i).trans (if_pos h)

theorem times_twoTo_of_not_canDouble (h : ¬ b.CanDouble i) :
    b.times (.whole (Double.twoTo i)) = .error .outOfRange := by
  cases b with
  | whole n => exact absurd trivial h
  | double x => exact (times_twoTo_double x i).trans (if_neg h)

end Number

namespace Response

variable {r : Response} {s : String}

theorem askedPause?_of_text (header : r.header? Client.laterHeader = some (.text s))
    (nonempty : s ≠ "") :
    Client.askedPause? r
      = if s.toList.all Text.isDigit then (Value.wholeOfText s).map fun n => some (.whole n)
        else .ok none := by
  have present : (Value.text s).isPresent = true := by simpa [Value.isPresent] using nonempty
  rw [Client.askedPause?, header]
  exact if_pos present

theorem askedPause?_of_misleadsBy (h : r.MisleadsBy s) :
    Client.askedPause? r = .error (.badValue (Value.wholeComplaint s)) := by
  obtain ⟨header, nonempty, digits, none⟩ := h
  rw [askedPause?_of_text header nonempty, if_pos (List.all_eq_true.mpr digits),
    Value.wholeOfText_of_isDigit nonempty digits, none]
  rfl

/-- Where no header misleads, a text that spells a number asks for a pause, and any other for
none. -/
theorem askedPause?_of_clear (h : r.AsksInText) (clear : ∀ s, ¬ r.MisleadsBy s) :
    Client.askedPause? r = .ok (r.seconds.map fun n => .whole n) := by
  rw [seconds]
  cases header : r.header? Client.laterHeader with
  | none =>
      rw [Client.askedPause?, header]
      rfl
  | some v =>
      obtain ⟨s, rfl⟩ := h v header
      dsimp only
      by_cases empty : s = ""
      · subst empty
        rw [Client.askedPause?, header]
        rfl
      · rw [askedPause?_of_text header empty]
        cases number : Decimal.numberIn? s.toList with
        | some n =>
            have digits := (Decimal.isDigit_of_numberIn? number).2
            rw [if_pos (List.all_eq_true.mpr digits), Value.wholeOfText_of_isDigit empty digits,
              number]
            rfl
        | none =>
            refine if_neg fun digits => clear s ?_
            exact ⟨header, empty, List.all_eq_true.mp digits, number⟩

namespace AsksPlainly

theorem asksInText (h : r.AsksPlainly) : r.AsksInText := fun v header =>
  let ⟨s, text, _⟩ := h v header
  ⟨s, text⟩

theorem clear (h : r.AsksPlainly) (s : String) : ¬ r.MisleadsBy s := by
  rintro ⟨header, nonempty, digits, none⟩
  obtain ⟨_, ⟨⟩, empty | ⟨ascii, short⟩ | ⟨ch, hch, other⟩⟩ := h (.text s) header
  · exact nonempty empty
  · have run : Decimal.IsRun s.toList :=
      ⟨fun none => nonempty (String.toList_eq_nil_iff.mp none), ascii⟩
    cases none.symm.trans (Decimal.numberIn?_of_isRun run short)
  · cases other.symm.trans (digits ch hch)

theorem askedSeconds_eq (h : r.AsksPlainly) : r.askedSeconds = r.seconds := by
  rw [askedSeconds, seconds]
  cases header : r.header? Client.laterHeader with
  | none => rfl
  | some v =>
      obtain ⟨s, rfl, form⟩ := h v header
      dsimp only
      by_cases empty : s = ""
      · subst empty
        rfl
      · have nonempty : (!s.isEmpty) = true := by simpa using empty
        rw [nonempty, Bool.true_and]
        rcases form with none | ⟨ascii, short⟩ | ⟨ch, hch, other⟩
        · exact absurd none empty
        · have run : Decimal.IsRun s.toList :=
            ⟨fun none => empty (String.toList_eq_nil_iff.mp none), ascii⟩
          rw [if_pos (List.all_eq_true.mpr ascii), Decimal.numberIn?_of_isRun run short]
        · -- A text that is not all digits in any script is not all ASCII digits either.
          have wide : Decimal.numberIn? s.toList = none := by
            cases number : Decimal.numberIn? s.toList with
            | none => rfl
            | some n => cases other.symm.trans ((Decimal.isDigit_of_numberIn? number).2 ch hch)
          have narrow : ¬ s.toList.all Char.isDigit = true := by
            intro all
            have ascii := Decimal.decimalDigit?_of_isDigit (List.all_eq_true.mp all ch hch)
            rw [Decimal.isDigit_of_decimalDigit? (by rw [ascii]; rfl)] at other
            cases other
          rw [if_neg narrow, wide]

end AsksPlainly

end Response

namespace Outcome

/-- The pause of some seconds, else the first pause doubled with every attempt. -/
def pauseOf (b : Number) (i : Nat) : Option Nat → Value
  | some n => .whole n
  | none => .number (b.doubled i)

def respiteOf (b : Number) (limit i : Nat) (seconds : Option Nat) (o : Outcome) : Respite :=
  .of (o.report limit i) (pauseOf b i seconds)

def respiteAfter (b : Number) (limit i : Nat) (o : Outcome) : Respite :=
  o.respiteOf b limit i o.askedSeconds

/-- The pause after an outcome can be had. -/
def Allows (b : Number) (i : Nat) (o : Outcome) : Prop := o.askedSeconds ≠ none ∨ b.CanDouble i

/-- An outcome that asks plainly is understood as it is meant. -/
theorem AsksPlainly.understood {o : Outcome} (plain : o.AsksPlainly)
    (undecided : ¬ o.IsConclusive) :
    o.AsksInText ∧ (∀ s, ¬ o.MisleadsBy s) ∧ o.askedSeconds = o.seconds := by
  cases o with
  | answered r =>
      have plain : r.AsksPlainly := plain (Classical.not_not.mp undecided)
      exact ⟨fun _ => plain.asksInText, plain.clear, plain.askedSeconds_eq⟩
  | unreachable kind message => exact ⟨trivial, fun _ => id, rfl⟩
  | broken f => exact ⟨trivial, fun _ => id, rfl⟩

end Outcome

namespace Client

variable {c : Client} {b : Number} {limit i : Nat} {o : Outcome}

theorem backoff_eq (hb : c.settings.initialBackoff.number? = some b) :
    c.backoff i = (b.times (.whole (Double.twoTo i))).map .number := by
  rw [backoff]
  cases first : c.settings.initialBackoff with
  | bool t =>
      rw [first] at hb
      obtain rfl := Option.some.inj hb
      rfl
  | number n =>
      rw [first] at hb
      obtain rfl := Option.some.inj hb
      rfl
  | _ =>
      rw [first] at hb
      cases hb

theorem respite_of_misleadsBy (undecided : ¬ o.IsConclusive) {s : String} (h : o.MisleadsBy s) :
    c.respite limit i o = .error (.badValue (Value.wholeComplaint s)) := by
  cases o with
  | unreachable kind message => exact absurd h id
  | answered r =>
      rw [respite, pause, busyPause, Response.askedPause?_of_misleadsBy h]
      rfl
  | broken f => exact absurd trivial undecided

section

variable (asks : o.AsksInText) (clear : ∀ s, ¬ o.MisleadsBy s) (undecided : ¬ o.IsConclusive)

include asks clear undecided

/-- The pause is what a header spells, else the doubled pause. -/
theorem pause_eq :
    c.pause i o = match o.seconds with
      | some n => .ok (.whole n)
      | none => c.backoff i := by
  cases o with
  | unreachable kind message => rfl
  | answered r =>
      have busy : r.status = busyStatus := Classical.not_not.mp undecided
      rw [pause, busyPause, Response.askedPause?_of_clear (asks busy) clear, Outcome.seconds]
      cases r.seconds <;> rfl
  | broken f => exact absurd trivial undecided

variable (hb : c.settings.initialBackoff.number? = some b)

include hb

theorem respite_of_possible (h : o.seconds ≠ none ∨ b.CanDouble i) :
    c.respite limit i o = .ok (o.respiteOf b limit i o.seconds) := by
  rw [respite, pause_eq asks clear undecided, Outcome.respiteOf]
  cases seconds : o.seconds with
  | some n => rfl
  | none =>
      have possible : b.CanDouble i := h.resolve_left (· seconds)
      dsimp only
      rw [backoff_eq hb, Number.times_twoTo_of_canDouble possible]
      rfl

theorem respite_of_impossible (h : ¬ (o.seconds ≠ none ∨ b.CanDouble i)) :
    c.respite limit i o = .error .outOfRange := by
  obtain ⟨none, short⟩ := not_or.mp h
  rw [respite, pause_eq asks clear undecided, Classical.not_not.mp none]
  dsimp only
  rw [backoff_eq hb, Number.times_twoTo_of_not_canDouble short]
  rfl

end

section

variable (hb : c.settings.initialBackoff.number? = some b) (plain : o.AsksPlainly)
  (undecided : ¬ o.IsConclusive)

include hb plain undecided

theorem respite_of_allows (h : o.Allows b i) :
    c.respite limit i o = .ok (o.respiteAfter b limit i) := by
  obtain ⟨asks, clear, same⟩ := plain.understood undecided
  rw [Outcome.Allows, same] at h
  rw [respite_of_possible asks clear undecided hb h, ← same]
  rfl

theorem respite_of_not_allows (h : ¬ o.Allows b i) :
    c.respite limit i o = .error .outOfRange := by
  obtain ⟨asks, clear, same⟩ := plain.understood undecided
  rw [Outcome.Allows, same] at h
  exact respite_of_impossible asks clear undecided hb h

end

/-! ## Questions -/

def question (c : Client) (place : String) (params : Value) : Request where
  method := "GET"
  url := .text (c.baseUrl.plain ++ place)
  headers := [("X-Figma-Token", c.token), ("Content-Type", .text "application/json")]
  payload := .query params
  timeout := c.settings.requestTimeout

def answer : Option Response → Except Failure Value
  | some r => r.json
  | none => .error (.data .noSuchPart)

/-- A question is its request, sent patiently, and the answer read from the response. -/
theorem on_ask (c : Client) (place : String) (params : Value) (w : Wire) :
    (c.ask place params).on w
      = (((c.sendPatiently (c.question place params)).on w).1 >>= answer,
          ((c.sendPatiently (c.question place params)).on w).2) := by
  obtain ⟨result, w', h⟩ : ∃ result w', (c.sendPatiently (c.question place params)).on w
    = (result, w') := ⟨_, _, rfl⟩
  rw [h]
  cases result with
  | error f => exact Session.on_bind_of_error h
  | ok response =>
      refine (Session.on_bind_of_ok h).trans ?_
      cases response with
      | some r => exact Session.on_check r.json w'
      | none => rfl

theorem sendPatiently_eq {c : Client} {limit : Nat}
    (hlimit : c.settings.maxRetries.number? = some (.whole limit)) (request : Request) (w : Wire) :
    (c.sendPatiently request).on w = (c.attempt request limit limit).on w := by
  have limited : c.attemptLimit = .ok limit := by
    rw [attemptLimit, hlimit]
    rfl
  rw [sendPatiently, limited]
  exact Session.on_bind_of_ok (Session.on_data (.ok limit) w)

/-- Of the outcomes up to a limit one is the first that decides, for the last one does. -/
theorem exists_isLeast_decided (o : Nat → Outcome) (once : 1 ≤ limit) :
    ∃ k < limit, IsLeast {k | k + 1 = limit ∨ (o k).IsConclusive} k ∧
      ∀ i < k, i + 1 ≠ limit ∧ ¬ (o i).IsConclusive := by
  classical
  have some : ∃ k, k + 1 = limit ∨ (o k).IsConclusive := ⟨limit - 1, Or.inl (by omega)⟩
  have least := Nat.isLeast_find some
  have atMost : Nat.find some ≤ limit - 1 := least.2 (Or.inl (by omega))
  refine ⟨Nat.find some, by omega, least, fun i hi => ?_⟩
  exact not_or.mp fun decided => Nat.not_le_of_lt hi (least.2 decided)

/-- A client whose limit is a positive number sends its request up to the first outcome that
decides, or up to the limit. It sends the same request each time, keeps and reports the pause that
each outcome before the last calls for, and ends as the last outcome says. A pause that is a whole
number can always be had; where one that is a double cannot, the run ends there. -/
theorem on_sendPatiently {c : Client} {limit : Nat} {b : Number} {o : Nat → Outcome} {w : Wire}
    (hlimit : c.settings.maxRetries.number? = some (.whole limit)) (once : 1 ≤ limit)
    (hb : c.settings.initialBackoff.number? = some b)
    (outcomes : ∀ i < limit, w.outcomes[i]? = some (o i))
    (plain : ∀ i < limit, (o i).AsksPlainly) :
    ∃ k, IsLeast {k | k + 1 = limit ∨ (o k).IsConclusive} k ∧
      ((∀ i < k, (o i).Allows b i) → ∀ request,
        (c.sendPatiently request).on w
          = ((o k).verdict, w.after request (k + 1)
              ((List.range k).map fun i => (o i).respiteAfter b limit i))) ∧
      (∀ j < k, (∀ i < j, (o i).Allows b i) → ¬ (o j).Allows b j → ∀ request,
        (c.sendPatiently request).on w
          = (.error (.data .outOfRange), w.after request (j + 1)
              ((List.range j).map fun i => (o i).respiteAfter b limit i))) ∧
      ∀ place params, (c.ask place params).on w
        = (((c.sendPatiently (c.question place params)).on w).1 >>= answer,
            ((c.sendPatiently (c.question place params)).on w).2) := by
  obtain ⟨k, below, hk, undecided⟩ := exists_isLeast_decided o once
  have respites {j : Nat} (hj : j ≤ k) (allowed : ∀ i < j, (o i).Allows b i) :
      ∀ i < j, ¬ (o i).IsConclusive ∧
        c.respite limit i (o i) = .ok ((o i).respiteAfter b limit i) := by
    intro i hi
    have undecided := (undecided i (by omega)).2
    exact ⟨undecided, respite_of_allows hb (plain i (by omega)) undecided (allowed i hi)⟩
  refine ⟨k, hk, ?_, ?_, fun place params => c.on_ask place params w⟩
  · intro allowed request
    rw [sendPatiently_eq hlimit]
    exact on_attempt_decided (fun i hi => outcomes i (by omega)) below
      (respites (Nat.le_refl k) allowed) hk.1
  · intro j hj allowed refused request
    obtain ⟨more, undecided⟩ := undecided j hj
    have fault : c.respite limit j (o j) = .error .outOfRange :=
      respite_of_not_allows hb (plain j (by omega)) undecided refused
    rw [sendPatiently_eq hlimit]
    exact on_attempt_cut_short (fun i hi => outcomes i (by omega)) (by omega)
      (respites (Nat.le_of_lt hj) allowed) undecided fault

/-! ### Two runs -/

def patient (limit : Nat) (backoff : Number) : Client where
  token := .text "token"
  baseUrl := .text "https://service"
  settings := {
    apiBase := .null, oauthAuthUrl := .null, oauthTokenUrl := .null, oauthRefreshUrl := .null,
    oauthScope := .null, accessToken := .null, appUrl := .null, clientId := .null,
    clientSecret := .null, redirectUri := .null, requestTimeout := .whole 30,
    maxRetries := .whole limit, initialBackoff := .number backoff, maxTreeDepth := .null,
    logLevel := .null }

def down : Outcome := .unreachable "ConnectionError" "down"

theorem outcomes_fresh {outcomes : List Outcome} {times : Nat} (enough : times ≤ outcomes.length) :
    ∀ i < times, (Wire.fresh outcomes).outcomes[i]? = some (outcomes.getD i down) := by
  intro i hi
  have present : outcomes[i]? = some outcomes[i] := List.getElem?_eq_getElem (by omega)
  rw [List.getD_eq_getElem?_getD, present]
  exact present

def busy : Response where
  status := 429
  headers := [("Retry-After", .text "7")]
  body := .text ""

theorem header_busy : busy.header? laterHeader = some (.text "7") := by
  simp [Response.header?, busy, laterHeader]

theorem askedSeconds_busy : busy.askedSeconds = some 7 := by
  rw [Response.askedSeconds, header_busy]
  decide

def thirdTime : List Outcome :=
  [.unreachable "Timeout" "slow", .answered busy,
   .answered { status := 200, headers := [], body := .json (.whole 1) }, down]

theorem on_sendPatiently_thirdTime :
    ((patient 4 (.whole 1)).ask "/me" .null).on (Wire.fresh thirdTime)
      = (.ok (.whole 1),
          { outcomes := [down]
            requests := List.replicate 3 ((patient 4 (.whole 1)).question "/me" .null)
            waits := [.whole 1, .whole 7]
            log :=
              [⟨.warning, .ok "Request failed: slow. Retrying in 1 seconds..."⟩,
               ⟨.warning, .ok "Rate limit hit (429). Waiting 7 seconds before retry 2/4..."⟩] }) := by
  have outcomes : ∀ i < 4, (Wire.fresh thirdTime).outcomes[i]? = some (thirdTime.getD i down) :=
    outcomes_fresh (Nat.le_refl 4)
  have plain : ∀ i < 4, (thirdTime.getD i down).AsksPlainly := by
    intro i hi
    match i, hi with
    | 0, _ => trivial
    | 1, _ =>
        intro _ v hv
        obtain rfl := Option.some.inj (header_busy.symm.trans hv)
        have digits : "7".toList.all Char.isDigit = true := by decide
        have short : "7".length ≤ Decimal.maxDigits := by
          show 1 ≤ 4300
          omega
        exact ⟨"7", rfl, Or.inr (Or.inl ⟨List.all_eq_true.mp digits, short⟩)⟩
    | 2, _ =>
        intro busy
        exact absurd busy (by decide)
    | 3, _ => trivial
  have limited : (patient 4 (.whole 1)).settings.maxRetries.number? = some (.whole (4 : Nat)) := rfl
  obtain ⟨k, least, run, -, ask⟩ := on_sendPatiently limited (by decide) rfl outcomes plain
  have third : k = 2 := by
    have answered : (200 : Int) ≠ busyStatus := by decide
    have atMost : k ≤ 2 := least.2 (Or.inr answered)
    match k, atMost, least.1 with
    | 0, _, .inl last => exact absurd last (by decide)
    | 1, _, .inl last => exact absurd last (by decide)
    | 1, _, .inr conclusive => exact absurd rfl conclusive
    | 2, _, _ => rfl
  subst third
  have allowed : ∀ i < 2, (thirdTime.getD i down).Allows (.whole 1) i := by
    intro i hi
    match i, hi with
    | 0, _ => exact Or.inr trivial
    | 1, _ => exact Or.inr trivial
  have first : (Outcome.unreachable "Timeout" "slow").respiteAfter (.whole 1) 4 0
      = ⟨.whole 1, .ok "Request failed: slow. Retrying in 1 seconds..."⟩ := by
    have line : "Request failed: slow. Retrying in " ++ (Value.whole 1).plain ++ " seconds..."
      = "Request failed: slow. Retrying in 1 seconds..." := by decide
    rw [← line]
    rfl
  have second : (Outcome.answered busy).respiteAfter (.whole 1) 4 1
      = ⟨.whole 7, .ok "Rate limit hit (429). Waiting 7 seconds before retry 2/4..."⟩ := by
    have line : "Rate limit hit (429). Waiting " ++ (Value.whole 7).plain ++ " seconds before retry "
        ++ (Value.whole 2).plain ++ "/" ++ (Value.whole 4).plain ++ "..."
      = "Rate limit hit (429). Waiting 7 seconds before retry 2/4..." := by decide
    rw [Outcome.respiteAfter, Outcome.askedSeconds, askedSeconds_busy, ← line]
    rfl
  have respites : (List.range 2).map
      (fun i => (thirdTime.getD i down).respiteAfter (.whole 1) 4 i)
      = [⟨.whole 1, .ok "Request failed: slow. Retrying in 1 seconds..."⟩,
         ⟨.whole 7, .ok "Rate limit hit (429). Waiting 7 seconds before retry 2/4..."⟩] := by
    rw [← first, ← second]
    rfl
  rw [ask, run allowed, respites]
  rfl

/-- A pause of one second that is a double is doubled 1023 times and not once more, and so the 1026
attempts of a patient client are cut short. -/
theorem on_sendPatiently_down :
    ¬ down.IsConclusive ∧
      ((patient 1026 (.double 1.0)).ask "/me" .null).on (Wire.fresh (.replicate 1026 down))
        = (.error (.data .outOfRange),
            (Wire.fresh (.replicate 1026 down)).after
              ((patient 1026 (.double 1.0)).question "/me" .null) 1025
              ((List.range 1024).map (down.respiteAfter (.double 1.0) 1026))) := by
  have undecided : ¬ down.IsConclusive := id
  have outcomes : ∀ i ≤ 1024, (Wire.fresh (.replicate 1026 down)).outcomes[i]? = some down := by
    intro i hi
    exact (List.getElem?_replicate).trans (if_pos (by omega))
  have respites : ∀ i < 1024, ¬ down.IsConclusive ∧ (patient 1026 (.double 1.0)).respite 1026 i down
      = .ok (down.respiteAfter (.double 1.0) 1026 i) :=
    fun i hi => ⟨undecided, respite_of_allows rfl trivial undecided (Or.inr hi)⟩
  have fault : (patient 1026 (.double 1.0)).respite 1026 1024 down = .error .outOfRange :=
    respite_of_not_allows (b := .double 1.0) rfl trivial undecided (by
      rintro (asked | possible)
      · exact asked rfl
      · exact Nat.lt_irrefl 1024 possible)
  have limited : (patient 1026 (.double 1.0)).settings.maxRetries.number?
      = some (.whole (1026 : Nat)) := rfl
  refine ⟨undecided, ?_⟩
  rw [on_ask, sendPatiently_eq limited,
    on_attempt_cut_short outcomes (by decide) respites undecided fault]
  rfl

end Client

end DesignMarkup
