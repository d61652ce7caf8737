import DesignMarkup.Writing

/-!
# Computations, opened

One equation for each way in which a computation that may fail is put together, so that a
later proof takes a success apart step by step and never looks inside a bind.
-/

namespace DesignMarkup

variable {ε ω α β : Type}

/-! ## Computations that may fail -/

theorem bind_eq_ok_iff {x : Except ε α} {f : α → Except ε β} {b : β} :
    (x >>= f) = .ok b ↔ ∃ a, x = .ok a ∧ f a = .ok b := by
  rcases x with e | a <;> simp [bind, Except.bind]

theorem pure_eq_ok_iff {a b : α} : (pure a : Except ε α) = .ok b ↔ a = b := by
  simp [pure, Except.pure]

theorem map_eq_ok_iff {x : Except ε α} {f : α → β} {b : β} :
    x.map f = .ok b ↔ ∃ a, x = .ok a ∧ f a = b := by
  rcases x with e | a <;> simp [Except.map]

/-- Each result of a list of computations is the result of one of them. -/
theorem mem_of_mapM {f : α → Except ε β} {l : List α} {bs : List β} (h : l.mapM f = .ok bs)
    {b : β} (hb : b ∈ bs) : ∃ a ∈ l, f a = .ok b := by
  induction l generalizing bs with
  | nil =>
      obtain rfl := pure_eq_ok_iff.mp h
      cases hb
  | cons a rest ih =>
      -- The first result is one of the head, the others come by the induction.
      rw [List.mapM_cons] at h
      obtain ⟨c, hc, h⟩ := bind_eq_ok_iff.mp h
      obtain ⟨cs, hcs, h⟩ := bind_eq_ok_iff.mp h
      obtain rfl := pure_eq_ok_iff.mp h
      rcases List.mem_cons.mp hb with rfl | hb
      · exact ⟨a, List.mem_cons_self, hc⟩
      · obtain ⟨d, hd, hfd⟩ := ih hcs hb
        exact ⟨d, List.mem_cons_of_mem a hd, hfd⟩

theorem exists_ok_of_isOk {x : Except ε α} (h : x.isOk = true) : ∃ a, x = .ok a := by
  cases x with
  | error e => cases h
  | ok a => exact ⟨a, rfl⟩

/-! ### Success -/

/-- A computation has a result, and the result is of a kind. -/
def Yields (x : Except ε α) (P : α → Prop) : Prop := ∃ a, x = .ok a ∧ P a

def Succeeds (x : Except ε α) : Prop := ∃ a, x = .ok a

section

variable {x : Except ε α} {f : α → Except ε β} {P : α → Prop} {Q : β → Prop}

theorem Yields.succeeds (h : Yields x P) : Succeeds x :=
  let ⟨a, ha, _⟩ := h
  ⟨a, ha⟩

theorem yields_pure {a : α} (h : P a) : Yields (pure a : Except ε α) P := ⟨a, rfl, h⟩

theorem yields_bind (hx : Yields x P) (hf : ∀ a, P a → Yields (f a) Q) : Yields (x >>= f) Q := by
  obtain ⟨a, ha, hPa⟩ := hx
  obtain ⟨b, hb, hQb⟩ := hf a hPa
  exact ⟨b, bind_eq_ok_iff.mpr ⟨a, ha, hb⟩, hQb⟩

theorem yields_mapM {l : List α} (h : ∀ a ∈ l, Yields (f a) Q) :
    Yields (l.mapM f) fun bs => ∀ b ∈ bs, Q b := by
  induction l with
  | nil => exact yields_pure nofun
  | cons a rest ih =>
      rw [List.mapM_cons]
      refine yields_bind (h a List.mem_cons_self) fun b hb => ?_
      refine yields_bind (ih fun c hc => h c (List.mem_cons_of_mem a hc)) fun bs hbs => ?_
      refine yields_pure ?_
      rintro c hc
      rcases List.mem_cons.mp hc with rfl | hc
      · exact hb
      · exact hbs c hc

theorem not_succeeds_error {e : ε} : ¬ Succeeds (.error e : Except ε α) := by
  rintro ⟨a, h⟩
  cases h

theorem succeeds_ok (a : α) : Succeeds (.ok a : Except ε α) := ⟨a, rfl⟩

theorem succeeds_pure (a : α) : Succeeds (pure a : Except ε α) := ⟨a, rfl⟩

theorem succeeds_bind (hx : Succeeds x) (hf : ∀ a, x = .ok a → Succeeds (f a)) :
    Succeeds (x >>= f) := by
  obtain ⟨a, ha⟩ := hx
  obtain ⟨b, hb⟩ := hf a ha
  exact ⟨b, bind_eq_ok_iff.mpr ⟨a, ha, hb⟩⟩

theorem Succeeds.yields (h : Succeeds x) : Yields x fun _ => True :=
  let ⟨a, ha⟩ := h
  ⟨a, ha, trivial⟩

theorem succeeds_mapM {l : List α} (h : ∀ a ∈ l, Succeeds (f a)) : Succeeds (l.mapM f) := by
  have each : ∀ a ∈ l, Yields (f a) fun _ => True := fun a ha => (h a ha).yields
  exact (yields_mapM each).succeeds

theorem Yields.succeeds_bind (hx : Yields x P) (hf : ∀ a, P a → Succeeds (f a)) :
    Succeeds (x >>= f) := by
  obtain ⟨a, ha, hPa⟩ := hx
  obtain ⟨b, hb⟩ := hf a hPa
  exact ⟨b, bind_eq_ok_iff.mpr ⟨a, ha, hb⟩⟩

theorem succeeds_map {g : α → β} (hx : Succeeds x) : Succeeds (x.map g) := by
  obtain ⟨a, ha⟩ := hx
  exact ⟨g a, map_eq_ok_iff.mpr ⟨a, ha, rfl⟩⟩

end

/-! ## Computations that write -/

namespace Writing

variable {x : Writing ω α} {f : α → Writing ω β}

@[simp] theorem outcome_pure (a : α) : (pure a : Writing ω α).outcome = .ok a := rfl

@[simp] theorem written_pure (a : α) : (pure a : Writing ω α).written = [] := rfl

@[simp] theorem outcome_lift (y : Except Fault α) : (lift y : Writing ω α).outcome = y := rfl

@[simp] theorem written_lift (y : Except Fault α) : (lift y : Writing ω α).written = [] := rfl

@[simp] theorem outcome_write (w : ω) : (write w).outcome = .ok () := rfl

@[simp] theorem written_write (w : ω) : (write w).written = [w] := rfl

/-- Behind a success the next step starts, and what it writes comes last. -/
theorem bind_of_ok {a : α} (h : x.outcome = .ok a) :
    x >>= f = ⟨x.written ++ (f a).written, (f a).outcome⟩ := by
  show x.andThen f = _
  simp only [andThen, h]

/-- Behind a step that writes nothing there is only the next one. -/
theorem lift_bind_of_ok {y : Except Fault α} {a : α} (h : y = .ok a) :
    (lift y : Writing ω α) >>= f = f a :=
  bind_of_ok (x := lift y) h

/-- Behind a fault nothing starts. -/
theorem bind_of_error {e : Fault} (h : x.outcome = .error e) :
    x >>= f = ⟨x.written, .error e⟩ := by
  show x.andThen f = _
  simp only [andThen, h]

theorem outcome_bind_eq_ok_iff {b : β} :
    (x >>= f).outcome = .ok b ↔ ∃ a, x.outcome = .ok a ∧ (f a).outcome = .ok b := by
  cases h : x.outcome with
  | error e => simp [bind_of_error h]
  | ok a => simp [bind_of_ok h]

/-- What a bind writes is written by its first part, or behind a success of that by the second. -/
theorem mem_written_bind {w : ω} :
    w ∈ (x >>= f).written ↔
      w ∈ x.written ∨ ∃ a, x.outcome = .ok a ∧ w ∈ (f a).written := by
  cases h : x.outcome with
  | error e => simp [bind_of_error h]
  | ok a => simp [bind_of_ok h]

/-! ### Everything that is written -/

/-- Everything that a computation writes, whether it succeeds or not, has a property. -/
def All (P : ω → Prop) (x : Writing ω α) : Prop := ∀ w ∈ x.written, P w

variable {P Q : ω → Prop}

theorem all_pure (a : α) : All P (pure a : Writing ω α) := nofun

theorem all_lift (y : Except Fault α) : All P (lift y : Writing ω α) := nofun

theorem all_write {w : ω} (h : P w) : All P (write w) := by
  rintro w' hw'
  obtain rfl := List.mem_singleton.mp hw'
  exact h

/-- A bind writes what its parts write, the second of which starts behind a success of the
first. -/
theorem all_bind (hx : All P x) (hf : ∀ a, x.outcome = .ok a → All P (f a)) :
    All P (x >>= f) := by
  -- What was written before a fault still counts.
  cases h : x.outcome with
  | error e =>
      rw [bind_of_error h]
      exact hx
  | ok a =>
      rw [bind_of_ok h]
      intro w hw
      rcases List.mem_append.mp hw with hw | hw
      · exact hx w hw
      · exact hf a h w hw

theorem All.mono {y : Writing ω α} (h : All P y) (hPQ : ∀ w, P w → Q w) : All Q y :=
  fun w hw => hPQ w (h w hw)

/-! ### Success -/

def Runs (x : Writing ω α) : Prop := Succeeds x.outcome

theorem runs_pure (a : α) : Runs (pure a : Writing ω α) := succeeds_ok a

theorem runs_lift {y : Except Fault α} (h : Succeeds y) : Runs (lift y : Writing ω α) := h

theorem runs_write (w : ω) : Runs (write w) := succeeds_ok ()

theorem runs_bind (hx : Runs x) (hf : ∀ a, x.outcome = .ok a → Runs (f a)) : Runs (x >>= f) := by
  obtain ⟨a, ha⟩ := hx
  obtain ⟨b, hb⟩ := hf a ha
  exact ⟨b, outcome_bind_eq_ok_iff.mpr ⟨a, ha, hb⟩⟩

end Writing

end DesignMarkup
