import DesignMarkup.Fault

/-!
# Computations that write as they go

A conversion produces things on its way: declarations, rules, image uses. What it has
written stays written when a later step fails. A `Writing` is the list of what was
written, in order, together with the result or the fault.
-/

namespace DesignMarkup

/-- What was written, in order, and how it ended. -/
structure Writing (ω α : Type) where
  written : List ω
  outcome : Except Fault α

namespace Writing

variable {ω α β : Type}

def write (w : ω) : Writing ω Unit := ⟨[w], .ok ()⟩

def lift (x : Except Fault α) : Writing ω α := ⟨[], x⟩

def done (a : α) : Writing ω α := ⟨[], .ok a⟩

/-- One computation after the other; a fault of the first keeps the second from starting. -/
def andThen (x : Writing ω α) (f : α → Writing ω β) : Writing ω β :=
  match x.outcome with
  | .ok a => ⟨x.written ++ (f a).written, (f a).outcome⟩
  | .error e => ⟨x.written, .error e⟩

instance : Monad (Writing ω) where
  pure := done
  bind := andThen

end Writing

end DesignMarkup
