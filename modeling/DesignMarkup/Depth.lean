import DesignMarkup.Design.Node
import DesignMarkup.Failure

/-!
# Depth

The number of levels of a tree, found with a stack of nodes that are still to be looked
at. The search serves designs that are read already and designs that are not, so it is
written over any kind of tree that says what the children of a node are.
-/

namespace DesignMarkup

def totalWeight {α : Type} (weight : α → Nat) : List α → Nat
  | [] => 0
  | a :: rest => weight a + totalWeight weight rest

theorem totalWeight_append {α : Type} (weight : α → Nat) (as bs : List α) :
    totalWeight weight (as ++ bs) = totalWeight weight as + totalWeight weight bs := by
  induction as with
  | nil => simp [totalWeight]
  | cons a rest ih => simp [totalWeight, ih, Nat.add_assoc]

theorem totalWeight_reverse {α : Type} (weight : α → Nat) (as : List α) :
    totalWeight weight as.reverse = totalWeight weight as := by
  induction as with
  | nil => rfl
  | cons a rest ih => simp [totalWeight, totalWeight_append, ih, Nat.add_comm]

theorem totalWeight_map {α β : Type} (weight : β → Nat) (f : α → β) (as : List α) :
    totalWeight weight (as.map f) = totalWeight (fun a => weight (f a)) as := by
  induction as with
  | nil => rfl
  | cons a rest ih => simp [totalWeight, ih]

/-- A kind of tree: the children of a node, and a weight that children have less of than
their parent, so that a search ends. -/
structure TreeShape (α : Type) where
  children : α → Except Fault (List α)
  weight : α → Nat
  lighter : ∀ a cs, children a = .ok cs → totalWeight weight cs < weight a

namespace TreeShape

variable {α : Type}

def stackWeight (t : TreeShape α) (stack : List (α × Nat)) : Nat :=
  totalWeight (fun e => t.weight e.1) stack

/-- Pushes nodes of one level onto a stack, the last one on top. -/
def push (level : Nat) (nodes : List α) (stack : List (α × Nat)) : List (α × Nat) :=
  (nodes.map fun a => (a, level)).reverse ++ stack

/-- The deepest level among the nodes on a stack and those below them. The node pushed
last is looked at first. -/
def deepest (t : TreeShape α) (best : Nat) : List (α × Nat) → Except Fault Nat
  | [] => .ok best
  | (a, level) :: rest =>
    match h : t.children a with
    | .error e => .error e
    | .ok cs => deepest t (max best level) (push (level + 1) cs rest)
termination_by stack => t.stackWeight stack
decreasing_by
  have fewer : totalWeight (fun c => t.weight c) cs < t.weight a := t.lighter a cs h
  simp only [stackWeight, push, totalWeight_append, totalWeight_reverse, totalWeight_map,
    totalWeight]
  omega

/-- The number of levels of a tree, a root alone being one. -/
def depth (t : TreeShape α) (root : α) : Except Fault Nat := do
  let cs ← t.children root
  pure ((← t.deepest 0 (push 1 cs [])) + 1)

def ensure (t : TreeShape α) (root : α) (limit : Value) : Except Failure Unit := do
  let depth ← orFail (t.depth root)
  if ← orFail (limit.less (.whole depth)) then .error (.tooDeep depth limit) else pure ()

end TreeShape

/-! ## Designs that are read -/

namespace Node

mutual

def count : Node → Nat
  | node _ children => countAll children + 1

def countAll : List Node → Nat
  | [] => 0
  | n :: rest => count n + countAll rest

end

theorem totalWeight_count (ns : List Node) : totalWeight count ns = countAll ns := by
  induction ns with
  | nil => rfl
  | cons n rest ih => simp [totalWeight, countAll, ih]

def shape : TreeShape Node where
  children n := .ok n.children
  weight := count
  lighter := by
    intro n cs h
    obtain ⟨l, children⟩ := n
    obtain rfl : children = cs := by simpa [Node.children] using h
    simp [totalWeight_count, count]

end Node

/-! ## Designs that are not read yet -/

namespace Value

mutual

def count : Value → Nat
  | list items => countItems items + 1
  | object members => countMembers members + 1
  | _ => 1

def countItems : List Value → Nat
  | [] => 0
  | v :: rest => count v + countItems rest

def countMembers : List (String × Value) → Nat
  | [] => 0
  | (_, v) :: rest => count v + countMembers rest

end

/-- The children of a node that is not read yet. Where the member holds texts instead of
nodes, the fault is that texts have no children. -/
def childNodes (v : Value) : Except Fault (List Value) := do
  let ms ← v.members?
  match Members.get ms "children" with
  | list items => .ok items
  | text s => if s.isEmpty then .ok [] else .error .noSuchPart
  | object ms => if ms.isEmpty then .ok [] else .error .noSuchPart
  | v => if v.isPresent then .error .wrongKind else .ok []

theorem totalWeight_count (vs : List Value) : totalWeight count vs = countItems vs := by
  induction vs with
  | nil => rfl
  | cons v rest ih => simp [totalWeight, countItems, ih]

theorem count_le_of_lookup {ms : Members} {name : String} {v : Value}
    (h : ms.lookup name = some v) : count v ≤ countMembers ms := by
  induction ms with
  | nil => simp at h
  | cons m rest ih =>
    obtain ⟨n, w⟩ := m
    rw [List.lookup_cons] at h
    simp only [countMembers]
    split at h
    · obtain rfl : w = v := by simpa using h
      omega
    · have := ih h
      omega

theorem countItems_childNodes {v : Value} {cs : List Value} (h : v.childNodes = .ok cs) :
    countItems cs < count v := by
  cases v with
  | object ms =>
    simp only [childNodes, members?, Members.get, Members.getOr, bind, Except.bind] at h
    cases hl : ms.lookup "children" with
    | none =>
      rw [hl] at h
      obtain rfl : [] = cs := by simpa [isPresent] using h
      simp [countItems, count]
    | some w =>
      have hw := count_le_of_lookup hl
      rw [hl] at h
      cases w with
      | list items =>
        obtain rfl : items = cs := by simpa using h
        simp only [count] at hw ⊢
        omega
      | _ =>
        simp only [Option.getD_some] at h
        split at h <;> simp_all [countItems, count]
  | _ => simp [childNodes, members?, bind, Except.bind] at h

def shape : TreeShape Value where
  children := childNodes
  weight := count
  lighter := by
    intro v cs h
    rw [totalWeight_count]
    exact countItems_childNodes h

end Value

end DesignMarkup
