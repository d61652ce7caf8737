import Mathlib.Data.List.Forall2
import DesignMarkup.Depth
import DesignMarkup.Proofs.PrintedPage
import DesignMarkup.Proofs.Quantities
import DesignMarkup.Proofs.Tables

/-!
# Levels

Before a design is converted its levels are counted, by a search with a stack. Two recursions go
down the same levels: that of the reader, and that of the walk. The search counts what they go
down: a design that has no more levels than a limit keeps both within it, and its markup too.
-/

namespace DesignMarkup

/-! ## Levels by recursion -/

/-- The greatest number that a list has for its members, zero for the empty list. -/
def greatest {α : Type} (f : α → Nat) : List α → Nat
  | [] => 0
  | a :: rest => max (f a) (greatest f rest)

theorem add_greatest_le_iff {α : Type} {f : α → Nat} {l : List α} {j k : Nat} :
    j + greatest f l ≤ k ↔ j ≤ k ∧ ∀ a ∈ l, j + f a ≤ k := by
  induction l with
  | nil => simp [greatest]
  | cons a rest ih =>
      have split : j + max (f a) (greatest f rest) ≤ k ↔ j + f a ≤ k ∧ j + greatest f rest ≤ k := by
        omega
      rw [greatest, split, ih, List.forall_mem_cons]
      exact and_left_comm

namespace Node

mutual

/-- The levels of a tree: one for the root, and below it those of the deepest child. -/
def levels : Node → Nat
  | node _ children => levelsAll children + 1

def levelsAll : List Node → Nat
  | [] => 0
  | n :: rest => max (levels n) (levelsAll rest)

end

theorem levelsAll_eq (ns : List Node) : levelsAll ns = greatest levels ns := by
  induction ns with
  | nil => rfl
  | cons n rest ih => rw [levelsAll, greatest, ih]

theorem levels_eq (n : Node) : n.levels = greatest levels n.children + 1 := by
  obtain ⟨l, cs⟩ := n
  rw [levels, levelsAll_eq, children]

end Node

namespace Value

mutual

/-- The levels of a design that is not read yet. Its children are the items of the list that it
names so; anything else in that place holds none. -/
def levels : Value → Nat
  | object members => levelsBelow members + 1
  | _ => 1

def levelsBelow : List (String × Value) → Nat
  | [] => 0
  | (name, v) :: rest =>
    if name == "children" then
      match v with
      | list items => levelsAll items
      | _ => 0
    else levelsBelow rest

def levelsAll : List Value → Nat
  | [] => 0
  | v :: rest => max (levels v) (levelsAll rest)

end

theorem levelsAll_eq (vs : List Value) : levelsAll vs = greatest levels vs := by
  induction vs with
  | nil => rfl
  | cons v rest ih => rw [levelsAll, greatest, ih]

end Value

namespace Element

mutual

/-- How deep elements stand in each other. -/
def levels : Element → Nat
  | text _ _ _ => 1
  | box _ _ _ children => levelsAll children + 1

def levelsAll : List Element → Nat
  | [] => 0
  | e :: rest => max (levels e) (levelsAll rest)

end

end Element

/-! ## The search -/

namespace TreeShape

variable {α : Type} {t : TreeShape α}

theorem weight_lt_of_mem {a c : α} {cs : List α} (h : t.children a = .ok cs) (hc : c ∈ cs) :
    t.weight c < t.weight a := by
  have one : ∀ ds : List α, c ∈ ds → t.weight c ≤ totalWeight t.weight ds := by
    intro ds hd
    induction ds with
    | nil => cases hd
    | cons d rest ih =>
        rw [totalWeight]
        rcases List.mem_cons.mp hd with rfl | later
        · omega
        · have := ih later
          omega
  exact Nat.lt_of_le_of_lt (one cs hc) (t.lighter a cs h)

/-- What holds of a node as soon as it holds of its children holds of every node. -/
theorem induction (t : TreeShape α) {P : α → Prop}
    (h : ∀ a, (∀ cs, t.children a = .ok cs → ∀ c ∈ cs, P c) → P a) (a : α) : P a := by
  -- Children weigh less than their parent, and the induction is on the weight.
  induction weight : t.weight a using Nat.strongRecOn generalizing a with
  | ind n ih =>
      subst weight
      exact h a fun cs hcs c hc => ih (t.weight c) (weight_lt_of_mem hcs hc) c rfl

/-- On a part of the tree out of which no edge leads, a number for each node is one more than the
greatest among its children. -/
def Measures (t : TreeShape α) (part : α → Prop) (levels : α → Nat) : Prop :=
  ∀ a, part a → ∃ cs, t.children a = .ok cs ∧ (∀ c ∈ cs, part c) ∧
    levels a = greatest levels cs + 1

variable {part : α → Prop} {levels : α → Nat}

theorem forall_mem_push {level : Nat} {nodes : List α} {stack : List (α × Nat)}
    {P : α × Nat → Prop} :
    (∀ e ∈ push level nodes stack, P e) ↔ (∀ a ∈ nodes, P (a, level)) ∧ ∀ e ∈ stack, P e := by
  simp [push, or_imp, forall_and]

theorem deepest_of_error {a : α} {fault : Fault} (h : t.children a = .error fault)
    (best level : Nat) (rest : List (α × Nat)) :
    t.deepest best ((a, level) :: rest) = .error fault := by
  rw [deepest]
  split
  · rename_i fault' failed
    exact congrArg Except.error (Except.error.inj (failed.symm.trans h))
  · rename_i cs found
    cases found.symm.trans h

theorem deepest_of_ok {a : α} {cs : List α} (h : t.children a = .ok cs)
    (best level : Nat) (rest : List (α × Nat)) :
    t.deepest best ((a, level) :: rest)
      = t.deepest (max best level) (push (level + 1) cs rest) := by
  rw [deepest]
  split
  · rename_i fault failed
    cases failed.symm.trans h
  · rename_i cs' found
    rw [Except.ok.inj (found.symm.trans h)]

/-- The search finds the deepest level there is at or below the nodes on the stack, if it is
deeper than the best so far. -/
theorem deepest_of_measures (measured : t.Measures part levels) (best : Nat)
    (stack : List (α × Nat)) (inside : ∀ e ∈ stack, part e.1) :
    ∃ r, t.deepest best stack = .ok r ∧
      ∀ k, r ≤ k ↔ best ≤ k ∧ ∀ e ∈ stack, e.2 + levels e.1 ≤ k + 1 := by
  induction best, stack using deepest.induct t with
  | case1 best => exact ⟨best, by rw [deepest], by simp⟩
  | case2 best a level rest fault failed =>
      obtain ⟨cs, hcs, -⟩ := measured a (inside _ List.mem_cons_self)
      cases failed.symm.trans hcs
  | case3 best a level rest cs hcs ih =>
      obtain ⟨ds, hds, below, count⟩ := measured a (inside _ List.mem_cons_self)
      obtain rfl := Except.ok.inj (hcs.symm.trans hds)
      obtain ⟨r, hr, least⟩ := ih (forall_mem_push.mpr
        ⟨below, fun e he => inside e (List.mem_cons_of_mem _ he)⟩)
      refine ⟨r, ?_, fun k => ?_⟩
      · rw [deepest_of_ok hcs, hr]
      · -- A node that is taken off stands for its own level and for those of its children.
        have own : level + levels a ≤ k + 1 ↔
            level ≤ k ∧ ∀ c ∈ cs, level + 1 + levels c ≤ k + 1 := by
          have shifted : level + levels a ≤ k + 1 ↔ level + 1 + greatest levels cs ≤ k + 1 := by
            omega
          rw [shifted, add_greatest_le_iff, Nat.add_le_add_iff_right]
        rw [least, Nat.max_le, forall_mem_push, List.forall_mem_cons, own, and_assoc, and_assoc]

theorem depth_of_measures (measured : t.Measures part levels) {root : α} (h : part root) :
    t.depth root = .ok (levels root) := by
  obtain ⟨cs, hcs, below, count⟩ := measured root h
  obtain ⟨r, hr, least⟩ := deepest_of_measures measured 0 (push 1 cs [])
    (forall_mem_push.mpr ⟨below, nofun⟩)
  have same : ∀ k, r ≤ k ↔ greatest levels cs ≤ k := by
    intro k
    have shifted : greatest levels cs ≤ k ↔ 1 + greatest levels cs ≤ k + 1 := by omega
    rw [least, forall_mem_push, shifted, add_greatest_le_iff]
    simp
  have found : r = greatest levels cs :=
    Nat.le_antisymm ((same _).mpr (Nat.le_refl _)) ((same _).mp (Nat.le_refl _))
  rw [depth, hcs, count, ← found]
  show (do pure ((← t.deepest 0 (push 1 cs [])) + 1) : Except Fault Nat) = _
  rw [hr]
  rfl

/-! ### Two trees in step -/

section

variable {β : Type} {u : TreeShape β} {R : α → β → Prop}

/-- The children of two nodes are related one by one, or are missed for the same reason. -/
def InStep (t : TreeShape α) (u : TreeShape β) (R : α → β → Prop) (a : α) (b : β) : Prop :=
  (∃ fault, t.children a = .error fault ∧ u.children b = .error fault) ∨
    ∃ cs ds, t.children a = .ok cs ∧ u.children b = .ok ds ∧ List.Forall₂ R cs ds

/-- Related nodes of two trees are in step. -/
def Simulates (t : TreeShape α) (u : TreeShape β) (R : α → β → Prop) : Prop :=
  ∀ a b, R a b → InStep t u R a b

/-- Stacks with related nodes on the same levels. -/
def Aligned (R : α → β → Prop) : List (α × Nat) → List (β × Nat) → Prop :=
  List.Forall₂ fun e f => R e.1 f.1 ∧ e.2 = f.2

theorem aligned_push {cs : List α} {ds : List β} (h : List.Forall₂ R cs ds) (level : Nat)
    {stack : List (α × Nat)} {stack' : List (β × Nat)} (aligned : Aligned R stack stack') :
    Aligned R (push level cs stack) (push level ds stack') := by
  refine List.rel_append (List.forall₂_reverse_iff.mpr ?_) aligned
  rw [List.forall₂_map_left_iff, List.forall₂_map_right_iff]
  exact h.imp fun _ _ related => ⟨related, rfl⟩

/-- The search goes through aligned stacks in step. -/
theorem deepest_eq_of_simulates (simulates : Simulates t u R) (best : Nat)
    (stack : List (α × Nat)) : ∀ stack' : List (β × Nat), Aligned R stack stack' →
      t.deepest best stack = u.deepest best stack' := by
  induction best, stack using deepest.induct t with
  | case1 best =>
      rintro _ ⟨⟩
      rw [deepest, deepest]
  | case2 best a level rest fault failed =>
      rintro _ (_ | @⟨_, ⟨b, _⟩, _, rest', ⟨related, rfl⟩, aligned⟩)
      rcases simulates a b related with ⟨_, h, h'⟩ | ⟨cs, ds, h, h', -⟩
      · rw [deepest_of_error h, deepest_of_error h']
      · cases failed.symm.trans h
  | case3 best a level rest cs found ih =>
      rintro _ (_ | @⟨_, ⟨b, _⟩, _, rest', ⟨related, rfl⟩, aligned⟩)
      rcases simulates a b related with ⟨_, h, h'⟩ | ⟨cs', ds, h, h', children⟩
      · cases found.symm.trans h
      · obtain rfl := Except.ok.inj (found.symm.trans h)
        rw [deepest_of_ok h, deepest_of_ok h']
        exact ih _ (aligned_push children _ aligned)

theorem depth_eq_of_simulates (simulates : Simulates t u R) {a : α} {b : β} (related : R a b) :
    t.depth a = u.depth b := by
  rcases simulates a b related with ⟨_, h, h'⟩ | ⟨cs, ds, h, h', children⟩
  · rw [depth, depth, h, h']
    rfl
  · have bottom : Aligned R ([] : List (α × Nat)) ([] : List (β × Nat)) := .nil
    have search := deepest_eq_of_simulates simulates 0 _ _ (aligned_push children 1 bottom)
    rw [depth, depth, h, h']
    show (do pure ((← t.deepest 0 (push 1 cs [])) + 1) : Except Fault Nat) = _
    rw [search]
    rfl

end

end TreeShape

/-! ## Reading -/

/-- The nodes that the member for children holds: none where it counts as absent. -/
def Value.heldNodes : Value → Except Fault (List Value)
  | .list items => .ok items
  | .text s => if s.isEmpty then .ok [] else .error .noSuchPart
  | .object ms => if ms.isEmpty then .ok [] else .error .noSuchPart
  | v => if v.isPresent then .error .wrongKind else .ok []

theorem Value.childNodes_object (ms : Members) :
    Value.childNodes (.object ms) = (Members.get ms "children").heldNodes :=
  rfl

theorem Members.get_cons (name key : String) (v : Value) (rest : Members) :
    Members.get ((name, v) :: rest) key = if name = key then v else Members.get rest key := by
  show (List.lookup key ((name, v) :: rest)).getD .null = _
  rw [Ordered.lookup_cons name v rest key]
  split <;> rfl

namespace Node

theorem ofChildrenMember_eq (ms : Members) :
    ofChildrenMember ms = (Members.get ms "children").heldNodes >>= ofValues := by
  induction ms with
  | nil => rfl
  | cons m rest ih =>
      obtain ⟨name, v⟩ := m
      rw [Members.get_cons]
      by_cases found : name = "children"
      · rw [if_pos found]
        -- What is no list holds no nodes, or none that can be read.
        cases v <;> simp only [ofChildrenMember, if_pos (beq_iff_eq.mpr found)]
        case list items => rfl
        all_goals
          simp only [Value.heldNodes]
          split <;> rfl
      · rw [if_neg found, ← ih]
        cases v <;> simp [ofChildrenMember, found]

theorem ofValue_eq_ok_iff {v : Value} {n : Node} :
    ofValue v = .ok n ↔ ∃ ms vs, v = .object ms ∧ v.childNodes = .ok vs ∧
      ofValues vs = .ok n.children ∧ Layer.ofMembers ms = .ok n.layer := by
  cases v with
  | object ms =>
      rw [ofValue, ofChildrenMember_eq, ← Value.childNodes_object]
      constructor
      · intro h
        obtain ⟨cs, hcs, h⟩ := bind_eq_ok_iff.mp h
        obtain ⟨vs, hvs, hcs⟩ := bind_eq_ok_iff.mp hcs
        obtain ⟨l, hl, h⟩ := bind_eq_ok_iff.mp h
        obtain rfl := pure_eq_ok_iff.mp h
        exact ⟨ms, vs, rfl, hvs, hcs, hl⟩
      · rintro ⟨ms', vs, same, hvs, hcs, hl⟩
        obtain rfl := Value.object.inj same
        obtain ⟨l, cs⟩ := n
        exact bind_eq_ok_iff.mpr ⟨cs, bind_eq_ok_iff.mpr ⟨vs, hvs, hcs⟩,
          bind_eq_ok_iff.mpr ⟨l, hl, rfl⟩⟩
  | _ => simp [ofValue]

theorem ofValues_eq_ok_iff {vs : List Value} {ns : List Node} :
    ofValues vs = .ok ns ↔ List.Forall₂ (fun v n => ofValue v = .ok n) vs ns := by
  induction vs generalizing ns with
  | nil => simp [ofValues, eq_comm]
  | cons v rest ih =>
      rw [ofValues, List.forall₂_cons_left_iff, bind_eq_ok_iff]
      refine exists_congr fun n => ?_
      constructor
      · rintro ⟨hn, h⟩
        obtain ⟨ns', hns, h⟩ := bind_eq_ok_iff.mp h
        exact ⟨ns', hn, ih.mp hns, (pure_eq_ok_iff.mp h).symm⟩
      · rintro ⟨ns', hn, hns, rfl⟩
        exact ⟨hn, bind_eq_ok_iff.mpr ⟨ns', ih.mpr hns, rfl⟩⟩

/-- A node mirrors a value: it is what the value reads as, and its children mirror the value's
children, as many and in the same order, at every level. -/
inductive Mirrors : Value → Node → Prop
  | intro {v : Value} {n : Node} {vs : List Value} (read : ofValue v = .ok n)
      (held : v.childNodes = .ok vs) (children : List.Forall₂ Mirrors vs n.children) : Mirrors v n

theorem mirrors_of_ofValue (v : Value) : ∀ n, ofValue v = .ok n → Mirrors v n := by
  induction v using Value.shape.induction with
  | h v ih =>
      intro n h
      obtain ⟨ms, vs, rfl, hvs, hcs, -⟩ := ofValue_eq_ok_iff.mp h
      have each := (List.forall₂_and_left _ _).mpr ⟨ih vs hvs, ofValues_eq_ok_iff.mp hcs⟩
      exact .intro h hvs (each.imp fun _ n ⟨mirrored, read⟩ => mirrored n read)

end Node

/-! ## Levels on both sides of the reader -/

theorem greatest_eq_of_forall₂ {α β : Type} {f : α → Nat} {g : β → Nat} {as : List α}
    {bs : List β} (h : List.Forall₂ (fun a b => f a = g b) as bs) :
    greatest f as = greatest g bs := by
  induction h with
  | nil => rfl
  | cons same _ ih => rw [greatest, greatest, same, ih]

namespace Value

theorem levelsBelow_eq {ms : Members} {vs : List Value}
    (h : (Members.get ms "children").heldNodes = .ok vs) : levelsBelow ms = levelsAll vs := by
  induction ms with
  | nil =>
      obtain rfl := Except.ok.inj h
      rfl
  | cons m rest ih =>
      obtain ⟨name, v⟩ := m
      rw [Members.get_cons] at h
      by_cases found : name = "children"
      · rw [if_pos found] at h
        cases v <;> simp only [levelsBelow, if_pos (beq_iff_eq.mpr found)]
        case list items =>
          obtain rfl := Except.ok.inj h
          rfl
        all_goals
          have none : vs = [] := by
            simp only [heldNodes] at h
            split at h <;> simp_all
          rw [none]
          rfl
      · rw [if_neg found] at h
        rw [← ih h]
        cases v <;> simp [levelsBelow, found]

theorem levels_of_childNodes {v : Value} {vs : List Value} (h : v.childNodes = .ok vs) :
    v.levels = greatest levels vs + 1 := by
  cases v with
  | object ms => rw [levels, levelsBelow_eq h, levelsAll_eq]
  | _ => cases h

/-- A design has as many levels as the tree that it reads as. -/
theorem levels_of_ofValue (v : Value) : ∀ n, Node.ofValue v = .ok n → v.levels = n.levels := by
  induction v using Value.shape.induction with
  | h v ih =>
      intro n h
      obtain ⟨ms, vs, rfl, hvs, hcs, -⟩ := Node.ofValue_eq_ok_iff.mp h
      have each := (List.forall₂_and_left _ _).mpr ⟨ih vs hvs, Node.ofValues_eq_ok_iff.mp hcs⟩
      rw [levels_of_childNodes hvs, Node.levels_eq,
        greatest_eq_of_forall₂ (each.imp fun _ n ⟨same, read⟩ => same n read)]

/-- Below a design that can be read are designs that can be read. -/
theorem measures_levels :
    shape.Measures (fun v => ∃ n, Node.ofValue v = .ok n) levels := by
  rintro v ⟨n, h⟩
  obtain ⟨ms, vs, rfl, hvs, hcs, -⟩ := Node.ofValue_eq_ok_iff.mp h
  refine ⟨vs, hvs, ?_, levels_of_childNodes hvs⟩
  have each := (Node.ofValues_eq_ok_iff.mp hcs).imp
    fun v n read => (⟨⟨n, read⟩, read⟩ : (∃ m, Node.ofValue v = .ok m) ∧ Node.ofValue v = .ok n)
  exact ((List.forall₂_and_left _ _).mp each).1

end Value

theorem Node.measures_levels : Node.shape.Measures (fun _ => True) Node.levels :=
  fun n _ => ⟨n.children, rfl, fun _ _ => trivial, n.levels_eq⟩

/-! ## The limit -/

theorem TreeShape.ensure_of_depth {α : Type} {t : TreeShape α} {a : α} {d : Nat}
    (h : t.depth a = .ok d) (limit : Int) :
    t.ensure a (.whole limit)
      = if limit < d then .error (.tooDeep d (.whole limit)) else .ok () := by
  have compared : (Value.whole limit).less (.whole d) = .ok (decide (limit < d)) :=
    congrArg Except.ok (Number.less_whole limit d)
  rw [ensure, h]
  show (do
    if ← orFail ((Value.whole limit).less (.whole d)) then _ else _ : Except Failure Unit) = _
  rw [compared]
  by_cases deep : limit < d
  · rw [if_pos deep, decide_eq_true deep]
    rfl
  · rw [if_neg deep, decide_eq_false deep]
    rfl

/-! ## Recursions within a limit -/

namespace Node

section

variable (instead : Except Fault Node) (limit : Int)

mutual

/-- The reader with something else in place of each of its calls that is as deep as a limit. -/
def ofValueWithin (depth : Nat) : Value → Except Fault Node
  | .object ms =>
    if limit ≤ depth then instead
    else do
      let children ← ofChildrenMemberWithin (depth + 1) ms
      let layer ← Layer.ofMembers ms
      pure (node layer children)
  | _ => if limit ≤ depth then instead else .error .noSuchPart

def ofChildrenMemberWithin (depth : Nat) : List (String × Value) → Except Fault (List Node)
  | [] => .ok []
  | (name, v) :: rest =>
    if name == "children" then
      match v with
      | .list items => ofValuesWithin depth items
      | v => do
        let _ ← v.heldNodes
        pure []
    else ofChildrenMemberWithin depth rest

def ofValuesWithin (depth : Nat) : List Value → Except Fault (List Node)
  | [] => .ok []
  | v :: rest => do
    let n ← ofValueWithin depth v
    let ns ← ofValuesWithin depth rest
    pure (n :: ns)

end

variable {instead limit}

mutual

/-- A design that has no more levels than are left is read the same. -/
theorem ofValueWithin_eq : ∀ (v : Value) {depth : Nat}, depth + v.levels ≤ limit →
    ofValueWithin instead limit depth v = ofValue v
  | .object ms, depth, h => by
      rw [Value.levels] at h
      rw [ofValueWithin, if_neg (by omega), ofChildrenMemberWithin_eq ms (by omega), ofValue]
  | .null, depth, h | .bool b, depth, h | .number n, depth, h | .text s, depth, h
  | .list items, depth, h => by
      simp only [Value.levels] at h
      simp only [ofValueWithin, ofValue]
      exact if_neg (by omega)

theorem ofChildrenMemberWithin_eq : ∀ (ms : List (String × Value)) {depth : Nat},
    depth + Value.levelsBelow ms ≤ limit →
    ofChildrenMemberWithin instead limit depth ms = ofChildrenMember ms
  | [], depth, _ => rfl
  | (name, v) :: rest, depth, h => by
      by_cases found : (name == "children") = true
      · cases v <;> simp only [ofChildrenMemberWithin, ofChildrenMember, if_pos found]
        case list items =>
          simp only [Value.levelsBelow, if_pos found] at h
          exact ofValuesWithin_eq items h
        -- Nothing is read in what is no list.
        all_goals
          simp only [Value.heldNodes]
          split <;> rfl
      · have further : Value.levelsBelow ((name, v) :: rest) = Value.levelsBelow rest := by
          cases v <;> simp [Value.levelsBelow, found]
        rw [further] at h
        have skipped : ofChildrenMember ((name, v) :: rest) = ofChildrenMember rest := by
          cases v <;> simp [ofChildrenMember, found]
        rw [skipped, ← ofChildrenMemberWithin_eq rest h]
        cases v <;> simp [ofChildrenMemberWithin, found]

theorem ofValuesWithin_eq : ∀ (vs : List Value) {depth : Nat},
    depth + Value.levelsAll vs ≤ limit → ofValuesWithin instead limit depth vs = ofValues vs
  | [], depth, _ => rfl
  | v :: rest, depth, h => by
      rw [Value.levelsAll] at h
      rw [ofValuesWithin, ofValueWithin_eq v (by omega), ofValuesWithin_eq rest (by omega),
        ofValues]

end

end

end Node

section

variable [Arctangent]

/-- What is converted has a depth, the number of its levels. -/
theorem Value.depth_of_convertValue {v : Value} {o : Options} {r : Converted}
    (h : convertValue v o = .ok r) : Value.shape.depth v = .ok v.levels := by
  obtain ⟨n, read, -⟩ := bind_eq_ok_iff.mp h
  exact TreeShape.depth_of_measures Value.measures_levels ⟨n, read⟩

namespace Node

section

variable (instead : Walk Element) (limit : Int) (o : Options)

mutual

/-- The walk with something else in place of each of its visits whose depth is at or beyond a
limit. -/
def drawWithin (depth : Nat) : Node → Walk Element
  | node layer children =>
    if limit ≤ depth then instead
    else do
      let className ← Writing.lift layer.className
      layer.dress o className
      match layer.kind.rendering (!children.isEmpty) with
      | .text => Writing.lift (layer.textElement className)
      | .shape => pure (Layer.shapeElement className)
      | .drawing => Writing.lift (layer.drawingElement className)
      | .container => do
        let tag ← Writing.lift layer.containerTag
        let elements ← drawAllWithin (depth + 1) children
        pure (.box tag className none elements)

def drawAllWithin (depth : Nat) : List Node → Walk (List Element)
  | [] => pure []
  | n :: rest => do
    let e ← drawWithin depth n
    let es ← drawAllWithin depth rest
    pure (e :: es)

end

variable {instead limit o}

mutual

/-- A tree that has no more levels than are left is walked through the same. -/
theorem drawWithin_eq : ∀ (n : Node) {depth : Nat}, depth + n.levels ≤ limit →
    n.drawWithin instead limit o depth = n.draw o
  | node l cs, depth, h => by
      rw [levels] at h
      rw [drawWithin, if_neg (by omega), drawAllWithin_eq cs (by omega)]
      rfl

theorem drawAllWithin_eq : ∀ (ns : List Node) {depth : Nat}, depth + levelsAll ns ≤ limit →
    drawAllWithin instead limit o depth ns = drawAll o ns
  | [], depth, _ => rfl
  | n :: rest, depth, h => by
      rw [levelsAll] at h
      rw [drawAllWithin, drawWithin_eq n (by omega), drawAllWithin_eq rest (by omega), drawAll]

end

end

omit [Arctangent] in
mutual

/-- The markup is no deeper than the tree, and may be less deep where children are not visited. -/
theorem levels_shown_le : ∀ n : Node, n.shown.levels ≤ n.levels
  | node l cs => by
      have below := levelsAll_shownAll_le cs
      rw [shown_node, levels]
      cases l.kind.rendering (!cs.isEmpty) <;> simp only [Element.levels, Element.levelsAll]
      case container => omega
      all_goals omega

theorem levelsAll_shownAll_le : ∀ ns : List Node, Element.levelsAll (shownAll ns) ≤ levelsAll ns
  | [] => Nat.le_refl 0
  | n :: rest => by
      have first := levels_shown_le n
      have others := levelsAll_shownAll_le rest
      rw [shownAll, Element.levelsAll, levelsAll]
      omega

end

/-- The search counts the levels of a design, read or not, and reading keeps its children level by
level. A design passes the guard exactly when it has no more levels than the limit, and then
neither the reader nor the walk makes a call at a depth of the limit or more, whatever such a call
would do, and the markup is no deeper than the limit. -/
theorem guarded_of_ofValue {v : Value} {n : Node} (read : ofValue v = .ok n) (limit : Int) :
    Value.shape.depth v = .ok v.levels ∧ shape.depth n = .ok v.levels ∧ n.levels = v.levels ∧
    Mirrors v n ∧
    Value.shape.ensure v (.whole limit)
      = (if limit < v.levels then .error (.tooDeep v.levels (.whole limit)) else .ok ()) ∧
    (Value.shape.ensure v (.whole limit) = .ok () →
      (∀ instead, ofValueWithin instead limit 0 v = .ok n) ∧
      ∀ o, (∀ instead, n.drawWithin instead limit o 0 = n.draw o) ∧
        ∀ r, convertValue v o = .ok r →
          ∃ page, Markup.read r.html = some page ∧ page.levels ≤ limit) := by
  have same : n.levels = v.levels := (Value.levels_of_ofValue v n read).symm
  have unread : Value.shape.depth v = .ok v.levels :=
    TreeShape.depth_of_measures Value.measures_levels ⟨n, read⟩
  have tree : shape.depth n = .ok n.levels := TreeShape.depth_of_measures measures_levels trivial
  have guard := TreeShape.ensure_of_depth unread limit
  refine ⟨unread, same ▸ tree, same, mirrors_of_ofValue v n read, guard, fun passed => ?_⟩
  have within : (v.levels : Int) ≤ limit := by
    by_contra beyond
    rw [guard, if_pos (by omega)] at passed
    cases passed
  refine ⟨fun instead => ?_, fun o => ⟨fun instead => ?_, fun r converted => ?_⟩⟩
  · exact (ofValueWithin_eq v (by omega)).trans read
  · exact drawWithin_eq n (by omega)
  · obtain ⟨m, hm, converted⟩ := bind_eq_ok_iff.mp converted
    obtain rfl := Except.ok.inj (read.symm.trans hm)
    obtain ⟨html, -⟩ := convert_of_ok converted
    refine ⟨n.shown, ?_, ?_⟩
    · rw [html]
      exact Markup.read_print (proper_shown n) 0
    · have := n.levels_shown_le
      omega

end Node

end

/-- A frame with a group and a leaf in it; the group holds a text whose child is never drawn. -/
def Value.tower : Value :=
  .object
    [("type", .text "FRAME"),
     ("children", .list
       [.object [("type", .text "GROUP"), ("children", .list
         [.object [("type", .text "TEXT"), ("children", .list [.object []])]])],
        .object [("type", .text "STAR"), ("children", .null)]])]

set_option maxRecDepth 20000 in
theorem Node.guarded_tower :
    ∃ n r page, ofValue .tower = .ok n ∧ Value.shape.depth .tower = .ok 4 ∧
      shape.depth n = .ok 4 ∧ n.levels = 4 ∧
      Value.shape.ensure .tower (.whole 3) = .error (.tooDeep 4 (.whole 3)) ∧
      Value.shape.ensure .tower (.whole 4) = .ok () ∧
      (∀ instead, ofValueWithin instead 4 0 .tower = .ok n) ∧
      convertValue .tower .standard = .ok r ∧ Markup.read r.html = some page ∧
      (page.levels : Int) ≤ 4 := by
  obtain ⟨n, read⟩ : ∃ n, ofValue .tower = .ok n := exists_ok_of_isOk (by decide)
  obtain ⟨r, converted⟩ : ∃ r, convertValue .tower .standard = .ok r :=
    exists_ok_of_isOk (by decide)
  have four : Value.tower.levels = 4 := by decide
  obtain ⟨unread, tree, same, -, guard, within⟩ := guarded_of_ofValue read 4
  obtain ⟨-, -, -, -, refused, -⟩ := guarded_of_ofValue read 3
  rw [four] at unread tree same guard refused
  obtain ⟨reader, walk⟩ := within guard
  obtain ⟨page, html, shallow⟩ := (walk .standard).2 r converted
  exact ⟨n, r, page, read, unread, tree, same, refused, guard, reader, converted, html, shallow⟩

end DesignMarkup
