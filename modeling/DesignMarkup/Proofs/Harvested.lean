import DesignMarkup.Proofs.Declared
import DesignMarkup.Proofs.Tables
import DesignMarkup.Proofs.Walk

/-!
# The walk as a fold

A walk threads its rules and image uses through a recursion that makes elements at the same
time. What it comes to is a plain fold over the visited nodes, each of which contributes
what its layer resolves to alone: its image use, and its style under its class unless the
style is empty.
-/

namespace DesignMarkup

open Writing (All)
open StyleEntry (Declares images images_append images_of_declares)

/-! ## At most one image -/

namespace Resolver

variable {P : Property → String → Prop} {r : Resolver} {f : Unit → Resolver}

theorem images_bind_left (hr : All (Declares P) r) (hf : (images (f ()).written).length ≤ 1) :
    (images (r >>= f).written).length ≤ 1 := by
  cases h : r.outcome with
  | error e =>
      rw [Writing.bind_of_error h, images_of_declares hr]
      exact Nat.zero_le 1
  | ok u =>
      rw [Writing.bind_of_ok h, images_append, images_of_declares hr]
      exact hf

theorem images_bind_right (hr : (images r.written).length ≤ 1) (hf : All (Declares P) (f ())) :
    (images (r >>= f).written).length ≤ 1 := by
  cases h : r.outcome with
  | error e =>
      rw [Writing.bind_of_error h]
      exact hr
  | ok u =>
      rw [Writing.bind_of_ok h, images_append, images_of_declares hf, List.append_nil]
      exact hr

end Resolver

namespace Layer

theorem length_images_imageStyle (l : Layer) (fill : Paint) (className : Value) :
    (images (l.imageStyle fill className).written).length ≤ 1 := by
  show (images (Resolver.only (fill.imageRef.orElse l.imageRef).isPresent _).written).length ≤ 1
  cases (fill.imageRef.orElse l.imageRef).isPresent with
  | true => exact Nat.le_refl 1
  | false => exact Nat.zero_le 1

variable [Arctangent]

theorem length_images_fillStyle (l : Layer) (className : Value) :
    (images (l.fillStyle className).written).length ≤ 1 := by
  have none_of {r : Resolver} (h : All (Declares fun _ _ => True) r) :
      (images r.written).length ≤ 1 := by
    rw [images_of_declares h]
    exact Nat.zero_le 1
  unfold fillStyle
  split
  · exact none_of (Writing.all_pure ())
  · split
    · exact none_of (Writing.all_bind (Writing.all_lift _) fun _ _ =>
        Resolver.all_setIf fun _ _ => trivial)
    · split
      · exact none_of (Resolver.all_setTo fun _ _ => trivial)
      · split
        · exact none_of (Resolver.all_setTo fun _ _ => trivial)
        · split
          · exact l.length_images_imageStyle _ className
          · exact none_of (Writing.all_pure ())

/-- A layer uses one image at most. -/
theorem length_ownImages (l : Layer) (o : Options) : (l.ownImages o).length ≤ 1 := by
  -- Only the fill writes an image use; what stands around it declares.
  exact Resolver.images_bind_left (l.declared_baseStyle o)
    (Resolver.images_bind_right (l.length_images_fillStyle _) (l.declared_behindFill o))

def ownRule? (l : Layer) (o : Options) : Option (String × Declarations) :=
  if (l.ownStyle o).isEmpty then none else some (l.classOf, l.ownStyle o)

end Layer

/-! ## Entries of a walk -/

namespace WalkEntry

def image? : WalkEntry → Option ImageUse
  | image use => some use
  | rule _ _ => none

def rule? : WalkEntry → Option (String × Declarations)
  | image _ => none
  | rule className style => some (className, style)

end WalkEntry

namespace Harvest

theorem images_addAll (entries : List WalkEntry) (h : Harvest) :
    (h.addAll entries).images = h.images ++ entries.filterMap WalkEntry.image? := by
  induction entries generalizing h with
  | nil => exact (List.append_nil _).symm
  | cons entry rest ih =>
      have step : h.addAll (entry :: rest) = (h.add entry).addAll rest := rfl
      rw [step, ih]
      cases entry with
      | image use => exact List.append_assoc _ _ _
      | rule className style => rfl

theorem rules_addAll (entries : List WalkEntry) (h : Harvest) :
    (h.addAll entries).rules = h.rules.putAll (entries.filterMap WalkEntry.rule?) := by
  induction entries generalizing h with
  | nil => rfl
  | cons entry rest ih =>
      have step : h.addAll (entry :: rest) = (h.add entry).addAll rest := rfl
      rw [step, ih]
      cases entry <;> rfl

end Harvest

/-! ## Visited nodes -/

section

variable [Arctangent]

/-- The rules of nodes resolved alone, without those that declare nothing. -/
def Node.ownRules (o : Options) (ns : List Node) : List (String × Declarations) :=
  ns.filterMap (·.layer.ownRule? o)

/-- The harvest behind one more node. -/
def Harvest.visit (o : Options) (h : Harvest) (n : Node) : Harvest where
  rules := match n.layer.ownRule? o with
    | some (className, style) => h.rules.put className style
    | none => h.rules
  images := h.images ++ n.layer.ownImages o

namespace Layer

theorem image?_ownEntries (l : Layer) (o : Options) :
    (l.ownEntries o).filterMap WalkEntry.image? = l.ownImages o := by
  have uses (us : List ImageUse) :
      (us.map WalkEntry.image).filterMap WalkEntry.image? = us := by
    rw [List.filterMap_map]
    exact List.filterMap_some
  rw [ownEntries, List.filterMap_append, uses]
  split <;> simp [WalkEntry.image?]

theorem rule?_ownEntries (l : Layer) (o : Options) :
    (l.ownEntries o).filterMap WalkEntry.rule? = (l.ownRule? o).toList := by
  have uses (us : List ImageUse) : (us.map WalkEntry.image).filterMap WalkEntry.rule? = [] := by
    rw [List.filterMap_map, List.filterMap_eq_nil_iff]
    intro use _
    rfl
  rw [ownEntries, List.filterMap_append, uses, ownRule?]
  split <;> rfl

end Layer

namespace Harvest

/-- Taking in what nodes write alone is visiting them one after the other. -/
theorem addAll_ownEntries (o : Options) (ns : List Node) (h : Harvest) :
    h.addAll (ns.flatMap (·.layer.ownEntries o)) = ns.foldl (visit o) h := by
  induction ns generalizing h with
  | nil => rfl
  | cons n rest ih =>
      -- A harvest is its rules and its images, and they are compared one by one.
      have one : h.addAll (n.layer.ownEntries o) = h.visit o n := by
        have images := images_addAll (n.layer.ownEntries o) h
        have rules := rules_addAll (n.layer.ownEntries o) h
        rw [Layer.image?_ownEntries] at images
        rw [Layer.rule?_ownEntries] at rules
        have visited : (h.visit o n).rules = h.rules.putAll (n.layer.ownRule? o).toList := by
          rw [visit]
          cases n.layer.ownRule? o <;> rfl
        rw [← visited] at rules
        calc h.addAll (n.layer.ownEntries o)
            = ⟨(h.addAll (n.layer.ownEntries o)).rules, (h.addAll (n.layer.ownEntries o)).images⟩ :=
              rfl
          _ = ⟨(h.visit o n).rules, (h.visit o n).images⟩ := by rw [rules, images]; rfl
          _ = h.visit o n := rfl
      have split : h.addAll (n.layer.ownEntries o ++ rest.flatMap (·.layer.ownEntries o))
          = (h.addAll (n.layer.ownEntries o)).addAll (rest.flatMap (·.layer.ownEntries o)) :=
        List.foldl_append
      rw [List.flatMap_cons, split, one, ih, List.foldl_cons]

theorem images_foldl_visit (o : Options) (ns : List Node) (h : Harvest) :
    (ns.foldl (visit o) h).images = h.images ++ ns.flatMap (·.layer.ownImages o) := by
  induction ns generalizing h with
  | nil => exact (List.append_nil _).symm
  | cons n rest ih =>
      rw [List.foldl_cons, ih, List.flatMap_cons]
      exact List.append_assoc _ _ _

theorem rules_foldl_visit (o : Options) (ns : List Node) (h : Harvest) :
    (ns.foldl (visit o) h).rules = h.rules.putAll (Node.ownRules o ns) := by
  induction ns generalizing h with
  | nil => rfl
  | cons n rest ih =>
      rw [List.foldl_cons, ih, Node.ownRules, Node.ownRules, List.filterMap_cons, visit]
      cases n.layer.ownRule? o <;> rfl

theorem mem_ownRules {o : Options} {ns : List Node} {rule : String × Declarations} :
    rule ∈ Node.ownRules o ns ↔
      ∃ n ∈ ns, n.layer.ownStyle o ≠ [] ∧ rule = (n.layer.classOf, n.layer.ownStyle o) := by
  rw [Node.ownRules, List.mem_filterMap]
  refine exists_congr fun n => and_congr_right fun _ => ?_
  rw [Layer.ownRule?]
  split
  · rename_i empty
    simp [List.isEmpty_iff.mp empty]
  · rename_i nonempty
    have : n.layer.ownStyle o ≠ [] := fun empty => nonempty (List.isEmpty_iff.mpr empty)
    simp [this, eq_comm]

/-- The nodes of a class that declare something. -/
def declaring (o : Options) (className : String) (ns : List Node) : List Node :=
  ns.filter fun n => decide (n.layer.classOf = className) && !(n.layer.ownStyle o).isEmpty

/-- The rules of a class are the styles of the nodes of that class that declare something. -/
theorem filter_ownRules (o : Options) (className : String) (ns : List Node) :
    (Node.ownRules o ns).filter (·.1 = className)
      = (declaring o className ns).map fun n => (n.layer.classOf, n.layer.ownStyle o) := by
  induction ns with
  | nil => rfl
  | cons n rest ih =>
      rw [Node.ownRules] at ih ⊢
      rw [List.filterMap_cons, Layer.ownRule?, declaring, List.filter_cons]
      -- A node is left out for an empty style or for another class.
      by_cases empty : (n.layer.ownStyle o).isEmpty
      · simpa [empty, declaring] using ih
      · by_cases same : n.layer.classOf = className
        · simpa [empty, same, declaring] using ih
        · simpa [empty, same, declaring] using ih

/-- Behind a fold over nodes stands under each class the style of the last node of that class
that declares something. -/
theorem lookup_foldl_visit (o : Options) (ns : List Node) (h : Harvest) (className : String) :
    (ns.foldl (visit o) h).rules.lookup className
      = (((declaring o className ns).getLast?).map (·.layer.ownStyle o)).or
          (h.rules.lookup className) := by
  rw [rules_foldl_visit, Ordered.lookup_putAll, filter_ownRules, List.getLast?_map,
    Option.map_map]
  rfl

theorem keys_foldl_visit (o : Options) (ns : List Node) {h : Harvest}
    (distinct : h.rules.keys.Nodup) :
    (ns.foldl (visit o) h).rules.keys
      = (h.rules.keys ++ (Node.ownRules o ns).map (·.1)).eraseDups := by
  rw [rules_foldl_visit, Ordered.keys_putAll _ distinct]

/-- A class has a rule when it had one before, or when a node of that class declares
something. -/
theorem mem_keys_foldl_visit (o : Options) (ns : List Node) {h : Harvest}
    (distinct : h.rules.keys.Nodup) (className : String) :
    className ∈ (ns.foldl (visit o) h).rules.keys ↔
      className ∈ h.rules.keys ∨
        ∃ n ∈ ns, n.layer.classOf = className ∧ n.layer.ownStyle o ≠ [] := by
  rw [keys_foldl_visit o ns distinct, List.mem_eraseDups, List.mem_append]
  apply or_congr_right
  constructor
  · intro hclass
    obtain ⟨rule, hrule, rfl⟩ := List.mem_map.mp hclass
    obtain ⟨n, hn, declares, rfl⟩ := mem_ownRules.mp hrule
    exact ⟨n, hn, rfl, declares⟩
  · rintro ⟨n, hn, rfl, declares⟩
    have hrule := mem_ownRules.mpr ⟨n, hn, declares, rfl⟩
    exact List.mem_map.mpr ⟨_, hrule, rfl⟩

end Harvest

end

/-! ## The walk -/

namespace Node

section

variable [Arctangent]

theorem outcome_stopAt (n : Node) (o : Options) (fault : Fault) {html : String} :
    (n.stopAt o fault).outcome ≠ .ok html := by
  obtain ⟨l, cs⟩ := n
  intro h
  rw [stopAt, Writing.outcome_bind_eq_ok_iff] at h
  obtain ⟨c, -, h⟩ := h
  obtain ⟨_, -, h⟩ := Writing.outcome_bind_eq_ok_iff.mp h
  split at h
  · obtain ⟨_, -, h⟩ := Writing.outcome_bind_eq_ok_iff.mp h
    cases h
  · cases h

/-- A walk that succeeds at a depth writes what the visited nodes write alone, and yields
the element of its root printed at that depth. -/
theorem drawAt_of_ok {n : Node} {o : Options} {depth : Value} {html : String}
    (h : (n.drawAt o depth).outcome = .ok html) :
    ∃ d, Element.depthOf depth = .ok d ∧ html = n.shown.print d ∧
      (n.drawAt o depth).written = n.visited.flatMap (·.layer.ownEntries o) := by
  unfold drawAt at h ⊢
  cases hd : Element.depthOf depth with
  | error fault =>
      rw [hd] at h
      exact absurd h (n.outcome_stopAt o fault)
  | ok d =>
      rw [hd] at h
      obtain ⟨e, he, h⟩ := Writing.outcome_bind_eq_ok_iff.mp h
      have drawn := draw_of_ok o n he
      rw [drawn] at he
      obtain rfl := Except.ok.inj he
      refine ⟨d, rfl, (Except.ok.inj h).symm, ?_⟩
      dsimp only
      rw [Writing.bind_of_ok (a := n.shown) (by rw [drawn]), drawn]
      exact List.append_nil _

/-- A walk with its rules and images refines a fold over the visited nodes: each adds its
image use, at most one, and puts its style under its class unless the style is empty. So a
class has a rule when it had one or a visited node of that class declares something, under
it stands the style of the last such node, and classes keep the order of their arrival. The
markup depends on the node and the depth alone. -/
theorem drawAt_refines_fold {n : Node} {o : Options} {depth : Value} {h : Harvest}
    {html : String} (distinct : h.rules.keys.Nodup)
    (success : (n.drawAt o depth).outcome = .ok html) :
    h.addAll (n.drawAt o depth).written = n.visited.foldl (Harvest.visit o) h ∧
    ((n.visited.foldl (Harvest.visit o) h).images
        = h.images ++ n.visited.flatMap (·.layer.ownImages o) ∧
      ∀ m ∈ n.visited, (m.layer.ownImages o).length ≤ 1) ∧
    ((n.visited.foldl (Harvest.visit o) h).rules = h.rules.putAll (ownRules o n.visited) ∧
      (n.visited.foldl (Harvest.visit o) h).rules.keys
        = (h.rules.keys ++ (ownRules o n.visited).map (·.1)).eraseDups ∧
      ∀ className,
        (className ∈ (n.visited.foldl (Harvest.visit o) h).rules.keys ↔
          className ∈ h.rules.keys ∨
            ∃ m ∈ n.visited, m.layer.classOf = className ∧ m.layer.ownStyle o ≠ []) ∧
        (n.visited.foldl (Harvest.visit o) h).rules.lookup className
          = (((Harvest.declaring o className n.visited).getLast?).map (·.layer.ownStyle o)).or
              (h.rules.lookup className)) ∧
    ∃ d, Element.depthOf depth = .ok d ∧ html = n.shown.print d := by
  obtain ⟨d, hd, hhtml, written⟩ := drawAt_of_ok success
  refine ⟨?_, ⟨?_, ?_⟩, ⟨?_, ?_, ?_⟩, d, hd, hhtml⟩
  · rw [written, Harvest.addAll_ownEntries]
  · exact Harvest.images_foldl_visit o n.visited h
  · exact fun m _ => m.layer.length_ownImages o
  · exact Harvest.rules_foldl_visit o n.visited h
  · exact Harvest.keys_foldl_visit o n.visited distinct
  · intro className
    exact ⟨Harvest.mem_keys_foldl_visit o n.visited distinct className,
      Harvest.lookup_foldl_visit o n.visited h className⟩

end

/-- A card that holds a list, a shape and a text. The shape and the text are cards by their
classes too, and the text declares nothing. -/
def nestedCards : Node :=
  .node { (default : Layer) with name := .text "Card", kind := .frame, cornerRadius := .whole 4 }
    [.node { (default : Layer) with
        name := .text "List!", kind := .group, cornerRadius := .whole 1 } [],
     .node { (default : Layer) with
        id := .text "1:2", name := .text "CARD", kind := .rectangle, cornerRadius := .whole 8,
        fills := [{ (default : Paint) with
          kind := .text "IMAGE", visible := .bool true, imageRef := .text "r" }] } [],
     .node { (default : Layer) with name := .text "-card-", kind := .text } []]

def earlierWalk : Harvest := { rules := [("list", [(.color, "red")])], images := [default] }

set_option maxRecDepth 20000 in
theorem drawAt_refines_fold_nestedCards :
    ∃ html, (nestedCards.drawAt .standard (.whole 1)).outcome = .ok html ∧
      html = nestedCards.shown.print 1 ∧
      (earlierWalk.addAll (nestedCards.drawAt .standard (.whole 1)).written).rules
        = [("list", [(.borderRadius, "1px")]),
           ("card", [(.borderRadius, "8px"), (.backgroundSize, "cover"),
             (.backgroundPosition, "center"), (.backgroundRepeat, "no-repeat")])] ∧
      (earlierWalk.addAll (nestedCards.drawAt .standard (.whole 1)).written).images.length = 2 := by
  obtain ⟨html, h⟩ : ∃ html, (nestedCards.drawAt .standard (.whole 1)).outcome = .ok html :=
    exists_ok_of_isOk (by decide)
  have distinct : earlierWalk.rules.keys.Nodup := by decide
  obtain ⟨fold, -, -, d, hd, hhtml⟩ := drawAt_refines_fold distinct h
  have one : (Element.depthOf (.whole 1)).toOption = some 1 := by decide
  rw [hd] at one
  obtain rfl := Option.some.inj one
  refine ⟨html, h, hhtml, ?_, ?_⟩
  · rw [fold]
    decide
  · rw [fold]
    decide

end Node

end DesignMarkup
