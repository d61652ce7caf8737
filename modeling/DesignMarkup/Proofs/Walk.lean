import DesignMarkup.Conversion
import DesignMarkup.Proofs.Computations

/-!
# What a walk does, node by node

A walk is a recursion that writes as it goes. Here each of its nodes is looked at alone:
which nodes are visited and in what order, what one of them writes when nothing else is
around, and which element it shows. `draw_of_ok` says that a walk that succeeds is just
that: the entries of the visited nodes one after the other, and the element of the root.
-/

namespace DesignMarkup

def Value.textOrBlank : Value → String
  | .text s => s
  | _ => ""

theorem Value.eq_textOrBlank {v : Value} {s : String} (h : v.textOrEmpty = .ok s) :
    s = v.textOrBlank := by
  unfold textOrEmpty at h
  split at h
  · cases v with
    | text t => exact (Except.ok.inj h).symm
    | _ => cases h
  · rename_i absent
    obtain rfl := Except.ok.inj h
    cases v with
    | text t =>
        -- An absent text is the empty one.
        have : t.isEmpty = true := by simpa [isPresent] using absent
        exact (String.isEmpty_iff.mp this).symm
    | _ => rfl

/-! ## One node alone -/

namespace Layer

def classOf (l : Layer) : String := Naming.className l.name.textOrBlank

def containerTagOf (l : Layer) : String := Naming.tagName l.name.textOrBlank

/-- The tag of a text layer whose font size is a number or absent. -/
def textTagOf (l : Layer) : String :=
  match l.textTag with
  | .ok tag => tag
  | .error _ => paragraphTag

theorem className_eq_ok {l : Layer} {c : String} (h : l.className = .ok c) : c = l.classOf := by
  obtain ⟨s, hs, hc⟩ := bind_eq_ok_iff.mp h
  rw [classOf, ← Value.eq_textOrBlank hs]
  exact (pure_eq_ok_iff.mp hc).symm

theorem containerTag_eq_ok {l : Layer} {t : String} (h : l.containerTag = .ok t) :
    t = l.containerTagOf := by
  obtain ⟨s, hs, ht⟩ := bind_eq_ok_iff.mp h
  rw [containerTagOf, ← Value.eq_textOrBlank hs]
  exact (pure_eq_ok_iff.mp ht).symm

theorem textElement_eq_ok {l : Layer} {c : String} {e : Element} (h : l.textElement c = .ok e) :
    e = .text l.textTagOf c l.characters.textOrBlank := by
  obtain ⟨tag, htag, h⟩ := bind_eq_ok_iff.mp h
  obtain ⟨content, hcontent, h⟩ := bind_eq_ok_iff.mp h
  rw [textTagOf, htag, ← Value.eq_textOrBlank hcontent]
  exact (pure_eq_ok_iff.mp h).symm

theorem drawingElement_eq_ok {l : Layer} {c : String} {e : Element}
    (h : l.drawingElement c = .ok e) :
    e = .box Naming.plainTag c (some l.name.textOrBlank) [] := by
  obtain ⟨label, hlabel, h⟩ := bind_eq_ok_iff.mp h
  rw [← Value.eq_textOrBlank hlabel]
  exact (pure_eq_ok_iff.mp h).symm

variable [Arctangent]

def ownImages (l : Layer) (o : Options) : List ImageUse :=
  StyleEntry.images (l.style o l.classOf).written

/-- The declarations of a layer resolved alone, on top of none. -/
def ownStyle (l : Layer) (o : Options) : Declarations :=
  StyleEntry.declarations (l.style o l.classOf).written []

/-- What a layer writes alone: its image uses, then its rule if it declares anything. -/
def ownEntries (l : Layer) (o : Options) : List WalkEntry :=
  (l.ownImages o).map .image
    ++ (if (l.ownStyle o).isEmpty then [] else [.rule l.classOf (l.ownStyle o)])

theorem outcome_dress {l : Layer} {o : Options} {c : String} :
    (l.dress o c).outcome = .ok () ↔ (l.style o c).outcome = .ok () := by
  rw [dress]
  cases (l.style o c).outcome with
  | error e => exact ⟨nofun, nofun⟩
  | ok u => exact ⟨fun _ => rfl, fun _ => rfl⟩

/-- A layer that is dressed writes what it writes alone. -/
theorem dress_of_ok {l : Layer} {o : Options} (h : (l.dress o l.classOf).outcome = .ok ()) :
    l.dress o l.classOf = ⟨l.ownEntries o, .ok ()⟩ := by
  rw [dress, outcome_dress.mp h]
  rfl

end Layer

/-! ## The visited nodes -/

/-- Whether the children of a node are visited. -/
def NodeKind.showsChildren : NodeKind → Bool
  | .frame | .group | .component | .componentSet | .componentInstance | .other => true
  | .text | .rectangle | .ellipse | .vector | .line | .polygon | .star => false

namespace Node

mutual

/-- The nodes that a walk visits, parents before children and children in order. -/
def visited : Node → List Node
  | node l cs => node l cs :: (if l.kind.showsChildren then visitedAll cs else [])

def visitedAll : List Node → List Node
  | [] => []
  | n :: rest => visited n ++ visitedAll rest

end

mutual

/-- The element that a node shows. -/
def shown : Node → Element
  | node l cs =>
    match l.kind with
    | .text => .text l.textTagOf l.classOf l.characters.textOrBlank
    | .frame | .group | .component | .componentSet | .componentInstance =>
      .box l.containerTagOf l.classOf none (shownAll cs)
    | .rectangle | .ellipse => .box Naming.plainTag l.classOf none []
    | .vector | .line | .polygon | .star =>
      .box Naming.plainTag l.classOf (some l.name.textOrBlank) []
    | .other =>
      if cs.isEmpty then .box Naming.plainTag l.classOf none []
      else .box l.containerTagOf l.classOf none (shownAll cs)

def shownAll : List Node → List Element
  | [] => []
  | n :: rest => shown n :: shownAll rest

end

/-! ## The walk -/

/-- The children of a node are visited exactly when it is rendered as a container, or has
none. -/
theorem visited_node (l : Layer) (cs : List Node) :
    visited (node l cs) = node l cs ::
      (if l.kind.rendering (!cs.isEmpty) = .container then visitedAll cs else []) := by
  rw [visited]
  cases l.kind <;> simp only [NodeKind.showsChildren, NodeKind.rendering] <;> try rfl
  -- A kind that is not known looks at its children.
  cases cs <;> rfl

theorem shown_node (l : Layer) (cs : List Node) :
    shown (node l cs) =
      match l.kind.rendering (!cs.isEmpty) with
      | .text => .text l.textTagOf l.classOf l.characters.textOrBlank
      | .container => .box l.containerTagOf l.classOf none (shownAll cs)
      | .shape => .box Naming.plainTag l.classOf none []
      | .drawing => .box Naming.plainTag l.classOf (some l.name.textOrBlank) [] := by
  rw [shown]
  cases l.kind <;> try rfl
  cases cs <;> rfl

variable [Arctangent]

mutual

/-- A walk that succeeds writes what the visited nodes write alone, one after the other,
and yields the element that its root shows. -/
theorem draw_of_ok (o : Options) :
    ∀ (n : Node) {e : Element}, (n.draw o).outcome = .ok e →
      n.draw o = ⟨n.visited.flatMap (·.layer.ownEntries o), .ok n.shown⟩
  | node l cs, e, h => by
      rw [draw, Writing.outcome_bind_eq_ok_iff] at h
      obtain ⟨c, hc, h⟩ := h
      obtain rfl := Layer.className_eq_ok hc
      obtain ⟨_, hdress, h⟩ := Writing.outcome_bind_eq_ok_iff.mp h
      -- What the layer writes comes first, whichever way the node is rendered.
      have dressed := Layer.dress_of_ok hdress
      rw [draw, Writing.bind_of_ok hc, Writing.bind_of_ok hdress, dressed, visited_node,
        shown_node]
      cases hr : l.kind.rendering (!cs.isEmpty) with
      | text =>
          rw [hr] at h
          obtain rfl := Layer.textElement_eq_ok h
          simp only [Writing.outcome_lift] at h
          simp [h, layer]
      | shape => simp [layer, Layer.shapeElement]
      | drawing =>
          rw [hr] at h
          obtain rfl := Layer.drawingElement_eq_ok h
          simp only [Writing.outcome_lift] at h
          simp [h, layer]
      | container =>
          rw [hr] at h
          obtain ⟨tag, htag, h⟩ := Writing.outcome_bind_eq_ok_iff.mp h
          obtain rfl := Layer.containerTag_eq_ok htag
          obtain ⟨es, hes, -⟩ := Writing.outcome_bind_eq_ok_iff.mp h
          -- The children write theirs behind it, by the induction over the forest.
          have hcs := drawAll_of_ok o cs hes
          dsimp only
          rw [Writing.bind_of_ok htag, Writing.bind_of_ok (a := shownAll cs) (by rw [hcs]), hcs]
          simp [layer]

theorem drawAll_of_ok (o : Options) :
    ∀ (ns : List Node) {es : List Element}, (drawAll o ns).outcome = .ok es →
      drawAll o ns = ⟨(visitedAll ns).flatMap (·.layer.ownEntries o), .ok (shownAll ns)⟩
  | [], es, _ => by rfl
  | n :: rest, es, h => by
      rw [drawAll, Writing.outcome_bind_eq_ok_iff] at h
      obtain ⟨e, he, h⟩ := h
      obtain ⟨es', hes, -⟩ := Writing.outcome_bind_eq_ok_iff.mp h
      have hn := draw_of_ok o n he
      have hrest := drawAll_of_ok o rest hes
      rw [drawAll, Writing.bind_of_ok (a := n.shown) (by rw [hn]),
        Writing.bind_of_ok (a := shownAll rest) (by rw [hrest]), hn, hrest]
      simp [visitedAll, shownAll]

end

end Node

end DesignMarkup
