import Mathlib.Data.List.Basic
import DesignMarkup.Proofs.Harvested

/-!
# Walks that fail

A walk stops at the first node that fails, and what it has written by then stays. Apart from the
elements, which a failing walk does not give, the recursion over a tree does the same as a plain
loop over the nodes to visit, parents before children: each of them is visited alone. So a failing
walk has taken in all nodes before one, and of that one what it writes alone: nothing, its image, or
its image and its rule, as far as it came.
-/

namespace DesignMarkup

/-! ## Loops that write -/

namespace Writing

variable {ω α β : Type}

instance : LawfulMonad (Writing ω) := LawfulMonad.mk' (Writing ω)
  (fun x => by
    obtain ⟨written, outcome⟩ := x
    cases outcome with
    | error e => rfl
    | ok a =>
        show (⟨written ++ [], .ok a⟩ : Writing ω _) = _
        rw [List.append_nil])
  (fun a f => rfl)
  (fun x f g => by
    cases hx : x.outcome with
    | error e => rw [bind_of_error hx, bind_of_error (e := e) rfl, bind_of_error hx]
    | ok a =>
        rw [bind_of_ok hx, bind_of_ok hx]
        cases hf : (f a).outcome with
        | error e => rw [bind_of_error hf, bind_of_error (e := e) rfl]
        | ok b => rw [bind_of_ok hf, bind_of_ok (a := b) rfl, List.append_assoc])

/-- A computation without its result. -/
def bare (x : Writing ω α) : Writing ω Unit := do
  let _ ← x
  pure ()

theorem bare_bind (x : Writing ω α) (f : α → Writing ω β) :
    (x >>= f).bare = x >>= fun a => (f a).bare :=
  bind_assoc x f _

theorem bare_bind_bare (x : Writing ω α) (y : Writing ω Unit) :
    (do x.bare; y) = (do let _ ← x; y) :=
  bind_assoc x _ _

theorem written_bare (x : Writing ω α) : x.bare.written = x.written := by
  cases h : x.outcome with
  | error e => rw [bare, bind_of_error h]
  | ok a => rw [bare, bind_of_ok h, written_pure, List.append_nil]

theorem outcome_bare_eq_error_iff {x : Writing ω α} {e : Fault} :
    x.bare.outcome = .error e ↔ x.outcome = .error e := by
  cases h : x.outcome with
  | error e' =>
      rw [bare, bind_of_error h]
      exact ⟨fun same => congrArg _ (Except.error.inj same),
        fun same => congrArg _ (Except.error.inj same)⟩
  | ok a =>
      rw [bare, bind_of_ok h]
      exact iff_of_false nofun nofun

theorem succeeds_bare_iff {x : Writing ω α} : Succeeds x.bare.outcome ↔ Succeeds x.outcome := by
  cases h : x.outcome with
  | error e =>
      rw [bare, bind_of_error h]
      exact iff_of_false not_succeeds_error not_succeeds_error
  | ok a =>
      rw [bare, bind_of_ok h]
      exact iff_of_true (succeeds_pure ()) (succeeds_ok a)

/-- A loop that fails has come to a first step that does. It has written what the steps before it
write, and what that step does. -/
theorem exists_first_of_forM {f : α → Writing ω Unit} {l : List α} {e : Fault}
    (h : (forM l f).outcome = .error e) :
    ∃ before a after, l = before ++ a :: after ∧ (∀ b ∈ before, Succeeds (f b).outcome) ∧
      (f a).outcome = .error e ∧
      (forM l f).written = before.flatMap (fun b => (f b).written) ++ (f a).written := by
  induction l with
  | nil => cases h
  | cons first rest ih =>
      rw [List.forM_cons] at h ⊢
      cases here : (f first).outcome with
      | error e' =>
          rw [bind_of_error here] at h ⊢
          obtain rfl := Except.error.inj h
          exact ⟨[], first, rest, rfl, List.forall_mem_nil _, here, rfl⟩
      | ok u =>
          rw [bind_of_ok here] at h ⊢
          obtain ⟨before, a, after, whole, passed, failed, written⟩ := ih h
          refine ⟨first :: before, a, after, congrArg _ whole,
            List.forall_mem_cons.mpr ⟨⟨u, here⟩, passed⟩, failed, ?_⟩
          rw [List.flatMap_cons, List.append_assoc, ← written]

end Writing

/-! ## The walk as a loop -/

namespace NodeKind

/-- Without its children a node that is no container is rendered as it is with them. -/
theorem rendering_alone {kind : NodeKind} {hasChildren : Bool}
    (h : kind.rendering hasChildren ≠ .container) :
    kind.rendering false = kind.rendering hasChildren := by
  cases hasChildren with
  | false => rfl
  | true =>
      cases kind with
      | other => exact absurd rfl h
      | _ => rfl

theorem rendering_alone_of_container {kind : NodeKind} {hasChildren : Bool}
    (h : kind.rendering hasChildren = .container) :
    kind.rendering false = .container ∨ kind.rendering false = .shape := by
  cases kind <;> first | exact .inl rfl | exact .inr rfl | cases h

end NodeKind

namespace Layer

section

/-! A name that is good for a class is good for a tag and for a label. -/

variable {l : Layer} (named : Succeeds l.className)

include named

theorem exists_name : ∃ s, l.name.textOrEmpty = .ok s := by
  obtain ⟨c, named⟩ := named
  obtain ⟨s, hs, -⟩ := bind_eq_ok_iff.mp named
  exact ⟨s, hs⟩

theorem succeeds_containerTag_of_named : Succeeds l.containerTag := by
  obtain ⟨s, hs⟩ := exists_name named
  exact ⟨_, bind_eq_ok_iff.mpr ⟨s, hs, rfl⟩⟩

theorem succeeds_drawingElement_of_named (c : String) : Succeeds (l.drawingElement c) := by
  obtain ⟨s, hs⟩ := exists_name named
  exact ⟨_, bind_eq_ok_iff.mpr ⟨s, hs, rfl⟩⟩

end

end Layer

namespace Node

/-- A node without its children. -/
def alone (n : Node) : Node := node n.layer []

theorem exists_visited_eq (n : Node) : ∃ rest, n.visited = n :: rest := by
  obtain ⟨l, cs⟩ := n
  exact ⟨_, visited_node l cs⟩

variable [Arctangent]

/-- What a node does behind its own style: it is rendered, and a container visits its children. -/
def renderAt (o : Options) (l : Layer) (className : String) (cs : List Node) : Walk Element :=
  match l.kind.rendering (!cs.isEmpty) with
  | .text => Writing.lift (l.textElement className)
  | .shape => pure (Layer.shapeElement className)
  | .drawing => Writing.lift (l.drawingElement className)
  | .container => do
    let tag ← Writing.lift l.containerTag
    let elements ← drawAll o cs
    pure (.box tag className none elements)

theorem draw_node (o : Options) (l : Layer) (cs : List Node) :
    draw o (node l cs) = (do
      let className ← Writing.lift l.className
      l.dress o className
      renderAt o l className cs) := by
  rw [draw]
  rfl

/-- A container visits its children when all is done that it does alone, and other nodes do nothing
else. -/
theorem bare_renderAt (o : Options) {l : Layer} {className : String} (cs : List Node)
    (tagged : Succeeds l.containerTag) :
    (renderAt o l className cs).bare = (do
      let _ ← renderAt o l className []
      if l.kind.rendering (!cs.isEmpty) = .container then (drawAll o cs).bare else pure ()) := by
  obtain ⟨tag, tagged⟩ := tagged
  have visits : (do
        let tag ← Writing.lift l.containerTag
        let elements ← drawAll o cs
        pure (.box tag className none elements) : Walk Element).bare = (drawAll o cs).bare := by
    rw [Writing.lift_bind_of_ok tagged, Writing.bare_bind]
    rfl
  by_cases container : l.kind.rendering (!cs.isEmpty) = .container
  · rw [if_pos container, renderAt, container]
    refine visits.trans ?_
    rcases NodeKind.rendering_alone_of_container container with same | shape
    · have single : renderAt o l className [] = pure (.box tag className none []) := by
        rw [renderAt, List.isEmpty_nil, Bool.not_true, same]
        exact Writing.lift_bind_of_ok tagged
      rw [single, pure_bind]
    · have single : renderAt o l className [] = pure (Layer.shapeElement className) := by
        rw [renderAt, List.isEmpty_nil, Bool.not_true, shape]
      rw [single, pure_bind]
  · have single : renderAt o l className cs = renderAt o l className [] := by
      rw [renderAt, renderAt, List.isEmpty_nil, Bool.not_true, NodeKind.rendering_alone container]
      cases rendering : l.kind.rendering (!cs.isEmpty) with
      | container => exact absurd rendering container
      | _ => rfl
    rw [if_neg container, single]
    rfl

mutual

/-- Apart from its element a walk is a loop over the nodes to visit, each of which is visited
alone. -/
theorem bare_draw (o : Options) :
    ∀ n : Node, (n.draw o).bare = forM n.visited fun m => (m.alone.draw o).bare
  | node l cs => by
      rw [visited_node, List.forM_cons, alone, layer, draw_node, draw_node]
      cases named : l.className with
      | error e =>
          rw [Writing.bind_of_error (e := e) rfl, Writing.bind_of_error (e := e) rfl]
          rfl
      | ok c =>
          rw [Writing.lift_bind_of_ok rfl, Writing.lift_bind_of_ok rfl, Writing.bare_bind,
            Writing.bare_bind_bare, bind_assoc]
          refine bind_congr fun _ => ?_
          rw [bare_renderAt o cs (Layer.succeeds_containerTag_of_named ⟨c, named⟩)]
          refine bind_congr fun _ => ?_
          split
          · exact bare_drawAll o cs
          · rfl

theorem bare_drawAll (o : Options) :
    ∀ ns : List Node, (drawAll o ns).bare = forM (visitedAll ns) fun m => (m.alone.draw o).bare
  | [] => rfl
  | n :: rest => by
      rw [drawAll, visitedAll, List.forM_append, ← bare_draw o n, ← bare_drawAll o rest,
        Writing.bare_bind, Writing.bare_bind_bare]
      refine bind_congr fun e => ?_
      rw [Writing.bare_bind]
      rfl

end

end Node

/-! ## One node that fails -/

namespace Value

theorem isText_of_isText {v : Value} {s t : String} (h : v.isText s = true) (other : s ≠ t) :
    v.isText t = false := by
  cases v with
  | text u =>
      obtain rfl := beq_iff_eq.mp h
      exact beq_eq_false_iff_ne.mpr other
  | _ => cases h

end Value

namespace Layer

/-- The image that a layer uses: that of its first visible fill, where this is an image that is
there. -/
def imageUse? (l : Layer) : Option ImageUse :=
  match Paint.firstVisible l.fills with
  | none => none
  | some fill =>
    let ref := fill.imageRef.orElse l.imageRef
    if fill.kind.isText "IMAGE" && ref.isPresent then
      some { nodeId := l.id, imageRef := ref, className := .text l.classOf }
    else none

/-- Rendering a layer fails: it cannot be indented, the tag of its text depends on a size that is no
number, or its text is none. A label is made of the name that a class was made of before. -/
inductive Unrendered (l : Layer) (depth : Value) (e : Fault) : Prop
  | indent : Element.depthOf depth = .error e → Unrendered l depth e
  | tag : l.kind = .text → l.textTag = .error e → Unrendered l depth e
  | content : l.kind = .text → Succeeds l.textTag → l.characters.textOrEmpty = .error e →
      Unrendered l depth e

theorem unrendered_of_textElement {l : Layer} {c : String} {depth : Value} {e : Fault}
    (kind : l.kind = .text) (h : l.textElement c = .error e) : l.Unrendered depth e := by
  unfold textElement at h
  cases tagged : l.textTag with
  | error e' =>
      rw [tagged] at h
      obtain rfl := Except.error.inj h
      exact .tag kind tagged
  | ok tag =>
      cases told : l.characters.textOrEmpty with
      | error e' =>
          rw [tagged, told] at h
          obtain rfl := Except.error.inj h
          exact .content kind ⟨tag, tagged⟩ told
      | ok s =>
          rw [tagged, told] at h
          cases h

section

variable [Arctangent]

/-- How far a layer that fails comes, and what it has written by then: nothing before its fills are
looked at, then its image, and its rule once its style is complete. -/
inductive Breaks (l : Layer) (o : Options) (depth : Value) (e : Fault) : List WalkEntry → Prop
  | naming : l.className = .error e → Breaks l o depth e []
  | beforeFill : Succeeds l.className → (l.baseStyle o).outcome = .error e → Breaks l o depth e []
  | behindFill : Succeeds l.className → Succeeds (l.baseStyle o).outcome →
      (l.style o l.classOf).outcome = .error e →
      Breaks l o depth e (l.imageUse?.toList.map .image)
  | rendering : Succeeds l.className → Succeeds (l.style o l.classOf).outcome →
      l.Unrendered depth e →
      Breaks l o depth e (l.imageUse?.toList.map .image
        ++ if (l.ownStyle o).isEmpty then [] else [.rule l.classOf (l.ownStyle o)])

theorem images_fillStyle (l : Layer) :
    StyleEntry.images (l.fillStyle (.text l.classOf)).written = l.imageUse?.toList := by
  have none_of {r : Resolver} (h : Writing.All (StyleEntry.Declares fun _ _ => True) r) :
      StyleEntry.images r.written = [] := StyleEntry.images_of_declares h
  unfold fillStyle imageUse?
  cases Paint.firstVisible l.fills with
  | none => rfl
  | some fill =>
    dsimp only
    split
    · rename_i solid
      rw [Value.isText_of_isText solid (by decide)]
      exact none_of (Writing.all_bind (Writing.all_lift _) fun _ _ =>
        Resolver.all_setIf fun _ _ => trivial)
    · split
      · rename_i linear
        rw [Value.isText_of_isText linear (by decide)]
        exact none_of (Resolver.all_setTo fun _ _ => trivial)
      · split
        · rename_i radial
          rw [Value.isText_of_isText radial (by decide)]
          exact none_of (Resolver.all_setTo fun _ _ => trivial)
        · split
          · rename_i image
            rw [image, Bool.true_and, imageStyle]
            cases (fill.imageRef.orElse l.imageRef).isPresent <;> rfl
          · rename_i other
            rw [Bool.eq_false_iff.mpr other]
            rfl

/-- An image is written as soon as the base style is there, whatever comes behind. -/
theorem ownImages_eq {l : Layer} {o : Options} (h : Succeeds (l.baseStyle o).outcome) :
    l.ownImages o = l.imageUse?.toList := by
  obtain ⟨u, hu⟩ := h
  have base := StyleEntry.images_of_declares (l.declared_baseStyle o)
  have behind := StyleEntry.images_of_declares (l.declared_behindFill o)
  rw [ownImages, style, Writing.bind_of_ok hu, StyleEntry.images_append, base, List.nil_append]
  cases filled : (l.fillStyle (.text l.classOf)).outcome with
  | error e =>
      rw [Writing.bind_of_error filled]
      exact l.images_fillStyle
  | ok u =>
      rw [Writing.bind_of_ok filled, StyleEntry.images_append, behind, List.append_nil]
      exact l.images_fillStyle

theorem ownImages_of_error {l : Layer} {o : Options} {e : Fault}
    (h : (l.baseStyle o).outcome = .error e) : l.ownImages o = [] := by
  rw [ownImages, style, Writing.bind_of_error h]
  exact StyleEntry.images_of_declares (l.declared_baseStyle o)

theorem succeeds_baseStyle {l : Layer} {o : Options} {c : String}
    (h : Succeeds (l.style o c).outcome) : Succeeds (l.baseStyle o).outcome := by
  obtain ⟨u, hu⟩ := h
  obtain ⟨v, hv, -⟩ := Writing.outcome_bind_eq_ok_iff.mp hu
  exact ⟨v, hv⟩

theorem dress_of_error {l : Layer} {o : Options} {e : Fault}
    (h : (l.style o l.classOf).outcome = .error e) :
    l.dress o l.classOf = ⟨(l.ownImages o).map .image, .error e⟩ := by
  rw [dress, h]
  rfl

/-- A layer that is named and dressed and then goes on fails in one of four places, where what is
behind its style writes nothing and fails in rendering only. -/
theorem breaks_of_error {l : Layer} {o : Options} {depth : Value} {e : Fault} {α : Type}
    {f : String → Walk α}
    (h : (do
      let c ← Writing.lift l.className
      l.dress o c
      f c : Walk α).outcome = .error e)
    (behind : Succeeds l.className → (f l.classOf).outcome = .error e →
      (f l.classOf).written = [] ∧ l.Unrendered depth e) :
    l.Breaks o depth e (do
      let c ← Writing.lift l.className
      l.dress o c
      f c : Walk α).written := by
  cases named : l.className with
  | error e' =>
      rw [named, Writing.bind_of_error (e := e') rfl] at h
      obtain rfl := Except.error.inj h
      rw [Writing.bind_of_error (e := e') rfl]
      exact .naming named
  | ok c =>
      obtain rfl := className_eq_ok named
      rw [named, Writing.lift_bind_of_ok rfl] at h
      rw [Writing.lift_bind_of_ok rfl]
      cases styled : (l.style o l.classOf).outcome with
      | error e' =>
          rw [dress_of_error styled, Writing.bind_of_error (e := e') rfl] at h
          obtain rfl := Except.error.inj h
          rw [dress_of_error styled, Writing.bind_of_error (e := e') rfl]
          cases base : (l.baseStyle o).outcome with
          | error e'' =>
              rw [style, Writing.bind_of_error base] at styled
              obtain rfl := Except.error.inj styled
              rw [ownImages_of_error base]
              exact .beforeFill ⟨_, named⟩ base
          | ok u =>
              rw [ownImages_eq ⟨u, base⟩]
              exact .behindFill ⟨_, named⟩ ⟨u, base⟩ styled
      | ok u =>
          have dressed := dress_of_ok (outcome_dress.mpr styled)
          rw [dressed, Writing.bind_of_ok rfl] at h
          obtain ⟨silent, unrendered⟩ := behind ⟨_, named⟩ h
          rw [dressed, Writing.bind_of_ok rfl, silent, List.append_nil, ownEntries,
            ownImages_eq (succeeds_baseStyle ⟨u, styled⟩)]
          exact .rendering ⟨_, named⟩ ⟨u, styled⟩ unrendered

end

end Layer

namespace Node

variable [Arctangent]

theorem breaks_of_draw_alone {l : Layer} {o : Options} {depth : Value} {e : Fault}
    (h : ((node l []).draw o).outcome = .error e) :
    l.Breaks o depth e ((node l []).draw o).written := by
  rw [draw_node] at h ⊢
  refine Layer.breaks_of_error h fun named failed => ?_
  unfold renderAt at failed ⊢
  cases rendering : l.kind.rendering (!List.isEmpty ([] : List Node)) with
  | text =>
      rw [rendering] at failed
      have kind : l.kind = .text := by
        cases kind : l.kind with
        | text => rfl
        | _ =>
            rw [kind] at rendering
            cases rendering
      exact ⟨rfl, Layer.unrendered_of_textElement kind failed⟩
  | shape =>
      rw [rendering] at failed
      cases failed
  | drawing =>
      obtain ⟨element, drawn⟩ := Layer.succeeds_drawingElement_of_named named l.classOf
      rw [rendering] at failed
      cases drawn.symm.trans failed
  | container =>
      obtain ⟨tag, tagged⟩ := Layer.succeeds_containerTag_of_named named
      rw [rendering] at failed
      dsimp only at failed
      rw [Writing.lift_bind_of_ok tagged] at failed
      cases failed

/-- A node that cannot be indented does the same alone. -/
theorem stopAt_alone (o : Options) (fault : Fault) (n : Node) :
    n.alone.stopAt o fault = n.stopAt o fault := by
  obtain ⟨l, cs⟩ := n
  rw [alone, layer, stopAt, stopAt]
  refine bind_congr fun c => bind_congr fun _ => ?_
  cases cs with
  | nil => rfl
  | cons first rest => cases l.kind <;> rfl

theorem breaks_of_stopAt {n : Node} {o : Options} {depth : Value} {fault e : Fault}
    (lost : Element.depthOf depth = .error fault) (h : (n.stopAt o fault).outcome = .error e) :
    n.layer.Breaks o depth e (n.stopAt o fault).written := by
  obtain ⟨l, cs⟩ := n
  rw [stopAt] at h ⊢
  refine Layer.breaks_of_error h fun named failed => ?_
  have stopped {x : Walk String} (hx : x = Writing.lift (.error fault))
      (failed : x.outcome = .error e) : x.written = [] ∧ l.Unrendered depth e := by
    rw [hx] at failed ⊢
    obtain rfl := Except.error.inj failed
    exact ⟨rfl, .indent lost⟩
  refine stopped ?_ failed
  cases l.kind.rendering (!cs.isEmpty) with
  | drawing =>
      obtain ⟨element, drawn⟩ := Layer.succeeds_drawingElement_of_named named l.classOf
      exact Writing.lift_bind_of_ok drawn
  | _ => rfl

/-! ## Whole walks -/

section

variable {o : Options} {depth : Value} {d : Int} (h : Element.depthOf depth = .ok d) (n : Node)

include h

/-- Printing an element adds nothing to a walk. -/
theorem bare_drawAt : (n.drawAt o depth).bare = (n.draw o).bare := by
  rw [drawAt, h]
  exact Writing.bare_bind _ _

theorem written_drawAt : (n.drawAt o depth).written = (n.draw o).written := by
  rw [← Writing.written_bare, bare_drawAt h, Writing.written_bare]

theorem outcome_drawAt_eq_error_iff {e : Fault} :
    (n.drawAt o depth).outcome = .error e ↔ (n.draw o).outcome = .error e := by
  rw [← Writing.outcome_bare_eq_error_iff, bare_drawAt h, Writing.outcome_bare_eq_error_iff]

theorem succeeds_drawAt_iff :
    Succeeds (n.drawAt o depth).outcome ↔ Succeeds (n.draw o).outcome := by
  rw [← Writing.succeeds_bare_iff, bare_drawAt h, Writing.succeeds_bare_iff]

end

theorem drawAt_of_lost {o : Options} {depth : Value} {fault : Fault}
    (h : Element.depthOf depth = .error fault) (n : Node) :
    n.drawAt o depth = n.stopAt o fault := by
  rw [drawAt, h]

/-- A node that succeeds alone writes what its layer does. -/
theorem written_alone {o : Options} {m : Node} (h : Succeeds (m.alone.draw o).outcome) :
    (m.alone.draw o).written = m.layer.ownEntries o := by
  obtain ⟨e, he⟩ := h
  have single : m.alone.visited = [m.alone] := by
    rw [alone, visited]
    split <;> rfl
  rw [draw_of_ok o m.alone he, single]
  exact List.append_nil _

/-- Where a walk fails there is a first node, parents before children, that fails alone, and it
fails in the same way. What the walk leaves behind is what was there, with all that the nodes before
that one contribute, in order, and with nothing of the nodes behind it. Of the node itself there is
nothing, if it fails before its fills are looked at, its image alone, if its style fails later, and
its image and its rule, if it fails when it is rendered. -/
theorem drawAt_of_error {n : Node} {o : Options} {depth : Value} {e : Fault}
    (h : (n.drawAt o depth).outcome = .error e) (harvest : Harvest) :
    ∃ before m after, n.visited = before ++ m :: after ∧
      (∀ k ∈ before, Succeeds (k.alone.drawAt o depth).outcome) ∧
      (m.alone.drawAt o depth).outcome = .error e ∧
      m.layer.Breaks o depth e (m.alone.drawAt o depth).written ∧
      harvest.addAll (n.drawAt o depth).written
        = (before.foldl (Harvest.visit o) harvest).addAll (m.alone.drawAt o depth).written := by
  cases reach : Element.depthOf depth with
  | error fault =>
      -- The root cannot be indented, so nothing was visited before it.
      rw [drawAt_of_lost reach] at h
      obtain ⟨rest, visited⟩ := n.exists_visited_eq
      refine ⟨[], n, rest, visited, List.forall_mem_nil _, ?_⟩
      rw [drawAt_of_lost reach, drawAt_of_lost reach, stopAt_alone]
      exact ⟨h, breaks_of_stopAt reach h, rfl⟩
  | ok d =>
      rw [outcome_drawAt_eq_error_iff reach, ← Writing.outcome_bare_eq_error_iff, bare_draw] at h
      obtain ⟨before, m, after, visited, passed, failed, written⟩ := Writing.exists_first_of_forM h
      rw [Writing.outcome_bare_eq_error_iff] at failed
      have passed : ∀ k ∈ before, Succeeds (k.alone.draw o).outcome :=
        fun k hk => Writing.succeeds_bare_iff.mp (passed k hk)
      have front : before.flatMap (fun k => (k.alone.draw o).bare.written)
          = before.flatMap (·.layer.ownEntries o) :=
        List.flatMap_congr fun k hk => (Writing.written_bare _).trans (written_alone (passed k hk))
      refine ⟨before, m, after, visited,
        fun k hk => (succeeds_drawAt_iff reach _).mpr (passed k hk),
        (outcome_drawAt_eq_error_iff reach _).mpr failed, ?_, ?_⟩
      · rw [written_drawAt reach]
        exact breaks_of_draw_alone failed
      · rw [← bare_draw, Writing.written_bare, front, Writing.written_bare] at written
        rw [written_drawAt reach, written_drawAt reach, written, ← Harvest.addAll_ownEntries]
        exact List.foldl_append

end Node

/-! ## A title without a size -/

def photoFill : Paint :=
  { (default : Paint) with kind := .text "IMAGE", visible := .bool true, imageRef := .text "r" }

namespace Node

/-- A card with a photo, a title on a photo whose font size is a word, and a badge. -/
def untoldCard : Node :=
  .node { (default : Layer) with name := .text "Card", kind := .frame, cornerRadius := .whole 4 }
    [.node { (default : Layer) with
        id := .text "1:2", name := .text "Photo", kind := .rectangle, fills := [photoFill] } [],
     .node { (default : Layer) with
        id := .text "1:3", name := .text "Title", kind := .text, fills := [photoFill],
        textStyle := some { (default : TextStyle) with fontSize := .text "large" } } [],
     .node { (default : Layer) with
        name := .text "Badge", kind := .rectangle, cornerRadius := .whole 8 } []]

set_option maxRecDepth 20000 in
/-- The title has left its image and its rule, and the badge behind it nothing. -/
theorem drawAt_of_error_untoldCard :
    (untoldCard.drawAt .standard (.whole 0)).outcome = .error .wrongKind ∧
    (∃ before m after, untoldCard.visited = before ++ m :: after ∧
      (m.alone.drawAt .standard (.whole 0)).outcome = .error .wrongKind ∧
      m.layer.Breaks .standard (.whole 0) .wrongKind
        (m.alone.drawAt .standard (.whole 0)).written) ∧
    (earlierWalk.addAll (untoldCard.drawAt .standard (.whole 0)).written).rules.keys
      = ["list", "card", "photo", "title"] ∧
    (earlierWalk.addAll (untoldCard.drawAt .standard (.whole 0)).written).images.length = 3 := by
  have failed : (untoldCard.drawAt .standard (.whole 0)).outcome = .error .wrongKind := by decide
  obtain ⟨before, m, after, visited, -, here, breaks, -⟩ := drawAt_of_error failed earlierWalk
  exact ⟨failed, ⟨before, m, after, visited, here, breaks⟩, by decide, by decide⟩

end Node

end DesignMarkup
