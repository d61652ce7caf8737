import DesignMarkup.Proofs.PrintedSheet

/-!
# The parts of a converted design

Markup, style sheet and image uses of a design speak of the same nodes. The elements of the
markup are the visited nodes in document order; a class has a rule exactly when a visited node of
that class declares something; and an image use belongs to a visited node, whose class has an
element and a rule. The rules of the table are what a reader finds in the printed sheet as long as
no name of a font breaks out of its quotes.
-/

namespace DesignMarkup

open Css
open Writing (All all_lift all_bind mem_written_bind)

/-! ## Elements in document order -/

namespace Element

mutual

/-- The classes of an element and of all in it, in document order. -/
def classes : Element → List String
  | text _ className _ => [className]
  | box _ className _ children => className :: classesAll children

def classesAll : List Element → List String
  | [] => []
  | e :: rest => classes e ++ classesAll rest

end

end Element

namespace Node

mutual

/-- The elements that a node shows are those of the visited nodes, in the order of the visit. -/
theorem classes_shown : ∀ n : Node, n.shown.classes = n.visited.map (·.layer.classOf)
  | node l cs => by
      rw [shown_node, visited_node]
      cases l.kind.rendering (!cs.isEmpty) with
      | text => rfl
      | shape => rfl
      | drawing => rfl
      | container =>
          rw [if_pos rfl, List.map_cons, ← classesAll_shownAll cs]
          rfl

theorem classesAll_shownAll :
    ∀ ns : List Node, Element.classesAll (shownAll ns) = (visitedAll ns).map (·.layer.classOf)
  | [] => rfl
  | n :: rest => by
      rw [shownAll, Element.classesAll, visitedAll, List.map_append, classes_shown n,
        classesAll_shownAll rest]

end

end Node

/-! ## The image of a layer -/

namespace Layer

def HasImageFill (l : Layer) : Prop :=
  ∃ fill, Paint.firstVisible l.fills = some fill ∧ fill.kind.isText "IMAGE" = true

/-- With an image its size is declared. -/
theorem declares_of_mem_imageStyle {l : Layer} {fill : Paint} {className : Value}
    {use : ImageUse} (h : .image use ∈ (l.imageStyle fill className).written) :
    ∃ v, .declare .backgroundSize v ∈ (l.imageStyle fill className).written := by
  unfold imageStyle at h ⊢
  dsimp only at h ⊢
  cases present : (fill.imageRef.orElse l.imageRef).isPresent with
  | false =>
      rw [present] at h
      cases h
  | true =>
      refine ⟨if fill.scaleMode.isText "FIT" then "contain" else "cover", ?_⟩
      exact List.mem_cons_of_mem _ List.mem_cons_self

end Layer

section

variable [Arctangent]

namespace Layer

/-- A fill that uses an image is one, and it declares something. -/
theorem of_image_mem_fillStyle {l : Layer} {className : Value} {use : ImageUse}
    (h : .image use ∈ (l.fillStyle className).written) :
    l.HasImageFill ∧ ∃ v, .declare .backgroundSize v ∈ (l.fillStyle className).written := by
  have absurd_of {r : Resolver} (hr : All (StyleEntry.Declares fun _ _ => True) r)
      (h : .image use ∈ r.written) : False := hr (.image use) h
  unfold fillStyle at h ⊢
  split at h
  · cases h
  · rename_i fill first
    split at h
    · exact (absurd_of (all_bind (all_lift _) fun _ _ =>
        Resolver.all_setIf fun _ _ => trivial) h).elim
    · split at h
      · exact (absurd_of (Resolver.all_setTo fun _ _ => trivial) h).elim
      · split at h
        · exact (absurd_of (Resolver.all_setTo fun _ _ => trivial) h).elim
        · split at h
          · rename_i solid linear radial image
            rw [if_neg solid, if_neg linear, if_neg radial, if_pos image]
            exact ⟨⟨fill, first, image⟩, declares_of_mem_imageStyle h⟩
          · cases h

/-- What is known of an image that a layer uses: it is there, it bears the layer's identity and
class, and it comes with an image fill and a declaration. -/
theorem of_mem_ownImages {l : Layer} {o : Options} {use : ImageUse} (h : use ∈ l.ownImages o) :
    use.imageRef.isPresent = true ∧ use.nodeId = l.id ∧ use.className = .text l.classOf ∧
      l.HasImageFill ∧ l.ownStyle o ≠ [] := by
  obtain ⟨entry, hentry, himage⟩ := List.mem_filterMap.mp h
  cases entry with
  | declare p v => cases himage
  | image other =>
      obtain rfl := Option.some.inj himage
      obtain ⟨sameNode, present, sameClass⟩ := l.written_style o l.classOf _ hentry
      -- The use stands among what the fill writes, for all else declares.
      have inFill : ∃ u, (l.baseStyle o).outcome = .ok u ∧
          .image other ∈ (l.fillStyle (.text l.classOf)).written := by
        rcases mem_written_bind.mp hentry with base | ⟨u, hu, rest⟩
        · exact (l.declared_baseStyle o _ base).elim
        · rcases mem_written_bind.mp rest with fill | ⟨_, _, behind⟩
          · exact ⟨u, hu, fill⟩
          · exact (l.declared_behindFill o _ behind).elim
      obtain ⟨u, hu, hfill⟩ := inFill
      obtain ⟨isImage, size, hsize⟩ := of_image_mem_fillStyle hfill
      have written : .declare .backgroundSize size ∈ (l.style o l.classOf).written :=
        mem_written_bind.mpr (Or.inr ⟨u, hu, mem_written_bind.mpr (Or.inl hsize)⟩)
      have declared : Property.backgroundSize ∈ Ordered.keys (l.ownStyle o) :=
        Ordered.mem_keys_ofEntries.mpr ⟨_, List.mem_filterMap.mpr ⟨_, written, rfl⟩, rfl⟩
      refine ⟨present, sameNode, sameClass, isImage, fun empty => ?_⟩
      rw [empty] at declared
      cases declared

end Layer

end

/-! ## Joined texts -/

/-- What joins several things of which each has one place at most keeps their order. -/
theorem sublist_map_flatMap {α β γ : Type} {f : α → List β} {g : β → γ} {k : α → γ} {l : List α}
    (h : ∀ a ∈ l, (f a).length ≤ 1 ∧ ∀ b ∈ f a, g b = k a) :
    ((l.flatMap f).map g).Sublist (l.map k) := by
  induction l with
  | nil => exact List.Sublist.slnil
  | cons a rest ih =>
      obtain ⟨⟨atMostOne, same⟩, hrest⟩ := List.forall_mem_cons.mp h
      have tail := ih hrest
      rw [List.flatMap_cons, List.map_append, List.map_cons]
      cases hf : f a with
      | nil => exact tail.cons (k a)
      | cons b more =>
          rw [hf] at atMostOne same
          have alone : more = [] :=
            List.eq_nil_of_length_eq_zero (Nat.le_zero.mp (Nat.le_of_succ_le_succ atMostOne))
          rw [alone, List.map_singleton, same b List.mem_cons_self]
          exact tail.cons_cons (k a)

/-- The parts of a joined text stand in it. -/
theorem sublist_intercalate (gap : String) {parts : List String} {s : String} (h : s ∈ parts) :
    s.toList.Sublist (gap.intercalate parts).toList := by
  induction parts with
  | nil => cases h
  | cons t rest ih =>
      cases rest with
      | nil =>
          obtain rfl := List.mem_singleton.mp h
          simp
      | cons u rest =>
          rw [String.intercalate_cons_cons, String.toList_append, String.toList_append]
          rcases List.mem_cons.mp h with rfl | later
          · rw [List.append_assoc]
            exact List.sublist_append_left _ _
          · exact (ih later).trans (List.sublist_append_right _ _)

/-- A sheet with a rule that declares something is not empty. -/
theorem Harvest.css_ne_empty {h : Harvest} {rule : String × Declarations} (hrule : rule ∈ h.rules)
    (declares : rule.2 ≠ []) : h.css ≠ "" := by
  intro empty
  have printed : Stylesheet.printRule (rule.1, Stylesheet.named rule.2)
      ∈ ((h.rules.map fun r => (r.1, Stylesheet.named r.2)).filter (!·.2.isEmpty)).map
          Stylesheet.printRule := by
    refine List.mem_map_of_mem (List.mem_filter.mpr ⟨List.mem_map_of_mem hrule, ?_⟩)
    cases style : rule.2 with
    | nil => exact absurd style declares
    | cons d ds => rfl
  have inside := sublist_intercalate "\n\n" printed
  rw [Harvest.css, Stylesheet.print] at empty
  rw [empty] at inside
  have dotted := Css.ruleText_eq declares
  rw [Css.ruleText, List.sublist_nil.mp inside] at dotted
  cases dotted

/-! ## Coherence -/

section

variable [Arctangent]

/-- A page, the classes that have rules, and image uses that speak of the visited nodes of a
design. -/
structure Coherent (n : Node) (o : Options) (page : Element) (selectors : List String)
    (images : List ImageUse) : Prop where
  /-- Whatever has a rule is the class of an element. -/
  shown_of_selector : ∀ c ∈ selectors, c ∈ page.classes
  /-- A visited node that declares something has a rule for its class. -/
  selector_of_declares : ∀ m ∈ n.visited, m.layer.ownStyle o ≠ [] → m.layer.classOf ∈ selectors
  /-- No class has two rules. -/
  selectors_nodup : selectors.Nodup
  /-- An image that is used is there, and it is the fill of a visited node, whose class has an
  element and a rule. -/
  of_image : ∀ use ∈ images, use.imageRef.isPresent = true ∧
    ∃ m ∈ n.visited, use.nodeId = m.layer.id ∧ use.className = .text m.layer.classOf ∧
      m.layer.HasImageFill ∧ m.layer.classOf ∈ page.classes ∧ m.layer.classOf ∈ selectors
  /-- The images are those of the visited nodes in document order, one at most of each. -/
  images_eq : images = n.visited.flatMap (·.layer.ownImages o)
  one_image : ∀ m ∈ n.visited, (m.layer.ownImages o).length ≤ 1
  /-- The classes of the images stand in the order of their elements. -/
  in_order : (images.map (·.className)).Sublist (page.classes.map .text)

namespace Node

/-- The fold over the visited nodes that a conversion comes to. -/
theorem fold_of_convert {n : Node} {o : Options} {r : Converted} (h : n.convert o = .ok r) :
    n.rules o = (n.visited.foldl (Harvest.visit o) .empty).rules ∧
      r.css = Harvest.css ⟨n.rules o, r.images⟩ ∧
      r.images = n.visited.flatMap (·.layer.ownImages o) := by
  obtain ⟨e, drawn, -⟩ := bind_eq_ok_iff.mp h
  obtain ⟨-, css, images⟩ := convert_of_ok h
  have rules := rules_of_draw drawn
  rw [Harvest.addAll_ownEntries] at css images
  refine ⟨rules, ?_, images.trans (Harvest.images_foldl_visit o n.visited .empty)⟩
  rw [css, rules, images]

/-- What a fold over the visited nodes collects is coherent with what the root shows. -/
theorem coherent_shown (n : Node) (o : Options) :
    Coherent n o n.shown (n.visited.foldl (Harvest.visit o) .empty).rules.keys
      (n.visited.flatMap (·.layer.ownImages o)) := by
  have none : Harvest.empty.rules.keys.Nodup := List.nodup_nil
  have ruled (c : String) := Harvest.mem_keys_foldl_visit o n.visited none c
  have shown_of_visited : ∀ m ∈ n.visited, m.layer.classOf ∈ n.shown.classes := by
    intro m hm
    rw [classes_shown]
    exact List.mem_map_of_mem hm
  have selector_of_declares : ∀ m ∈ n.visited, m.layer.ownStyle o ≠ [] →
      m.layer.classOf ∈ (n.visited.foldl (Harvest.visit o) .empty).rules.keys :=
    fun m hm declares => (ruled _).mpr (Or.inr ⟨m, hm, rfl, declares⟩)
  constructor
  case shown_of_selector =>
    intro c hc
    rcases (ruled c).mp hc with old | ⟨m, hm, rfl, -⟩
    · cases old
    · exact shown_of_visited m hm
  case selector_of_declares => exact selector_of_declares
  case selectors_nodup =>
    rw [Harvest.keys_foldl_visit o n.visited none]
    exact Ordered.nodup_eraseDups _
  case of_image =>
    intro use huse
    obtain ⟨m, hm, hown⟩ := List.mem_flatMap.mp huse
    obtain ⟨present, sameNode, sameClass, isImage, declares⟩ := Layer.of_mem_ownImages hown
    exact ⟨present, m, hm, sameNode, sameClass, isImage, shown_of_visited m hm,
      selector_of_declares m hm declares⟩
  case images_eq => rfl
  case one_image => exact fun m _ => m.layer.length_ownImages o
  case in_order =>
    rw [classes_shown, List.map_map]
    refine sublist_map_flatMap fun m _ => ⟨m.layer.length_ownImages o, fun use huse => ?_⟩
    obtain ⟨-, -, sameClass, -⟩ := Layer.of_mem_ownImages huse
    exact sameClass

/-- The page of a converted design, the rules of its table and its images are coherent, and with
an image the sheet is not empty. A reader finds the classes of the table in the printed sheet when
numbers are numbers and no name of a font breaks out of its quotes. -/
theorem coherent_of_convert {n : Node} {o : Options} {r : Converted} (h : n.convert o = .ok r) :
    ∃ page, Markup.read r.html = some page ∧
      page.classes = n.visited.map (·.layer.classOf) ∧
      r.css = Harvest.css ⟨n.rules o, r.images⟩ ∧
      Coherent n o page (n.rules o).keys r.images ∧
      (r.images ≠ [] → r.css ≠ "") ∧
      (n.Typed Value.IsNumber →
        (∀ rule ∈ n.rules o, ∀ name, fontDeclaration name ∈ rule.2 → Quotable name.toList) →
        ∃ sheet, Css.read r.css = some sheet ∧
          sheet.map (·.1) = (n.rules o).keys.map fun c => chars ('.' :: c.toList)) := by
  obtain ⟨rules, css, images⟩ := fold_of_convert h
  obtain ⟨html, -⟩ := convert_of_ok h
  refine ⟨n.shown, ?_, n.classes_shown, css, ?_, ?_, ?_⟩
  · rw [html]
    exact Markup.read_print (proper_shown n) 0
  · rw [rules, images]
    exact coherent_shown n o
  · intro used
    obtain ⟨use, huse⟩ := List.exists_mem_of_ne_nil _ used
    rw [images] at huse
    obtain ⟨m, hm, hown⟩ := List.mem_flatMap.mp huse
    obtain ⟨-, -, -, -, declares⟩ := Layer.of_mem_ownImages hown
    -- The rule of the image's class may be that of a later node, which declares something too.
    have hclass := (coherent_shown n o).selector_of_declares m hm declares
    obtain ⟨rule, hrule, -⟩ := List.mem_map.mp hclass
    have nonempty : rule.2 ≠ [] := by
      rw [Harvest.rules_foldl_visit] at hrule
      rcases Ordered.mem_putAll hrule with old | new
      · cases old
      · obtain ⟨m', -, declares', rfl⟩ := Harvest.mem_ownRules.mp new
        exact declares'
    rw [css]
    rw [← rules] at hrule
    exact Harvest.css_ne_empty hrule nonempty
  · intro typed quotable
    obtain ⟨e, drawn, -⟩ := bind_eq_ok_iff.mp h
    have readable := (@Css.read_css_iff ⟨n.rules o, r.images⟩
      (printable_of_mem_rules typed drawn)).mpr quotable
    refine ⟨sheetOf (n.rules o), ?_, ?_⟩
    · rw [css]
      exact readable
    · rw [sheetOf, Ordered.keys, List.map_map, List.map_map]
      rfl

end Node

end

/-! ## Two designs -/

def Layer.picturedLabel : Layer :=
  { Layer.label "Inter" with
    id := .text "1:2",
    fills := [{ (default : Paint) with
      kind := .text "IMAGE", visible := .bool true, imageRef := .text "photo" }] }

theorem Layer.typed_picturedLabel (Q : Value → Prop) : Layer.picturedLabel.Typed Q :=
  { Layer.typed_label Q "Inter" with
    fills := by
      intro p hp
      obtain rfl := List.mem_singleton.mp hp
      exact ⟨Or.inl rfl, nofun, nofun, nofun⟩ }

namespace Node

/-- A card with a pictured label and a plain one, which share a class. -/
def picturedCard : Node :=
  node { Layer.label "Inter" with name := .text "Card", kind := .frame }
    [node .picturedLabel [], label "Lato"]

theorem typed_picturedCard (Q : Value → Prop) : picturedCard.Typed Q :=
  ⟨{ Layer.typed_label Q "Inter" with name := Or.inr ⟨"Card", rfl⟩ },
    ⟨Layer.typed_picturedLabel Q, trivial⟩, typed_label Q "Lato", trivial⟩

set_option maxRecDepth 20000 in
theorem coherent_picturedCard :
    ∃ r page sheet, picturedCard.convert .standard = .ok r ∧ Markup.read r.html = some page ∧
      page.classes = ["card", "label", "label"] ∧
      Coherent picturedCard .standard page ["label"] r.images ∧ r.images.length = 1 ∧
      r.css ≠ "" ∧ Css.read r.css = some sheet ∧ sheet.map (·.1) = [chars ".label".toList] := by
  obtain ⟨r, h⟩ : ∃ r, picturedCard.convert .standard = .ok r := exists_ok_of_isOk (by decide)
  have ruled : picturedCard.rules .standard = [("label", [fontDeclaration "Lato"])] := by decide
  have pictured : (picturedCard.convert .standard).map (·.images.length) = .ok 1 := by rfl
  rw [h] at pictured
  have one : r.images.length = 1 := Except.ok.inj pictured
  obtain ⟨page, html, classes, -, coherent, nonempty, readable⟩ := coherent_of_convert h
  obtain ⟨sheet, read, selectors⟩ := readable (typed_picturedCard _) (by
    rw [ruled]
    intro rule hrule name hname
    obtain rfl := List.mem_singleton.mp hrule
    have quotable : Faithful (fontDeclaration "Lato") :=
      faithful_fontDeclaration.mpr (by decide)
    exact quotable name (List.mem_singleton.mp hname).symm)
  rw [ruled] at coherent selectors
  refine ⟨r, page, sheet, h, html, classes.trans (by decide), coherent, one, ?_, read, selectors⟩
  apply nonempty
  intro none
  rw [none] at one
  cases one

def strayFont : String := "A\"; \x7d .evil \x7b color: \"red"

set_option maxRecDepth 20000 in
/-- With that font the sheet has a selector that is the class of no element. -/
theorem stray_selector_strayFont : (label strayFont).Typed Value.IsNumber ∧
    ∃ r page sheet, (label strayFont).convert .standard = .ok r ∧
      Markup.read r.html = some page ∧ page.classes = ["label"] ∧
      Css.read r.css = some sheet ∧
      sheet.map (·.1) = [chars ".label".toList, chars ".evil".toList] := by
  obtain ⟨r, h⟩ : ∃ r, (label strayFont).convert .standard = .ok r :=
    exists_ok_of_isOk (by decide)
  obtain ⟨html, -⟩ := convert_of_ok h
  have selectors : (((label strayFont).convert .standard).toOption.bind (Css.read ·.css)).map
      (List.map (·.1)) = some [chars ".label".toList, chars ".evil".toList] := by decide
  rw [h] at selectors
  obtain ⟨sheet, read, hsheet⟩ := Option.map_eq_some_iff.mp selectors
  refine ⟨typed_label _ _, r, (label strayFont).shown, sheet, h, ?_, by decide, read, hsheet⟩
  rw [html]
  exact Markup.read_print (proper_shown _) 0

end Node

end DesignMarkup
