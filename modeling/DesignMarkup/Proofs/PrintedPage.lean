import DesignMarkup.Proofs.MarkupReader
import DesignMarkup.Proofs.Walk

/-!
# The page of a design

A converted design is markup that reads back as the element that the design shows. Names
and texts are the designer's and hold whatever characters they hold; classes and tags are
drawn from small alphabets.
-/

namespace DesignMarkup

open Markup (Proper ProperAll)

namespace Layer

theorem containerTagOf_word (l : Layer) :
    Naming.IsWord l.containerTagOf ∧ Naming.isTextTag l.containerTagOf = false :=
  Naming.boxTag_of_mem (Naming.tagBy_mem _ _)

theorem textTagOf_word (l : Layer) :
    Naming.IsWord l.textTagOf ∧ Naming.isTextTag l.textTagOf = true := by
  -- A size that cannot be compared calls for the plain tag, as a small one does.
  apply Naming.textTag_of_mem
  unfold textTagOf
  cases h : l.textTag with
  | ok tag => exact Naming.tagForSize_mem h
  | error e => exact List.mem_cons_self

end Layer

namespace Node

theorem plainTag_word : Naming.IsWord Naming.plainTag ∧ Naming.isTextTag Naming.plainTag = false :=
  Naming.boxTag_of_mem List.mem_cons_self

mutual

/-- A node shows a proper element. -/
theorem proper_shown : ∀ n : Node, Proper n.shown
  | node l cs => by
      have className : Naming.IsWord l.classOf := Naming.isWord_className _
      obtain ⟨plain, plainBox⟩ := plainTag_word
      obtain ⟨container, containerBox⟩ := l.containerTagOf_word
      rw [shown_node]
      cases l.kind.rendering (!cs.isEmpty) with
      | text => exact ⟨l.textTagOf_word.1, l.textTagOf_word.2, className⟩
      | container => exact ⟨⟨container, containerBox, className⟩, properAll_shownAll cs⟩
      | shape => exact ⟨⟨plain, plainBox, className⟩, trivial⟩
      | drawing => exact ⟨⟨plain, plainBox, className⟩, trivial⟩

theorem properAll_shownAll : ∀ ns : List Node, ProperAll (shownAll ns)
  | [] => trivial
  | n :: rest => ⟨proper_shown n, properAll_shownAll rest⟩

end

section

variable [Arctangent]

/-- A conversion that succeeds prints the element of the root, and its rules and images are
those that the visited nodes write. -/
theorem convert_of_ok {n : Node} {o : Options} {r : Converted} (h : n.convert o = .ok r) :
    r.html = n.shown.print 0 ∧
      r.css = (Harvest.empty.addAll (n.visited.flatMap (·.layer.ownEntries o))).css ∧
      r.images = (Harvest.empty.addAll (n.visited.flatMap (·.layer.ownEntries o))).images := by
  obtain ⟨e, he, h⟩ := bind_eq_ok_iff.mp h
  obtain rfl := pure_eq_ok_iff.mp h
  have drawn := draw_of_ok o n he
  rw [drawn] at he
  obtain rfl := Except.ok.inj he
  rw [drawn]
  exact ⟨rfl, rfl, rfl⟩

/-- The markup of a converted design reads back as the element that the design shows,
whatever the names and the texts in it. -/
theorem read_html_of_convert {n : Node} {o : Options} {r : Converted} (h : n.convert o = .ok r) :
    Markup.read r.html = some n.shown := by
  obtain ⟨html, -⟩ := convert_of_ok h
  rw [html]
  exact Markup.read_print (proper_shown n) 0

end

def hostileText : Layer :=
  { (default : Layer) with
    name := .text "</nav>", kind := .text, characters := .text "</p>\n  <p class=\"x\">&lt;" }

def hostileMenu : Node :=
  .node { (default : Layer) with name := .text "Menu\"><b", kind := .frame }
    [.node hostileText [],
     .node { (default : Layer) with name := .text "\" onclick='go()", kind := .vector } [],
     .node { (default : Layer) with name := .null, kind := .other } []]

set_option maxRecDepth 20000 in
theorem read_html_hostileMenu :
    ∃ r, hostileMenu.convert .standard = .ok r ∧ Markup.read r.html = some
      (.box "nav" "menu-b" none
        [.text "h5" "nav" "</p>\n  <p class=\"x\">&lt;",
         .box "div" "onclick-go" (some "\" onclick='go()") [],
         .box "div" "element" none []]) := by
  have heading : hostileText.textTagOf = "h5" := by decide
  obtain ⟨r, h⟩ : ∃ r, hostileMenu.convert .standard = .ok r :=
    exists_ok_of_isOk (by decide)
  refine ⟨r, h, (read_html_of_convert h).trans ?_⟩
  rw [← heading]
  rfl

end Node

end DesignMarkup
