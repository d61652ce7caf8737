import DesignMarkup.Proofs.ImportedStyles
import DesignMarkup.Proofs.Parallel

/-!
# First frames

A link to a file stands for the first frame on its first page. For such a link two levels of the
file are fetched, and what stands below its frames is not among them; for a link to the frame itself
all of it is. So the two links import the same design exactly if the frame has no children.
-/

namespace DesignMarkup

/-! ## Sessions that see outcomes alone -/

/-- Wires compared by the outcomes on them, and no matter what is sent. -/
def Comparison.ofOutcomes : Comparison where
  Wires w w' := w.outcomes = w'.outcomes
  Requests _ _ := True
  outcomes := id
  sent same _ _ _ := congrArg List.tail same
  waited same _ := same
  reported same _ := same

theorem Session.Parallel.blind {α : Type} {x : Session α} (h : Parallel .ofOutcomes Eq x x) :
    x.Blind := by
  intro w w' same
  obtain ⟨_, _, v, v', left, right, agree, outcomes⟩ := h w w' same
  obtain rfl := agree_eq_iff.mp agree
  exact ⟨_, v, v', left, right, outcomes⟩

theorem Imported.blind_withImages (c : Client) (key : String) (r : Converted) :
    (withImages c key r).Blind :=
  (parallel_withImages ⟨fun _ _ => trivial, rfl, rfl, rfl⟩ key r).blind

/-! ## Trees cut short -/

namespace Members

/-- The members of a node with something done to each of its children. -/
def mapChildren (f : Value → Value) (ms : Members) : Members :=
  ms.map fun m =>
    if m.1 = "children" then
      (m.1, match m.2 with
        | .list items => .list (items.map f)
        | v => v)
    else m

def childless (ms : Members) : Members := ms.filter fun m => m.1 ≠ "children"

end Members

/-- A tree cut to a number of levels below its root: the children of the last ones are left out. -/
def Value.cut : Nat → Value → Value
  | 0, object ms => object (Members.childless ms)
  | levels + 1, object ms => object (Members.mapChildren (cut levels) ms)
  | _, v => v

namespace Members

variable (ms : Members)

theorem lookup_childless {name : String} (h : name ≠ "children") :
    List.lookup name (Members.childless ms) = List.lookup name ms := by
  induction ms with
  | nil => rfl
  | cons m rest ih =>
      obtain ⟨key, v⟩ := m
      rw [Members.childless, List.filter_cons, ← Members.childless]
      split
      · rw [Ordered.lookup_cons, Ordered.lookup_cons, ih]
      · rename_i dropped
        have key : key = "children" := by simpa using dropped
        rw [Ordered.lookup_cons, if_neg (key ▸ Ne.symm h), ih]

theorem lookup_of_get {ms : Members} {name : String} {v : Value} (h : Members.get ms name = v)
    (some : v ≠ .null) : List.lookup name ms = .some v := by
  rw [Members.get, Members.getOr] at h
  cases found : List.lookup name ms with
  | none =>
      rw [found] at h
      exact absurd h.symm some
  | some v' =>
      rw [found] at h
      exact congrArg Option.some h

theorem getOr_of_get {ms : Members} {name : String} {v : Value} (h : Members.get ms name = v)
    (some : v ≠ .null) (other : Value) : Members.getOr ms name other = v := by
  rw [Members.getOr, lookup_of_get h some]
  rfl

theorem get_childless : Members.get (Members.childless ms) "children" = .null := by
  have none : List.lookup "children" (Members.childless ms) = none := by
    rw [List.lookup_eq_none_iff]
    intro m hm
    have kept := (List.mem_filter.mp hm).2
    simpa using Ne.symm (by simpa using kept)
  rw [Members.get, Members.getOr, none]
  rfl

theorem getOr_mapChildren {ms : Members} {items : List Value}
    (h : Members.get ms "children" = .list items) (f : Value → Value) (other : Value) :
    Members.getOr (mapChildren f ms) "children" other = .list (items.map f) := by
  have held := lookup_of_get h (by simp)
  have found : List.lookup "children" (mapChildren f ms) = some (.list (items.map f)) := by
    clear h
    induction ms with
    | nil => cases held
    | cons m rest ih =>
        obtain ⟨key, v⟩ := m
        rw [Ordered.lookup_cons] at held
        rw [mapChildren, List.map_cons, ← mapChildren]
        split at held
        · rename_i children
          obtain rfl := Option.some.inj held
          rw [if_pos children, Ordered.lookup_cons, if_pos children]
        · rename_i children
          rw [if_neg children, Ordered.lookup_cons, if_neg children, ih held]
  rw [Members.getOr, found]
  rfl

end Members

/-! ## A frame without its children -/

/-- The layer of a node says nothing of its children. -/
theorem Layer.ofMembers_childless (ms : Members) :
    Layer.ofMembers (Members.childless ms) = Layer.ofMembers ms := by
  simp (disch := decide) only [Layer.ofMembers, Members.either, Members.get, Members.getOr,
    Members.lookup_childless]

theorem Layer.kind_of_ofMembers {ms : Members} {l : Layer} (h : Layer.ofMembers ms = .ok l) :
    l.kind = NodeKind.ofValue (Members.getOr ms "type" (.text "")) := by
  obtain ⟨_, -, h⟩ := bind_eq_ok_iff.mp h
  obtain ⟨_, -, h⟩ := bind_eq_ok_iff.mp h
  obtain ⟨_, -, h⟩ := bind_eq_ok_iff.mp h
  obtain ⟨_, -, h⟩ := bind_eq_ok_iff.mp h
  obtain ⟨_, -, h⟩ := bind_eq_ok_iff.mp h
  obtain ⟨_, -, h⟩ := bind_eq_ok_iff.mp h
  obtain rfl := pure_eq_ok_iff.mp h
  rfl

theorem Value.childNodes_cut (ms : Members) : (Value.cut 0 (.object ms)).childNodes = .ok [] := by
  show (Members.get (Members.childless ms) "children").heldNodes = _
  rw [Members.get_childless]
  rfl

/-- A kind of nodes that a link to a file can stand for shows its children. -/
theorem Imported.shown_of_isTopLevel {ms : Members} {l : Layer} (read : Layer.ofMembers ms = .ok l)
    (top : isTopLevel (Members.get ms "type") = true) (cs : List Node) :
    (Node.node l cs).shown = .box l.containerTagOf l.classOf none (Node.shownAll cs) := by
  have kinds : l.kind = .frame ∨ l.kind = .component := by
    rw [Layer.kind_of_ofMembers read]
    have named : ∀ s, (Members.get ms "type").isText s = true →
        Members.getOr ms "type" (.text "") = .text s := by
      intro s h
      refine Members.getOr_of_get ?_ (by simp) _
      cases type : Members.get ms "type" with
      | text t =>
          rw [type] at h
          rw [beq_iff_eq.mp h]
      | _ =>
          rw [type] at h
          cases h
    rcases (Bool.or_eq_true _ _).mp top with h | h
    · exact .inl (by rw [named _ h]; rfl)
    · exact .inr (by rw [named _ h]; rfl)
  rw [Node.shown]
  rcases kinds with kind | kind
  · rw [kind]
  · rw [kind]

/-- What stands in an element is seen in print, whatever it is. -/
theorem Element.print_nil_ne_print_cons (depth : Int) (tag className : String)
    (label : Option String) (child : Element) (rest : List Element) :
    print depth (box tag className label [])
      ≠ print depth (box tag className label (child :: rest)) := by
  intro same
  have texts := congrArg String.toList same
  simp [print, closeTag] at texts

namespace Imported

variable {c : Client} {options : Except Fault Options} {frame : Members}

theorem childNodes_of_html (top : isTopLevel (Members.get frame "type") = true) {o : Options}
    {r r' : Converted} (part : convertValue (Value.cut 0 (.object frame)) o = .ok r)
    (whole : convertValue (.object frame) o = .ok r') (same : r.html = r'.html) :
    (Value.object frame).childNodes = .ok [] := by
  obtain ⟨⟨l, cs⟩, read, drawn⟩ := bind_eq_ok_iff.mp part
  obtain ⟨⟨l', cs'⟩, read', drawn'⟩ := bind_eq_ok_iff.mp whole
  obtain ⟨_, vs, ⟨⟩, held, children, layer⟩ := Node.ofValue_eq_ok_iff.mp read
  obtain ⟨_, vs', ⟨⟩, held', children', layer'⟩ := Node.ofValue_eq_ok_iff.mp read'
  obtain rfl := Except.ok.inj (held.symm.trans (Value.childNodes_cut frame))
  obtain rfl : [] = cs := Except.ok.inj children
  rw [Layer.ofMembers_childless] at layer
  obtain rfl : l = l' := Except.ok.inj (layer.symm.trans layer')
  have layer : Layer.ofMembers frame = .ok l := layer
  obtain ⟨html, -⟩ := Node.convert_of_ok drawn
  obtain ⟨html', -⟩ := Node.convert_of_ok drawn'
  rw [html, html', shown_of_isTopLevel layer top, shown_of_isTopLevel layer top] at same
  cases cs' with
  | nil =>
      cases vs' with
      | nil => exact held'
      | cons v vs' => cases Node.ofValues_eq_ok_iff.mp children'
  | cons child rest => exact absurd same (Element.print_nil_ne_print_cons 0 _ _ none _ _)

/-- A frame that has no children is the same without them. -/
theorem prepared_cut (leaf : (Value.object frame).childNodes = .ok []) :
    prepared c options (Value.cut 0 (.object frame)) = prepared c options (.object frame) := by
  have read : Node.ofValue (Value.cut 0 (.object frame)) = Node.ofValue (.object frame) := by
    have bare : Node.ofChildrenMember frame = .ok [] := by
      rw [Node.ofChildrenMember_eq, ← Value.childNodes_object, leaf]
      rfl
    have cut : Node.ofChildrenMember (Members.childless frame) = .ok [] := by
      rw [Node.ofChildrenMember_eq, Members.get_childless]
      rfl
    rw [Value.cut, Node.ofValue, Node.ofValue, bare, cut, Layer.ofMembers_childless]
  have depth : Value.shape.depth (Value.cut 0 (.object frame))
      = Value.shape.depth (.object frame) := by
    have children : Value.shape.children = Value.childNodes := rfl
    rw [TreeShape.depth, TreeShape.depth, children, Value.childNodes_cut, leaf]
  simp only [prepared, TreeShape.ensure, depth, convertValue, read]

theorem deliver_cut (fileName : Value) (r : Converted) :
    deliver (Value.cut 0 (.object frame)) fileName r = deliver (.object frame) fileName r := by
  have same : ∀ name, name ≠ "children" → ∀ other,
      Members.getOr (Members.childless frame) name other
        = Members.getOr frame name other := by
    intro name h other
    rw [Members.getOr, Members.getOr, Members.lookup_childless frame h]
  show Except.ok _ = Except.ok _
  rw [same "id" (by decide), same "name" (by decide)]

end Imported

/-! ## Two links to one frame -/

/-- A file up to the first frame on its first page, and what stands beside it. -/
structure Opening where
  document : Members
  page : Members
  frame : Members
  id : String
  pages : List Value
  before : List Members
  after : List Value
  document_children : Members.get document "children" = .list (.object page :: pages)
  page_children :
    Members.get page "children" = .list (before.map .object ++ .object frame :: after)
  before_others : ∀ ms ∈ before, Imported.isTopLevel (Members.get ms "type") = false
  frame_topLevel : Imported.isTopLevel (Members.get frame "type") = true
  frame_id : Members.get frame "id" = .text id

/-- What is assumed of a service that answers questions by their place and their parameters: for a
file it gives the document cut to the depth asked for, for the node of the frame all of it, and the
same name both times. -/
structure Opening.Served (file : Opening) (serve : String → Value → Value) (key : String)
    (name : Value) : Prop where
  cut : ∀ depth : Nat, ∃ ms,
    serve ("/files/" ++ key) (.object [("depth", .whole depth)]) = .object ms ∧
      Members.get ms "document" = Value.cut depth (.object file.document) ∧
      Members.getOr ms "name" (.text "") = name
  whole : ∃ ms entries entry,
    serve ("/files/" ++ key ++ "/nodes") (.object [("ids", .text file.id)]) = .object ms ∧
      Members.get ms "nodes" = .object entries ∧
      Members.get entries file.id = .object entry ∧
      Members.get entry "document" = .object file.frame ∧
      Members.getOr ms "name" (.text "") = name

/-- Of the outcomes on a wire the one that decides the question for a link is the answer of the
service; the outcomes behind it are what is left. -/
def Client.Answered (c : Client) (limit : Nat) (serve : String → Value → Value) (link : ShareLink)
    (w : Wire) (left : List Outcome) : Prop :=
  ∃ k r, c.Decides limit w.outcomes k (.answered r) ∧ r.isOk = true ∧
    r.json = .ok (serve link.place link.params) ∧ w.outcomes.drop (k + 1) = left

/-! ## A frame with and without a child -/

namespace Hero

def badge : Value :=
  .object
    [("id", .text "1:3"), ("name", .text "Badge"), ("type", .text "TEXT"),
     ("characters", .text "New")]

variable (children : List Value)

def frame : Members :=
  [("id", .text "1:2"), ("name", .text "Hero"), ("type", .text "FRAME"),
   ("children", .list children)]

def file : Opening where
  document := [("children", .list [.object [("children", .list [.object (frame children)])]])]
  page := [("children", .list [.object (frame children)])]
  frame := frame children
  id := "1:2"
  pages := []
  before := []
  after := []
  document_children := rfl
  page_children := rfl
  before_others := nofun
  frame_topLevel := rfl
  frame_id := rfl

def depthIn : Value → Nat
  | .object [(_, .number (.whole depth))] => depth.toNat
  | _ => 0

def serve (place : String) (params : Value) : Value :=
  if place = "/files/KEY" then
    .object
      [("document", Value.cut (depthIn params) (.object (file children).document)),
       ("name", .text "Art")]
  else
    .object
      [("nodes", .object [("1:2", .object [("document", .object (frame children))])]),
       ("name", .text "Art")]

theorem served : (file children).Served (serve children) "KEY" (.text "Art") where
  cut _ := ⟨_, rfl, rfl, rfl⟩
  whole := ⟨_, _, _, rfl, rfl, rfl, rfl, rfl⟩

def fileLink : ShareLink := { fileKey := "KEY", nodeId := none }

def fileUrl : String := "https://www.figma.com/file/KEY"

set_option maxRecDepth 20000 in
theorem linked : ShareLink.ofText? fileUrl = some fileLink := by decide

theorem parsed : ShareLink.ofValue? (.text fileUrl) = .ok (some fileLink) := by
  rw [ShareLink.ofValue?_text, linked]

def wire (link : ShareLink) : Wire :=
  Wire.fresh [.answered ⟨200, [], .json (serve children link.place link.params)⟩]

theorem limited : Gallery.visitor.settings.maxRetries.number? = some (.whole (2 : Nat)) := rfl

theorem answered (link : ShareLink) :
    Gallery.visitor.Answered 2 (serve children) link (wire children link) [] := by
  have sure : (200 : Int) ≠ Client.busyStatus := by decide
  refine ⟨0, ⟨200, [], .json (serve children link.place link.params)⟩, ?_, rfl, rfl, rfl⟩
  exact
    { within := by decide
      before := fun i hi => absurd hi (Nat.not_lt_zero i)
      here := rfl
      final := .inr sure }

/-- A node without images is imported, if it is not too deep. -/
theorem imported {url : Value} {link : ShareLink}
    (linked : ShareLink.ofValue? url = .ok (some link)) {w w' : Wire} {node name : Value}
    (fetched : (Imported.fetchTarget Gallery.visitor link).on w = (.ok (node, name), w'))
    (images : (convertValue node .standard).map (·.images) = .ok []) (shallow : node.levels ≤ 2) :
    Succeeds ((Imported.ofUrl Gallery.visitor url (.ok .standard)).on w).1 := by
  obtain ⟨r, converted, none⟩ := map_eq_ok_iff.mp images
  have made : Imported.prepared Gallery.visitor (.ok .standard) node = .ok r :=
    Imported.prepared_of_convertValue rfl converted (by omega)
  obtain ⟨i, delivers, -⟩ := Imported.deliver_of_prepared made name r
  refine ⟨i, ?_⟩
  rw [Imported.on_ofUrl_of_no_images linked fetched made none, delivers]

set_option maxRecDepth 20000 in
theorem images_cut : (convertValue (Value.cut 0 (.object (frame [badge]))) .standard).map (·.images)
    = .ok [] := by
  rfl

set_option maxRecDepth 20000 in
theorem images_whole : (convertValue (.object (frame [badge])) .standard).map (·.images)
    = .ok [] := by
  rfl

end Hero

/-! ## What the links import -/

namespace Imported

theorem on_fetchTarget_of_answered {c : Client} {limit : Nat}
    (limited : c.settings.maxRetries.number? = some (.whole limit))
    {serve : String → Value → Value} {link : ShareLink} {w : Wire} {left : List Outcome}
    (h : c.Answered limit serve link w left) :
    ∃ w', (fetchTarget c link).on w = (link.targetIn (serve link.place link.params), w') ∧
      w'.outcomes = left := by
  obtain ⟨k, r, decides, accepted, body, rfl⟩ := h
  obtain ⟨respites, asked⟩ := Client.on_ask_of_decides limited link.place link.params decides
  rw [Outcome.reply_answered accepted, body] at asked
  exact ⟨_, on_fetchTarget asked, rfl⟩

/-- Of the nodes on a page the first of a kind that is taken is taken, though its children may be
missing. -/
theorem firstTopLevel_cut {before : List Members} {frame : Members}
    (others : ∀ ms ∈ before, isTopLevel (Members.get ms "type") = false)
    (top : isTopLevel (Members.get frame "type") = true) (after : List Value) :
    firstTopLevel ((before.map Value.object ++ .object frame :: after).map (Value.cut 0))
      = .ok (Value.cut 0 (.object frame)) := by
  have kept : ∀ ms : Members,
      Members.get (Members.childless ms) "type" = Members.get ms "type" := by
    intro ms
    rw [Members.get, Members.getOr, Members.lookup_childless ms (by decide), ← Members.getOr,
      ← Members.get]
  induction before with
  | nil =>
      show (if isTopLevel (Members.get (Members.childless frame) "type") then _ else _) = _
      rw [kept, if_pos top]
      rfl
  | cons ms rest ih =>
      have first := others ms List.mem_cons_self
      show (if isTopLevel (Members.get (Members.childless ms) "type") then _ else _) = _
      rw [kept, if_neg (by rw [first]; exact Bool.false_ne_true)]
      exact ih fun ms' h => others ms' (List.mem_cons_of_mem _ h)

/-- An import has the markup of the node that it fetched. -/
theorem html_of_on_ofUrl {c : Client} {url : Value} {options : Except Fault Options} {w : Wire}
    {i : Imported} (h : ((ofUrl c url options).on w).1 = .ok i) {link : ShareLink}
    (linked : ShareLink.ofValue? url = .ok (some link)) {node fileName : Value} {w' : Wire}
    (fetched : (fetchTarget c link).on w = (.ok (node, fileName), w')) :
    ∃ o r, options = .ok o ∧ convertValue node o = .ok r ∧ i.converted.html = r.html := by
  obtain ⟨link', node', fileName', w'', r, linked', fetched', made, images⟩ := on_ofUrl_eq_ok h
  obtain rfl := Option.some.inj (Except.ok.inj (linked.symm.trans linked'))
  obtain ⟨target, -⟩ := Prod.mk.inj (fetched.symm.trans fetched')
  obtain ⟨rfl, -⟩ := Prod.mk.inj (Except.ok.inj target)
  obtain ⟨-, o, options, converted⟩ := prepared_eq_ok_iff.mp made
  obtain ⟨-, found, -, settles, -⟩ := of_on_withImages images
  exact ⟨o, r, options, converted, (of_settled settles).1⟩

section

variable {c : Client} {fileUrl frameUrl : Value} {options : Except Fault Options}
  {fileLink frameLink : ShareLink} {w w' v v' : Wire} {frame : Members} {name : Value}
  (linked : ShareLink.ofValue? fileUrl = .ok (some fileLink))
  (linked' : ShareLink.ofValue? frameUrl = .ok (some frameLink))
  (fetched : (fetchTarget c fileLink).on w = (.ok (Value.cut 0 (.object frame), name), v))
  (fetched' : (fetchTarget c frameLink).on w' = (.ok (.object frame, name), v'))

include linked linked' fetched fetched'

/-- Of a frame without children the same is imported, failures included, as long as what comes next
is the same. -/
theorem on_ofUrl_eq_of_leaf (sameKey : fileLink.fileKey = frameLink.fileKey)
    (leaf : (Value.object frame).childNodes = .ok []) (next : v.outcomes = v'.outcomes) :
    ((ofUrl c fileUrl options).on w).1 = ((ofUrl c frameUrl options).on w').1 := by
  rw [on_ofUrl_of_fetched linked fetched, on_ofUrl_of_fetched linked' fetched', prepared_cut leaf,
    sameKey]
  simp only [deliver_cut]
  have blind : (do
      let r ← Session.check (prepared c options (.object frame))
      let r ← withImages c frameLink.fileKey r
      Session.check (deliver (.object frame) name r) : Session Imported).Blind :=
    (Session.blind_check _).bind fun r => (blind_withImages c _ r).bind fun r =>
      Session.blind_check _
  obtain ⟨result, _, _, run, run', -⟩ := blind v v' next
  rw [run, run']

/-- A frame whose markup is the same with and without its children has none. -/
theorem leaf_of_on_ofUrl (top : isTopLevel (Members.get frame "type") = true) {i i' : Imported}
    (imported : ((ofUrl c fileUrl options).on w).1 = .ok i)
    (imported' : ((ofUrl c frameUrl options).on w').1 = .ok i')
    (same : i.converted.html = i'.converted.html) : (Value.object frame).childNodes = .ok [] := by
  obtain ⟨o, r, rfl, part, html⟩ := html_of_on_ofUrl imported linked fetched
  obtain ⟨o', r', ⟨⟩, whole, html'⟩ := html_of_on_ofUrl imported' linked' fetched'
  exact childNodes_of_html top part whole (html.symm.trans (same.trans html'))

end

section

variable {file : Opening} {serve : String → Value → Value} {key : String} {name : Value}
  (served : file.Served serve key name)

include served

/-- The link to the file has the frame without its children for a target. -/
theorem targetIn_file :
    let link : ShareLink := { fileKey := key, nodeId := none }
    link.targetIn (serve link.place link.params)
      = .ok (Value.cut 0 (.object file.frame), name) := by
  obtain ⟨ms, answer, document, named⟩ := served.cut 2
  have document : Members.get ms "document"
      = .object (Members.mapChildren (Value.cut 1) file.document) := document
  have pages := Members.getOr_mapChildren file.document_children (Value.cut 1) (.list [])
  have candidates := Members.getOr_mapChildren file.page_children (Value.cut 0) (.list [])
  have taken := firstTopLevel_cut file.before_others file.frame_topLevel file.after
  show targetOfFile (serve ("/files/" ++ key) (.object [("depth", .whole (2 : Nat))])) = _
  rw [answer]
  refine bind_eq_ok_iff.mpr ⟨ms, rfl, ?_⟩
  refine bind_eq_ok_iff.mpr ⟨Members.mapChildren (Value.cut 1) file.document, ?_, ?_⟩
  · rw [Members.getOr_of_get document (by simp)]
    rfl
  · dsimp only
    rw [pages]
    refine bind_eq_ok_iff.mpr ⟨Members.mapChildren (Value.cut 0) file.page, rfl, ?_⟩
    rw [candidates]
    refine bind_eq_ok_iff.mpr ⟨_, rfl, bind_eq_ok_iff.mpr ⟨_, taken, ?_⟩⟩
    rw [named]
    rfl

/-- The link to the frame has all of it for a target. -/
theorem targetIn_frame :
    let link : ShareLink := { fileKey := key, nodeId := some file.id }
    link.targetIn (serve link.place link.params) = .ok (.object file.frame, name) := by
  obtain ⟨ms, entries, entry, answer, nodes, found, document, named⟩ := served.whole
  have present : (Value.object entries).isPresent = true := by
    cases entries with
    | nil => cases found
    | cons m rest => rfl
  have filled : (Value.object entry).isPresent = true := by
    cases entry with
    | nil => cases document
    | cons m rest => rfl
  have held : documentOf (.object entry) = .ok (.object file.frame) := by
    rw [documentOf, Members.lookup_of_get document (by simp)]
  show targetOfNodes (serve ("/files/" ++ key ++ "/nodes") (.object [("ids", .text file.id)])) _ = _
  rw [answer]
  refine bind_eq_ok_iff.mpr ⟨ms, rfl, ?_⟩
  dsimp only
  rw [nodes, if_pos present]
  refine bind_eq_ok_iff.mpr ⟨entries, rfl, ?_⟩
  rw [found, filled]
  refine bind_eq_ok_iff.mpr ⟨_, congrArg orFail held, ?_⟩
  rw [named]
  rfl

/-- The link to a file and the link to its first frame import the same, failures included, if the
frame has no children and what the service is asked next is answered alike; and whenever both import
a design with one markup, the frame has no children. -/
theorem on_ofUrl_of_opening {c : Client} {limit : Nat}
    (limited : c.settings.maxRetries.number? = some (.whole limit))
    {fileUrl frameUrl : Value} {options : Except Fault Options}
    (fileLink : ShareLink.ofValue? fileUrl = .ok (some { fileKey := key, nodeId := none }))
    (frameLink :
      ShareLink.ofValue? frameUrl = .ok (some { fileKey := key, nodeId := some file.id }))
    {w w' : Wire} {left left' : List Outcome}
    (answered : c.Answered limit serve { fileKey := key, nodeId := none } w left)
    (answered' : c.Answered limit serve { fileKey := key, nodeId := some file.id } w' left') :
    ((Value.object file.frame).childNodes = .ok [] → left = left' →
      ((ofUrl c fileUrl options).on w).1 = ((ofUrl c frameUrl options).on w').1) ∧
    ∀ i i', ((ofUrl c fileUrl options).on w).1 = .ok i →
      ((ofUrl c frameUrl options).on w').1 = .ok i' →
      i.converted.html = i'.converted.html → (Value.object file.frame).childNodes = .ok [] := by
  obtain ⟨v, fetched, behind⟩ := on_fetchTarget_of_answered limited answered
  obtain ⟨v', fetched', behind'⟩ := on_fetchTarget_of_answered limited answered'
  rw [targetIn_file served] at fetched
  rw [targetIn_frame served] at fetched'
  constructor
  · intro leaf same
    exact on_ofUrl_eq_of_leaf fileLink frameLink fetched fetched' rfl leaf
      (behind.trans (same.trans behind'.symm))
  · intro i i' imported imported' same
    exact leaf_of_on_ofUrl fileLink frameLink fetched fetched' file.frame_topLevel imported
      imported' same

end

/-- Without a child the frame is the same by either link. -/
theorem on_ofUrl_of_opening_leaf :
    ((ofUrl Gallery.visitor (.text Hero.fileUrl) (.ok .standard)).on
        (Hero.wire [] Hero.fileLink)).1
      = ((ofUrl Gallery.visitor (.text Gallery.url) (.ok .standard)).on
        (Hero.wire [] Gallery.link)).1 :=
  (on_ofUrl_of_opening (Hero.served []) Hero.limited Hero.parsed Gallery.parsed
    (Hero.answered [] Hero.fileLink) (Hero.answered [] Gallery.link)).1 rfl rfl

/-- With a child it is imported by both, and not the same. -/
theorem on_ofUrl_hero :
    (Hero.file [Hero.badge]).Served (Hero.serve [Hero.badge]) "KEY" (.text "Art") ∧
      (∀ link, Gallery.visitor.Answered 2 (Hero.serve [Hero.badge]) link
        (Hero.wire [Hero.badge] link) []) ∧
      ∃ i i', ((ofUrl Gallery.visitor (.text Hero.fileUrl) (.ok .standard)).on
          (Hero.wire [Hero.badge] Hero.fileLink)).1 = .ok i ∧
        ((ofUrl Gallery.visitor (.text Gallery.url) (.ok .standard)).on
          (Hero.wire [Hero.badge] Gallery.link)).1 = .ok i' ∧
        i.converted.html ≠ i'.converted.html := by
  have served := Hero.served [Hero.badge]
  have answered := Hero.answered [Hero.badge]
  obtain ⟨w, fetched, -⟩ := on_fetchTarget_of_answered Hero.limited (answered Hero.fileLink)
  obtain ⟨w', fetched', -⟩ := on_fetchTarget_of_answered Hero.limited (answered Gallery.link)
  have fetched := fetched.trans (congrArg (·, w) (targetIn_file served))
  have fetched' := fetched'.trans (congrArg (·, w') (targetIn_frame served))
  obtain ⟨i, run⟩ := Hero.imported Hero.parsed fetched Hero.images_cut (by decide)
  obtain ⟨i', run'⟩ := Hero.imported Gallery.parsed fetched' Hero.images_whole (by decide)
  refine ⟨served, answered, i, i', run, run', fun same => ?_⟩
  cases leaf_of_on_ofUrl Hero.parsed Gallery.parsed fetched fetched' rfl run run' same

end Imported

end DesignMarkup
