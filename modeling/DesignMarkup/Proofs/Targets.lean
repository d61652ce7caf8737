import DesignMarkup.Proofs.Imports

/-!
# The node to convert

The answer to a question for a file is searched for the first frame or component on the first page,
and the answer to a question for a node for the document of that node. Either way parts of the
answer may be missing, be it that they are absent or that they are null, and then the search means
to say what it did not find. It does so wherever a part is absent. Of the nulls two are not taken
for a missing part, the document of a file and the children of its first page, and neither is a
document that an entry lacks; with these the search fails for a reason of its own.
-/

namespace DesignMarkup

/-! ## Answers -/

namespace Schema

/-- A key is absent, null, or holds what passes a check. -/
theorem allows_orNull_cases {ms : Members} {key : String} {check : Check}
    (h : allows ms (key, orNull check) = true) :
    ms.lookup key = none ∨ ms.lookup key = some .null ∨
      ∃ v, ms.lookup key = some v ∧ check v = true := by
  unfold allows at h
  cases found : ms.lookup key with
  | none => exact Or.inl rfl
  | some v =>
      rw [found] at h
      rcases orNull_iff.mp h with rfl | passes
      · exact Or.inr (Or.inl rfl)
      · exact Or.inr (Or.inr ⟨v, rfl, passes⟩)

theorem record_singleton (field : String × Check) (ms : Members) :
    record [field] (.object ms) = allows ms field := by
  simp [record]

def object : Check := record []

/-- A page, as far as it is looked into. -/
def page : Check := record [("children", orNull (listOf object))]

/-- The pages of a document, of which the first is looked into. -/
def pages : Check
  | .list items => items.head?.all page
  | _ => false

def document : Check := record [("children", orNull pages)]

/-- The answer to a question: the document of a file, or an entry for a node. -/
def answer : Option String → Check
  | none => record [("document", orNull document)]
  | some id => record [("nodes", orNull (record [(id, orNull object)]))]

end Schema

def Value.membersOrNone : Value → Members
  | object ms => ms
  | _ => []

def Value.objects : Value → List Members
  | list items =>
    items.filterMap fun
      | object ms => some ms
      | _ => none
  | _ => []

theorem Value.objects_map (mss : List Members) : (list (mss.map object)).objects = mss := by
  show (mss.map object).filterMap _ = mss
  rw [List.filterMap_map]
  exact List.filterMap_some

theorem Schema.exists_objects {items : List Value} (h : ∀ v ∈ items, object v = true) :
    ∃ mss : List Members, items = mss.map .object := by
  induction items with
  | nil => exact ⟨[], rfl⟩
  | cons v items ih =>
      obtain ⟨first, rest⟩ := List.forall_mem_cons.mp h
      obtain ⟨ms, rfl, -⟩ := eq_object_of_record first
      obtain ⟨mss, rfl⟩ := ih rest
      exact ⟨ms :: mss, rfl⟩

namespace Imported

section

variable (ms : Members)

def pageIn : Option Members :=
  (Members.get (Members.get ms "document").membersOrNone "children").objects.head?

def childrenOn (page : Members) : List Members := (Members.get page "children").objects

/-- A child is of a kind that is taken when no node is named. -/
def IsTaken (child : Members) : Prop :=
  Members.get child "type" = .text "FRAME" ∨ Members.get child "type" = .text "COMPONENT"

def entryIn (id : String) : Members :=
  (Members.get (Members.get ms "nodes").membersOrNone id).membersOrNone

def nameIn : Value := Members.getOr ms "name" (.text "")

/-- What is meant to come of an answer, with or without the name of a node: the node to convert with
the name of the file, or what was not found. -/
inductive Selects : Option String → Except Failure Target → Prop
  | noPage : pageIn ms = none → Selects none (.error (.notFound .page))
  | noFrame {page : Members} : pageIn ms = some page →
      (∀ child ∈ childrenOn page, ¬ IsTaken child) → Selects none (.error (.notFound .frame))
  | frame {page frame : Members} {before after : List Members} : pageIn ms = some page →
      childrenOn page = before ++ frame :: after → (∀ child ∈ before, ¬ IsTaken child) →
      IsTaken frame → Selects none (.ok (.object frame, nameIn ms))
  | noNode {id : String} : entryIn ms id = [] → Selects (some id) (.error (.notFound (.node id)))
  | node {id : String} {document : Value} : (entryIn ms id).lookup "document" = some document →
      Selects (some id) (.ok (document, nameIn ms))

/-- The missing parts of an answer are absent and not null where that makes a difference. -/
def IsPlain : Option String → Prop
  | none => ms.lookup "document" ≠ some .null ∧
      ∀ page, pageIn ms = some page → page.lookup "children" ≠ some .null
  | some id => entryIn ms id ≠ [] → ((entryIn ms id).lookup "document").isSome = true

/-- What comes in the way of the search where that is not so. -/
def obstacle : Option String → Fault
  | none => if (ms.lookup "document").any Value.isNull then .noSuchPart else .wrongKind
  | some _ => .missingMember

end

/-! ## Files -/

theorem isTopLevel_iff {child : Members} :
    isTopLevel (Members.get child "type") = true ↔ IsTaken child := by
  rw [isTopLevel, IsTaken, Bool.or_eq_true]
  have isText : ∀ (v : Value) (s : String), v.isText s = true ↔ v = .text s := by
    intro v s
    cases v <;> simp [Value.isText]
  rw [isText, isText]

/-- Among objects the search for a node to take finds the first that is taken, if there is one. -/
theorem firstTopLevel_cases (children : List Members) :
    ((∀ child ∈ children, ¬ IsTaken child) ∧
        firstTopLevel (children.map .object) = .error (.notFound .frame)) ∨
      ∃ before frame after, children = before ++ frame :: after ∧
        (∀ child ∈ before, ¬ IsTaken child) ∧ IsTaken frame ∧
        firstTopLevel (children.map .object) = .ok (.object frame) := by
  induction children with
  | nil => exact Or.inl ⟨nofun, rfl⟩
  | cons child children ih =>
      have step : firstTopLevel ((child :: children).map .object)
          = if isTopLevel (Members.get child "type") then .ok (.object child)
            else firstTopLevel (children.map .object) :=
        rfl
      rw [step]
      by_cases taken : isTopLevel (Members.get child "type") = true
      · rw [if_pos taken]
        exact Or.inr ⟨[], child, children, rfl, nofun, isTopLevel_iff.mp taken, rfl⟩
      · rw [if_neg taken]
        have other : ¬ IsTaken child := mt isTopLevel_iff.mpr taken
        rcases ih with ⟨none, nothing⟩ | ⟨before, frame, after, rfl, others, first, found⟩
        · exact Or.inl ⟨List.forall_mem_cons.mpr ⟨other, none⟩, nothing⟩
        · exact Or.inr ⟨child :: before, frame, after, rfl,
            List.forall_mem_cons.mpr ⟨other, others⟩, first, found⟩

def targetOnPage (ms page : Members) : Except Failure Target := do
  let candidates ← orFail (Members.getOr page "children" (.list [])).items?
  let node ← firstTopLevel candidates
  pure (node, nameIn ms)

def targetInDocument (ms document : Members) : Except Failure Target :=
  let pages := Members.getOr document "children" (.list [])
  if !pages.isPresent then .error (.notFound .page)
  else do
    let page ← orFail (do (← firstPage pages).members?)
    targetOnPage ms page

theorem targetOfFile_object (ms : Members) :
    targetOfFile (.object ms) = (do
      let document ← orFail (Members.getOr ms "document" (.object [])).members?
      targetInDocument ms document) :=
  rfl

theorem targetInDocument_cases {ms document : Members}
    (shape : Schema.document (.object document) = true) :
    ((Members.get document "children").objects.head? = none ∧
        targetInDocument ms document = .error (.notFound .page)) ∨
      ∃ page, (Members.get document "children").objects.head? = some page ∧
        Schema.page (.object page) = true ∧
        targetInDocument ms document = targetOnPage ms page := by
  have field := (Schema.record_singleton _ _).symm.trans shape
  unfold targetInDocument Members.get Members.getOr
  rcases Schema.allows_orNull_cases field with none | null | ⟨v, held, passes⟩
  · rw [none]
    exact Or.inl ⟨rfl, rfl⟩
  · rw [null]
    exact Or.inl ⟨rfl, rfl⟩
  · rw [held]
    cases v with
    | list items =>
        cases items with
        | nil => exact Or.inl ⟨rfl, rfl⟩
        | cons first others =>
            obtain ⟨page, rfl, -⟩ := Schema.eq_object_of_record passes
            exact Or.inr ⟨page, rfl, passes, rfl⟩
    | _ => cases passes

theorem targetOfFile_cases {ms : Members} (shape : Schema.answer none (.object ms) = true)
    (present : ms.lookup "document" ≠ some .null) :
    (pageIn ms = none ∧ targetOfFile (.object ms) = .error (.notFound .page)) ∨
      ∃ page, pageIn ms = some page ∧ Schema.page (.object page) = true ∧
        targetOfFile (.object ms) = targetOnPage ms page := by
  have field := (Schema.record_singleton _ _).symm.trans shape
  rw [targetOfFile_object, pageIn]
  unfold Members.get Members.getOr
  rcases Schema.allows_orNull_cases field with none | null | ⟨v, held, passes⟩
  · rw [none]
    exact Or.inl ⟨rfl, rfl⟩
  · exact absurd null present
  · obtain ⟨document, rfl, -⟩ := Schema.eq_object_of_record passes
    rw [held]
    exact targetInDocument_cases passes

theorem targetOnPage_of_null {page : Members} (null : page.lookup "children" = some .null)
    (ms : Members) : targetOnPage ms page = .error (.data .wrongKind) := by
  rw [targetOnPage, Members.getOr, null]
  rfl

theorem selects_targetOnPage {ms page : Members} (here : pageIn ms = some page)
    (shape : Schema.page (.object page) = true) (present : page.lookup "children" ≠ some .null) :
    Selects ms none (targetOnPage ms page) := by
  have field := (Schema.record_singleton _ _).symm.trans shape
  obtain ⟨children, listed, same⟩ : ∃ children : List Members,
      Members.getOr page "children" (.list []) = .list (children.map .object) ∧
        childrenOn page = children := by
    unfold childrenOn Members.get Members.getOr
    rcases Schema.allows_orNull_cases field with none | null | ⟨v, held, passes⟩
    · rw [none]
      exact ⟨[], rfl, rfl⟩
    · exact absurd null present
    · obtain ⟨items, rfl, objects⟩ := Schema.eq_list_of_listOf passes
      obtain ⟨children, rfl⟩ := Schema.exists_objects objects
      rw [held]
      exact ⟨children, rfl, Value.objects_map children⟩
  have search : targetOnPage ms page
      = (do pure (← firstTopLevel (children.map .object), nameIn ms)) := by
    rw [targetOnPage, listed]
    rfl
  rw [search]
  rcases firstTopLevel_cases children with
    ⟨none, nothing⟩ | ⟨before, frame, after, rfl, others, first, found⟩
  · rw [nothing]
    exact .noFrame here (same ▸ none)
  · rw [found]
    exact .frame here same others first

theorem targetOfFile_of_not_isPlain {ms : Members}
    (shape : Schema.answer none (.object ms) = true) (h : ¬ IsPlain ms none) :
    targetOfFile (.object ms) = .error (.data (obstacle ms none)) := by
  rw [obstacle]
  by_cases null : ms.lookup "document" = some .null
  · rw [targetOfFile_object, Members.getOr, null]
    rfl
  · obtain ⟨page, here, null'⟩ : ∃ page, pageIn ms = some page ∧
        page.lookup "children" = some .null := by
      simpa [IsPlain, null] using h
    have other : ¬ (ms.lookup "document").any Value.isNull = true := by
      cases found : ms.lookup "document" with
      | none => simp
      | some v =>
          rw [found] at null
          cases v <;> simp_all [Value.isNull]
    rw [if_neg other]
    rcases targetOfFile_cases shape null with ⟨none, -⟩ | ⟨page', here', -, found⟩
    · cases none.symm.trans here
    · obtain rfl := Option.some.inj (here.symm.trans here')
      rw [found, targetOnPage_of_null null']

theorem selects_targetOfFile_iff {ms : Members} (shape : Schema.answer none (.object ms) = true) :
    Selects ms none (targetOfFile (.object ms)) ↔ IsPlain ms none := by
  constructor
  · intro selected
    by_contra obstructed
    rw [targetOfFile_of_not_isPlain shape obstructed] at selected
    cases selected
  · rintro ⟨present, children⟩
    rcases targetOfFile_cases shape present with ⟨none, nothing⟩ | ⟨page, here, looked, found⟩
    · rw [nothing]
      exact .noPage none
    · rw [found]
      exact selects_targetOnPage here looked (children page here)

/-! ## Nodes -/

def targetInEntries (ms : Members) (id : String) (entries : Members) : Except Failure Target :=
  if !(Members.get entries id).isPresent then .error (.notFound (.node id))
  else do
    let document ← orFail (documentOf (Members.get entries id))
    pure (document, nameIn ms)

theorem targetOfNodes_object (ms : Members) (id : String) :
    targetOfNodes (.object ms) id
      = if (Members.get ms "nodes").isPresent
        then orFail (Members.get ms "nodes").members? >>= targetInEntries ms id
        else targetInEntries ms id [] :=
  rfl

theorem targetInEntries_eq {ms entries : Members} {id : String}
    (shape : Schema.orNull Schema.object (Members.get entries id) = true) :
    targetInEntries ms id entries
      = if (Members.get entries id).membersOrNone = [] then .error (.notFound (.node id))
        else match (Members.get entries id).membersOrNone.lookup "document" with
          | some document => .ok (document, nameIn ms)
          | none => .error (.data .missingMember) := by
  rw [targetInEntries]
  rcases Schema.orNull_iff.mp shape with null | passes
  · rw [null]
    rfl
  · obtain ⟨entry, held, -⟩ := Schema.eq_object_of_record passes
    rw [held]
    cases entry with
    | nil => rfl
    | cons first rest =>
        have present : ¬ (!(Value.object (first :: rest)).isPresent) = true := by
          simp [Value.isPresent]
        rw [if_neg present, Value.membersOrNone, if_neg (List.cons_ne_nil _ _), documentOf]
        cases (first :: rest).lookup "document" <;> rfl

theorem targetOfNodes_eq {ms : Members} {id : String}
    (shape : Schema.answer (some id) (.object ms) = true) :
    targetOfNodes (.object ms) id
      = if entryIn ms id = [] then .error (.notFound (.node id))
        else match (entryIn ms id).lookup "document" with
          | some document => .ok (document, nameIn ms)
          | none => .error (.data .missingMember) := by
  have nodes := Schema.get_of_allows ((Schema.record_singleton _ _).symm.trans shape)
  rw [targetOfNodes_object, entryIn]
  rcases Schema.orNull_iff.mp nodes with null | passes
  · rw [null]
    rfl
  · obtain ⟨entries, held, fields⟩ := Schema.eq_object_of_record passes
    have entry := Schema.get_of_allows ((Schema.record_singleton _ _).symm.trans fields)
    rw [held, Value.membersOrNone, ← targetInEntries_eq entry]
    cases entries <;> rfl

theorem selects_targetOfNodes_iff {ms : Members} {id : String}
    (shape : Schema.answer (some id) (.object ms) = true) :
    Selects ms (some id) (targetOfNodes (.object ms) id) ↔ IsPlain ms (some id) := by
  rw [targetOfNodes_eq shape, IsPlain]
  by_cases empty : entryIn ms id = []
  · rw [if_pos empty]
    exact iff_of_true (.noNode empty) (absurd empty)
  · rw [if_neg empty]
    cases found : (entryIn ms id).lookup "document" with
    | some document => exact iff_of_true (.node found) fun _ => rfl
    | none =>
        refine iff_of_false nofun fun plain => ?_
        exact Bool.false_ne_true (plain empty)

theorem targetOfNodes_of_not_isPlain {ms : Members} {id : String}
    (shape : Schema.answer (some id) (.object ms) = true) (h : ¬ IsPlain ms (some id)) :
    targetOfNodes (.object ms) id = .error (.data .missingMember) := by
  obtain ⟨present, lacking⟩ := Classical.not_imp.mp h
  have none := Option.not_isSome_iff_eq_none.mp lacking
  rw [targetOfNodes_eq shape, if_neg present, none]

/-! ## Answers to a question -/

/-- Where an answer to the question for a link has the right shape, the node to convert is selected
as it is meant to be exactly if the answer is plain. Otherwise the search comes upon an obstacle. -/
theorem selects_on_fetchTarget_iff {c : Client} {link : ShareLink} {ms : Members} {w w' : Wire}
    (shape : Schema.answer link.nodeId (.object ms) = true)
    (asked : (c.ask link.place link.params).on w = (.ok (.object ms), w')) :
    ∃ result, (fetchTarget c link).on w = (result, w') ∧
      (Selects ms link.nodeId result ↔ IsPlain ms link.nodeId) ∧
      (¬ IsPlain ms link.nodeId → result = .error (.data (obstacle ms link.nodeId))) := by
  obtain ⟨key, nodeId⟩ := link
  refine ⟨_, on_fetchTarget asked, ?_⟩
  cases nodeId with
  | some id => exact ⟨selects_targetOfNodes_iff shape, targetOfNodes_of_not_isPlain shape⟩
  | none => exact ⟨selects_targetOfFile_iff shape, targetOfFile_of_not_isPlain shape⟩

/-! ### Boards -/

namespace Board

def link : ShareLink := { fileKey := "KEY", nodeId := none }

def file (children : Value) : Members :=
  [("name", .null), ("document", .object [("children",
    .list [.object [("name", .text "Page"), ("children", children)], .null])])]

def wire (ms : Members) : Wire := Wire.fresh [.answered ⟨200, [], .json (.object ms)⟩]

theorem asked (ms : Members) :
    (Gallery.visitor.ask link.place link.params).on (wire ms)
      = (.ok (.object ms),
          (wire ms).after (Gallery.visitor.question link.place link.params) 1 []) :=
  rfl

def loose : Members := [("type", .text "TEXT"), ("name", .text "Loose")]

def untyped : Members := [("type", .null)]

def card : Members := [("type", .text "COMPONENT"), ("name", .text "Card")]

def crowded : Value := .list [.object loose, .object untyped, .object [], .object card]

end Board

open Board

/-- The file has no name and its second page is null, and still the component is found. -/
theorem selects_on_fetchTarget_crowded :
    Schema.answer link.nodeId (.object (file crowded)) = true ∧
      Selects (file crowded) none ((fetchTarget Gallery.visitor link).on (wire (file crowded))).1 ∧
      ((fetchTarget Gallery.visitor link).on (wire (file crowded))).1
        = .ok (.object card, .null) := by
  have shape : Schema.answer link.nodeId (.object (file crowded)) = true := by decide
  obtain ⟨result, run, selects, -⟩ := selects_on_fetchTarget_iff shape (asked _)
  have plain : IsPlain (file crowded) none := by
    refine ⟨nofun, ?_⟩
    rintro page ⟨⟩
    exact nofun
  refine ⟨shape, ?_, rfl⟩
  rw [run]
  exact selects.mpr plain

/-- Null for the children of the first page, and null for the document, are not taken for a page
without frames and a file without pages. -/
theorem not_selects_on_fetchTarget_null :
    (Schema.answer none (.object (file .null)) = true ∧
      Selects (file .null) none (.error (.notFound .frame)) ∧
      ((fetchTarget Gallery.visitor link).on (wire (file .null))).1 = .error (.data .wrongKind) ∧
      ¬ Selects (file .null) none (.error (.data .wrongKind))) ∧
    Schema.answer none (.object [("document", .null)]) = true ∧
      Selects [("document", .null)] none (.error (.notFound .page)) ∧
      ((fetchTarget Gallery.visitor link).on (wire [("document", .null)])).1
        = .error (.data .noSuchPart) ∧
      ¬ Selects [("document", .null)] none (.error (.data .noSuchPart)) := by
  have emptyPage : pageIn (file .null) = some [("name", .text "Page"), ("children", .null)] := rfl
  exact ⟨⟨by decide, .noFrame emptyPage nofun, rfl, nofun⟩, by decide, .noPage rfl, rfl, nofun⟩

end Imported

end DesignMarkup
