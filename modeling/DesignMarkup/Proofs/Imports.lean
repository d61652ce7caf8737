import DesignMarkup.Import
import DesignMarkup.Proofs.Coherent
import DesignMarkup.Proofs.Exchanges
import DesignMarkup.Proofs.Levels

/-!
# Imports, opened

An import is two questions with a computation between them. The first asks for the node that a
link names, the computation checks and converts it, and the second asks for the addresses of the
images that the converted design uses. Here each part is opened once: what it asks, what it makes
of the answer, and what it leaves on the wire.
-/

namespace DesignMarkup

theorem orFail_eq_ok_iff {α : Type} {x : Except Fault α} {a : α} :
    orFail x = .ok a ↔ x = .ok a := by
  cases x <;> simp [orFail, Except.mapError]

/-! ## The first question -/

namespace ShareLink

def place (link : ShareLink) : String :=
  match link.nodeId with
  | some _ => "/files/" ++ link.fileKey ++ "/nodes"
  | none => "/files/" ++ link.fileKey

def params (link : ShareLink) : Value :=
  match link.nodeId with
  | some id => .object [("ids", .text id)]
  | none => .object [("depth", .whole 2)]

def targetIn (link : ShareLink) (answer : Value) : Except Failure Imported.Target :=
  match link.nodeId with
  | some id => Imported.targetOfNodes answer id
  | none => Imported.targetOfFile answer

end ShareLink

theorem ShareLink.ofValue?_text (s : String) : ofValue? (.text s) = .ok (ofText? s) := by
  by_cases empty : s = ""
  · subst empty
    rfl
  · have present : (Value.text s).isPresent = true := by simpa [Value.isPresent] using empty
    exact if_pos present

theorem Value.joinTexts_texts (separator : String) (texts : List String) :
    joinTexts separator (texts.map .text) = .ok (separator.intercalate texts) := by
  refine bind_eq_ok_iff.mpr ⟨texts, ?_, rfl⟩
  induction texts with
  | nil => rfl
  | cons s rest ih =>
      rw [List.map_cons, List.mapM_cons, ih]
      rfl

namespace Client

theorem commaJoined_texts (ids : List String) :
    commaJoined (.list (ids.map .text)) = .ok (.text (",".intercalate ids)) :=
  bind_eq_ok_iff.mpr ⟨_, rfl, bind_eq_ok_iff.mpr ⟨_, Value.joinTexts_texts "," ids, rfl⟩⟩

variable (c : Client) (key : String) (ids : List String) (w : Wire)

theorem on_fileNodes :
    (c.fileNodes (.text key) (.list (ids.map .text))).on w
      = (c.ask ("/files/" ++ key ++ "/nodes") (.object [("ids", .text (",".intercalate ids))])).on
          w := by
  rw [fileNodes, commaJoined_texts]
  exact Session.on_bind_of_ok (Session.on_data _ w)

theorem on_images (format scale : Value) :
    (c.images (.text key) (.list (ids.map .text)) format scale).on w
      = (c.ask ("/images/" ++ key)
          (.object [("ids", .text (",".intercalate ids)), ("format", format), ("scale", scale)])).on
          w := by
  rw [images, commaJoined_texts]
  exact Session.on_bind_of_ok (Session.on_data _ w)

end Client

/-- The target of a link is looked for in the answer to its question. -/
theorem Imported.on_fetchTarget {c : Client} {link : ShareLink} {w w' : Wire}
    {result : Except Failure Value} (h : (c.ask link.place link.params).on w = (result, w')) :
    (fetchTarget c link).on w = (result >>= link.targetIn, w') := by
  obtain ⟨key, nodeId⟩ := link
  cases nodeId with
  | some id =>
      have alone : ",".intercalate [id] = id := String.intercalate_singleton
      have asked := c.on_fileNodes key [id] w
      rw [alone] at asked
      exact Session.on_bind_check (asked.trans h)
  | none =>
      have two : (Value.whole 2).isPresent = true := by
        show (!(Number.whole 2).isZero) = true
        rw [Number.isZero_whole]
        rfl
      have asked : (c.file (.text key) (.whole 2)).on w
          = (c.ask ("/files/" ++ key) (.object [("depth", .whole 2)])).on w := by
        rw [Client.file, if_pos two]
        rfl
      exact Session.on_bind_check (asked.trans h)

/-- A link whose node was fetched leaves room for an attempt. -/
theorem Imported.once_of_on_fetchTarget {c : Client} {limit : Nat}
    (limited : c.settings.maxRetries.number? = some (.whole limit))
    {link : ShareLink} {w w' : Wire} {target : Target}
    (fetched : (fetchTarget c link).on w = (.ok target, w')) : 1 ≤ limit := by
  obtain ⟨result, w'', asked⟩ : ∃ result w'', (c.ask link.place link.params).on w = (result, w'') :=
    ⟨_, _, rfl⟩
  obtain ⟨found, rfl⟩ := Prod.mk.inj ((on_fetchTarget asked).symm.trans fetched)
  obtain ⟨answer, rfl, -⟩ := bind_eq_ok_iff.mp found
  obtain ⟨limit', limited', once⟩ := Client.limited_of_on_ask asked
  have same := Number.whole.inj (Option.some.inj (limited.symm.trans limited'))
  obtain rfl : limit = limit' := Int.natCast_inj.mp same
  exact once

/-! ## The second question -/

def Wire.reporting (w : Wire) (lines : List LogLine) : Wire := { w with log := w.log ++ lines }

theorem Wire.reporting_nil (w : Wire) : w.reporting [] = w := by
  obtain ⟨outcomes, requests, waits, log⟩ := w
  simp [reporting]

theorem Wire.reporting_reporting (w : Wire) (lines more : List LogLine) :
    (w.reporting lines).reporting more = w.reporting (lines ++ more) := by
  simp [reporting]

namespace ImageUse

/-- Texts without repetitions stand in the order in which they first came. -/
theorem distinct_eq (ids : List String) : distinct ids = ids.eraseDups := by
  have entered : ∀ (ids : List String) (table : Ordered String Unit),
      ids.foldl (fun seen id => if seen.contains id then seen else seen ++ [id]) table.keys
        = (table.putAll (ids.map (·, ()))).keys := by
    intro ids
    induction ids with
    | nil => exact fun _ => rfl
    | cons id rest ih =>
        intro table
        have one : (if table.keys.contains id then table.keys else table.keys ++ [id])
            = (table.put id ()).keys := by
          simp [Ordered.keys_put]
        rw [List.foldl_cons, one, ih]
        rfl
  have none : Ordered.keys ([] : Ordered String Unit) = [] := rfl
  have keys := Ordered.keys_putAll (ids.map (·, ())) (none ▸ List.nodup_nil)
  rw [none, List.nil_append, List.map_map] at keys
  exact (entered ids []).trans (keys.trans (congrArg List.eraseDups (List.map_id ids)))

/-- The nodes of image uses are texts. -/
theorem nodeTexts_eq_ok_iff {uses : List ImageUse} {ids : List String} :
    nodeTexts uses = .ok ids ↔ uses.map (·.nodeId) = ids.map .text := by
  induction uses generalizing ids with
  | nil => simp [nodeTexts, pure, Except.pure, eq_comm]
  | cons use rest ih =>
      rw [nodeTexts, List.mapM_cons, ← nodeTexts, bind_eq_ok_iff]
      constructor
      · rintro ⟨id, hid, h⟩
        obtain ⟨others, hothers, h⟩ := bind_eq_ok_iff.mp h
        obtain rfl := pure_eq_ok_iff.mp h
        rw [List.map_cons, List.map_cons, ih.mp hothers]
        split at hid
        · rename_i s hs
          obtain rfl := Except.ok.inj hid
          rw [hs]
        · cases hid
      · intro h
        match ids, h with
        | id :: others, h =>
          obtain ⟨hid, hothers⟩ := List.cons_eq_cons.mp h
          have hid : use.nodeId = .text id := hid
          refine ⟨id, ?_, bind_eq_ok_iff.mpr ⟨others, ih.mpr hothers, rfl⟩⟩
          rw [hid]

def place (key : String) : String := "/images/" ++ key

def params (ids : List String) : Value :=
  .object [("ids", .text (",".intercalate ids.eraseDups)), ("format", .text "png"),
    ("scale", .whole 2)]

/-- What was exported, by node; nothing where the member counts as absent. -/
def exported (v : Value) : Except Fault Members := if v.isPresent then v.members? else pure []

def addressesIn (answer : Value) : Except Fault Members := do
  let ms ← answer.members?
  (exported (Members.get ms "images")).map addresses

/-- Addresses are handed on, with or without a report of the nodes that have none. -/
theorem on_unaddressed (ids : List String) (urls : Members) (w : Wire) :
    ∃ lines, (if (unaddressed ids urls).isEmpty then pure urls
      else do
        Session.report .warning (.ok (missingReport (unaddressed ids urls)))
        pure urls : Session Members).on w = (.ok urls, w.reporting lines) := by
  split
  · exact ⟨[], by rw [Wire.reporting_nil]; rfl⟩
  · exact ⟨_, Session.on_bind_of_ok (Session.on_report _ _ w)⟩

variable {c : Client} {key : String} {uses : List ImageUse} {w w' : Wire}

/-- Nothing is asked for nodes that are no texts. -/
theorem on_resolve_of_fault (used : uses ≠ []) {fault : Fault}
    (texts : nodeTexts uses = .error fault) :
    (resolve c (.text key) uses Client.defaultFormat Client.defaultScale).on w
      = (.error (.data fault), w) := by
  have some : ¬ uses.isEmpty = true := fun none => used (List.isEmpty_iff.mp none)
  rw [resolve, if_neg some, texts]
  exact Session.on_bind_of_error (Session.on_data (.error fault) w)

/-- The addresses are looked for in the answer to the question for all nodes; the nodes without
one are reported. -/
theorem on_resolve (used : uses ≠ []) {ids : List String} (texts : nodeTexts uses = .ok ids)
    {result : Except Failure Value} (h : (c.ask (place key) (params ids)).on w = (result, w')) :
    ∃ lines, (resolve c (.text key) uses Client.defaultFormat Client.defaultScale).on w
      = (result >>= fun v => orFail (addressesIn v), w'.reporting lines) := by
  have some : ¬ uses.isEmpty = true := fun none => used (List.isEmpty_iff.mp none)
  have asked := c.on_images key (distinct ids) w Client.defaultFormat Client.defaultScale
  rw [distinct_eq] at asked
  rw [resolve, if_neg some, texts, Session.on_bind_of_ok (Session.on_data (.ok ids) w), distinct_eq]
  cases result with
  | error f =>
      rw [Session.on_bind_of_error (asked.trans h)]
      exact ⟨[], by rw [Wire.reporting_nil]; rfl⟩
  | ok answer =>
      have whole : (Except.ok answer >>= fun v => orFail (addressesIn v))
          = orFail (addressesIn answer) := rfl
      rw [Session.on_bind_of_ok (asked.trans h), whole, addressesIn]
      cases members : answer.members? with
      | error fault =>
          rw [Session.on_bind_of_error (Session.on_data (.error fault) w')]
          exact ⟨[], by rw [Wire.reporting_nil]; rfl⟩
      | ok ms =>
          rw [Session.on_bind_of_ok (Session.on_data (.ok ms) w')]
          dsimp only
          have read :
              (Except.ok ms >>= fun ms => (exported (Members.get ms "images")).map addresses)
                = (exported (Members.get ms "images")).map addresses := rfl
          rw [read, exported]
          split
          · cases held : (Members.get ms "images").members? with
            | error fault =>
                rw [Session.on_bind_of_error (Session.on_data (.error fault) w')]
                exact ⟨[], by rw [Wire.reporting_nil]; rfl⟩
            | ok urls =>
                rw [Session.on_bind_of_ok (Session.on_data (.ok urls) w')]
                exact on_unaddressed _ (addresses urls) w'
          · rw [Session.on_bind_of_ok (Session.on_pure _ w')]
            exact on_unaddressed _ (addresses []) w'

end ImageUse

namespace Imported

variable {c : Client} {key : String} {w w' : Wire}

/-- What came of addresses, if anything: a failure that is reported is none. -/
def excused : Except Failure Members → Except Failure (Option Members)
  | .ok urls => .ok (some urls)
  | .error f => if f.isReported then .ok none else .error f

/-- A converted design with what came of its addresses; without any it stays as it is. -/
def settled (r : Converted) : Option Members → Except Failure Converted
  | some urls => do
    let extra ← orFail (Stylesheet.printImages r.images urls)
    pure { r with css := cssWithImages r.css extra }
  | none => .ok r

theorem on_tryResolve {uses : List ImageUse} {result : Except Failure Members}
    (h : (ImageUse.resolve c (.text key) uses Client.defaultFormat Client.defaultScale).on w
      = (result, w')) :
    ∃ lines, (tryResolve c key uses).on w = (excused result, w'.reporting lines) := by
  rw [tryResolve]
  cases result with
  | ok urls =>
      have found := Session.on_bind_of_ok (f := fun urls => pure (some urls)) h
      rw [Session.on_tryCatch (found.trans (Session.on_pure _ w'))]
      exact ⟨[], by rw [Wire.reporting_nil]; rfl⟩
  | error f =>
      rw [Session.on_tryCatch (Session.on_bind_of_error h), excused]
      dsimp only
      split
      · exact ⟨_, Session.on_bind_of_ok (Session.on_report _ _ w')⟩
      · exact ⟨[], by rw [Wire.reporting_nil]; rfl⟩

theorem on_withImages {r : Converted} (used : r.images ≠ []) {result : Except Failure Members}
    (h : (ImageUse.resolve c (.text key) r.images Client.defaultFormat Client.defaultScale).on w
      = (result, w')) :
    ∃ lines, (withImages c key r).on w
      = (excused result >>= settled r, w'.reporting lines) := by
  have some : ¬ r.images.isEmpty = true := fun none => used (List.isEmpty_iff.mp none)
  obtain ⟨lines, tried⟩ := on_tryResolve h
  refine ⟨lines, ?_⟩
  rw [withImages, if_neg some]
  cases outcome : excused result with
  | error f =>
      rw [outcome] at tried
      exact Session.on_bind_of_error tried
  | ok found =>
      rw [outcome] at tried
      rw [Session.on_bind_of_ok tried]
      cases found with
      | none => rfl
      | some urls =>
          exact Session.on_bind_check
            (g := fun extra => .ok { r with css := cssWithImages r.css extra })
            (Session.on_data _ _)

theorem on_withImages_of_none {r : Converted} (none : r.images = []) :
    (withImages c key r).on w = (.ok r, w) := by
  have : r.images.isEmpty = true := List.isEmpty_iff.mpr none
  rw [withImages, if_pos this]
  rfl

section

variable {r : Converted} (used : r.images ≠ [])

include used

/-- The images of a design whose nodes are no texts cannot be had, and that is not excused. -/
theorem on_withImages_of_no_texts
    (no_texts : ¬ ∃ ids : List String, r.images.map (·.nodeId) = ids.map .text) :
    ∃ fault lines, (withImages c key r).on w = (.error (.data fault), w.reporting lines) := by
  cases texts : ImageUse.nodeTexts r.images with
  | ok ids => exact absurd ⟨ids, ImageUse.nodeTexts_eq_ok_iff.mp texts⟩ no_texts
  | error fault => exact ⟨fault, on_withImages used (ImageUse.on_resolve_of_fault used texts)⟩

/-- What comes of the images of a design follows from what comes of the question for them. -/
theorem on_withImages_of_asked {ids : List String} (texts : r.images.map (·.nodeId) = ids.map .text)
    {result : Except Failure Value}
    (asked : (c.ask (ImageUse.place key) (ImageUse.params ids)).on w = (result, w')) :
    ∃ lines, (withImages c key r).on w
      = (excused (result >>= fun v => orFail (ImageUse.addressesIn v)) >>= settled r,
          w'.reporting lines) := by
  obtain ⟨lines, resolved⟩ :=
    ImageUse.on_resolve used (ImageUse.nodeTexts_eq_ok_iff.mpr texts) asked
  obtain ⟨more, run⟩ := on_withImages used resolved
  rw [Wire.reporting_reporting] at run
  exact ⟨_, run⟩

end

/-- A design that comes through its images has texts for their nodes, and is settled with what comes
of the question for them, if there are any. -/
theorem of_on_withImages {r r' : Converted} (h : ((withImages c key r).on w).1 = .ok r') :
    ∃ (ids : List String) (found : Option Members), r.images.map (·.nodeId) = ids.map .text ∧
      settled r found = .ok r' ∧ (r.images = [] → found = none) ∧
      (r.images ≠ [] →
        excused (((c.ask (ImageUse.place key) (ImageUse.params ids)).on w).1 >>= fun v =>
          orFail (ImageUse.addressesIn v)) = .ok found) := by
  by_cases used : r.images = []
  · rw [on_withImages_of_none used] at h
    exact ⟨[], none, by rw [used]; rfl, h, fun _ => rfl, fun some => absurd used some⟩
  · by_cases texts : ∃ ids : List String, r.images.map (·.nodeId) = ids.map .text
    · obtain ⟨ids, texts⟩ := texts
      obtain ⟨result, w', asked⟩ : ∃ result w',
          (c.ask (ImageUse.place key) (ImageUse.params ids)).on w = (result, w') := ⟨_, _, rfl⟩
      obtain ⟨lines, run⟩ := on_withImages_of_asked used texts asked
      rw [run] at h
      obtain ⟨found, excuses, settles⟩ := bind_eq_ok_iff.mp h
      exact ⟨ids, found, texts, settles, fun none => absurd none used,
        fun _ => by rw [asked]; exact excuses⟩
    · obtain ⟨fault, lines, run⟩ := on_withImages_of_no_texts used texts
      rw [run] at h
      cases h

/-! ## The whole -/

/-- The design in a node, if the node is not too deep and converts. -/
def prepared (c : Client) (options : Except Fault Options) (node : Value) :
    Except Failure Converted := do
  Value.shape.ensure node c.settings.maxTreeDepth
  let options ← orFail options
  orFail (convertValue node options)

theorem prepared_eq_ok_iff {options : Except Fault Options} {node : Value} {r : Converted} :
    prepared c options node = .ok r ↔
      Value.shape.ensure node c.settings.maxTreeDepth = .ok () ∧
        ∃ o, options = .ok o ∧ convertValue node o = .ok r := by
  simp only [prepared, bind_eq_ok_iff, orFail_eq_ok_iff]
  exact ⟨fun ⟨_, fits⟩ => fits, fun fits => ⟨(), fits⟩⟩

/-- A node that is converted is prepared if it has no more levels than the limit. -/
theorem prepared_of_convertValue {limit : Int} (limited : c.settings.maxTreeDepth = .whole limit)
    {node : Value} {o : Options} {r : Converted} (h : convertValue node o = .ok r)
    (fits : node.levels ≤ limit) : prepared c (.ok o) node = .ok r := by
  have guard := TreeShape.ensure_of_depth (Value.depth_of_convertValue h) limit
  refine prepared_eq_ok_iff.mpr ⟨?_, o, rfl, h⟩
  rw [limited, guard, if_neg (by omega)]

def deliver (node fileName : Value) (r : Converted) : Except Failure Imported := do
  let ms ← orFail node.members?
  pure { converted := r
         fileName := fileName
         nodeId := Members.getOr ms "id" (.text "")
         nodeName := Members.getOr ms "name" (.text "") }

/-- What was prepared can be delivered, whatever was made of it since. -/
theorem deliver_of_prepared {options : Except Fault Options} {node : Value} {r : Converted}
    (h : prepared c options node = .ok r) (fileName : Value) (r' : Converted) :
    ∃ i, deliver node fileName r' = .ok i ∧ i.converted = r' := by
  obtain ⟨-, o, -, converted⟩ := prepared_eq_ok_iff.mp h
  obtain ⟨n, read, -⟩ := bind_eq_ok_iff.mp converted
  obtain ⟨ms, vs, rfl, -⟩ := Node.ofValue_eq_ok_iff.mp read
  exact ⟨_, rfl, rfl⟩

variable {url : Value} {options : Except Fault Options} {link : ShareLink}

theorem on_ofUrl_of_fault {fault : Fault} (h : ShareLink.ofValue? url = .error fault) :
    (ofUrl c url options).on w = (.error (.data fault), w) := by
  rw [ofUrl, h]
  exact Session.on_bind_of_error (Session.on_data _ w)

theorem on_ofUrl_of_none (h : ShareLink.ofValue? url = .ok none) :
    (ofUrl c url options).on w = (.error .noShareLink, w) := by
  rw [ofUrl, h]
  exact Session.on_bind_of_ok (Session.on_data (.ok none) w)

section

variable (linked : ShareLink.ofValue? url = .ok (some link))

include linked

theorem on_ofUrl_of_unfetched {f : Failure} (h : (fetchTarget c link).on w = (.error f, w')) :
    (ofUrl c url options).on w = (.error f, w') := by
  rw [ofUrl, linked, Session.on_bind_of_ok (Session.on_data (.ok (some link)) w)]
  exact Session.on_bind_of_error h

variable {node fileName : Value} (fetched : (fetchTarget c link).on w = (.ok (node, fileName), w'))

include fetched

theorem on_ofUrl_of_fetched :
    (ofUrl c url options).on w
      = (do
          let r ← Session.check (prepared c options node)
          let r ← withImages c link.fileKey r
          Session.check (deliver node fileName r) : Session Imported).on w' := by
  rw [ofUrl, linked, Session.on_bind_of_ok (Session.on_data (.ok (some link)) w),
    Session.on_bind_of_ok fetched, prepared]
  simp only [Session.check_bind, bind_assoc, deliver]
  rfl

theorem on_ofUrl_of_unprepared {f : Failure} (h : prepared c options node = .error f) :
    (ofUrl c url options).on w = (.error f, w') := by
  rw [on_ofUrl_of_fetched linked fetched, h]
  exact Session.on_bind_of_error (Session.on_check _ w')

theorem on_ofUrl_of_prepared {r : Converted} (h : prepared c options node = .ok r)
    {result : Except Failure Converted} {w'' : Wire}
    (images : (withImages c link.fileKey r).on w' = (result, w'')) :
    (ofUrl c url options).on w = (result >>= deliver node fileName, w'') := by
  rw [on_ofUrl_of_fetched linked fetched, h, Session.on_bind_of_ok (Session.on_check (.ok r) w')]
  exact Session.on_bind_check images

section

variable {r : Converted} (made : prepared c options node = .ok r)

include made

/-- A design without images is delivered as it was converted, and nothing more is asked for. -/
theorem on_ofUrl_of_no_images (none : r.images = []) :
    (ofUrl c url options).on w = (deliver node fileName r, w') :=
  on_ofUrl_of_prepared linked fetched made (on_withImages_of_none none)

/-- An import delivers what its images leave of the design. -/
theorem on_withImages_of_on_ofUrl {i : Imported} (h : ((ofUrl c url options).on w).1 = .ok i) :
    ((withImages c link.fileKey r).on w').1 = .ok i.converted := by
  obtain ⟨result, w'', images⟩ : ∃ result w'',
      (withImages c link.fileKey r).on w' = (result, w'') := ⟨_, _, rfl⟩
  rw [on_ofUrl_of_prepared linked fetched made images] at h
  obtain ⟨r', rfl, delivers⟩ := bind_eq_ok_iff.mp h
  obtain ⟨i', delivers', rfl⟩ := deliver_of_prepared made fileName r'
  rw [images, Except.ok.inj (delivers.symm.trans delivers')]

/-- Behind a node that converts only its images can sink an import. -/
theorem succeeds_on_ofUrl_of_prepared :
    Succeeds ((ofUrl c url options).on w).1 ↔
      Succeeds ((withImages c link.fileKey r).on w').1 := by
  constructor
  · rintro ⟨i, h⟩
    exact ⟨i.converted, on_withImages_of_on_ofUrl linked fetched made h⟩
  · rintro ⟨r', survives⟩
    obtain ⟨i, delivers, -⟩ := deliver_of_prepared made fileName r'
    rw [on_ofUrl_of_prepared linked fetched made (Prod.ext survives rfl)]
    exact ⟨i, delivers⟩

end

end

/-- An import that comes to something went through every step. -/
theorem on_ofUrl_eq_ok {i : Imported} (h : ((ofUrl c url options).on w).1 = .ok i) :
    ∃ link node fileName w₁ r, ShareLink.ofValue? url = .ok (some link) ∧
      (fetchTarget c link).on w = (.ok (node, fileName), w₁) ∧
      prepared c options node = .ok r ∧
      ((withImages c link.fileKey r).on w₁).1 = .ok i.converted := by
  cases linked : ShareLink.ofValue? url with
  | error fault =>
      rw [on_ofUrl_of_fault linked] at h
      cases h
  | ok found =>
      cases found with
      | none =>
          rw [on_ofUrl_of_none linked] at h
          cases h
      | some link =>
          obtain ⟨result, w₁, fetched⟩ : ∃ result w₁, (fetchTarget c link).on w = (result, w₁) :=
            ⟨_, _, rfl⟩
          cases result with
          | error f =>
              rw [on_ofUrl_of_unfetched linked fetched] at h
              cases h
          | ok target =>
              obtain ⟨node, fileName⟩ := target
              cases made : prepared c options node with
              | error f =>
                  rw [on_ofUrl_of_unprepared linked fetched made] at h
                  cases h
              | ok r =>
                  exact ⟨link, node, fileName, w₁, r, rfl, fetched, made,
                    on_withImages_of_on_ofUrl linked fetched made h⟩

end Imported

/-! ## A gallery -/

def Value.picture (id name : String) : Value :=
  .object
    [("id", .text id), ("name", .text name), ("type", .text "RECTANGLE"),
     ("fills", .list [.object [("type", .text "IMAGE"), ("imageRef", .text "ref")]])]

def Value.gallery : Value :=
  .object
    [("id", .text "1:2"), ("name", .text "Gallery"), ("type", .text "FRAME"),
     ("children", .list [picture "1:3" "Photo", picture "1:3" "Photo", picture "1:9" "Map"])]

namespace Gallery

def url : String := "https://www.figma.com/file/KEY?node-id=1-2"

def link : ShareLink := { fileKey := "KEY", nodeId := some "1:2" }

set_option maxRecDepth 20000 in
theorem linked : ShareLink.ofText? url = some link := by decide

theorem parsed : ShareLink.ofValue? (.text url) = .ok (some link) := by
  rw [ShareLink.ofValue?_text, linked]

/-- A client that asks twice at most, and for designs of two levels at most. -/
def visitor : Client :=
  { Client.patient 2 (.whole 1) with
    settings := { (Client.patient 2 (.whole 1)).settings with maxTreeDepth := .whole 2 } }

def answer : Value :=
  .object
    [("name", .text "Art"), ("nodes", .object [("1:2", .object [("document", .gallery)])])]

def ids : List String := ["1:3", "1:3", "1:9"]

section

variable (exported : Value)

def wire : Wire :=
  Wire.fresh [.answered ⟨200, [], .json answer⟩, .answered ⟨200, [], .json exported⟩]

def halfway : Wire := (wire exported).after (visitor.question link.place link.params) 1 []

theorem fetched :
    (Imported.fetchTarget visitor link).on (wire exported)
      = (.ok (.gallery, .text "Art"), halfway exported) := by
  rfl

theorem asked :
    (visitor.ask (ImageUse.place "KEY") (ImageUse.params ids)).on (halfway exported)
      = (.ok exported, (halfway exported).after
          (visitor.question (ImageUse.place "KEY") (ImageUse.params ids)) 1 []) := by
  rfl

end

set_option maxRecDepth 20000 in
theorem converted : ∃ r, convertValue .gallery .standard = .ok r ∧
    r.images.map (·.nodeId) = ids.map .text ∧
    r.images.map (·.className) = ["photo", "photo", "map"].map .text := by
  have images : (convertValue .gallery .standard).map
      (fun r => (r.images.map (·.nodeId), r.images.map (·.className)))
      = .ok (ids.map .text, ["photo", "photo", "map"].map .text) := by
    rfl
  obtain ⟨r, converted, images⟩ := map_eq_ok_iff.mp images
  exact ⟨r, converted, Prod.mk.inj images⟩

theorem shallow : Value.shape.ensure .gallery visitor.settings.maxTreeDepth = .ok () := by
  obtain ⟨r, converted, -⟩ := converted
  exact TreeShape.ensure_of_depth (Value.depth_of_convertValue converted) 2

theorem prepared {r : Converted} (h : convertValue .gallery .standard = .ok r) :
    Imported.prepared visitor (.ok .standard) .gallery = .ok r :=
  Imported.prepared_eq_ok_iff.mpr ⟨shallow, .standard, rfl, h⟩

theorem images_ne_nil {r : Converted} (texts : r.images.map (·.nodeId) = ids.map .text) :
    r.images ≠ [] := by
  intro none
  rw [none] at texts
  cases texts

/-- The gallery is imported with two requests, and with whatever comes of the second answer. -/
theorem on_ofUrl (exported : Value) {r : Converted} (h : convertValue .gallery .standard = .ok r)
    (texts : r.images.map (·.nodeId) = ids.map .text) :
    ∃ lines, (Imported.ofUrl visitor (.text url) (.ok .standard)).on (wire exported)
      = (Imported.excused (orFail (ImageUse.addressesIn exported)) >>= Imported.settled r
            >>= Imported.deliver .gallery (.text "Art"),
          ((halfway exported).after
            (visitor.question (ImageUse.place "KEY") (ImageUse.params ids)) 1 []).reporting
            lines) := by
  obtain ⟨lines, images⟩ :=
    Imported.on_withImages_of_asked (images_ne_nil texts) texts (asked exported)
  exact ⟨lines, Imported.on_ofUrl_of_prepared parsed (fetched exported) (prepared h) images⟩

end Gallery

end DesignMarkup
