import DesignMarkup.Proofs.ImportedStyles

/-!
# Images that cannot be had

An import means to go without the addresses of its images where the service fails. The handler that
sees to it takes the failures of the service and of the network and no others, and so an import
survives its images under a condition, which is found here: the nodes of the images are texts, the
exchange comes to a decision, and the outcome that decides it is a failure that is reported or holds
an object of the right shape. Where the import survives without an address, it delivers exactly what
the conversion made.
-/

namespace DesignMarkup

/-- The answer to a question for images has the right shape: it is an object, and what it holds as
images, if anything, is an object too. -/
def Value.HoldsAddresses (v : Value) : Prop :=
  ∃ ms, v = .object ms ∧
    ((Members.get ms "images").isPresent = false ∨ ∃ urls, Members.get ms "images" = .object urls)

/-- An outcome that an import can go on with, addresses or not. Of a response that is no error the
body has the right shape, or it is no JSON. -/
def Outcome.IsBearable : Outcome → Prop
  | answered r => r.isOk = true →
    match r.json with
    | .ok v => v.HoldsAddresses
    | .error f => f.isReported = true
  | unreachable _ _ => True
  | broken f => f.isReported = true

namespace ImageUse

theorem succeeds_addressesIn_iff {v : Value} : Succeeds (addressesIn v) ↔ v.HoldsAddresses := by
  constructor
  · rintro ⟨urls, h⟩
    obtain ⟨ms, object, h⟩ := bind_eq_ok_iff.mp h
    obtain ⟨exports, h, -⟩ := map_eq_ok_iff.mp h
    have same : v = .object ms := by
      cases v with
      | object other => rw [Except.ok.inj object]
      | _ => cases object
    refine ⟨ms, same, ?_⟩
    rw [exported] at h
    split at h
    · right
      cases held : Members.get ms "images" with
      | object urls => exact ⟨urls, rfl⟩
      | _ =>
          rw [held] at h
          cases h
    · rename_i absent
      exact Or.inl (by simpa using absent)
  · rintro ⟨ms, rfl, absent | ⟨urls, held⟩⟩
    · have none : exported (Members.get ms "images") = .ok [] := by
        rw [exported, absent]
        rfl
      exact ⟨addresses [], bind_eq_ok_iff.mpr ⟨ms, rfl, by rw [none]; rfl⟩⟩
    · exact ⟨_, Imported.addressesIn_object held⟩

end ImageUse

namespace Imported

theorem succeeds_excused_error {f : Failure} :
    Succeeds (excused (.error f)) ↔ f.isReported = true := by
  rw [excused]
  cases reported : f.isReported with
  | true => exact ⟨fun _ => rfl, fun _ => ⟨none, rfl⟩⟩
  | false => exact iff_of_false not_succeeds_error Bool.false_ne_true

theorem succeeds_excused_ok {v : Value} :
    Succeeds (excused (orFail (ImageUse.addressesIn v))) ↔ v.HoldsAddresses := by
  rw [← ImageUse.succeeds_addressesIn_iff]
  cases ImageUse.addressesIn v with
  | ok urls => exact ⟨fun _ => ⟨urls, rfl⟩, fun _ => ⟨some urls, rfl⟩⟩
  | error fault =>
      exact iff_of_false (fun h => Bool.false_ne_true (succeeds_excused_error.mp h))
        not_succeeds_error

theorem eq_of_excused_eq_some {x : Except Failure Members} {urls : Members}
    (h : excused x = .ok (some urls)) : x = .ok urls := by
  cases x with
  | ok urls' => rw [Option.some.inj (Except.ok.inj h)]
  | error f =>
      rw [excused] at h
      split at h <;> cases h

/-- What an outcome holds is excused or used exactly if it can be borne. -/
theorem succeeds_excused_iff {o : Outcome} :
    Succeeds (excused (o.reply >>= fun v => orFail (ImageUse.addressesIn v))) ↔ o.IsBearable := by
  cases o with
  | unreachable kind message =>
      exact succeeds_excused_error.trans ⟨fun _ => trivial, fun _ => rfl⟩
  | broken f => exact succeeds_excused_error
  | answered r =>
      rw [Outcome.reply, Outcome.verdict, Outcome.IsBearable]
      cases r.isOk with
      | false =>
          exact succeeds_excused_error.trans
            ⟨fun _ accepted => absurd accepted Bool.false_ne_true, fun _ => rfl⟩
      | true =>
          have body : (.ok (some r) >>= Client.answer : Except Failure Value) = r.json := rfl
          rw [if_pos rfl, body]
          cases r.json with
          | ok v => exact succeeds_excused_ok.trans (imp_iff_right rfl).symm
          | error f => exact succeeds_excused_error.trans (imp_iff_right rfl).symm

/-- Without an address a design stays as it was converted. -/
theorem settled_nil {n : Node} {o : Options} {r : Converted} (h : n.convert o = .ok r)
    {ids : List String} (texts : r.images.map (·.nodeId) = ids.map .text) :
    settled r (some []) = .ok r := by
  have none : r.images.filterMap (·.line? []) = [] := List.filterMap_eq_nil_iff.mpr fun _ _ => rfl
  have distinct : (Ordered.keys ([] : Members)).Nodup := List.nodup_nil
  have settles := settled_addresses h texts distinct
  rw [none] at settles
  exact settles

/-- Whatever comes of addresses can be settled for images whose nodes are texts. -/
theorem succeeds_settled {r : Converted} {ids : List String}
    (texts : r.images.map (·.nodeId) = ids.map .text) (found : Option Members) :
    Succeeds (settled r found) := by
  cases found with
  | none => exact ⟨r, rfl⟩
  | some urls =>
      have rules : Succeeds (r.images.mapM (Stylesheet.imageRule? urls)) := by
        refine succeeds_mapM fun use huse => ?_
        have node : use.nodeId ∈ ids.map Value.text := texts ▸ List.mem_map_of_mem huse
        obtain ⟨id, -, same⟩ := List.mem_map.mp node
        exact succeeds_bind ⟨_, by rw [← same]; rfl⟩ fun _ _ => ⟨_, rfl⟩
      obtain ⟨extra, printed⟩ : Succeeds (Stylesheet.printImages r.images urls) :=
        succeeds_bind rules fun _ _ => ⟨_, rfl⟩
      exact ⟨{ r with css := cssWithImages r.css extra }, by rw [settled, printed]; rfl⟩

section

variable {c : Client} {limit : Nat} {w w' : Wire}

/-- The images of a design sink it unless their nodes are texts and the outcome that decides the
question for them can be borne. -/
theorem succeeds_on_withImages_iff
    (limited : c.settings.maxRetries.number? = some (.whole limit)) (once : 1 ≤ limit)
    {key : String} {r : Converted} (used : r.images ≠ []) :
    Succeeds ((withImages c key r).on w).1 ↔
      ∃ ids : List String, r.images.map (·.nodeId) = ids.map .text ∧
        ∃ k o, c.Decides limit w.outcomes k o ∧ o.IsBearable := by
  constructor
  · rintro ⟨r', survives⟩
    obtain ⟨ids, found, texts, -, -, excuses⟩ := of_on_withImages survives
    have excuses := excuses used
    obtain ⟨k, -, -, result, respites, asked, ending⟩ :=
      c.on_ask_cases limited (ImageUse.place key) (ImageUse.params ids) once w
    rw [asked] at excuses
    rcases ending with ⟨o, decides, rfl⟩ | ⟨f, unreported, rfl⟩
    · exact ⟨ids, texts, k, o, decides, succeeds_excused_iff.mp ⟨found, excuses⟩⟩
    · cases unreported.symm.trans (succeeds_excused_error.mp ⟨found, excuses⟩)
  · rintro ⟨ids, texts, k, o, decides, bearable⟩
    obtain ⟨respites, asked⟩ :=
      c.on_ask_of_decides limited (ImageUse.place key) (ImageUse.params ids) decides
    obtain ⟨lines, run⟩ := on_withImages_of_asked used texts asked
    obtain ⟨found, excuses⟩ := succeeds_excused_iff.mpr bearable
    obtain ⟨r', settles⟩ := succeeds_settled texts found
    exact ⟨r', by rw [run, excuses]; exact settles⟩

/-- Where no address comes of the outcome that decides the question for images, a design that
survives stays as it was converted. -/
theorem eq_of_on_withImages (limited : c.settings.maxRetries.number? = some (.whole limit))
    {key : String} {n : Node} {options : Options} {r r' : Converted}
    (drawn : n.convert options = .ok r) (survives : ((withImages c key r).on w).1 = .ok r')
    {k : Nat} {o : Outcome} (decides : c.Decides limit w.outcomes k o)
    (none : ∀ v urls, o.reply = .ok v → ImageUse.addressesIn v = .ok urls → urls = []) :
    r' = r := by
  obtain ⟨ids, found, texts, settles, unused, excuses⟩ := of_on_withImages survives
  cases found with
  | none => exact (Except.ok.inj settles).symm
  | some urls =>
      have used : r.images ≠ [] := fun absent => Option.some_ne_none urls (unused absent)
      have excuses := excuses used
      obtain ⟨respites, asked⟩ :=
        c.on_ask_of_decides limited (ImageUse.place key) (ImageUse.params ids) decides
      rw [asked] at excuses
      obtain ⟨v, reply, addressed⟩ := bind_eq_ok_iff.mp (eq_of_excused_eq_some excuses)
      obtain rfl := none v urls reply (orFail_eq_ok_iff.mp addressed)
      exact Except.ok.inj (settles.symm.trans (settled_nil drawn texts))

/-- An import whose node converts to a design with images comes to something exactly if the nodes of
the images are texts and the outcome that decides the question for them can be borne. Markup and
image uses are then those of the conversion; and all of it is, where no address comes of that
outcome. -/
theorem succeeds_on_ofUrl_iff (limited : c.settings.maxRetries.number? = some (.whole limit))
    {url : Value} {link : ShareLink} (linked : ShareLink.ofValue? url = .ok (some link))
    {node fileName : Value} (fetched : (fetchTarget c link).on w = (.ok (node, fileName), w'))
    (shallow : Value.shape.ensure node c.settings.maxTreeDepth = .ok ())
    {o : Options} {r : Converted} (converted : convertValue node o = .ok r) (used : r.images ≠ []) :
    (Succeeds ((ofUrl c url (.ok o)).on w).1 ↔
      ∃ ids : List String, r.images.map (·.nodeId) = ids.map .text ∧
        ∃ k outcome, c.Decides limit w'.outcomes k outcome ∧ outcome.IsBearable) ∧
    ∀ i, ((ofUrl c url (.ok o)).on w).1 = .ok i →
      i.converted.html = r.html ∧ i.converted.images = r.images ∧
      ∀ k outcome, c.Decides limit w'.outcomes k outcome →
        (∀ v urls, outcome.reply = .ok v → ImageUse.addressesIn v = .ok urls → urls = []) →
        i.converted = r := by
  have made : prepared c (.ok o) node = .ok r :=
    prepared_eq_ok_iff.mpr ⟨shallow, o, rfl, converted⟩
  have once := once_of_on_fetchTarget limited fetched
  refine ⟨?_, fun i h => ?_⟩
  · rw [succeeds_on_ofUrl_of_prepared linked fetched made]
    exact succeeds_on_withImages_iff limited once used
  · have survives := on_withImages_of_on_ofUrl linked fetched made h
    obtain ⟨n, -, drawn⟩ := bind_eq_ok_iff.mp converted
    obtain ⟨-, found, -, settles, -⟩ := of_on_withImages survives
    obtain ⟨html, same⟩ := of_settled settles
    exact ⟨html, same, fun k outcome decides none =>
      eq_of_on_withImages limited drawn survives decides none⟩

end

/-- With null for its addresses the gallery is imported as it was converted. -/
theorem succeeds_on_ofUrl_gallery :
    ∃ i, ((ofUrl Gallery.visitor (.text Gallery.url) (.ok .standard)).on
        (Gallery.wire (.object [("images", .null)]))).1 = .ok i ∧
      convertValue .gallery .standard = .ok i.converted := by
  obtain ⟨r, converted, texts, -⟩ := Gallery.converted
  have limited : Gallery.visitor.settings.maxRetries.number? = some (.whole (2 : Nat)) := rfl
  obtain ⟨survives, unchanged⟩ := succeeds_on_ofUrl_iff limited Gallery.parsed (Gallery.fetched _)
    Gallery.shallow converted (Gallery.images_ne_nil texts)
  have answered : (200 : Int) ≠ Client.busyStatus := by decide
  have decides : Gallery.visitor.Decides 2
      (Gallery.halfway (.object [("images", .null)])).outcomes 0
      (.answered ⟨200, [], .json (.object [("images", .null)])⟩) :=
    { within := by decide
      before := fun i hi => absurd hi (Nat.not_lt_zero i)
      here := rfl
      final := Or.inr answered }
  obtain ⟨i, h⟩ := survives.mpr ⟨Gallery.ids, texts, 0, _, decides, fun _ => ⟨_, rfl, Or.inl rfl⟩⟩
  refine ⟨i, h, ?_⟩
  have same : i.converted = r := by
    refine (unchanged i h).2.2 0 _ decides ?_
    rintro v urls ⟨⟩ addressed
    exact (Except.ok.inj addressed).symm
  rw [same]
  exact converted

/-- With a list in place of the object of addresses the import of the gallery fails, though all that
stands before its images went well. -/
theorem on_ofUrl_gallery_listed :
    ShareLink.ofValue? (.text Gallery.url) = .ok (some Gallery.link) ∧
      (fetchTarget Gallery.visitor Gallery.link).on (Gallery.wire (.list []))
        = (.ok (.gallery, .text "Art"), Gallery.halfway (.list [])) ∧
      Value.shape.ensure .gallery Gallery.visitor.settings.maxTreeDepth = .ok () ∧
      (∃ r, convertValue .gallery .standard = .ok r ∧ r.images ≠ []) ∧
      ((ofUrl Gallery.visitor (.text Gallery.url) (.ok .standard)).on
        (Gallery.wire (.list []))).1 = .error (.data .noSuchPart) := by
  obtain ⟨r, converted, texts, -⟩ := Gallery.converted
  obtain ⟨lines, run⟩ := Gallery.on_ofUrl (.list []) converted texts
  refine ⟨Gallery.parsed, Gallery.fetched _, Gallery.shallow,
    ⟨r, converted, Gallery.images_ne_nil texts⟩, ?_⟩
  rw [run]
  rfl

end Imported

end DesignMarkup
