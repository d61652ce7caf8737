import DesignMarkup.Proofs.Imports

/-!
# The style sheet of an import

An import delivers what the conversion of its node makes, with lines for images behind the style
sheet. Which lines they are is decided by the addresses that the service exports: there is one for
each use of an image whose node has an address, in the order of the uses, and none besides.
-/

namespace DesignMarkup

/-! ## Lines for images -/

/-- The line for the use of an image, if the node has an address. -/
def ImageUse.line? (urls : Members) (use : ImageUse) : Option String :=
  ((urls.lookup use.nodeId.plain).filter (·.isPresent)).map fun url =>
    "." ++ use.className.plain ++ " \x7b background-image: url('" ++ url.plain ++ "'); \x7d"

namespace Stylesheet

/-- A style sheet with lines behind it, and a blank line before them. -/
def followedBy (css : String) (lines : List String) : String :=
  if lines = [] then css else css ++ "\n\n" ++ "\n".intercalate lines

/-- A use of an image can have a line: its node is a text, and its class one that is not empty. -/
def Linable (use : ImageUse) : Prop :=
  (∃ id, use.nodeId = .text id) ∧ ∃ className, use.className = .text className ∧ className ≠ ""

theorem imageRule?_addresses {urls : Members} (distinct : (Ordered.keys urls).Nodup)
    {use : ImageUse} (h : Linable use) :
    imageRule? (ImageUse.addresses urls) use = .ok (use.line? urls) := by
  obtain ⟨nodeId, imageRef, className⟩ := use
  obtain ⟨⟨id, rfl⟩, className, rfl, nonempty⟩ := h
  have present : (Value.text className).isPresent = true := by
    simpa [Value.isPresent] using nonempty
  have found : (ImageUse.addresses urls).lookup id = (urls.lookup id).filter (·.isPresent) :=
    Ordered.lookup_filter distinct _ id
  refine bind_eq_ok_iff.mpr ⟨_, congrArg Except.ok found, ?_⟩
  show Except.ok _ = Except.ok _
  rw [ImageUse.line?]
  dsimp only [Value.plain]
  cases address : (urls.lookup id).filter (·.isPresent) with
  | none => simp [Value.isPresent]
  | some url =>
      have addressed : url.isPresent = true := by
        simpa using (Option.filter_eq_some_iff.mp address).2
      simp [addressed, present, imageRule]

theorem printImages_addresses {urls : Members} (distinct : (Ordered.keys urls).Nodup)
    {uses : List ImageUse} (h : ∀ use ∈ uses, Linable use) :
    printImages uses (ImageUse.addresses urls)
      = .ok ("\n".intercalate (uses.filterMap (·.line? urls))) := by
  have rules :
      uses.mapM (imageRule? (ImageUse.addresses urls)) = .ok (uses.map (·.line? urls)) := by
    induction uses with
    | nil => rfl
    | cons use rest ih =>
        obtain ⟨first, others⟩ := List.forall_mem_cons.mp h
        rw [List.mapM_cons, imageRule?_addresses distinct first, ih others]
        rfl
  refine bind_eq_ok_iff.mpr ⟨_, rules, ?_⟩
  rw [List.filterMap_map]
  rfl

theorem cssWithImages_eq {css : String} {lines : List String} (sheet : lines ≠ [] → css ≠ "")
    (nonempty : ∀ line ∈ lines, line ≠ "") :
    Imported.cssWithImages css ("\n".intercalate lines) = followedBy css lines := by
  rw [Imported.cssWithImages, followedBy]
  by_cases none : lines = []
  · subst none
    rfl
  · obtain ⟨line, hline⟩ := List.exists_mem_of_ne_nil _ none
    have extra : ¬ ("\n".intercalate lines).isEmpty = true := by
      intro empty
      have inside := sublist_intercalate "\n" hline
      rw [String.isEmpty_iff.mp empty] at inside
      exact nonempty line hline (String.toList_eq_nil_iff.mp (List.sublist_nil.mp inside))
    have some : ¬ css.isEmpty = true := fun empty => sheet none (String.isEmpty_iff.mp empty)
    rw [if_neg extra, if_neg some, if_neg none]

end Stylesheet

theorem ImageUse.line_ne_empty {urls : Members} {use : ImageUse} {line : String}
    (h : use.line? urls = some line) : line ≠ "" := by
  obtain ⟨url, -, rfl⟩ := Option.map_eq_some_iff.mp h
  intro empty
  have dot := congrArg String.toList empty
  simp at dot

/-! ## The images of a conversion -/

namespace Node

/-- The class of an image that a conversion uses is a text, and not the empty one. -/
theorem className_of_convert {n : Node} {o : Options} {r : Converted} (h : n.convert o = .ok r) :
    ∀ use ∈ r.images, ∃ className, use.className = .text className ∧ className ≠ "" := by
  intro use huse
  obtain ⟨-, -, images⟩ := fold_of_convert h
  rw [images] at huse
  obtain ⟨m, -, hown⟩ := List.mem_flatMap.mp huse
  obtain ⟨-, -, className, -⟩ := Layer.of_mem_ownImages hown
  exact ⟨_, className, Naming.className_ne_empty _⟩

/-- A conversion that uses an image makes a style sheet that is not empty. -/
theorem css_ne_empty_of_convert {n : Node} {o : Options} {r : Converted} (h : n.convert o = .ok r)
    (used : r.images ≠ []) : r.css ≠ "" := by
  obtain ⟨rules, css, images⟩ := fold_of_convert h
  obtain ⟨use, huse⟩ := List.exists_mem_of_ne_nil _ used
  rw [images] at huse
  obtain ⟨m, hm, hown⟩ := List.mem_flatMap.mp huse
  obtain ⟨-, -, -, -, declares⟩ := Layer.of_mem_ownImages hown
  -- The class of the image has a rule, and all rules of the fold declare something.
  obtain ⟨rule, hrule, -⟩ :=
    List.mem_map.mp ((coherent_shown n o).selector_of_declares m hm declares)
  rw [Harvest.rules_foldl_visit] at hrule
  have own : rule ∈ ownRules o n.visited := (Ordered.mem_putAll hrule).resolve_left List.not_mem_nil
  obtain ⟨m', -, declares', rfl⟩ := Harvest.mem_ownRules.mp own
  rw [css, rules, Harvest.rules_foldl_visit]
  exact Harvest.css_ne_empty hrule declares'

end Node

/-! ## The style sheet -/

namespace Imported

/-- Addresses are settled by lines behind the style sheet. -/
theorem settled_addresses {n : Node} {o : Options} {r : Converted} (h : n.convert o = .ok r)
    {ids : List String} (texts : r.images.map (·.nodeId) = ids.map .text)
    {urls : Members} (distinct : (Ordered.keys urls).Nodup) :
    settled r (some (ImageUse.addresses urls))
      = .ok { r with css := Stylesheet.followedBy r.css (r.images.filterMap (·.line? urls)) } := by
  have linable : ∀ use ∈ r.images, Stylesheet.Linable use := by
    intro use huse
    have node : use.nodeId ∈ ids.map Value.text := texts ▸ List.mem_map_of_mem huse
    obtain ⟨id, -, same⟩ := List.mem_map.mp node
    exact ⟨⟨id, same.symm⟩, Node.className_of_convert h use huse⟩
  rw [settled, Stylesheet.printImages_addresses distinct linable]
  have sheet : r.images.filterMap (·.line? urls) ≠ [] → r.css ≠ "" := by
    intro some
    refine Node.css_ne_empty_of_convert h fun none => some ?_
    rw [none]
    rfl
  have lines : ∀ line ∈ r.images.filterMap (·.line? urls), line ≠ "" := by
    intro line hline
    obtain ⟨use, -, found⟩ := List.mem_filterMap.mp hline
    exact ImageUse.line_ne_empty found
  show Except.ok { r with css := cssWithImages r.css _ } = _
  rw [Stylesheet.cssWithImages_eq sheet lines]

/-- Whatever comes of addresses, markup and image uses stay as they are. -/
theorem of_settled {r r' : Converted} {found : Option Members} (h : settled r found = .ok r') :
    r'.html = r.html ∧ r'.images = r.images := by
  cases found with
  | none =>
      obtain rfl := Except.ok.inj h
      exact ⟨rfl, rfl⟩
  | some urls =>
      obtain ⟨extra, -, last⟩ := bind_eq_ok_iff.mp h
      obtain rfl := pure_eq_ok_iff.mp last
      exact ⟨rfl, rfl⟩

theorem addressesIn_object {answer urls : Members}
    (h : Members.get answer "images" = .object urls) :
    ImageUse.addressesIn (.object answer) = .ok (ImageUse.addresses urls) := by
  have held : ImageUse.exported (.object urls) = .ok urls := by
    rw [ImageUse.exported]
    cases urls <;> rfl
  show (ImageUse.exported (Members.get answer "images")).map ImageUse.addresses = _
  rw [h, held]
  rfl

/-- An import that comes to something delivers what the conversion of the fetched node makes; and
where the service exports a table of addresses, its style sheet is that of the conversion with a
line behind it for each use of an image whose node has an address there. -/
theorem converted_of_on_ofUrl {c : Client} {url : Value} {options : Except Fault Options}
    {w w' : Wire} {i : Imported} (run : (ofUrl c url options).on w = (.ok i, w')) :
    ∃ link node fileName w₁ o r ids, ShareLink.ofValue? url = .ok (some link) ∧
      (fetchTarget c link).on w = (.ok (node, fileName), w₁) ∧
      options = .ok o ∧ convertValue node o = .ok r ∧
      i.converted.html = r.html ∧ i.converted.images = r.images ∧
      r.images.map (·.nodeId) = ids.map .text ∧
      ∀ answer urls w₂,
        (c.ask (ImageUse.place link.fileKey) (ImageUse.params ids)).on w₁
          = (.ok (.object answer), w₂) →
        Members.get answer "images" = .object urls → (Ordered.keys urls).Nodup →
        i.converted.css = Stylesheet.followedBy r.css (r.images.filterMap (·.line? urls)) := by
  obtain ⟨link, node, fileName, w₁, r, linked, fetched, made, images⟩ :=
    on_ofUrl_eq_ok (congrArg Prod.fst run)
  obtain ⟨-, o, options, converted⟩ := prepared_eq_ok_iff.mp made
  obtain ⟨n, -, drawn⟩ := bind_eq_ok_iff.mp converted
  obtain ⟨ids, found, texts, settles, none, some⟩ := of_on_withImages images
  obtain ⟨html, same⟩ := of_settled settles
  refine ⟨link, node, fileName, w₁, o, r, ids, linked, fetched, options, converted, html, same,
    texts, fun answer urls w₂ answered exported distinct => ?_⟩
  by_cases used : r.images = []
  · obtain rfl := none used
    rw [← Except.ok.inj settles, used]
    rfl
  · have found := some used
    rw [answered] at found
    have addressed : (Except.ok (Value.object answer) >>= fun v => orFail (ImageUse.addressesIn v))
        = (.ok (ImageUse.addresses urls) : Except Failure Members) :=
      congrArg orFail (addressesIn_object exported)
    rw [addressed] at found
    obtain rfl := Except.ok.inj found
    rw [← Except.ok.inj ((settled_addresses drawn texts distinct).symm.trans settles)]

/-- An address for the photo, none for the map, and one for a node that is no picture. -/
def photoAlone : Members :=
  [("1:3", .text "https://cdn/3"), ("1:9", .null), ("7:7", .text "https://cdn/7")]

def photoLine : String := ".photo \x7b background-image: url('https://cdn/3'); \x7d"

/-- In a gallery both photos have their line, and the map has none. -/
theorem lines_photoAlone {uses : List ImageUse}
    (nodes : uses.map (·.nodeId) = Gallery.ids.map .text)
    (classes : uses.map (·.className) = ["photo", "photo", "map"].map .text) :
    uses.filterMap (·.line? photoAlone) = [photoLine, photoLine] := by
  have three : uses.length = 3 := by simpa [Gallery.ids] using congrArg List.length nodes
  obtain ⟨a, b, c, rfl⟩ := List.length_eq_three.mp three
  simp only [List.map_cons, List.map_nil, List.cons.injEq, and_true, Gallery.ids] at nodes classes
  obtain ⟨firstNode, secondNode, thirdNode⟩ := nodes
  obtain ⟨firstClass, secondClass, -⟩ := classes
  have first : a.line? photoAlone = some photoLine := by
    rw [ImageUse.line?, firstNode, firstClass]
    rfl
  have second : b.line? photoAlone = some photoLine := by
    rw [ImageUse.line?, secondNode, secondClass]
    rfl
  have third : c.line? photoAlone = none := by
    rw [ImageUse.line?, thirdNode]
    rfl
  simp [first, second, third]

/-- The gallery is imported with a line for each of its two photos. -/
theorem converted_of_on_ofUrl_gallery :
    ∃ i w' r, (ofUrl Gallery.visitor (.text Gallery.url) (.ok .standard)).on
        (Gallery.wire (.object [("images", .object photoAlone)])) = (.ok i, w') ∧
      convertValue .gallery .standard = .ok r ∧ i.converted.html = r.html ∧
      i.converted.css = r.css ++ "\n\n" ++ photoLine ++ "\n" ++ photoLine := by
  obtain ⟨r, converted, texts, classes⟩ := Gallery.converted
  have exported : Members.get [("images", .object photoAlone)] "images" = .object photoAlone := rfl
  have distinct : (Ordered.keys photoAlone).Nodup := by decide
  obtain ⟨n, -, drawn⟩ := bind_eq_ok_iff.mp converted
  obtain ⟨lines, run⟩ := Gallery.on_ofUrl (.object [("images", .object photoAlone)]) converted texts
  have settles : excused (orFail (.ok (ImageUse.addresses photoAlone))) >>= settled r = .ok _ :=
    settled_addresses drawn texts distinct
  obtain ⟨i, delivers, -⟩ := deliver_of_prepared (Gallery.prepared converted) (.text "Art")
    { r with css := Stylesheet.followedBy r.css (r.images.filterMap (·.line? photoAlone)) }
  rw [addressesIn_object exported, settles] at run
  have run := run.trans (congrArg (·, _) delivers)
  obtain ⟨link, node, fileName, w₁, o, r', ids, linked, fetched, ⟨⟩, converted', html, -, texts',
    css⟩ := converted_of_on_ofUrl run
  -- Link, node, conversion and texts are those of the gallery.
  obtain rfl := Option.some.inj (Except.ok.inj (Gallery.parsed.symm.trans linked))
  obtain ⟨target, rfl⟩ := Prod.mk.inj ((Gallery.fetched _).symm.trans fetched)
  obtain ⟨rfl, rfl⟩ := Prod.mk.inj (Except.ok.inj target)
  obtain rfl := Except.ok.inj (converted.symm.trans converted')
  obtain rfl := List.map_injective_iff.mpr (fun _ _ => Value.text.inj) (texts.symm.trans texts')
  have css := css _ _ _ (Gallery.asked _) exported distinct
  rw [lines_photoAlone texts classes] at css
  refine ⟨i, _, r, run, converted, html, css.trans ?_⟩
  simp [Stylesheet.followedBy, String.append_assoc]

end Imported

end DesignMarkup
