import Mathlib.Data.Bool.AllAny
import DesignMarkup.Link.Share
import DesignMarkup.Proofs.FormCoding

/-!
# Share links, read back

A share link is put together from a host, a kind, a key and perhaps a title, from parameters of
which one may name a node, and perhaps a fragment. Whatever stands in the title, in the other
parameters and in the fragment, the link that is read is the key with the node.
-/

namespace DesignMarkup.ShareLink

open Text

/-! ## Links in writing -/

/-- A piece of a query that is not the parameter of the node. -/
structure IsOther (piece : List Char) : Prop where
  characters : ∀ c ∈ piece, c ∉ queryBreaks
  name : formDecode (splitFirst '=' piece).1 ≠ nodeField

def scheme : List Char := "https://".toList

structure Parts where
  host : List Char
  kind : List Char
  key : List Char
  title : Option (List Char)
  before : List (List Char)
  node : Option (List Char)
  after : List (List Char)
  fragment : Option (List Char)
  host_mem : host ∈ ["figma.com".toList, "www.figma.com".toList]
  kind_mem : kind ∈ ["file".toList, "design".toList]
  key_ne_nil : key ≠ []
  key_characters : ∀ c ∈ key, isKeyChar c = true
  title_characters : ∀ t, title = some t → ∀ c ∈ t, c ≠ '?' ∧ c ≠ '#'
  before_others : ∀ piece ∈ before, IsOther piece
  after_others : ∀ piece ∈ after, IsOther piece

/-- The parameter of the node, by the value that it has. -/
def nodePiece (value : List Char) : List Char := nodeField ++ behind '=' (some value)

/-- The value of the parameter of the node, and the node that it names. Dashes stand for the colons
of the node; an empty value names none. -/
inductive Names : Option (List Char) → Option String → Prop
  | absent : Names none none
  | empty : Names (some []) none
  | node {value : List Char} {id : String} : id ≠ "" → '-' ∉ id.toList →
      Spells value (utf8 (id.toList.map fun c => if c = ':' then '-' else c)) →
      Names (some value) (some id)

namespace Parts

variable (p : Parts)

def path (title : Option (List Char)) : List Char :=
  '/' :: (p.kind ++ '/' :: (p.key ++ behind '/' title))

def pieces : List (List Char) := p.before ++ (p.node.map nodePiece).toList ++ p.after

/-- The query, which is there when there are parameters. -/
def query : Option (List Char) :=
  if p.pieces = [] then none else some (['&'].intercalate p.pieces)

def tail (title fragment : Option (List Char)) : List Char :=
  p.path title ++ behind '?' p.query ++ behind '#' fragment

def text : List Char := scheme ++ (p.host ++ p.tail p.title p.fragment)

end Parts

/-! ## Characters of the parts -/

theorem not_mem_of_isKeyChar {c : Char} (h : isKeyChar c = true) :
    c ∉ ['\t', '\r', '\n', '/', '?', '#'] := by
  intro special
  simp only [List.mem_cons, List.not_mem_nil, or_false] at special
  rcases special with rfl | rfl | rfl | rfl | rfl | rfl <;> revert h <;> decide

namespace Parts

variable (p : Parts)

theorem not_mem_path {title : Option (List Char)}
    (h : ∀ t, title = some t → ∀ c ∈ t, c ≠ '?' ∧ c ≠ '#') {c : Char} (mark : c = '?' ∨ c = '#') :
    c ∉ p.path title := by
  have kinds : ∀ kind ∈ ["file".toList, "design".toList], '?' ∉ kind ∧ '#' ∉ kind := by decide
  have kind : c ∉ p.kind := by
    rcases mark with rfl | rfl
    · exact (kinds p.kind p.kind_mem).1
    · exact (kinds p.kind p.kind_mem).2
  have key : c ∉ p.key := by
    intro hc
    have other := not_mem_of_isKeyChar (p.key_characters c hc)
    rcases mark with rfl | rfl <;> exact other (by decide)
  have slash : c ≠ '/' := by rcases mark with rfl | rfl <;> decide
  have name : c ∉ behind '/' title := by
    cases title with
    | none => exact List.not_mem_nil
    | some t =>
        intro hc
        rcases List.mem_cons.mp hc with rfl | hc
        · exact slash rfl
        · rcases mark with rfl | rfl
          · exact (h t rfl _ hc).1 rfl
          · exact (h t rfl _ hc).2 rfl
  simp [path, kind, key, slash, name]

variable {id : Option String} (named : Names p.node id)

include named in
theorem not_mem_of_mem_pieces : ∀ piece ∈ p.pieces, ∀ c ∈ piece, c ∉ queryBreaks := by
  intro piece hpiece
  simp only [pieces, List.mem_append, Option.mem_toList, Option.map_eq_some_iff] at hpiece
  rcases hpiece with (hpiece | ⟨value, hvalue, rfl⟩) | hpiece
  · exact (p.before_others piece hpiece).characters
  · have front : ∀ c ∈ nodeField ++ ['='], c ∉ queryBreaks :=
      List.all_iff_forall_prop.mp (by decide)
    have back : ∀ c ∈ value, c ∉ queryBreaks := by
      rw [hvalue] at named
      cases named with
      | empty => exact nofun
      | node _ _ spells =>
          exact fun c hc break_ => spells.not_mem_marks c hc (List.mem_cons_of_mem _ break_)
    intro c hc
    have hc : c ∈ (nodeField ++ ['=']) ++ value := by simpa [nodePiece, behind] using hc
    rcases List.mem_append.mp hc with hc | hc
    · exact front c hc
    · exact back c hc
  · exact (p.after_others piece hpiece).characters

include named in
theorem not_mem_query {c : Char} (h : c ∈ queryBreaks) (mark : c ≠ '&') :
    c ∉ behind '?' p.query := by
  have front : '?' ∉ queryBreaks := by decide
  rw [query]
  split
  · exact List.not_mem_nil
  · rw [behind, List.mem_cons, not_or]
    constructor
    · rintro rfl
      exact front h
    · intro hc
      rcases mem_of_mem_intercalate hc with hc | ⟨piece, hpiece, hc⟩
      · exact mark (List.mem_singleton.mp hc)
      · exact p.not_mem_of_mem_pieces named piece hpiece c hc h

/-! ## The address -/

def stays (c : Char) : Bool := c != '\t' && c != '\r' && c != '\n'

theorem stays_iff {c : Char} : stays c = true ↔ c ∉ ['\t', '\r', '\n'] := by
  simp [stays, and_assoc]

theorem clean_scheme (rest : List Char) :
    Address.clean (scheme ++ rest) = scheme ++ rest.filter stays := by
  have front : Address.clean (scheme ++ rest) = (scheme ++ rest).filter stays := rfl
  have whole : scheme.filter stays = scheme := by decide
  rw [front, List.filter_append, whole]

theorem afterScheme_scheme (rest : List Char) :
    Address.afterScheme (scheme ++ rest) = '/' :: '/' :: rest := rfl

theorem filter_behind {mark : Char} (h : stays mark = true) (part : Option (List Char)) :
    (behind mark part).filter stays = behind mark (part.map (List.filter stays)) := by
  cases part with
  | none => rfl
  | some s => simp [behind, h]

theorem filter_path (title : Option (List Char)) :
    (p.path title).filter stays = p.path (title.map (List.filter stays)) := by
  have kinds : ∀ kind ∈ ["file".toList, "design".toList], kind.filter stays = kind := by decide
  have key : p.key.filter stays = p.key := by
    refine List.filter_eq_self.mpr fun c hc => stays_iff.mpr fun dropped => ?_
    refine not_mem_of_isKeyChar (p.key_characters c hc) ?_
    exact List.mem_append_left ['/', '?', '#'] dropped
  have slash : stays '/' = true := by decide
  rw [path, List.filter_cons_of_pos slash, List.filter_append, List.filter_cons_of_pos slash,
    List.filter_append, kinds p.kind p.kind_mem, key, filter_behind slash]
  rfl

include named in
theorem filter_query : (behind '?' p.query).filter stays = behind '?' p.query := by
  refine List.filter_eq_self.mpr fun c hc => stays_iff.mpr fun dropped => ?_
  simp only [List.mem_cons, List.not_mem_nil, or_false] at dropped
  rcases dropped with rfl | rfl | rfl
  · exact p.not_mem_query named (by decide) (by decide) hc
  · exact p.not_mem_query named (by decide) (by decide) hc
  · exact p.not_mem_query named (by decide) (by decide) hc

theorem filter_host : p.host.filter stays = p.host := by
  have hosts : ∀ host ∈ ["figma.com".toList, "www.figma.com".toList],
      host.filter stays = host := by decide
  exact hosts p.host p.host_mem

include named in
theorem filter_tail (title fragment : Option (List Char)) :
    (p.tail title fragment).filter stays
      = p.tail (title.map (List.filter stays)) (fragment.map (List.filter stays)) := by
  rw [tail, List.filter_append, List.filter_append, filter_path, p.filter_query named,
    filter_behind (by decide), tail]

include named in
/-- Cleaning a link takes tabs and line ends out of its title and its fragment. -/
theorem clean_text :
    Address.clean p.text = scheme ++ (p.host ++
      p.tail (p.title.map (List.filter stays)) (p.fragment.map (List.filter stays))) := by
  rw [text, clean_scheme, List.filter_append, p.filter_host, p.filter_tail named]

theorem splitAuthority_host (title fragment : Option (List Char)) :
    Address.splitAuthority ('/' :: '/' :: (p.host ++ p.tail title fragment))
      = (p.host, p.tail title fragment) := by
  have hosts : ∀ host ∈ ["figma.com".toList, "www.figma.com".toList],
      (host.all fun c => !Address.endsAuthority c) = true := by decide
  have host := List.all_eq_true.mp (hosts p.host p.host_mem)
  have slash : Address.endsAuthority '/' = true := rfl
  rw [Address.splitAuthority, List.takeWhile_append_of_pos host, List.dropWhile_append_of_pos host]
  simp [tail, path, slash]

include named in
/-- Neither the title nor the fragment moves a border between the parts of the address. -/
theorem address?_text : Address.ofText? p.text = some
    { host := p.host, path := p.path (p.title.map (List.filter stays)),
      query := p.query.getD [] } := by
  have hosts : ∀ host ∈ ["figma.com".toList, "www.figma.com".toList],
      Address.isAuthority host = true ∧ Address.hostOf host = host := by decide
  have allowed := hosts p.host p.host_mem
  have title : ∀ t, p.title.map (List.filter stays) = some t → ∀ c ∈ t, c ≠ '?' ∧ c ≠ '#' := by
    intro t ht c hc
    obtain ⟨whole, hwhole, rfl⟩ := Option.map_eq_some_iff.mp ht
    exact p.title_characters whole hwhole c (List.mem_filter.mp hc).1
  have fragment : '#' ∉ p.path (p.title.map (List.filter stays)) ++ behind '?' p.query := by
    rw [List.mem_append, not_or]
    exact ⟨p.not_mem_path title (.inr rfl), p.not_mem_query named (by decide) (by decide)⟩
  have query := p.not_mem_path title (.inl rfl)
  rw [Address.ofText?, p.clean_text named, afterScheme_scheme, p.splitAuthority_host]
  simp only [allowed.1, allowed.2, if_true, tail, splitFirst_behind fragment,
    splitFirst_behind query]

/-! ## The key -/

theorem takeWhile_key (title : Option (List Char)) :
    (p.key ++ behind '/' title).takeWhile isKeyChar = p.key := by
  rw [List.takeWhile_append_of_pos p.key_characters]
  cases title with
  | none => exact List.append_nil _
  | some t =>
      have slash : isKeyChar '/' = false := by decide
      simp [behind, slash]

/-- A key is found behind either introduction. -/
theorem keyHere?_kind {kind : List Char} (h : kind ∈ ["file".toList, "design".toList])
    {rest : List Char} (found : rest.takeWhile isKeyChar ≠ []) :
    keyHere? ('/' :: (kind ++ '/' :: rest)) = some (rest.takeWhile isKeyChar) := by
  simp only [List.mem_cons, List.not_mem_nil, or_false] at h
  rcases h with rfl | rfl
  · have here : "/file/".toList.isPrefixOf? ('/' :: ("file".toList ++ '/' :: rest))
        = some rest := rfl
    simp only [keyHere?, keyIntroductions, List.findSome?_cons, here]
    simp [found]
  · have other : "/file/".toList.isPrefixOf? ('/' :: ("design".toList ++ '/' :: rest))
        = none := rfl
    have here : "/design/".toList.isPrefixOf? ('/' :: ("design".toList ++ '/' :: rest))
        = some rest := rfl
    simp only [keyHere?, keyIntroductions, List.findSome?_cons, other, here]
    simp [found]

/-- The key stands at the front of the path, before whatever the title holds. -/
theorem findKey?_path (title : Option (List Char)) : findKey? (p.path title) = some p.key := by
  have key := p.takeWhile_key title
  have found : (p.key ++ behind '/' title).takeWhile isKeyChar ≠ [] := by
    rw [key]
    exact p.key_ne_nil
  rw [path, findKey?, keyHere?_kind p.kind_mem found, key]

/-! ## The node -/

theorem name_of_formPair? {piece : List Char} {pair : List Char × List Char}
    (h : formPair? piece = some pair) : pair.1 = formDecode (splitFirst '=' piece).1 := by
  rw [formPair?] at h
  split at h
  · rename_i name _ _ split_eq
    cases h
    rw [split_eq]
  · cases h

theorem lookup_others {pieces : List (List Char)} (others : ∀ piece ∈ pieces, IsOther piece) :
    (pieces.filterMap formPair?).lookup nodeField = none := by
  rw [List.lookup_eq_none_iff]
  intro pair hpair
  obtain ⟨piece, hpiece, hpaired⟩ := List.mem_filterMap.mp hpair
  have name := (others piece hpiece).name
  rw [← name_of_formPair? hpaired] at name
  simpa using Ne.symm name

theorem splitFirst_nodePiece (value : List Char) :
    splitFirst '=' (nodePiece value) = (nodeField, some value) :=
  splitFirst_behind (by decide) (some value)

/-- The dashes of a node become its colons again. -/
theorem nodeIdOf_dashed {id : String} (h : '-' ∉ id.toList) :
    nodeIdOf (id.toList.map fun c => if c = ':' then '-' else c) = id := by
  have same : id.toList.map ((fun c => if c = '-' then ':' else c) ∘
      fun c => if c = ':' then '-' else c) = id.toList := by
    refine (List.map_congr_left fun c hc => ?_).trans id.toList.map_id
    by_cases colon : c = ':'
    · simp [colon]
    · have other : c ≠ '-' := fun dash => h (dash ▸ hc)
      simp [colon, other]
  rw [nodeIdOf, List.map_map, same, String.ofList_toList]

/-- The parameter of the node alone gives the node that its value names. -/
theorem lookup_node {value : Option (List Char)} {id : Option String} (named : Names value id) :
    (((value.map nodePiece).toList.filterMap formPair?).lookup nodeField).map nodeIdOf = id := by
  have decoded : formDecode nodeField = nodeField := by decide
  cases named with
  | absent => rfl
  | empty => rfl
  | @node value id some dashless spells =>
      have back := formDecode_of_spells spells
      cases value with
      | nil =>
          -- Nothing spells nothing, and the identifier is not empty.
          have nothing : id.toList = [] := List.map_eq_nil_iff.mp back.symm
          exact absurd (String.toList_eq_nil_iff.mp nothing) some
      | cons c rest =>
          have pair : formPair? (nodePiece (c :: rest))
              = .some (nodeField, id.toList.map fun c => if c = ':' then '-' else c) := by
            rw [formPair?, splitFirst_nodePiece]
            show Option.some (formDecode nodeField, formDecode (c :: rest)) = _
            rw [decoded, back]
          simp [pair, nodeIdOf_dashed dashless]

theorem formFields_query (h : ∀ piece ∈ p.pieces, ∀ c ∈ piece, c ∉ queryBreaks) :
    formFields (p.query.getD []) = p.pieces.filterMap formPair? := by
  have apart : ∀ piece ∈ p.pieces, '&' ∉ piece := by
    intro piece hpiece amp
    exact h piece hpiece '&' amp (by decide)
  rw [query]
  split
  · rename_i none
    rw [none]
    rfl
  · rename_i some
    rw [Option.getD_some, formFields, splitAll_intercalate some apart]

include named in
theorem lookup_query :
    ((formFields (p.query.getD [])).lookup nodeField).map nodeIdOf = id := by
  have before := lookup_others p.before_others
  have after := lookup_others p.after_others
  rw [p.formFields_query (p.not_mem_of_mem_pieces named), pieces, List.filterMap_append,
    List.filterMap_append, List.lookup_append, List.lookup_append, before, after, Option.none_or,
    Option.or_none, lookup_node named]

include named in
/-- The link that is read is the key with the node, whatever the title, the other parameters and
the fragment hold. -/
theorem ofText?_text :
    ofText? (String.ofList p.text) = some { fileKey := String.ofList p.key, nodeId := id } := by
  have hosts : ∀ host ∈ ["figma.com".toList, "www.figma.com".toList],
      Naming.occursIn serviceHost host = true := by decide
  rw [ofText?, String.toList_ofList, p.address?_text named]
  show ofAddress? _ = _
  rw [ofAddress?, if_pos (hosts p.host p.host_mem), p.findKey?_path, Option.map_some,
    p.lookup_query named]

/-- A title that looks like the way to a file, parameters and a fragment that name other nodes, and
a node with a semicolon and a letter outside the narrow range. -/
def hostile : Parts where
  host := "www.figma.com".toList
  kind := "design".toList
  key := "Key1".toList
  title := some "a;b[/file/other\t%2Fnode-id=5-6&".toList
  before := ["t=x".toList, "node_id=7-8".toList]
  node := some "1-2%3b%C3%A9".toList
  after := ["node-id%3D=9-9".toList, []]
  fragment := some "?node-id=3-4".toList
  host_mem := by decide
  kind_mem := by decide
  key_ne_nil := by decide
  key_characters := List.all_eq_true.mp (by decide)
  title_characters := by
    intro t ht
    cases ht
    exact List.all_iff_forall_prop.mp (by decide)
  before_others := by
    intro piece h
    simp only [List.mem_cons, List.not_mem_nil, or_false] at h
    rcases h with rfl | rfl
    · exact ⟨List.all_iff_forall_prop.mp (by decide), by decide⟩
    · exact ⟨List.all_iff_forall_prop.mp (by decide), by decide⟩
  after_others := by
    intro piece h
    simp only [List.mem_cons, List.not_mem_nil, or_false] at h
    rcases h with rfl | rfl
    · exact ⟨List.all_iff_forall_prop.mp (by decide), by decide⟩
    · exact ⟨List.all_iff_forall_prop.mp (by decide), by decide⟩

theorem names_hostile : Names hostile.node (some "1:2;é") := by
  have spelled : Spells ['1', '-', '2', '%', '3', 'b', '%', 'C', '3', '%', 'A', '9']
      [0x31, 0x2D, 0x32, 3 * 16 + 11, 12 * 16 + 3, 10 * 16 + 9] := by
    refine .plain (by decide) (by decide) ?_
    refine .plain (by decide) (by decide) ?_
    refine .plain (by decide) (by decide) ?_
    exact .percent rfl rfl (.percent rfl rfl (.percent rfl rfl .nothing))
  exact .node (by decide) (by decide) spelled

theorem ofText?_text_hostile : Names hostile.node (some "1:2;é") ∧
    ofText? (String.ofList hostile.text) = some { fileKey := "Key1", nodeId := some "1:2;é" } :=
  ⟨names_hostile, hostile.ofText?_text names_hostile⟩

end Parts

end DesignMarkup.ShareLink
