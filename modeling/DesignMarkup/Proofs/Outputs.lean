import Mathlib.Data.String.Basic
import DesignMarkup.Command.Run
import DesignMarkup.Proofs.Imports
import DesignMarkup.Proofs.Tables

/-!
# What a command leaves in its files

A name behind a directory leads to a place of its own in that directory, and writing there moves
nothing else. So a command that imports a design leaves a page and a style sheet, and one that
imports none leaves what it found. In between stand designs that cannot be presented: a title that
is no text, a page or a style sheet that cannot be encoded leaves its file empty, and a name that
cannot be told fails the command behind both files.
-/

namespace DesignMarkup

namespace FileTree

def textAt (t : FileTree) (path : Path) : Option String := List.lookup path t.files

/-! ## Names in directories -/

/-- A text that names a file in whatever directory it is put behind. -/
structure IsName (name : String) : Prop where
  nonempty : name ≠ ""
  slashless : '/' ∉ name.toList
  elsewhere : name ≠ "." ∧ name ≠ upwards

theorem segments_append_slash (s name : String) :
    segments (s ++ "/" ++ name) = segments s ++ segments name := by
  have text : (s ++ "/" ++ name).toList = s.toList ++ '/' :: name.toList := by simp
  simp only [segments, String.splitToList_of_valid]
  rw [text, List.splitOnP_append_cons s.toList name.toList (by decide), List.map_append,
    List.filter_append]

theorem segments_name {name : String} (h : IsName name) : segments name = [name] := by
  have whole : name.toList.splitOnP (· == '/') = [name.toList] := by
    refine List.splitOnP_eq_singleton fun c hc => ?_
    have other : c ≠ '/' := fun slash => h.slashless (slash ▸ hc)
    simpa using other
  rw [segments, String.splitToList_of_valid, whole]
  simp [String.ofList_toList, h.nonempty]

/-- A slash at the end adds no segment. -/
theorem segments_slash (s : String) : segments (s ++ "/") = segments s := by
  have nothing : segments "" = [] := by
    rw [segments, String.splitToList_of_valid]
    rfl
  have apart := segments_append_slash s ""
  rwa [nothing, List.append_nil, String.append_empty] at apart

theorem exists_of_endsWith {s : String} (h : s.endsWith "/" = true) :
    ∃ front, s = front ++ "/" := by
  have suffix : "/".toList <:+ s.toSlice.copy.toList := String.Slice.endsWith_string_iff.mp h
  obtain ⟨front, whole⟩ := suffix
  refine ⟨String.ofList front, ?_⟩
  apply String.toList_injective
  simpa using whole.symm

theorem segments_join {name : String} (h : IsName name) (directory : String) :
    segments (join directory name) = segments directory ++ [name] := by
  rw [join]
  split
  · rename_i slash
    obtain ⟨front, rfl⟩ := exists_of_endsWith slash
    rw [segments_append_slash, segments_slash, segments_name h]
  · rw [segments_append_slash, segments_name h]

theorem startOf_join {directory : String} (h : directory ≠ "") (name : String) :
    startOf (join directory name) = startOf directory := by
  have grows : ∀ rest, startOf (directory ++ rest) = startOf directory := by
    intro rest
    have same : (directory ++ rest).startsWith "/" = directory.startsWith "/" := by
      rw [Bool.eq_iff_iff, String.startsWith_string_iff, String.startsWith_string_iff,
        String.toList_append]
      cases text : directory.toList with
      | nil => exact absurd (String.toList_eq_nil_iff.mp text) h
      | cons c front => simp
    rw [startOf, same, ← startOf]
  rw [join]
  split
  · exact grows name
  · rw [String.append_assoc]
    exact grows _

/-- A name leads from a directory to a place in it. -/
theorem pathOf_join {directory name : String} (some : directory ≠ "") (h : IsName name) :
    pathOf (join directory name) = pathOf directory ++ [name] := by
  have step : ∀ path, follow path name = path ++ [name] := by
    intro path
    simp [follow, h.elsewhere.1, h.elsewhere.2]
  rw [pathOf, segments_join h, startOf_join some, List.foldl_append, List.foldl_cons,
    List.foldl_nil, step, ← pathOf]

/-! ## Writing -/

variable {t t' : FileTree}

def put (t : FileTree) (path : Path) (text : String) : FileTree :=
  { t with files := t.files.put path text }

/-- The tree with a text at a path that was emptied before. -/
def refill (t : FileTree) (path : Path) (text : String) : FileTree := (t.put path "").put path text

/-- A file can be written at a place. -/
def IsFree (t : FileTree) (place : String) : Prop :=
  place.utf8ByteSize ≤ longestText ∧ t.hasDirectory (pathOf place) = false

theorem write_eq_ok_iff {place text : String} :
    t.write place text = .ok t' ↔ t.IsFree place ∧ t' = t.put (pathOf place) text := by
  rw [write]
  split
  · constructor
    · exact nofun
    · rintro ⟨⟨short, -⟩, -⟩
      omega
  · split
    · rename_i taken
      refine iff_of_false nofun fun ⟨⟨_, free⟩, _⟩ => ?_
      cases taken.symm.trans free
    · rename_i short free
      constructor
      · rintro ⟨⟩
        exact ⟨⟨Nat.le_of_not_lt short, by simpa using free⟩, rfl⟩
      · rintro ⟨-, rfl⟩
        rfl

theorem textAt_put (path : Path) (text : String) (other : Path) :
    (t.put path text).textAt other = if path = other then some text else t.textAt other := by
  have same : (List.instBEq : BEq Path) = instBEqOfDecidableEq := lawful_beq_subsingleton _ _
  rw [textAt, textAt, same]
  exact Ordered.lookup_put path text t.files other

/-- A file makes no directory of a path that is as long as its own. -/
theorem hasDirectory_put {path other : Path} (same : other.length = path.length) (text : String) :
    (t.put path text).hasDirectory other = t.hasDirectory other := by
  have keys : ∀ files : Ordered Path String,
      (files.any fun f => other.isPrefixOf f.1 && decide (other.length < f.1.length))
        = files.keys.any fun p => other.isPrefixOf p && decide (other.length < p.length) := by
    intro files
    rw [Ordered.keys, List.any_map]
    rfl
  simp only [hasDirectory, put, keys, Ordered.keys_put]
  split
  · rfl
  · simp [same]

theorem textAt_refill (path : Path) (text : String) (other : Path) :
    (t.refill path text).textAt other = if path = other then some text else t.textAt other := by
  rw [refill, textAt_put, textAt_put]
  split <;> rfl

theorem hasDirectory_refill {path other : Path} (same : other.length = path.length)
    (text : String) : (t.refill path text).hasDirectory other = t.hasDirectory other :=
  (hasDirectory_put same text).trans (hasDirectory_put same "")

/-! ## Making directories -/

theorem files_of_makeAlong {path : Path} {steps : List Step}
    (h : t.makeAlong path steps = .ok t') : t'.files = t.files := by
  induction steps generalizing t path with
  | nil =>
      obtain rfl := Except.ok.inj h
      rfl
  | cons step rest ih =>
      rw [makeAlong] at h
      split at h
      · cases h
      · split at h
        · cases h
        · split at h
          · cases h
          · split at h
            · exact ih h
            · exact (ih h :)

theorem files_of_makeDirectory {text : String} (h : t.makeDirectory text = .ok t') :
    text ≠ "" ∧ t'.files = t.files := by
  rw [makeDirectory] at h
  split at h
  · cases h
  · rename_i some
    exact ⟨by simpa using some, files_of_makeAlong h⟩

end FileTree

namespace Command

open FileTree

/-! ## Places -/

theorem isName_page : IsName pageName := ⟨by decide, by decide, by decide, by decide⟩

theorem isName_style : IsName styleName := ⟨by decide, by decide, by decide, by decide⟩

def pagePath (directory : String) : Path := pathOf (join directory pageName)

def stylePath (directory : String) : Path := pathOf (join directory styleName)

theorem length_stylePath {directory : String} (some : directory ≠ "") :
    (stylePath directory).length = (pagePath directory).length := by
  rw [stylePath, pagePath, pathOf_join some isName_page, pathOf_join some isName_style]
  simp

theorem pagePath_ne_stylePath {directory : String} (some : directory ≠ "") :
    pagePath directory ≠ stylePath directory := by
  rw [stylePath, pagePath, pathOf_join some isName_page, pathOf_join some isName_style]
  intro same
  have names : [pageName] = [styleName] := List.append_cancel_left same
  revert names
  decide

/-- The directory can be made, and both files can be written in it, whatever their texts. -/
def HasRoom (directory : String) (t : FileTree) : Prop :=
  ∃ t', t.makeDirectory directory = .ok t' ∧ ∀ name ∈ [pageName, styleName], ∀ text,
    ∃ t'', t'.write (join directory name) text = .ok t''

/-! ## Writing the result -/

variable {directory : String} {t : FileTree}

/-- A file that can be written is filled with the text or, where that cannot be had, emptied. -/
theorem fillFile_of_isFree {place : String} (free : t.IsFree place) (text : Except Failure String) :
    fillFile t place text = match text with
      | .ok text => (t.refill (pathOf place) text, none)
      | .error f => (t.put (pathOf place) "", some f) := by
  have emptied : t.write place "" = .ok (t.put (pathOf place) "") :=
    write_eq_ok_iff.mpr ⟨free, rfl⟩
  have free' : (t.put (pathOf place) "").IsFree place :=
    ⟨free.1, (hasDirectory_put rfl "").trans free.2⟩
  rw [fillFile, putFile, emptied]
  cases text with
  | error f => rfl
  | ok text =>
      have filled : (t.put (pathOf place) "").write place text
          = .ok (t.refill (pathOf place) text) := write_eq_ok_iff.mpr ⟨free', rfl⟩
      dsimp only [thenWrite]
      rw [putFile, filled]

section

variable [Encoding]

/-- In a directory with room the page is filled, and behind it the style sheet. -/
theorem writeResult_of_room (room : HasRoom directory t) (i : Imported) :
    ∃ t' : FileTree, t'.files = t.files ∧ directory ≠ "" ∧ writeResult i directory t
      = match pageText i, styleText i with
        | .error f, _ => (t'.put (pagePath directory) "", some f)
        | .ok page, .error f =>
          ((t'.refill (pagePath directory) page).put (stylePath directory) "", some f)
        | .ok page, .ok style =>
          ((t'.refill (pagePath directory) page).refill (stylePath directory) style, none) := by
  obtain ⟨t', made, writes⟩ := room
  obtain ⟨some, same⟩ := files_of_makeDirectory made
  refine ⟨t', same, some, ?_⟩
  have free : ∀ name ∈ [pageName, styleName], t'.IsFree (join directory name) := by
    intro name hname
    obtain ⟨_, written⟩ := writes name hname ""
    exact (write_eq_ok_iff.mp written).1
  have styleFree (page : String) :
      (t'.refill (pagePath directory) page).IsFree (join directory styleName) := by
    obtain ⟨short, apart⟩ := free styleName (by simp)
    exact ⟨short, (hasDirectory_refill (length_stylePath some) page).trans apart⟩
  rw [writeResult, makeRoom, made]
  dsimp only [thenWrite]
  rw [fillFile_of_isFree (free pageName (by simp))]
  cases pageText i with
  | error f => rfl
  | ok page =>
      dsimp only
      rw [← pagePath, fillFile_of_isFree (styleFree page)]
      cases styleText i <;> rfl

/-! ## Telling -/

theorem tell_eq_none_iff {lines : List String} :
    (tell lines).2 = none ↔ ∀ line ∈ lines, Encoding.terminal line = true := by
  induction lines with
  | nil => exact iff_of_true rfl fun _ none => absurd none List.not_mem_nil
  | cons line rest ih =>
      rw [List.forall_mem_cons, tell]
      split
      · rename_i taken
        rw [and_iff_right taken]
        exact ih
      · rename_i refused
        exact iff_of_false (Option.some_ne_none _) fun all => refused all.1

theorem perform_of_opening (opens : Encoding.terminal opening = true) (s : Settings)
    (a : Arguments) (files : FileTree) (wire : Wire) :
    ∃ told, perform s a files wire = deliver s a told files wire := by
  refine ⟨opening ++ "\n" ++ "", ?_⟩
  rw [perform, tell, if_pos opens]
  rfl

/-! ## Designs that can be presented -/

/-- The title is a text, and page, style sheet and closing words can be encoded. -/
structure Presentable (i : Imported) (directory : String) : Prop where
  page : ∃ title, titleOf i = .text title ∧
    Encoding.file (Page.document i.converted.html none title) = true
  style : Encoding.file i.converted.css = true
  told : ∀ line ∈ closing i directory, Encoding.terminal line = true

theorem encoded_eq_ok_iff {text text' : String} :
    encoded text = .ok text' ↔ Encoding.file text = true ∧ text = text' := by
  rw [encoded]
  split
  · rename_i taken
    rw [and_iff_right taken, Except.ok.injEq]
  · rename_i refused
    exact iff_of_false nofun fun taken => refused taken.1

theorem pageText_eq_ok_iff {i : Imported} {page : String} :
    pageText i = .ok page ↔ ∃ title, titleOf i = .text title ∧
      Encoding.file (Page.document i.converted.html none title) = true ∧
      Page.document i.converted.html none title = page := by
  rw [pageText]
  cases titleOf i with
  | text s =>
      refine encoded_eq_ok_iff.trans ⟨fun h => ⟨s, rfl, h⟩, ?_⟩
      rintro ⟨title, same, h⟩
      obtain rfl := Value.text.inj same
      exact h
  | _ => exact iff_of_false nofun fun ⟨_, same, _⟩ => nomatch same

theorem presentable_iff {i : Imported} :
    Presentable i directory ↔ (∃ page, pageText i = .ok page) ∧ (∃ style, styleText i = .ok style) ∧
      (tell (closing i directory)).2 = none := by
  constructor
  · rintro ⟨⟨title, text, page⟩, style, told⟩
    exact ⟨⟨_, pageText_eq_ok_iff.mpr ⟨title, text, page, rfl⟩⟩,
      ⟨_, encoded_eq_ok_iff.mpr ⟨style, rfl⟩⟩, tell_eq_none_iff.mpr told⟩
  · rintro ⟨⟨page, h⟩, ⟨style, h'⟩, told⟩
    obtain ⟨title, text, taken, -⟩ := pageText_eq_ok_iff.mp h
    exact ⟨⟨title, text, taken⟩, (encoded_eq_ok_iff.mp h').1, tell_eq_none_iff.mp told⟩

/-- What a command leaves of the files when it fails behind the import is what they held before. -/
def Unnoticed (i : Imported) (directory : String) (files : FileTree) : Prop :=
  match pageText i, styleText i with
  | .error _, _ => files.textAt (pagePath directory) = some ""
  | .ok page, .error _ =>
    files.textAt (pagePath directory) = some page ∧ files.textAt (stylePath directory) = some ""
  | .ok page, .ok style =>
    files.textAt (pagePath directory) = some page ∧ files.textAt (stylePath directory) = some style

end

/-! ## Pages without surrogates -/

theorem file_append {s t : String} (h : Encoding.file s = true) (h' : Encoding.file t = true) :
    Encoding.file (s ++ t) = true := by
  change (s ++ t).toList.all _ = true
  rw [String.toList_append, List.all_append, Bool.and_eq_true]
  exact ⟨h, h'⟩

/-- A page around a body and a title that can be encoded can be encoded. -/
theorem file_document {body title : String} (h : Encoding.file body = true)
    (h' : Encoding.file (Text.escape title) = true) :
    Encoding.file (Page.document body none title) = true := by
  have style : Encoding.file (Page.styleBlock none) = true := by decide +kernel
  unfold Page.document
  refine file_append (file_append (file_append (file_append (file_append (file_append
    (file_append (file_append ?_ ?_) ?_) h') ?_) style) ?_) h) ?_
  all_goals decide +kernel

/-! ## A frame with nothing in it -/

namespace Bare

def frame (name : Value) : Value :=
  .object [("id", .text "1:2"), ("name", name), ("type", .text "FRAME")]

def url : String := "https://www.figma.com/design/KEY?node-id=1-2"

def link : ShareLink := { fileKey := "KEY", nodeId := some "1:2" }

def arguments : List String := [url, "--token", "t"]

def request : Arguments :=
  { link := url, directory := ".", token := some "t", noEffects := false, noAutoLayout := false
    noFlexbox := false }

theorem read : readArguments arguments = .ok request := by decide

def settings : Settings :=
  { Gallery.visitor.settings with apiBase := .text "https://service" }

def client : Client := { token := .text "t", baseUrl := .text "https://service", settings }

/-- The service answers with the frame, in a file without a name. -/
def wire (name : Value) : Wire :=
  Wire.fresh [.answered ⟨200, [], .json (.object
    [("name", .null), ("nodes", .object [("1:2", .object [("document", frame name)])])])⟩]

def found : FileTree :=
  { files := [([pageName], "old page"), ([styleName], "old style")], directories := [] }

theorem startOf_here : startOf "." = [] := by
  have other : ¬ ".".startsWith "/" = true := by
    rw [String.startsWith_string_iff]
    decide
  exact if_neg other

theorem pathOf_here : pathOf "." = [] := by
  rw [pathOf, startOf_here, segments, String.splitToList_of_valid]
  rfl

theorem hasRoom : HasRoom "." found := by
  have made : found.makeDirectory "." = .ok { found with directories := [[]] } := by
    have step : steps "." = [⟨".", 1⟩] := by
      rw [steps, String.splitToList_of_valid]
      rfl
    rw [makeDirectory, startOf_here, step]
    rfl
  refine ⟨_, made, fun name hname text => ⟨_, write_eq_ok_iff.mpr ⟨⟨?_, ?_⟩, rfl⟩⟩⟩
  · have sizes : ∀ name ∈ [pageName, styleName], name.utf8ByteSize ≤ 10 + 1 := by decide
    have size := sizes name hname
    have dot : ".".utf8ByteSize = 1 := rfl
    have slash : "/".utf8ByteSize = 1 := rfl
    rw [join, longestText]
    split <;> simp only [String.utf8ByteSize_append, dot, slash] <;> omega
  · simp only [List.mem_cons, List.not_mem_nil, or_false] at hname
    rcases hname with rfl | rfl
    · rw [pathOf_join (by decide) isName_page, pathOf_here]
      decide
    · rw [pathOf_join (by decide) isName_style, pathOf_here]
      decide

def shown (className : String) : Converted where
  html := "<div class=\"" ++ className ++ "\"></div>\n"
  css := ""
  images := []

set_option maxRecDepth 20000 in
theorem converted_hero :
    convertValue (frame (.text "Hero")) (optionsOf request) = .ok (shown "hero") := rfl

set_option maxRecDepth 20000 in
theorem converted_null :
    convertValue (frame .null) (optionsOf request) = .ok (shown "element") := rfl

set_option maxRecDepth 20000 in
theorem linked : ShareLink.ofText? url = some link := by decide

def result (className : String) (name : Value) : Imported where
  converted := shown className
  fileName := .null
  nodeId := .text "1:2"
  nodeName := name

theorem imported {className : String} {name : Value}
    (converted : convertValue (frame name) (optionsOf request) = .ok (shown className)) :
    ∃ wire', (importing settings request).on (wire name) = (.ok (result className name), wire') := by
  have shallow : (frame name).levels = 1 := rfl
  have made : Imported.prepared client (.ok (optionsOf request)) (frame name)
      = .ok (shown className) :=
    Imported.prepared_of_convertValue rfl converted (by omega)
  have parsed : ShareLink.ofValue? (.text url) = .ok (some link) := by
    rw [ShareLink.ofValue?_text, linked]
  have created : (Session.check (Client.create settings (tokenOf settings request) .null)).on
      (wire name) = (.ok client, wire name) := rfl
  have fetched : (Imported.fetchTarget client link).on (wire name)
      = (.ok (frame name, .null), ((Imported.fetchTarget client link).on (wire name)).2) := rfl
  have run := Imported.on_ofUrl_of_no_images parsed fetched made rfl
  exact ⟨_, (Session.on_bind_of_ok created).trans run⟩

theorem presentable : Presentable (result "hero" (.text "Hero")) request.directory where
  page := ⟨"Hero", rfl, file_document (by decide +kernel) (by decide +kernel)⟩
  style := by decide
  told := by decide +kernel

end Bare

/-! ## All or nothing -/

variable (s : Settings) (a : Arguments) (files : FileTree) (wire : Wire)

/-- The command came to its end, and left the page and the style sheet of what it imported. -/
def Delivers (r : Report) : Prop :=
  r.ending = .finished ∧ ∃ i wire' title, (importing s a).on wire = (.ok i, wire') ∧
    titleOf i = .text title ∧
    r.files.textAt (pagePath a.directory) = some (Page.document i.converted.html none title) ∧
    r.files.textAt (stylePath a.directory) = some i.converted.css

/-- The command failed, and left both files as it found them. -/
def Refuses (r : Report) : Prop :=
  (r.ending = .exited 1 ∨ ∃ f, r.ending = .failed f) ∧
    r.files.textAt (pagePath a.directory) = files.textAt (pagePath a.directory) ∧
    r.files.textAt (stylePath a.directory) = files.textAt (stylePath a.directory)

/-- Nothing between the two. -/
def AllOrNothing (r : Report) : Prop := Delivers s a wire r ∨ Refuses a files r

variable {s a files wire} {wire' : Wire} {told : String}

/-- A command that failed has done all or nothing if it left what it found. -/
theorem allOrNothing_iff_of_failed {r : Report} {f : Failure} (failed : r.ending = .failed f) :
    AllOrNothing s a files wire r ↔
      r.files.textAt (pagePath a.directory) = files.textAt (pagePath a.directory) ∧
        r.files.textAt (stylePath a.directory) = files.textAt (stylePath a.directory) := by
  constructor
  · rintro (⟨finished, -⟩ | ⟨-, unchanged⟩)
    · cases failed.symm.trans finished
    · exact unchanged
  · intro unchanged
    exact .inr ⟨.inr ⟨f, failed⟩, unchanged⟩

section

variable [Encoding]

theorem refuses_of_error {f : Failure} (h : (importing s a).on wire = (.error f, wire')) :
    Refuses a files (deliver s a told files wire) := by
  rw [deliver, h]
  dsimp only
  split
  · refine ⟨?_, rfl, rfl⟩
    dsimp only
    cases (tell [apology f]).2 with
    | none => exact .inl rfl
    | some f' => exact .inr ⟨f', rfl⟩
  · exact ⟨.inr ⟨f, rfl⟩, rfl, rfl⟩

section

variable (told) {i : Imported} (imported : (importing s a).on wire = (.ok i, wire'))

include imported

/-- A command that cannot write what it imported fails for that. -/
theorem deliver_of_unwritten {t : FileTree} {f : Failure}
    (unwritten : writeResult i a.directory files = (t, some f)) :
    (deliver s a told files wire).ending = .failed f ∧
      (deliver s a told files wire).files = t := by
  rw [deliver, imported]
  dsimp only
  rw [unwritten]
  exact ⟨rfl, rfl⟩

/-- Where everything is written the closing words decide how the command ends. -/
theorem deliver_of_written {t : FileTree} (written : writeResult i a.directory files = (t, none)) :
    (deliver s a told files wire).ending
        = (tell (closing i a.directory)).2.elim .finished .failed ∧
      (deliver s a told files wire).files = t := by
  rw [deliver, imported]
  dsimp only
  rw [written]
  exact ⟨rfl, rfl⟩

variable (room : HasRoom a.directory files)

include room

/-- Without a page the command fails with an empty one. -/
theorem deliver_of_no_page {f : Failure} (none : pageText i = .error f) :
    let r := deliver s a told files wire
    r.ending = .failed f ∧ r.files.textAt (pagePath a.directory) = some "" ∧
      r.files.textAt (stylePath a.directory) = files.textAt (stylePath a.directory) := by
  obtain ⟨t', same, some, unwritten⟩ := writeResult_of_room room i
  have apart := pagePath_ne_stylePath some
  rw [none] at unwritten
  obtain ⟨failed, left⟩ := deliver_of_unwritten told imported unwritten
  refine ⟨failed, ?_, ?_⟩
  · rw [left, textAt_put, if_pos rfl]
  · rw [left, textAt_put, if_neg apart, textAt, same, ← textAt]

/-- Without a style sheet it fails with an empty one, behind the page. -/
theorem deliver_of_no_style {page : String} {f : Failure} (h : pageText i = .ok page)
    (none : styleText i = .error f) :
    let r := deliver s a told files wire
    r.ending = .failed f ∧ r.files.textAt (pagePath a.directory) = some page ∧
      r.files.textAt (stylePath a.directory) = some "" := by
  obtain ⟨t', -, some, unwritten⟩ := writeResult_of_room room i
  have apart := pagePath_ne_stylePath some
  rw [h, none] at unwritten
  obtain ⟨failed, left⟩ := deliver_of_unwritten told imported unwritten
  refine ⟨failed, ?_, ?_⟩
  · rw [left, textAt_put, if_neg (Ne.symm apart), textAt_refill, if_pos rfl]
  · rw [left, textAt_put, if_pos rfl]

/-- With both the closing words decide how it ends. -/
theorem deliver_of_both {page style : String} (h : pageText i = .ok page)
    (h' : styleText i = .ok style) :
    let r := deliver s a told files wire
    r.ending = (tell (closing i a.directory)).2.elim .finished .failed ∧
      r.files.textAt (pagePath a.directory) = some page ∧
      r.files.textAt (stylePath a.directory) = some style := by
  obtain ⟨t', -, some, written⟩ := writeResult_of_room room i
  have apart := pagePath_ne_stylePath some
  rw [h, h'] at written
  obtain ⟨ending, left⟩ := deliver_of_written told imported written
  refine ⟨ending, ?_, ?_⟩
  · rw [left, textAt_refill, if_neg (Ne.symm apart), textAt_refill, if_pos rfl]
  · rw [left, textAt_refill, if_pos rfl]

/-- Behind an import the command delivers a design that can be presented, and fails with any
other. -/
theorem allOrNothing_deliver_iff :
    AllOrNothing s a files wire (deliver s a told files wire) ↔
      Presentable i a.directory ∨ Unnoticed i a.directory files := by
  rw [presentable_iff, Unnoticed]
  cases page : pageText i with
  | error f =>
      obtain ⟨failed, emptied, kept⟩ := deliver_of_no_page told imported room page
      rw [allOrNothing_iff_of_failed failed, emptied, kept, and_iff_left rfl, eq_comm]
      exact (or_iff_right fun presentable => nomatch presentable.1).symm
  | ok text =>
      cases style : styleText i with
      | error f =>
          obtain ⟨failed, filled, emptied⟩ :=
            deliver_of_no_style told imported room page style
          rw [allOrNothing_iff_of_failed failed, filled, emptied, eq_comm, eq_comm (a := some "")]
          exact (or_iff_right fun presentable => nomatch presentable.2.1).symm
      | ok css =>
          obtain ⟨ending, filled, styled⟩ := deliver_of_both told imported room page style
          cases words : (tell (closing i a.directory)).2 with
          | none =>
              rw [words] at ending
              obtain ⟨title, titled, -, whole⟩ := pageText_eq_ok_iff.mp page
              obtain ⟨-, same⟩ := encoded_eq_ok_iff.mp style
              refine iff_of_true (.inl ⟨ending, i, wire', title, imported, titled, ?_, ?_⟩)
                (.inl ⟨⟨text, rfl⟩, ⟨css, rfl⟩, rfl⟩)
              · rw [filled, whole]
              · rw [styled, same]
          | some f =>
              rw [words] at ending
              rw [allOrNothing_iff_of_failed ending, filled, styled, eq_comm, eq_comm (a := some css)]
              exact (or_iff_right fun presentable => nomatch presentable.2.2).symm

end

/-- In a directory with room a command delivers or refuses, unless it imports a design that cannot
be presented: then the page or the style sheet is left empty, or the command fails behind both of
them, which goes unnoticed only where the files held just that before. -/
theorem allOrNothing_iff {arguments : List String} (read : readArguments arguments = .ok a)
    (room : HasRoom a.directory files) :
    AllOrNothing s a files wire (run s arguments files wire) ↔
      (Encoding.terminal opening = true → ∀ i wire', (importing s a).on wire = (.ok i, wire') →
        Presentable i a.directory ∨ Unnoticed i a.directory files) := by
  have performs : run s arguments files wire = perform s a files wire := by rw [run, read]
  rw [performs]
  by_cases opens : Encoding.terminal opening = true
  · obtain ⟨told, delivers⟩ := perform_of_opening opens s a files wire
    obtain ⟨result, wire', imported⟩ : ∃ result wire', (importing s a).on wire = (result, wire') :=
      ⟨_, _, rfl⟩
    rw [delivers]
    cases result with
    | error f =>
        refine iff_of_true (.inr (refuses_of_error imported)) ?_
        intro _ i wire'' other
        cases imported.symm.trans other
    | ok i =>
        rw [allOrNothing_deliver_iff told imported room]
        constructor
        · intro h _ i' wire'' other
          obtain ⟨⟨⟩, -⟩ := Prod.mk.inj (imported.symm.trans other)
          exact h
        · intro h
          exact h opens i wire' imported
  · refine iff_of_true ?_ fun opens' => absurd opens' opens
    rw [perform, tell, if_neg opens]
    exact .inr ⟨.inr ⟨_, rfl⟩, rfl, rfl⟩

end

/-- A frame that has a name is delivered. -/
theorem allOrNothing_bare : AllOrNothing Bare.settings Bare.request Bare.found
    (Bare.wire (.text "Hero"))
    (run Bare.settings Bare.arguments Bare.found (Bare.wire (.text "Hero"))) := by
  refine (allOrNothing_iff Bare.read Bare.hasRoom).mpr fun _ i wire' other => ?_
  obtain ⟨wire'', imported⟩ := Bare.imported Bare.converted_hero
  obtain ⟨⟨⟩, -⟩ := Prod.mk.inj (imported.symm.trans other)
  exact .inl Bare.presentable

/-- A frame without a name in a file without one costs the page that was there. -/
theorem not_allOrNothing_bare : HasRoom "." Bare.found ∧
    readArguments Bare.arguments = .ok Bare.request ∧
    let r := run Bare.settings Bare.arguments Bare.found (Bare.wire .null)
    ¬ AllOrNothing Bare.settings Bare.request Bare.found (Bare.wire .null) r ∧
      r.ending = .failed (.data .noSuchPart) ∧
      Bare.found.textAt (pagePath ".") = some "old page" ∧
      r.files.textAt (pagePath ".") = some "" := by
  obtain ⟨wire', imported⟩ := Bare.imported Bare.converted_null
  have before : Bare.found.textAt (pagePath ".") = some "old page" := by
    rw [pagePath, pathOf_join (by decide) isName_page, Bare.pathOf_here]
    rfl
  obtain ⟨told, delivers⟩ :=
    perform_of_opening (by decide) Bare.settings Bare.request Bare.found (Bare.wire .null)
  have performs : run Bare.settings Bare.arguments Bare.found (Bare.wire .null)
      = deliver Bare.settings Bare.request told Bare.found (Bare.wire .null) := by
    rw [run, Bare.read]
    exact delivers
  have untitled : pageText (Bare.result "element" .null) = .error (.data .noSuchPart) := rfl
  obtain ⟨failed, page, -⟩ := deliver_of_no_page told imported Bare.hasRoom untitled
  rw [performs]
  refine ⟨Bare.hasRoom, Bare.read, fun all => ?_, failed, before, page⟩
  have unchanged := ((allOrNothing_iff_of_failed failed).mp all).1
  have same : some "" = some "old page" := page.symm.trans (unchanged.trans before)
  revert same
  decide

end Command

end DesignMarkup
