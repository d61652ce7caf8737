import Mathlib.Data.List.DropRight
import DesignMarkup.Proofs.ClassNames
import DesignMarkup.Proofs.ShareLinks

/-!
# Which texts are share links

A text is laid out as an address by saying what it is put together from, with no reader in it:
a user, a place around a host, a path with parameters, a query and a fragment. The reader finds
the parts of such a layout, and every text whose address has a host has one. So the texts that
are share links are told by their host and by the first key in their path. The host of the
service is asked for as a part of the host, and that lets in the hosts that merely hold it.
-/

namespace DesignMarkup

open Text

/-! ## Pieces -/

section

variable {s t : List Char} {p : Char → Bool}

theorem head_of_dropWhile : ∀ c ∈ (s.dropWhile p).head?, p c = false := by
  intro c hc
  have first := List.head?_dropWhile_not p s
  rw [Option.mem_def.mp hc] at first
  exact first

theorem takeWhile_append_of_head (hs : ∀ c ∈ s, p c = true) (ht : ∀ c ∈ t.head?, p c = false) :
    (s ++ t).takeWhile p = s := by
  rw [List.takeWhile_append_of_pos hs]
  cases t with
  | nil => exact List.append_nil s
  | cons c t => simp [ht c rfl]

theorem dropWhile_append_of_head (hs : ∀ c ∈ s, p c = true) (ht : ∀ c ∈ t.head?, p c = false) :
    (s ++ t).dropWhile p = t := by
  rw [List.dropWhile_append_of_pos hs]
  cases t with
  | nil => rfl
  | cons c t => simp [ht c rfl]

/-- A text is the part before the first separator and, behind it, the part that follows. -/
theorem exists_splitFirst (separator : Char) (s : List Char) :
    ∃ front part, splitFirst separator s = (front, part) ∧
      s = front ++ behind separator part ∧ separator ∉ front := by
  induction s with
  | nil => exact ⟨[], none, rfl, rfl, List.not_mem_nil⟩
  | cons c rest ih =>
      by_cases hc : c = separator
      · exact ⟨[], some rest, by rw [splitFirst, if_pos hc], by rw [hc]; rfl, List.not_mem_nil⟩
      · obtain ⟨front, part, split_eq, rest_eq, apart⟩ := ih
        refine ⟨c :: front, part, by rw [splitFirst, if_neg hc, split_eq], ?_, ?_⟩
        · rw [List.cons_append, ← rest_eq]
        · exact List.not_mem_cons_of_ne_of_not_mem (Ne.symm hc) apart

end

namespace Address

/-! ## Layouts -/

/-- How a host is written: bare, in brackets, or behind an opening bracket, where the fellow of
the bracket is missed nowhere because the user has one. -/
inductive Place : List Char → List Char → Prop
  | bare {host : List Char} {port : Option (List Char)} : ':' ∉ host →
      '[' ∉ host ++ behind ':' port → Place host (host ++ behind ':' port)
  | bracketed {host : List Char} {port : Option (List Char)} : ']' ∉ host →
      Place host ('[' :: (host ++ ']' :: behind ':' port))
  | unclosed {host : List Char} : ']' ∉ host → Place host ('[' :: host)

/-- An authority: a user with its mark, or none, and the place of a host. -/
structure Authority where
  user : List Char
  host : List Char
  place : List Char
  user_last : ∀ c ∈ user.getLast?, c = '@'
  around : Place host place
  place_mark : '@' ∉ place

def Authority.text (a : Authority) : List Char := a.user ++ a.place

/-- Nothing, or a scheme with its colon. -/
def IsLead (lead : List Char) : Prop :=
  lead = [] ∨ ∃ first rest, lead = first :: (rest ++ [':']) ∧ first.isAlpha = true ∧
    ∀ c ∈ first :: rest, isSchemeChar c = true

/-- What a text with an authority is put together from, once blanks in front and tabs and line
breaks are gone. Parameters behind the path may be set apart from it or be left to it. -/
structure Layout (text : List Char) where
  lead : List Char
  authority : Authority
  path : List Char
  params : Option (List Char)
  query : Option (List Char)
  fragment : Option (List Char)
  text_eq : clean text = lead ++ '/' :: '/' :: (authority.text ++
    ((path ++ behind ';' params) ++ behind '?' query ++ behind '#' fragment))
  lead_scheme : IsLead lead
  authority_marks : ∀ c ∈ authority.text, endsAuthority c = false
  path_head : ∀ c ∈ (path ++ behind ';' params).head?, c = '/'
  path_marks : '?' ∉ path ++ behind ';' params
  query_marks : '#' ∉ (path ++ behind ';' params) ++ behind '?' query
  params_marks : '/' ∉ behind ';' params

/-! ### Schemes -/

theorem afterScheme_lead {lead : List Char} (h : IsLead lead) (rest : List Char) :
    afterScheme (lead ++ '/' :: '/' :: rest) = '/' :: '/' :: rest := by
  rcases h with rfl | ⟨first, name, rfl, letter, characters⟩
  · -- A slash is no scheme, whatever colon comes later.
    rw [List.nil_append, afterScheme]
    split
    · rename_i scheme behindColon split_eq
      rw [splitFirst, if_neg (by decide), Prod.mk.injEq] at split_eq
      obtain ⟨rfl, -⟩ := split_eq
      rfl
    · rfl
  · have colon : ':' ∉ first :: name := by
      intro hc
      exact absurd (characters _ hc) (by decide)
    have text_eq : (first :: (name ++ [':'])) ++ '/' :: '/' :: rest
        = (first :: name) ++ behind ':' (some ('/' :: '/' :: rest)) := by simp [behind]
    have scheme : (first :: name).all isSchemeChar = true := List.all_eq_true.mpr characters
    rw [text_eq, afterScheme, splitFirst_behind colon]
    simp only [List.head?_cons, Option.any_some, letter, scheme, Bool.and_self, if_true]

theorem exists_lead (s : List Char) : ∃ lead, IsLead lead ∧ s = lead ++ afterScheme s := by
  obtain ⟨front, part, split_eq, s_eq, -⟩ := exists_splitFirst ':' s
  have whole : ∃ lead, IsLead lead ∧ s = lead ++ s := ⟨[], Or.inl rfl, rfl⟩
  rw [afterScheme, split_eq]
  cases part with
  | none => exact whole
  | some rest =>
      dsimp only
      split
      · rename_i scheme
        obtain ⟨letter, characters⟩ := Bool.and_eq_true_iff.mp scheme
        cases front with
        | nil => cases letter
        | cons first name =>
            refine ⟨first :: (name ++ [':']), Or.inr ⟨first, name, rfl, letter, ?_⟩, ?_⟩
            · exact List.all_eq_true.mp characters
            · rw [s_eq]
              simp [behind]
      · exact whole

/-! ### Hosts -/

def hostAt (place : List Char) : List Char :=
  if place.contains '[' then betweenBrackets place else (splitFirst ':' place).1

theorem hostOf_eq (authority : List Char) :
    hostOf authority = lowerHost (hostAt (afterLast '@' authority)) := by
  rw [hostOf, hostAt]
  split <;> rfl

theorem splitFirst_opening (rest : List Char) : splitFirst '[' ('[' :: rest) = ([], some rest) := by
  rw [splitFirst, if_pos rfl]

theorem hostAt_of_place {host place : List Char} (h : Place host place) : hostAt place = host := by
  cases h with
  | bare colon bracket => rw [hostAt, if_neg (by simpa using bracket), splitFirst_behind colon]
  | @bracketed port closing =>
      have closed := splitFirst_behind closing (some (behind ':' port))
      rw [behind] at closed
      rw [hostAt, if_pos (by simp), betweenBrackets, splitFirst_opening, Option.getD_some, closed]
  | unclosed closing =>
      have open_end := splitFirst_behind closing none
      rw [behind, List.append_nil] at open_end
      rw [hostAt, if_pos (by simp), betweenBrackets, splitFirst_opening, Option.getD_some, open_end]

/-- Every place that is not refused is written around a host. -/
theorem exists_place {place : List Char}
    (h : place.contains '[' = true → isBracketedPlace place = true) :
    ∃ host, Place host place := by
  by_cases opening : '[' ∈ place
  · have opened : place.contains '[' = true := by simpa using opening
    have shape := h opened
    rw [isBracketedPlace, if_pos opened, Bool.and_eq_true, Bool.and_eq_true] at shape
    obtain ⟨⟨first, -⟩, behind_brackets⟩ := shape
    cases place with
    | nil => cases opened
    | cons c rest =>
        obtain rfl : c = '[' := by simpa [Option.isEqSome] using first
        obtain ⟨host, part, split_eq, rfl, closing⟩ := exists_splitFirst ']' rest
        cases part with
        | none =>
            refine ⟨host, ?_⟩
            rw [behind, List.append_nil]
            exact .unclosed closing
        | some tail =>
            -- What stands behind the brackets is nothing or a port.
            rw [behindBrackets, splitFirst_opening, Option.getD_some, split_eq] at behind_brackets
            cases tail with
            | nil => exact ⟨host, @Place.bracketed host none closing⟩
            | cons d port =>
                obtain rfl : d = ':' := by simpa [Option.isEqSome] using behind_brackets
                exact ⟨host, @Place.bracketed host (some port) closing⟩
  · obtain ⟨host, port, -, rfl, colon⟩ := exists_splitFirst ':' place
    exact ⟨host, .bare colon opening⟩

/-! ### Authorities -/

namespace Authority

theorem afterLast_text (a : Authority) : afterLast '@' a.text = a.place := by
  have place : ∀ c ∈ a.place.reverse, (c != '@') = true := by
    intro c hc
    simpa using fun same : c = '@' => a.place_mark (same ▸ List.mem_reverse.mp hc)
  have user : ∀ c ∈ a.user.reverse.head?, (c != '@') = false := by
    intro c hc
    rw [List.head?_reverse] at hc
    simpa using a.user_last c hc
  rw [afterLast, text, List.reverse_append, takeWhile_append_of_head place user,
    List.reverse_reverse]

theorem hostOf_text (a : Authority) : hostOf a.text = lowerHost a.host := by
  rw [hostOf_eq, a.afterLast_text, hostAt_of_place a.around]

end Authority

theorem exists_authority {s : List Char} (h : isAuthority s = true) :
    ∃ a : Authority, a.text = s := by
  have place_mark : '@' ∉ afterLast '@' s := by
    intro hc
    exact absurd (List.mem_rtakeWhile_imp (p := (· != '@')) hc) (by decide)
  have user_last : ∀ c ∈ (s.rdropWhile (· != '@')).getLast?, c = '@' := by
    intro c hc
    rw [List.rdropWhile, List.getLast?_reverse] at hc
    simpa using head_of_dropWhile c hc
  obtain ⟨host, around⟩ : ∃ host, Place host (afterLast '@' s) := by
    apply exists_place
    intro opened
    -- A bracket in the place is a bracket in the authority.
    rw [isAuthority, Bool.and_eq_true, Bool.and_eq_true, Bool.or_eq_true] at h
    refine h.1.2.resolve_left ?_
    have opening : '[' ∈ afterLast '@' s := by simpa using opened
    have whole : '[' ∈ s := (List.rtakeWhile_suffix _ s).mem opening
    simpa using whole
  exact ⟨⟨_, host, _, user_last, around, place_mark⟩, List.rdropWhile_append_rtakeWhile⟩

/-! ### Addresses -/

namespace Layout

variable {text : List Char} (l : Layout text)

def route : List Char := l.path ++ behind ';' l.params

theorem head_of_rest :
    ∀ c ∈ (l.route ++ behind '?' l.query ++ behind '#' l.fragment).head?,
      endsAuthority c = true := by
  intro c hc
  have path_head := l.path_head
  rw [← route] at path_head
  cases path : l.route with
  | cons d rest =>
      rw [path] at hc path_head
      obtain rfl : d = c := Option.some.inj hc
      rw [path_head d rfl]
      rfl
  | nil =>
      rw [path] at hc
      cases query : l.query with
      | some q =>
          rw [query] at hc
          obtain rfl : '?' = c := Option.some.inj hc
          rfl
      | none =>
          rw [query] at hc
          cases fragment : l.fragment with
          | some f =>
              rw [fragment] at hc
              obtain rfl : '#' = c := Option.some.inj hc
              rfl
          | none =>
              rw [fragment] at hc
              cases hc

theorem splitAuthority_eq : splitAuthority (afterScheme (clean text))
    = (l.authority.text, l.route ++ behind '?' l.query ++ behind '#' l.fragment) := by
  have inside : ∀ c ∈ l.authority.text, (!endsAuthority c) = true := by
    intro c hc
    rw [l.authority_marks c hc]
    rfl
  have border : ∀ c ∈ (l.route ++ behind '?' l.query ++ behind '#' l.fragment).head?,
      (!endsAuthority c) = false := by
    intro c hc
    rw [l.head_of_rest c hc]
    rfl
  rw [l.text_eq, afterScheme_lead l.lead_scheme, ← route, splitAuthority,
    takeWhile_append_of_head inside border, dropWhile_append_of_head inside border]

/-- The reader finds the parts of a layout. -/
theorem address?_eq : Address.ofText? text = if isAuthority l.authority.text then
    some ⟨lowerHost l.authority.host, l.route, l.query.getD []⟩ else none := by
  have query_marks : '#' ∉ l.route ++ behind '?' l.query := l.query_marks
  have path_marks : '?' ∉ l.route := l.path_marks
  rw [Address.ofText?, l.splitAuthority_eq]
  dsimp only
  rw [splitFirst_behind query_marks, splitFirst_behind path_marks, l.authority.hostOf_text]

/-- All layouts of a text have the same authority. -/
theorem authority_text_eq (l' : Layout text) : l.authority.text = l'.authority.text :=
  congrArg Prod.fst (l.splitAuthority_eq.symm.trans l'.splitAuthority_eq)

theorem host_eq (l' : Layout text) : l.authority.host = l'.authority.host := by
  rw [← hostAt_of_place l.authority.around, ← hostAt_of_place l'.authority.around,
    ← l.authority.afterLast_text, ← l'.authority.afterLast_text, l.authority_text_eq l']

end Layout

/-- Without two slashes there is no authority. -/
theorem exists_splitAuthority {s : List Char} (h : (splitAuthority s).1 ≠ []) :
    ∃ authority rest, splitAuthority s = (authority, rest) ∧ s = '/' :: '/' :: (authority ++ rest) ∧
      (∀ c ∈ authority, endsAuthority c = false) ∧ ∀ c ∈ rest.head?, endsAuthority c = true := by
  revert h
  unfold splitAuthority
  split
  · rename_i rest
    intro _
    refine ⟨_, _, rfl, ?_, ?_, ?_⟩
    · rw [List.takeWhile_append_dropWhile]
    · intro c hc
      simpa using List.mem_takeWhile_imp hc
    · intro c hc
      simpa using head_of_dropWhile c hc
  · exact fun h => absurd rfl h

/-- What stands between an authority and the first later mark is empty or begins with a slash. -/
theorem head_path {path query fragment : List Char} (border : ∀ c ∈ (path ++ query ++ fragment).head?,
    endsAuthority c = true) (no_query : '?' ∉ path) (no_fragment : '#' ∉ path) :
    ∀ c ∈ path.head?, c = '/' := by
  intro c hc
  cases path with
  | nil => cases hc
  | cons d path =>
      obtain rfl : d = c := Option.some.inj hc
      have ends := border d rfl
      have query_other : d ≠ '?' := fun same => no_query (same ▸ List.mem_cons_self)
      have fragment_other : d ≠ '#' := fun same => no_fragment (same ▸ List.mem_cons_self)
      simpa [endsAuthority, query_other, fragment_other] using ends

/-- A text whose address has a host has a layout. -/
theorem exists_layout {text : List Char} {a : Address} (h : Address.ofText? text = some a)
    (some_host : a.host ≠ []) : Nonempty (Layout text) := by
  obtain ⟨lead, lead_scheme, text_eq⟩ := exists_lead (clean text)
  rw [Address.ofText?] at h
  dsimp only at h
  split at h
  · rename_i allowed
    obtain rfl := Option.some.inj h
    have some_authority : (splitAuthority (afterScheme (clean text))).1 ≠ [] := by
      intro none
      dsimp only at some_host
      rw [none] at some_host
      exact some_host rfl
    obtain ⟨authority, rest, split_eq, scheme_eq, inside, border⟩ :=
      exists_splitAuthority some_authority
    rw [split_eq] at allowed
    obtain ⟨written, rfl⟩ := exists_authority allowed
    obtain ⟨front, fragment, -, rest_eq, fragment_mark⟩ := exists_splitFirst '#' rest
    obtain ⟨path, query, -, rfl, query_mark⟩ := exists_splitFirst '?' front
    have whole : path ++ behind ';' none = path := List.append_nil path
    have path_head : ∀ c ∈ path.head?, c = '/' :=
      head_path (rest_eq ▸ border) query_mark fun mem => fragment_mark (List.mem_append_left _ mem)
    refine ⟨⟨lead, written, path, none, query, fragment, ?_, lead_scheme, inside, ?_, ?_, ?_, ?_⟩⟩
    · rw [whole, ← rest_eq, ← scheme_eq]
      exact text_eq
    · rwa [whole]
    · rwa [whole]
    · rwa [whole]
    · exact List.not_mem_nil
  · cases h

end Address

namespace ShareLink

/-! ## Keys in a path -/

/-- Behind some characters of a path stands an introduction, and behind that a key, which is all
the letters and digits that follow. -/
def KeyAt (before key path : List Char) : Prop :=
  key ≠ [] ∧ (∀ c ∈ key, isKeyChar c = true) ∧
    ∃ intro ∈ keyIntroductions, ∃ rest, path = before ++ intro ++ key ++ rest ∧
      ∀ c ∈ rest.head?, isKeyChar c = false

/-- The key stands at the leftmost place of a path where one does. -/
def IsFirstKey (path key : List Char) : Prop :=
  ∃ before, KeyAt before key path ∧
    ∀ before' key', KeyAt before' key' path → before.length ≤ before'.length

theorem exists_kind {intro : List Char} (h : intro ∈ keyIntroductions) :
    ∃ kind ∈ ["file".toList, "design".toList], intro = '/' :: (kind ++ ['/']) := by
  rcases List.mem_cons.mp h with rfl | h
  · exact ⟨"file".toList, by decide, by decide⟩
  · obtain rfl := List.mem_singleton.mp h
    exact ⟨"design".toList, by decide, by decide⟩

theorem keyHere?_eq_some_iff {path key : List Char} :
    keyHere? path = some key ↔ KeyAt [] key path := by
  constructor
  · intro h
    obtain ⟨intro, hintro, found⟩ := List.exists_of_findSome?_eq_some h
    split at found
    · rename_i rest starts
      dsimp only at found
      split at found
      · cases found
      · rename_i some_key
        obtain rfl := Option.some.inj found
        refine ⟨fun none => some_key (List.isEmpty_iff.mpr none), ?_, intro, hintro,
          rest.dropWhile isKeyChar, ?_, head_of_dropWhile⟩
        · exact fun c hc => List.mem_takeWhile_imp hc
        · rw [List.append_assoc, List.takeWhile_append_dropWhile, List.nil_append]
          exact (List.isPrefixOf?_eq_some_iff_append_eq.mp starts).symm
    · cases found
  · rintro ⟨some_key, characters, intro, hintro, rest, rfl, border⟩
    obtain ⟨kind, hkind, rfl⟩ := exists_kind hintro
    have key_eq := takeWhile_append_of_head characters border
    have found : (key ++ rest).takeWhile isKeyChar ≠ [] := by
      rw [key_eq]
      exact some_key
    have here := Parts.keyHere?_kind hkind found
    rw [key_eq] at here
    simpa using here

theorem keyAt_cons {before key path : List Char} {c d : Char} :
    KeyAt (d :: before) key (c :: path) ↔ d = c ∧ KeyAt before key path := by
  constructor
  · rintro ⟨some_key, characters, intro, hintro, rest, path_eq, border⟩
    rw [List.cons_append, List.cons_append, List.cons_append, List.cons.injEq] at path_eq
    exact ⟨path_eq.1.symm, some_key, characters, intro, hintro, rest, path_eq.2, border⟩
  · rintro ⟨rfl, some_key, characters, intro, hintro, rest, rfl, border⟩
    exact ⟨some_key, characters, intro, hintro, rest, rfl, border⟩

theorem not_keyAt_nil {before key : List Char} : ¬ KeyAt before key [] := by
  rintro ⟨some_key, -, intro, -, rest, path_eq, -⟩
  simp only [List.nil_eq, List.append_eq_nil_iff] at path_eq
  exact some_key path_eq.1.2

theorem isFirstKey_cons {path key : List Char} {c : Char} :
    IsFirstKey (c :: path) key ↔ KeyAt [] key (c :: path) ∨
      (∀ key', ¬ KeyAt [] key' (c :: path)) ∧ IsFirstKey path key := by
  constructor
  · rintro ⟨before, here, first⟩
    cases before with
    | nil => exact Or.inl here
    | cons d before =>
        obtain ⟨rfl, there⟩ := keyAt_cons.mp here
        refine Or.inr ⟨?_, before, there, ?_⟩
        · intro key' earlier
          exact absurd (first [] key' earlier) (by simp)
        · intro before' key' other
          have later := first (d :: before') key' (keyAt_cons.mpr ⟨rfl, other⟩)
          simpa using later
  · rintro (here | ⟨none_here, before, there, first⟩)
    · exact ⟨[], here, fun _ _ _ => Nat.zero_le _⟩
    · refine ⟨c :: before, keyAt_cons.mpr ⟨rfl, there⟩, ?_⟩
      intro before' key' other
      cases before' with
      | nil => exact absurd other (none_here key')
      | cons d before' =>
          have later := first before' key' (keyAt_cons.mp other).2
          simpa using later

/-- The key that is found is the leftmost one. -/
theorem findKey?_eq_some_iff {path key : List Char} :
    findKey? path = some key ↔ IsFirstKey path key := by
  induction path with
  | nil =>
      constructor
      · exact nofun
      · rintro ⟨before, here, -⟩
        exact absurd here not_keyAt_nil
  | cons c path ih =>
      rw [findKey?, isFirstKey_cons, ← ih, ← keyHere?_eq_some_iff]
      simp only [← keyHere?_eq_some_iff]
      cases keyHere? (c :: path) with
      | none => simp
      | some found => simp

section

variable {before key path rest params : List Char}

/-- A key does not reach into parameters, which hold no slash and start with a semicolon. -/
theorem not_reach_params (slash : '/' ∉ params) (mark : params.head? = some ';')
    (characters : ∀ c ∈ key, isKeyChar c = true) {front : List Char} :
    front ++ '/' :: key ≠ path ++ params := by
  intro same
  rcases List.append_eq_append_iff.mp same with ⟨between, -, key_eq⟩ | ⟨between, -, params_eq⟩
  · cases between with
    | nil =>
        rw [List.nil_append] at key_eq
        exact slash (key_eq ▸ List.mem_cons_self)
    | cons c between =>
        -- The semicolon would be a character of the key.
        obtain ⟨-, rfl⟩ := List.cons.inj key_eq
        have semicolon : ';' ∈ params := List.mem_of_mem_head? mark
        exact absurd (characters ';' (List.mem_append_right between semicolon)) (by decide)
  · exact slash (params_eq ▸ List.mem_append_right _ List.mem_cons_self)

/-- Parameters behind a path neither add a key nor change one. -/
theorem keyAt_append_params (slash : '/' ∉ params) (mark : ∀ c ∈ params.head?, c = ';') :
    KeyAt before key (path ++ params) ↔ KeyAt before key path := by
  refine and_congr_right fun _ => and_congr_right fun characters =>
    exists_congr fun intro => and_congr_right fun hintro => ?_
  constructor
  · rintro ⟨rest, path_eq, border⟩
    rcases List.append_eq_append_iff.mp path_eq with ⟨reach, key_eq, params_eq⟩ | ⟨rest', h, h'⟩
    · cases reach with
      | nil => exact ⟨[], by simpa using key_eq.symm, nofun⟩
      | cons c reach =>
          obtain ⟨kind, -, rfl⟩ := exists_kind hintro
          have first : c = ';' := mark c (by rw [params_eq]; rfl)
          have reach_slash : '/' ∉ c :: reach := fun hc =>
            slash (params_eq ▸ List.mem_append_left rest hc)
          have whole : (before ++ '/' :: kind) ++ '/' :: key = path ++ (c :: reach) := by
            rw [← key_eq]
            simp
          exact absurd whole (not_reach_params reach_slash (by rw [first]; rfl) characters)
    · refine ⟨rest', h, fun c hc => border c ?_⟩
      rw [h', List.head?_append, Option.mem_def.mp hc]
      rfl
  · rintro ⟨rest, rfl, border⟩
    refine ⟨rest ++ params, by simp, fun c hc => ?_⟩
    cases rest with
    | nil =>
        obtain rfl := mark c hc
        decide
    | cons d rest => exact border c hc

theorem isFirstKey_append_params (slash : '/' ∉ params) (mark : ∀ c ∈ params.head?, c = ';') :
    IsFirstKey (path ++ params) key ↔ IsFirstKey path key := by
  simp only [IsFirstKey, keyAt_append_params slash mark]

end

/-! ## Hosts of the service -/

open Naming (occursIn_iff)

/-- The host is that of the service, or one below it. -/
def IsServiceHost (host : List Char) : Prop :=
  host = serviceHost ∨ ('.' :: serviceHost) <:+ host

/-- A link that is read from the text leads to a host of the service, and its key is the first one
in the path, however the parts of the text are told. -/
def LeadsToService (s : String) : Prop :=
  ∀ link, ofText? s = some link → Nonempty (Address.Layout s.toList) ∧
    ∀ l : Address.Layout s.toList, IsServiceHost (Text.lower l.authority.host) ∧
      IsFirstKey l.path link.fileKey.toList

section

variable {s : String} (l : Address.Layout s.toList)

/-- The layout is one that the reader lets pass: its authority is not refused, and its host holds
that of the service. -/
def Passes : Prop :=
  Address.isAuthority l.authority.text = true ∧
    serviceHost <:+: Address.lowerHost l.authority.host

theorem findKey?_route {key : List Char} :
    findKey? l.route = some key ↔ IsFirstKey l.path key := by
  have mark : ∀ c ∈ (behind ';' l.params).head?, c = ';' := by
    intro c hc
    cases params : l.params with
    | none => simp [params, behind] at hc
    | some p => simpa [params, behind, eq_comm] using hc
  rw [findKey?_eq_some_iff, Address.Layout.route, isFirstKey_append_params l.params_marks mark]

/-- A layout that passes is that of a link if there is a key in its path, and any other is not. -/
theorem ofText?_eq : ofText? s =
    if Address.isAuthority l.authority.text = true ∧
      Naming.occursIn serviceHost (Address.lowerHost l.authority.host) = true then
      (findKey? l.route).map fun key =>
        ⟨String.ofList key, ((formFields (l.query.getD [])).lookup nodeField).map nodeIdOf⟩
    else none := by
  rw [ofText?, l.address?_eq]
  by_cases allowed : Address.isAuthority l.authority.text = true
  · rw [if_pos allowed]
    show ofAddress? _ = _
    simp only [ofAddress?, allowed, true_and]
  · rw [if_neg allowed, if_neg fun h => allowed h.1]
    rfl

theorem fileKey_iff (key : String) : (∃ link, ofText? s = some link ∧ link.fileKey = key) ↔
    Passes l ∧ IsFirstKey l.path key.toList := by
  rw [ofText?_eq l, Passes, ← occursIn_iff, ← findKey?_route]
  split
  · rename_i passes
    rw [and_iff_right passes]
    constructor
    · rintro ⟨link, found, rfl⟩
      obtain ⟨characters, hfound, rfl⟩ := Option.map_eq_some_iff.mp found
      rw [hfound, String.toList_ofList]
    · intro hfound
      rw [hfound, Option.map_some]
      exact ⟨_, rfl, String.ofList_toList⟩
  · rename_i stopped
    exact ⟨fun ⟨_, h, _⟩ => (nomatch h), fun h => absurd h.1 stopped⟩

end

/-- A text that is a share link has a layout. -/
theorem exists_layout {s : String} {link : ShareLink} (h : ofText? s = some link) :
    Nonempty (Address.Layout s.toList) := by
  obtain ⟨a, ha, hlink⟩ := Option.bind_eq_some_iff.mp h
  apply Address.exists_layout ha
  intro none
  rw [ofAddress?, none] at hlink
  cases hlink

/-- A text is the link to a file exactly if it is laid out as an address whose authority is not
refused, whose host holds that of the service, and in whose path the file is the first key. So
every link names the first key of its path, and all that can go wrong is the host: a text leads
to the service unless its host merely holds that of the service. -/
theorem leadsToService_iff (s : String) :
    (∀ link, ofText? s = some link → Nonempty (Address.Layout s.toList)) ∧
    (∀ (l : Address.Layout s.toList) (key : String),
      (∃ link, ofText? s = some link ∧ link.fileKey = key) ↔
        Passes l ∧ IsFirstKey l.path key.toList) ∧
    (LeadsToService s ↔ ∀ l : Address.Layout s.toList, Passes l →
      (∃ key, IsFirstKey l.path key) → IsServiceHost (Text.lower l.authority.host)) := by
  refine ⟨fun _ h => exists_layout h, fun l key => fileKey_iff l key, ?_, ?_⟩
  · rintro leads l passes ⟨key, first⟩
    obtain ⟨link, h, -⟩ := (fileKey_iff l (String.ofList key)).mpr
      ⟨passes, by rwa [String.toList_ofList]⟩
    exact ((leads link h).2 l).1
  · intro meant link h
    refine ⟨exists_layout h, fun l => ?_⟩
    obtain ⟨passes, first⟩ := (fileKey_iff l link.fileKey).mp ⟨link, h, rfl⟩
    exact ⟨meant l passes ⟨_, first⟩, first⟩

theorem isLead_https : Address.IsLead "https:".toList :=
  Or.inr ⟨'h', "ttps".toList, by decide, by decide, List.all_iff_forall_prop.mp (by decide)⟩

/-- A link to the service with a user that looks like the service, capitals and a port, and with
other ways to a file in its path, its parameters, its query and its fragment. -/
def crowdedText : String :=
  "https://figma.com:p@WWW.Figma.com:443/file/-/design/Key1;file?@evil.example/file/K#/file/K"

def crowdedAuthority : Address.Authority where
  user := "figma.com:p@".toList
  host := "WWW.Figma.com".toList
  place := "WWW.Figma.com:443".toList
  user_last := by
    intro c hc
    exact (Option.some.inj hc).symm
  around := @Address.Place.bare "WWW.Figma.com".toList (some "443".toList) (by decide) (by decide)
  place_mark := by decide

def crowded : Address.Layout crowdedText.toList where
  lead := "https:".toList
  authority := crowdedAuthority
  path := "/file/-/design/Key1".toList
  params := some "file".toList
  query := some "@evil.example/file/K".toList
  fragment := some "/file/K".toList
  text_eq := by decide +kernel
  lead_scheme := isLead_https
  authority_marks := List.all_iff_forall_prop.mp (by decide)
  path_head := by
    intro c hc
    exact (Option.some.inj hc).symm
  path_marks := by decide
  query_marks := by decide
  params_marks := by decide

theorem leadsToService_crowdedText : LeadsToService crowdedText ∧
    ∃ link, ofText? crowdedText = some link ∧ link.fileKey = "Key1" := by
  obtain ⟨-, key_iff, leads_iff⟩ := leadsToService_iff crowdedText
  have first : IsFirstKey crowded.path "Key1".toList := findKey?_eq_some_iff.mp (by decide)
  have passes : Passes crowded := ⟨by decide, occursIn_iff.mp (by decide)⟩
  refine ⟨leads_iff.mpr fun l _ _ => ?_, (key_iff crowded "Key1").mpr ⟨passes, first⟩⟩
  rw [l.host_eq crowded]
  exact Or.inr (by decide)

/-- A host that only begins like that of the service. -/
def lookalike : Address.Layout "https://figma.com.evil.example/file/KEY".toList where
  lead := "https:".toList
  authority :=
    { user := []
      host := "figma.com.evil.example".toList
      place := "figma.com.evil.example".toList
      user_last := nofun
      around := @Address.Place.bare "figma.com.evil.example".toList none (by decide) (by decide)
      place_mark := by decide }
  path := "/file/KEY".toList
  params := none
  query := none
  fragment := none
  text_eq := by decide +kernel
  lead_scheme := isLead_https
  authority_marks := List.all_iff_forall_prop.mp (by decide)
  path_head := by
    intro c hc
    exact (Option.some.inj hc).symm
  path_marks := by decide
  query_marks := by decide
  params_marks := by decide

theorem not_leadsToService_lookalike :
    ofText? "https://figma.com.evil.example/file/KEY" = some ⟨"KEY", none⟩ ∧
      ¬ LeadsToService "https://figma.com.evil.example/file/KEY" := by
  have read : ofText? "https://figma.com.evil.example/file/KEY" = some ⟨"KEY", none⟩ := by decide
  refine ⟨read, fun leads => ?_⟩
  rcases ((leads _ read).2 lookalike).1 with same | below
  · exact absurd same (by decide)
  · exact absurd below (by decide)

end ShareLink

end DesignMarkup
