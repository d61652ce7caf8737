import DesignMarkup.Text.Escape

/-!
# Entities, read back

Escaping replaces five characters one after the other. The passes do not get in each
other's way: together they write each character of the text on its own, and what they
write can be read back. The reader refuses a special character that stands for itself and
an ampersand that begins no entity, so an escaped text holds nothing that markup would
take for its own.
-/

namespace DesignMarkup.Text

def entity (c : Char) : List Char :=
  if c = '&' then "&amp;".toList
  else if c = '<' then "&lt;".toList
  else if c = '>' then "&gt;".toList
  else if c = '"' then "&quot;".toList
  else if c = '\'' then "&#039;".toList
  else [c]

/-- The text that a text with entities stands for. -/
def unescape : List Char → Option (List Char)
  | [] => some []
  | '&' :: 'a' :: 'm' :: 'p' :: ';' :: rest => (unescape rest).map ('&' :: ·)
  | '&' :: 'l' :: 't' :: ';' :: rest => (unescape rest).map ('<' :: ·)
  | '&' :: 'g' :: 't' :: ';' :: rest => (unescape rest).map ('>' :: ·)
  | '&' :: 'q' :: 'u' :: 'o' :: 't' :: ';' :: rest => (unescape rest).map ('"' :: ·)
  | '&' :: '#' :: '0' :: '3' :: '9' :: ';' :: rest => (unescape rest).map ('\'' :: ·)
  | c :: rest => if entity c = [c] then (unescape rest).map (c :: ·) else none

/-- The marks that end a text or an attribute. -/
def isMark (c : Char) : Bool := c == '<' || c == '>' || c == '"' || c == '\''

/-- A character is one of the five special ones, or it stands for itself. -/
theorem special_or_plain {motive : Char → Prop}
    (special : ∀ c ∈ ['&', '<', '>', '"', '\''], motive c)
    (plain : ∀ c, entity c = [c] → c ≠ '&' → isMark c = false → motive c) (c : Char) :
    motive c := by
  by_cases h : c ∈ ['&', '<', '>', '"', '\'']
  · exact special c h
  · simp only [List.mem_cons, List.not_mem_nil, or_false, not_or] at h
    obtain ⟨amp, lt, gt, quote, apostrophe⟩ := h
    refine plain c ?_ amp ?_
    · simp [entity, amp, lt, gt, quote, apostrophe]
    · simp [isMark, lt, gt, quote, apostrophe]

/-! ## The passes -/

theorem replaceChar_singleton {c d : Char} (h : d ≠ c) (replacement : List Char) :
    replaceChar c replacement [d] = [d] := by
  rw [replaceChar, List.flatMap_singleton, if_neg h]

/-- The five passes over a single character give its entity: no pass touches what an
earlier one wrote. -/
theorem escapeChars_singleton (c : Char) : escapeChars [c] = entity c := by
  induction c using special_or_plain with
  | special c h =>
      simp only [List.mem_cons, List.not_mem_nil, or_false] at h
      rcases h with rfl | rfl | rfl | rfl | rfl <;> decide
  | plain c self amp mark =>
      simp only [isMark, Bool.or_eq_false_iff, beq_eq_false_iff_ne] at mark
      obtain ⟨⟨⟨lt, gt⟩, quote⟩, apostrophe⟩ := mark
      -- None of the five passes finds anything to replace.
      rw [self, escapeChars, replaceChar_singleton amp, replaceChar_singleton lt,
        replaceChar_singleton gt, replaceChar_singleton quote, replaceChar_singleton apostrophe]

theorem replaceChar_append (c : Char) (replacement s t : List Char) :
    replaceChar c replacement (s ++ t)
      = replaceChar c replacement s ++ replaceChar c replacement t :=
  List.flatMap_append

theorem escapeChars_append (s t : List Char) :
    escapeChars (s ++ t) = escapeChars s ++ escapeChars t := by
  simp only [escapeChars, replaceChar_append]

/-- Escaping writes each character on its own. -/
theorem escapeChars_eq_flatMap (s : List Char) : escapeChars s = s.flatMap entity := by
  induction s with
  | nil => rfl
  | cons c rest ih =>
      rw [← List.singleton_append, escapeChars_append, escapeChars_singleton, ih]
      rfl

theorem escapeChars_of_plain {s : List Char} (h : ∀ c ∈ s, entity c = [c]) :
    escapeChars s = s := by
  rw [escapeChars_eq_flatMap]
  induction s with
  | nil => rfl
  | cons c rest ih =>
      rw [List.flatMap_cons, h c List.mem_cons_self,
        ih fun d hd => h d (List.mem_cons_of_mem c hd), List.singleton_append]

/-! ## Reading back -/

theorem unescape_plain {c : Char} (amp : c ≠ '&') (self : entity c = [c]) (rest : List Char) :
    unescape (c :: rest) = (unescape rest).map (c :: ·) := by
  rw [unescape.eq_def]
  split
  · contradiction
  -- Every entity begins with an ampersand.
  iterate 5
    rename_i same
    exact absurd (List.cons.inj same).1 amp
  · rename_i same
    obtain ⟨rfl, rfl⟩ := List.cons.inj same
    rw [if_pos self]

/-- Reading an entity gives its character, whatever follows. -/
theorem unescape_entity (c : Char) (rest : List Char) :
    unescape (entity c ++ rest) = (unescape rest).map (c :: ·) := by
  induction c using special_or_plain with
  | special c h =>
      simp only [List.mem_cons, List.not_mem_nil, or_false] at h
      rcases h with rfl | rfl | rfl | rfl | rfl <;> rfl
  | plain c self amp _ =>
      exact self.symm ▸ unescape_plain amp self rest

theorem unescape_escapeChars (s : List Char) : unescape (escapeChars s) = some s := by
  rw [escapeChars_eq_flatMap]
  induction s with
  | nil => rfl
  | cons c rest ih => rw [List.flatMap_cons, unescape_entity, ih, Option.map_some]

/-! ## Marks of markup -/

theorem all_not_isMark_entity {c : Char} (h : c ∈ ['&', '<', '>', '"', '\'']) :
    (entity c).all (!isMark ·) = true := by
  simp only [List.mem_cons, List.not_mem_nil, or_false] at h
  rcases h with rfl | rfl | rfl | rfl | rfl <;> decide

theorem not_isMark_of_mem_escapeChars {s : List Char} {c : Char} (h : c ∈ escapeChars s) :
    isMark c = false := by
  rw [escapeChars_eq_flatMap, List.mem_flatMap] at h
  obtain ⟨d, -, hd⟩ := h
  induction d using special_or_plain with
  | special d special =>
      have unmarked := List.all_eq_true.mp (all_not_isMark_entity special) c hd
      rwa [Bool.not_eq_true'] at unmarked
  | plain d self _ mark =>
      rw [self, List.mem_singleton] at hd
      exact hd ▸ mark

/-! ## Ampersands -/

/-- An entity holds an ampersand in front at most, and so does a character that stands for itself. -/
theorem exists_entity_eq_cons (c : Char) :
    ∃ d body, entity c = d :: body ∧ '&' ∉ body ∧ (d = '&' → c ∈ ['&', '<', '>', '"', '\'']) := by
  induction c using special_or_plain with
  | special c h =>
      refine ⟨'&', (entity c).tail, ?_, ?_, fun _ => h⟩ <;>
      · simp only [List.mem_cons, List.not_mem_nil, or_false] at h
        rcases h with rfl | rfl | rfl | rfl | rfl <;> decide
  | plain c self amp _ => exact ⟨c, [], self, List.not_mem_nil, fun same => absurd same amp⟩

/-- Wherever an ampersand stands in an escaped text, one of the five entities stands there. -/
theorem exists_entity_prefix {s front rest : List Char}
    (h : escapeChars s = front ++ '&' :: rest) :
    ∃ c ∈ ['&', '<', '>', '"', '\''], entity c <+: '&' :: rest := by
  rw [escapeChars_eq_flatMap] at h
  induction s generalizing front with
  | nil => simp at h
  | cons c s ih =>
      obtain ⟨d, body, text, none, special⟩ := exists_entity_eq_cons c
      rw [List.flatMap_cons, text, List.cons_append] at h
      cases front with
      | nil =>
          obtain ⟨rfl, rfl⟩ := List.cons.inj h
          refine ⟨c, special rfl, ?_⟩
          rw [text]
          exact List.prefix_append ('&' :: body) _
      | cons e front =>
          -- The ampersand is not among what is left of the entity, so it comes behind it.
          rcases List.append_eq_append_iff.mp (List.cons.inj h).2 with
            ⟨later, -, behind⟩ | ⟨inside, split, behind⟩
          · exact ih behind
          · cases inside with
            | nil => exact @ih [] behind.symm
            | cons a inside =>
                obtain rfl := (List.cons.inj behind).1
                exact absurd (split ▸ List.mem_append_right front List.mem_cons_self) none

/-! ## One pass -/

/-- Escaping by five passes is one pass that writes each character on its own. So an escaped text is
put together from escaped parts, it holds no mark of markup, every ampersand in it begins one of the
five entities, and it reads back as the text, whatever looks like an entity in that. -/
theorem escape_eq_onePass :
    (∀ t, escape t = String.ofList (t.toList.flatMap entity)) ∧
    (∀ s t, escape (s ++ t) = escape s ++ escape t) ∧
    (∀ t, ∀ mark ∈ ['<', '>', '"', '\''], mark ∉ (escape t).toList) ∧
    (∀ t front rest, (escape t).toList = front ++ '&' :: rest →
      ∃ c ∈ ['&', '<', '>', '"', '\''], entity c <+: '&' :: rest) ∧
    (∀ t, (unescape (escape t).toList).map String.ofList = some t) ∧
    Function.Injective escape := by
  have readBack (t : String) : (unescape (escape t).toList).map String.ofList = some t := by
    rw [escape, String.toList_ofList, unescape_escapeChars, Option.map_some, String.ofList_toList]
  refine ⟨?_, ?_, ?_, ?_, readBack, ?_⟩
  · intro t
    rw [escape, escapeChars_eq_flatMap]
  · intro s t
    rw [escape, String.toList_append, escapeChars_append, String.ofList_append]
    rfl
  · intro t mark hmark present
    rw [escape, String.toList_ofList] at present
    have marked : ['<', '>', '"', '\''].all isMark = true := by decide
    have isMarked := List.all_eq_true.mp marked mark hmark
    exact Bool.false_ne_true ((not_isMark_of_mem_escapeChars present).symm.trans isMarked)
  · intro t front rest h
    rw [escape, String.toList_ofList] at h
    exact exists_entity_prefix h
  · intro s t same
    have back := readBack s
    rw [same, readBack t] at back
    exact (Option.some.inj back).symm

set_option maxRecDepth 20000 in
/-- An entity in the text is text: its ampersand is escaped as any other. -/
theorem escape_eq_onePass_knownEntity :
    (escape "&lt; <b>").toList = "&amp;lt; ".toList ++ '&' :: "lt;b&gt;".toList ∧
    (∃ c ∈ ['&', '<', '>', '"', '\''], entity c <+: '&' :: "lt;b&gt;".toList) ∧
    (unescape (escape "&lt; <b>").toList).map String.ofList = some "&lt; <b>" := by
  obtain ⟨-, -, -, begins, readBack, -⟩ := escape_eq_onePass
  have text : (escape "&lt; <b>").toList = "&amp;lt; ".toList ++ '&' :: "lt;b&gt;".toList := by
    decide
  exact ⟨text, begins _ _ _ text, readBack _⟩

end DesignMarkup.Text
