import DesignMarkup.Text.Form

/-!
# Form coding, read back

What is put together with separators comes apart at them, the bytes of characters read back as the
characters, and bytes read back from every way to write them: as themselves, where they mean
nothing in a query, or behind a percent sign.
-/

namespace DesignMarkup.Text

/-! ## Pieces -/

section

variable {separator : Char} {s : List Char}

theorem splitAll_append (h : separator ∉ s) (rest : List Char) :
    splitAll separator (s ++ separator :: rest) = s :: splitAll separator rest := by
  induction s with
  | nil => simp [splitAll]
  | cons c s ih =>
      rw [List.mem_cons, not_or] at h
      rw [List.cons_append, splitAll, if_neg (Ne.symm h.1), ih h.2]

theorem splitAll_of_not_mem (h : separator ∉ s) : splitAll separator s = [s] := by
  induction s with
  | nil => rfl
  | cons c s ih =>
      rw [List.mem_cons, not_or] at h
      rw [splitAll, if_neg (Ne.symm h.1), ih h.2]

theorem splitAll_intercalate {pieces : List (List Char)} (some : pieces ≠ [])
    (h : ∀ piece ∈ pieces, separator ∉ piece) :
    splitAll separator ([separator].intercalate pieces) = pieces := by
  induction pieces with
  | nil => exact absurd rfl some
  | cons piece rest ih =>
      have alone : separator ∉ piece := h piece List.mem_cons_self
      cases rest with
      | nil => rw [List.intercalate_singleton, splitAll_of_not_mem alone]
      | cons next rest =>
          have others := ih (List.cons_ne_nil _ _) fun p hp => h p (List.mem_cons_of_mem _ hp)
          rw [List.intercalate_cons_cons, List.append_assoc, List.singleton_append,
            splitAll_append alone, others]

/-- A character of what is put together is one of the separator or one of a piece. -/
theorem mem_of_mem_intercalate {separator : List Char} {pieces : List (List Char)} {c : Char}
    (h : c ∈ separator.intercalate pieces) : c ∈ separator ∨ ∃ piece ∈ pieces, c ∈ piece := by
  induction pieces with
  | nil => cases h
  | cons piece rest ih =>
      cases rest with
      | nil =>
          rw [List.intercalate_singleton] at h
          exact Or.inr ⟨piece, List.mem_cons_self, h⟩
      | cons next rest =>
          rw [List.intercalate_cons_cons, List.mem_append, List.mem_append] at h
          rcases h with (h | h) | h
          · exact Or.inr ⟨piece, List.mem_cons_self, h⟩
          · exact Or.inl h
          · exact (ih h).imp_right fun ⟨p, hp, hc⟩ => ⟨p, List.mem_cons_of_mem _ hp, hc⟩

/-- A part that may be absent, behind its mark. -/
def behind (mark : Char) : Option (List Char) → List Char
  | none => []
  | some part => mark :: part

theorem splitFirst_behind (h : separator ∉ s) (part : Option (List Char)) :
    splitFirst separator (s ++ behind separator part) = (s, part) := by
  induction s with
  | nil => cases part <;> simp [behind, splitFirst]
  | cons c s ih =>
      rw [List.mem_cons, not_or] at h
      rw [List.cons_append, splitFirst, if_neg (Ne.symm h.1), ih h.2]

end

/-! ## Characters -/

section

variable {owed soFar low high b : Nat}

/-- A first byte that calls for one more. -/
theorem utf8Start_two (h : 0xC2 ≤ b ∧ b ≤ 0xDF) :
    utf8Start b = ([], .inside 1 (b - 0xC0) 0x80 0xBF) := by
  rw [utf8Start, if_neg (by omega), if_pos h]

/-- A first byte that calls for two more. The window of the next one keeps out what has a shorter
form and what stands for no character. -/
theorem utf8Start_three (h : 0xE0 ≤ b ∧ b ≤ 0xEF) :
    utf8Start b = ([], .inside 2 (b - 0xE0) (if b = 0xE0 then 0xA0 else 0x80)
      (if b = 0xED then 0x9F else 0xBF)) := by
  by_cases first : b = 0xE0
  · subst first
    rfl
  · by_cases middle : b = 0xED
    · subst middle
      rfl
    · rw [utf8Start, if_neg (by omega), if_neg (by omega), if_neg first, if_neg middle,
        if_pos (by omega), if_neg first, if_neg middle]

/-- A first byte that calls for three more. -/
theorem utf8Start_four (h : 0xF0 ≤ b ∧ b ≤ 0xF4) :
    utf8Start b = ([], .inside 3 (b - 0xF0) (if b = 0xF0 then 0x90 else 0x80)
      (if b = 0xF4 then 0x8F else 0xBF)) := by
  by_cases first : b = 0xF0
  · subst first
    rfl
  · by_cases last : b = 0xF4
    · subst last
      rfl
    · rw [utf8Start, if_neg (by omega), if_neg (by omega), if_neg (by omega), if_neg (by omega),
        if_neg (by omega), if_neg first, if_pos (by omega), if_neg first, if_neg last]

variable (rest : List Nat)

theorem ofUtf8From_start (b : Nat) :
    ofUtf8From .between (b :: rest) = (utf8Start b).1 ++ ofUtf8From (utf8Start b).2 rest := by
  rfl

theorem ofUtf8From_inner (more : 2 ≤ owed) (h : low ≤ b ∧ b ≤ high) :
    ofUtf8From (.inside owed soFar low high) (b :: rest)
      = ofUtf8From (.inside (owed - 1) (soFar * 0x40 + (b - 0x80)) 0x80 0xBF) rest := by
  have : ¬ owed ≤ 1 := by omega
  simp [ofUtf8From, utf8Step, h, this]

theorem ofUtf8From_last (h : low ≤ b ∧ b ≤ high) :
    ofUtf8From (.inside 1 soFar low high) (b :: rest)
      = Char.ofNat (soFar * 0x40 + (b - 0x80)) :: ofUtf8From .between rest := by
  simp [ofUtf8From, utf8Step, h]

end

/-- The bytes of a character read back as the character, whatever follows. -/
theorem ofUtf8From_utf8Char (c : Char) (rest : List Nat) :
    ofUtf8From .between (utf8Char c ++ rest) = c :: ofUtf8From .between rest := by
  -- Numbers in the gap are no characters, so the narrow windows let every character pass.
  have gap : c.toNat < 0xD800 ∨ 0xDFFF < c.toNat ∧ c.toNat < 0x110000 := c.valid
  have back : ∀ n, n = c.toNat → Char.ofNat n = c := by
    rintro n rfl
    exact c.ofNat_toNat
  unfold utf8Char
  generalize c.toNat = n at gap back
  dsimp only
  split
  · rename_i short
    have start : utf8Start n = ([Char.ofNat n], .between) := by rw [utf8Start, if_pos short]
    rw [List.cons_append, List.nil_append, ofUtf8From_start, start, back n rfl]
    rfl
  · split
    · simp only [List.cons_append, List.nil_append]
      rw [ofUtf8From_start, utf8Start_two (by omega), List.nil_append,
        ofUtf8From_last _ (by omega), back _ (by omega)]
    · split
      · simp only [List.cons_append, List.nil_append]
        rw [ofUtf8From_start, utf8Start_three (by omega), List.nil_append,
          ofUtf8From_inner _ (by omega) (by split <;> split <;> omega),
          ofUtf8From_last _ (by omega), back _ (by omega)]
      · simp only [List.cons_append, List.nil_append]
        rw [ofUtf8From_start, utf8Start_four (by omega), List.nil_append,
          ofUtf8From_inner _ (by omega) (by split <;> split <;> omega),
          ofUtf8From_inner _ (by omega) (by omega), ofUtf8From_last _ (by omega),
          back _ (by omega)]

theorem ofUtf8_utf8 (s : List Char) : ofUtf8 (utf8 s) = s := by
  show ofUtf8From .between (utf8 s) = s
  induction s with
  | nil => rfl
  | cons c rest ih =>
      have first : utf8 (c :: rest) = utf8Char c ++ utf8 rest := List.flatMap_cons
      rw [first, ofUtf8From_utf8Char, ih]

/-! ## Bytes -/

/-- The characters that end a parameter of a query, and those that are dropped from addresses. -/
def queryBreaks : List Char := ['&', '#', '\t', '\r', '\n']

/-- With these the characters that mean something to the reader of a parameter. -/
def queryMarks : List Char := '%' :: '+' :: queryBreaks

/-- The ways to write bytes: each as the character that it is, if that means nothing, or behind a
percent sign, with digits in either case. -/
inductive Spells : List Char → List Nat → Prop
  | nothing : Spells [] []
  | plain {b : Nat} {s : List Char} {bytes : List Nat} : b < 0x80 → Char.ofNat b ∉ queryMarks →
      Spells s bytes → Spells (Char.ofNat b :: s) (b :: bytes)
  | percent {first second : Char} {high low : Nat} {s : List Char} {bytes : List Nat} :
      hexDigit? first = some high → hexDigit? second = some low → Spells s bytes →
      Spells ('%' :: first :: second :: s) ((high * 16 + low) :: bytes)

theorem not_mem_queryMarks_of_hexDigit? {c : Char} {n : Nat} (h : hexDigit? c = some n) :
    c ∉ queryMarks := by
  intro mark
  simp only [queryMarks, queryBreaks, List.mem_cons, List.not_mem_nil, or_false] at mark
  rcases mark with rfl | rfl | rfl | rfl | rfl | rfl | rfl <;> cases h

/-- Of the marks nothing but the percent sign is written. -/
theorem Spells.not_mem_marks {s : List Char} {bytes : List Nat} (h : Spells s bytes) :
    ∀ c ∈ s, c ∉ '+' :: queryBreaks := by
  induction h with
  | nothing => exact nofun
  | plain _ unmarked _ ih =>
      exact List.forall_mem_cons.mpr ⟨fun mark => unmarked (List.mem_cons_of_mem _ mark), ih⟩
  | percent first second _ ih =>
      have digit {c : Char} {n : Nat} (h : hexDigit? c = some n) : c ∉ '+' :: queryBreaks :=
        fun mark => not_mem_queryMarks_of_hexDigit? h (List.mem_cons_of_mem _ mark)
      exact List.forall_mem_cons.mpr ⟨by decide, List.forall_mem_cons.mpr
        ⟨digit first, List.forall_mem_cons.mpr ⟨digit second, ih⟩⟩⟩

theorem percentBytes_cons {c : Char} (h : c ≠ '%') (rest : List Char) :
    percentBytes (c :: rest) = utf8Char c ++ percentBytes rest := by
  match rest with
  | [] => simp [percentBytes]
  | [a] => simp [percentBytes]
  | a :: b :: rest => rw [percentBytes, if_neg h]

theorem percentBytes_percent {first second : Char} {high low : Nat}
    (hfirst : hexDigit? first = some high) (hsecond : hexDigit? second = some low)
    (rest : List Char) :
    percentBytes ('%' :: first :: second :: rest) = (high * 16 + low) :: percentBytes rest := by
  have byte : hexByte? first second = some (high * 16 + low) := by
    rw [hexByte?, hfirst, hsecond]
    rfl
  rw [percentBytes, if_pos rfl, byte]

theorem utf8Char_ofNat {b : Nat} (h : b < 0x80) : utf8Char (Char.ofNat b) = [b] := by
  have value : ∀ b < 0x80, (Char.ofNat b).toNat = b := by decide
  rw [utf8Char, value b h]
  exact if_pos h

theorem percentBytes_of_spells {s : List Char} {bytes : List Nat} (h : Spells s bytes) :
    percentBytes s = bytes := by
  induction h with
  | nothing => rfl
  | plain ascii unmarked _ ih =>
      have other : Char.ofNat _ ≠ '%' := fun same => unmarked (same ▸ List.mem_cons_self)
      rw [percentBytes_cons other, utf8Char_ofNat ascii, ih, List.singleton_append]
  | percent first second _ ih => rw [percentBytes_percent first second, ih]

/-- A text comes back from whatever spells its bytes. -/
theorem formDecode_of_spells {s text : List Char} (h : Spells s (utf8 text)) :
    formDecode s = text := by
  have same : s.map (fun c => if c = '+' then ' ' else c) = s := by
    refine (List.map_congr_left fun c hc => if_neg ?_).trans s.map_id
    rintro rfl
    exact h.not_mem_marks '+' hc List.mem_cons_self
  rw [formDecode, same, percentBytes_of_spells h, ofUtf8_utf8]

end DesignMarkup.Text
