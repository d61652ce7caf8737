import DesignMarkup.Proofs.InertText

/-!
# Style sheets, read back

A reader of style sheets, which knows nothing but the text. It first finds the strings: a
quote opens one, a quote or the end of the line closes it, and a backslash takes the
character behind it for itself. What is outside of strings is cut at braces, colons and
semicolons into selectors, names and values.
-/

namespace DesignMarkup.Css

/-! ## Tokens -/

/-- A character, one behind a backslash, or a whole string. -/
inductive Token
  | char (c : Char)
  | escaped (c : Char)
  | string (content : List Char)
deriving DecidableEq

def lex : Option (List Char) → List Char → List Token
  | none, [] => []
  | none, '"' :: rest => lex (some []) rest
  | none, '\\' :: c :: rest => .escaped c :: lex none rest
  | none, c :: rest => .char c :: lex none rest
  | some content, [] => [.string content]
  | some content, '"' :: rest => .string content :: lex none rest
  | some content, '\n' :: rest => .string content :: .char '\n' :: lex none rest
  | some content, '\\' :: c :: rest => lex (some (content ++ [c])) rest
  | some content, c :: rest => lex (some (content ++ [c])) rest

/-! ## Rules -/

abbrev Declaration := List Token × List Token

abbrev Rule := List Token × List Declaration

def isLayout (t : Token) : Bool := t == .char ' ' || t == .char '\n'

/-- Blanks and line ends at the two ends of a piece mean nothing. -/
def trim (ts : List Token) : List Token :=
  ((ts.dropWhile isLayout).reverse.dropWhile isLayout).reverse

/-- How far a reader is, in a selector, a name or a value, with the piece read so far. -/
inductive Progress
  | inSelector (rules : List Rule) (piece : List Token)
  | inName (rules : List Rule) (selector : List Token) (declarations : List Declaration)
    (piece : List Token)
  | inValue (rules : List Rule) (selector : List Token) (declarations : List Declaration)
    (name piece : List Token)

def step : Progress → Token → Option Progress
  | .inSelector rules piece, t =>
    if t = .char '{' then some (.inName rules (trim piece) [] [])
    else if t = .char '}' ∨ t = .char ';' then none
    else some (.inSelector rules (piece ++ [t]))
  | .inName rules selector declarations piece, t =>
    if t = .char ':' then some (.inValue rules selector declarations (trim piece) [])
    else if t = .char '}' ∧ trim piece = [] then
      some (.inSelector (rules ++ [(selector, declarations)]) [])
    else if t = .char '{' ∨ t = .char '}' ∨ t = .char ';' then none
    else some (.inName rules selector declarations (piece ++ [t]))
  | .inValue rules selector declarations name piece, t =>
    if t = .char ';' then
      some (.inName rules selector (declarations ++ [(name, trim piece)]) [])
    else if t = .char '{' ∨ t = .char '}' then none
    else some (.inValue rules selector declarations name (piece ++ [t]))

def finish : Progress → Option (List Rule)
  | .inSelector rules piece => if trim piece = [] then some rules else none
  | _ => none

def run : Progress → List Token → Option (List Rule)
  | p, [] => finish p
  | p, t :: rest => (step p t).bind fun p => run p rest

def read (s : String) : Option (List Rule) := run (.inSelector [] []) (lex none s.toList)

/-! ## Running on -/

def readFrom (p : Progress) (s : List Char) : Option (List Rule) := run p (lex none s)

def chars (s : List Char) : List Token := s.map .char

namespace Progress

def add (ts : List Token) : Progress → Progress
  | inSelector rules piece => inSelector rules (piece ++ ts)
  | inName rules selector declarations piece => inName rules selector declarations (piece ++ ts)
  | inValue rules selector declarations name piece =>
    inValue rules selector declarations name (piece ++ ts)

theorem add_nil (p : Progress) : p.add [] = p := by cases p <;> simp [add]

theorem add_add (p : Progress) (s t : List Token) : (p.add s).add t = p.add (s ++ t) := by
  cases p <;> simp [add]

end Progress

theorem not_special_of_isInert {c : Char} (h : isInert c = true) :
    c ≠ '"' ∧ c ≠ '\\' ∧ c ≠ '{' ∧ c ≠ '}' ∧ c ≠ ';' ∧ c ≠ ':' ∧ c ≠ '<' := by
  simpa [isInert, not_or] using h

/-- A character that means nothing is added to the piece at hand. -/
theorem readFrom_inert_cons {c : Char} (hc : isInert c = true) (p : Progress) (rest : List Char) :
    readFrom p (c :: rest) = readFrom (p.add [.char c]) rest := by
  obtain ⟨quote, backslash, opening, closing, semicolon, colon, -⟩ := not_special_of_isInert hc
  -- Outside of strings only quotes and backslashes are tokens of another kind.
  have token : lex none (c :: rest) = .char c :: lex none rest := by
    rw [lex]
    · exact fun h => quote h
    · exact fun d rest h => absurd h backslash
  have taken : step p (.char c) = some (p.add [.char c]) := by
    cases p <;> simp [step, Progress.add, opening, closing, semicolon, colon]
  rw [readFrom, token, run, taken]
  rfl

theorem readFrom_inert {s : List Char} (hs : InertChars s) (p : Progress)
    (rest : List Char) : readFrom p (s ++ rest) = readFrom (p.add (chars s)) rest := by
  induction s generalizing p with
  | nil => rw [chars, List.map_nil, Progress.add_nil, List.nil_append]
  | cons c s ih =>
      rw [List.cons_append, readFrom_inert_cons (hs c List.mem_cons_self),
        ih fun d hd => hs d (List.mem_cons_of_mem c hd), Progress.add_add]
      rfl

theorem readFrom_openBrace (rules : List Rule) (piece : List Token) (rest : List Char) :
    readFrom (.inSelector rules piece) ('{' :: rest)
      = readFrom (.inName rules (trim piece) [] []) rest :=
  rfl

section

variable (rules : List Rule) (selector : List Token) (declarations : List Declaration)

theorem readFrom_closeBrace {piece : List Token} (h : trim piece = []) (rest : List Char) :
    readFrom (.inName rules selector declarations piece) ('}' :: rest)
      = readFrom (.inSelector (rules ++ [(selector, declarations)]) []) rest := by
  have token : lex none ('}' :: rest) = .char '}' :: lex none rest := rfl
  rw [readFrom, token, run, step, if_neg (by decide), if_pos ⟨rfl, h⟩]
  rfl

theorem readFrom_colon (piece : List Token) (rest : List Char) :
    readFrom (.inName rules selector declarations piece) (':' :: rest)
      = readFrom (.inValue rules selector declarations (trim piece) []) rest :=
  rfl

theorem readFrom_semicolon (name piece : List Token) (rest : List Char) :
    readFrom (.inValue rules selector declarations name piece) (';' :: rest)
      = readFrom (.inName rules selector (declarations ++ [(name, trim piece)]) []) rest :=
  rfl

end

/-! ## Layout -/

theorem dropWhile_layout_append {ts : List Token} (h : ∀ t ∈ ts, isLayout t = true)
    (us : List Token) : (ts ++ us).dropWhile isLayout = us.dropWhile isLayout :=
  List.dropWhile_append_of_pos h

theorem trim_layout {ts : List Token} (h : ∀ t ∈ ts, isLayout t = true) : trim ts = [] := by
  have none_left := dropWhile_layout_append h []
  rw [List.append_nil] at none_left
  rw [trim, none_left]
  rfl

theorem trim_append {ts : List Token} (h : ∀ t ∈ ts, isLayout t = true) (us : List Token) :
    trim (ts ++ us) = trim us := by
  rw [trim, trim, dropWhile_layout_append h]

/-- A piece without layout stands when the layout around it is taken away. -/
theorem trim_between {before piece behind : List Token}
    (hbefore : ∀ t ∈ before, isLayout t = true) (hpiece : ∀ t ∈ piece, isLayout t = false)
    (hbehind : ∀ t ∈ behind, isLayout t = true) : trim (before ++ (piece ++ behind)) = piece := by
  have keep {us : List Token} (hus : ∀ t ∈ us, isLayout t = false) (vs : List Token)
      (hvs : us = [] → vs.dropWhile isLayout = vs) : (us ++ vs).dropWhile isLayout = us ++ vs := by
    cases us with
    | nil => exact hvs rfl
    | cons t us =>
        rw [List.cons_append, List.dropWhile_cons, hus t List.mem_cons_self]
        rfl
  rw [trim_append hbefore]
  by_cases empty : piece = []
  · rw [empty, List.nil_append]
    exact trim_layout hbehind
  · have front := keep hpiece behind fun h => absurd h empty
    have back : ∀ t ∈ piece.reverse, isLayout t = false := fun t ht =>
      hpiece t (List.mem_reverse.mp ht)
    have last := keep back [] fun _ => rfl
    rw [List.append_nil] at last
    rw [trim, front, List.reverse_append,
      dropWhile_layout_append fun t ht => hbehind t (List.mem_reverse.mp ht), last,
      List.reverse_reverse]

/-- In front of a string layout goes, and the string stays. -/
theorem trim_string {before : List Token} (hbefore : ∀ t ∈ before, isLayout t = true)
    (content : List Char) (us : List Token) :
    ∃ vs, trim (before ++ .string content :: us) = .string content :: vs := by
  have stop : isLayout (.string content) = false := rfl
  rw [trim_append hbefore, trim, List.dropWhile_cons, stop, if_neg (by decide),
    List.reverse_cons, List.dropWhile_append]
  split
  · exact ⟨[], rfl⟩
  · refine ⟨(us.reverse.dropWhile isLayout).reverse, ?_⟩
    rw [List.reverse_append]
    rfl

/-! ## Strings -/

/-- A text that can stand between quotes as it is. -/
def Quotable (s : List Char) : Prop := ∀ c ∈ s, c ≠ '"' ∧ c ≠ '\\' ∧ c ≠ '\n'

instance (s : List Char) : Decidable (Quotable s) := List.decidableBAll _ s

theorem quotable_cons {c : Char} {s : List Char} :
    Quotable (c :: s) ↔ (c ≠ '"' ∧ c ≠ '\\' ∧ c ≠ '\n') ∧ Quotable s :=
  List.forall_mem_cons

/-- A character of a string that means nothing there is added to it. -/
theorem lex_string_cons {c : Char} (hc : c ≠ '"' ∧ c ≠ '\\' ∧ c ≠ '\n') (content rest : List Char) :
    lex (some content) (c :: rest) = lex (some (content ++ [c])) rest := by
  obtain ⟨quote, backslash, lineEnd⟩ := hc
  rw [lex]
  · exact fun h => quote h
  · exact fun h => lineEnd h
  · exact fun d rest h => absurd h backslash

theorem lex_string_append {s : List Char} (hs : Quotable s) (content rest : List Char) :
    lex (some content) (s ++ rest) = lex (some (content ++ s)) rest := by
  induction s generalizing content with
  | nil => rw [List.append_nil, List.nil_append]
  | cons c s ih =>
      obtain ⟨hc, hs⟩ := quotable_cons.mp hs
      rw [List.cons_append, lex_string_cons hc, ih hs, List.append_assoc]
      rfl

theorem run_string (p : Progress) (content : List Char) (ts : List Token) :
    run p (.string content :: ts) = run (p.add [.string content]) ts := by
  cases p <;> rfl

/-- A name that can stand between quotes as it is comes back as one string. -/
theorem readFrom_quotable {s : List Char} (hs : Quotable s) (p : Progress) (rest : List Char) :
    readFrom p ('"' :: (s ++ '"' :: rest)) = readFrom (p.add [.string s]) rest := by
  have closed : lex (some s) ('"' :: rest) = .string s :: lex none rest := rfl
  rw [readFrom, lex, lex_string_append hs, List.nil_append, closed, run_string, readFrom]

/-- A string that begins with what was read but is not that and the rest of a name: it is
cut short, or it ends in a semicolon where the name ends in a backslash. -/
def Strays (content s other : List Char) : Prop :=
  other.length < content.length + s.length ∨
    (other.getLast? = some ';' ∧ s.getLast? = some '\\')

theorem strays_of_rest {c : Char} {front content s other : List Char} (hfront : front ≠ [])
    (h : Strays (content ++ [c]) s other) : Strays content (front ++ s) other := by
  refine h.imp ?_ ?_
  · intro short
    have := List.length_pos_iff.mpr hfront
    rw [List.length_append, List.length_singleton] at short
    rw [List.length_append]
    omega
  · rintro ⟨semicolon, backslash⟩
    refine ⟨semicolon, ?_⟩
    rw [List.getLast?_append, backslash]
    rfl

theorem ne_of_strays {s other : List Char} (h : Strays [] s other) : other ≠ s := by
  rintro rfl
  rcases h with short | ⟨semicolon, backslash⟩
  · rw [List.length_nil, Nat.zero_add] at short
    exact Nat.lt_irrefl _ short
  · rw [semicolon] at backslash
    cases backslash

/-- A closing quote that is escaped does not close the string, which goes on to the end of the
line. -/
theorem lex_string_escaped_quote {tail : List Char} (htail : Quotable tail)
    (content rest : List Char) :
    lex (some content) ('\\' :: '"' :: (tail ++ ';' :: '\n' :: rest))
      = .string (content ++ ['"'] ++ (tail ++ [';'])) :: .char '\n' :: lex none rest := by
  have semicolon : Quotable [';'] := by decide
  have line : Quotable (tail ++ [';']) := List.forall_mem_append.mpr ⟨htail, semicolon⟩
  have taken : lex (some content) ('\\' :: '"' :: (tail ++ ';' :: '\n' :: rest))
      = lex (some (content ++ ['"'])) (tail ++ [';'] ++ '\n' :: rest) := by
    rw [List.append_assoc tail]
    rfl
  have closed (all : List Char) : lex (some all) ('\n' :: rest)
      = .string all :: .char '\n' :: lex none rest := rfl
  rw [taken, lex_string_append line, closed]

/-- A name that cannot stand between quotes as it is comes back as something else: what ends
the string early cuts it short, a backslash takes a character away, and one at its end takes
the closing quote for its own, so that the string ends with the line. -/
theorem lex_string_of_not_quotable {tail : List Char} (htail : Quotable tail) (rest : List Char) :
    ∀ (s content : List Char), ¬ Quotable s → ∃ other ts,
      lex (some content) (s ++ '"' :: (tail ++ ';' :: '\n' :: rest)) = .string other :: ts ∧
        Strays content s other
  | [], _, hs => absurd nofun hs
  | c :: s, content, hs => by
      have longer : content.length < content.length + (c :: s).length :=
        Nat.lt_add_of_pos_right (Nat.succ_pos _)
      -- A quote or a line end closes the string at once.
      by_cases quote : c = '"'
      · subst quote
        exact ⟨content, _, rfl, Or.inl longer⟩
      by_cases lineEnd : c = '\n'
      · subst lineEnd
        exact ⟨content, _, rfl, Or.inl longer⟩
      by_cases backslash : c = '\\'
      · subst backslash
        match s with
        | [] =>
            refine ⟨_, _, lex_string_escaped_quote htail content rest, Or.inr ⟨?_, rfl⟩⟩
            rw [← List.append_assoc, List.getLast?_concat]
        | x :: s =>
            -- The backslash is lost; the rest may be read as it is or stray on its own.
            have taken : lex (some content)
                ('\\' :: x :: s ++ '"' :: (tail ++ ';' :: '\n' :: rest))
                  = lex (some (content ++ [x])) (s ++ '"' :: (tail ++ ';' :: '\n' :: rest)) :=
              rfl
            rw [taken]
            by_cases further : Quotable s
            · refine ⟨content ++ [x] ++ s, lex none (tail ++ ';' :: '\n' :: rest), ?_, Or.inl ?_⟩
              · exact lex_string_append further _ _
              · simp
            · obtain ⟨other, ts, read, strays⟩ :=
                lex_string_of_not_quotable htail rest s (content ++ [x]) further
              exact ⟨other, ts, read, @strays_of_rest x ['\\', x] _ _ _ nofun strays⟩
      · have plain := And.intro quote (And.intro backslash lineEnd)
        have further : ¬ Quotable s := fun h => hs (quotable_cons.mpr ⟨plain, h⟩)
        obtain ⟨other, ts, read, strays⟩ :=
          lex_string_of_not_quotable htail rest s (content ++ [c]) further
        rw [List.cons_append, lex_string_cons plain]
        exact ⟨other, ts, read, @strays_of_rest c [c] _ _ _ nofun strays⟩

theorem readFrom_not_quotable {s tail : List Char} (hs : ¬ Quotable s) (htail : Quotable tail)
    (p : Progress) (rest : List Char) :
    ∃ other ts, readFrom p ('"' :: (s ++ '"' :: (tail ++ ';' :: '\n' :: rest)))
        = run (p.add [.string other]) ts ∧ other ≠ s := by
  obtain ⟨other, ts, read, strays⟩ := lex_string_of_not_quotable htail rest s [] hs
  refine ⟨other, ts, ?_, ne_of_strays strays⟩
  rw [readFrom, lex, read, run_string]

/-! ## What is read stays -/

/-- What a sheet holds when its reading goes on from some point: the rules read so far, and
in the one at hand the declarations read so far, the last of them begun by the piece at
hand. -/
def Progress.Leads (sheet : List Rule) : Progress → Prop
  | .inSelector rules _ => rules <+: sheet
  | .inName rules selector declarations _ =>
    ∃ more, rules ++ [(selector, declarations ++ more)] <+: sheet
  | .inValue rules selector declarations name piece =>
    ∃ tail more, rules ++ [(selector, declarations ++ (name, trim (piece ++ tail)) :: more)] <+: sheet

theorem leads_of_step {sheet : List Rule} {p q : Progress} {t : Token} (h : step p t = some q)
    (hq : q.Leads sheet) : p.Leads sheet := by
  cases p with
  | inSelector rules piece =>
      rw [step] at h
      split at h
      · obtain rfl := Option.some.inj h
        obtain ⟨more, hmore⟩ := hq
        exact (List.prefix_append _ _).trans hmore
      · split at h
        · cases h
        · obtain rfl := Option.some.inj h
          exact hq
  | inName rules selector declarations piece =>
      rw [step] at h
      split at h
      · obtain rfl := Option.some.inj h
        obtain ⟨tail, more, hmore⟩ := hq
        exact ⟨_, hmore⟩
      · split at h
        · obtain rfl := Option.some.inj h
          refine ⟨[], ?_⟩
          rw [List.append_nil]
          exact hq
        · split at h
          · cases h
          · obtain rfl := Option.some.inj h
            exact hq
  | inValue rules selector declarations name piece =>
      rw [step] at h
      split at h
      · obtain rfl := Option.some.inj h
        obtain ⟨more, hmore⟩ := hq
        refine ⟨[], more, ?_⟩
        rw [List.append_nil]
        rwa [List.append_assoc] at hmore
      · split at h
        · cases h
        · obtain rfl := Option.some.inj h
          obtain ⟨tail, more, hmore⟩ := hq
          refine ⟨t :: tail, more, ?_⟩
          rwa [List.append_assoc] at hmore

/-- A reading that ends in a sheet leads to it from every point. -/
theorem leads_of_run {sheet : List Rule} {p : Progress} {ts : List Token}
    (h : run p ts = some sheet) : p.Leads sheet := by
  induction ts generalizing p with
  | nil =>
      cases p with
      | inSelector rules piece =>
          rw [run, finish] at h
          split at h
          · obtain rfl := Option.some.inj h
            exact List.prefix_refl _
          · cases h
      | inName rules selector declarations piece => cases h
      | inValue rules selector declarations name piece => cases h
  | cons t ts ih =>
      obtain ⟨q, hq, h⟩ := Option.bind_eq_some_iff.mp h
      exact leads_of_step hq (ih h)

end DesignMarkup.Css
