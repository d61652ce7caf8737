import DesignMarkup.Service.Tokens
import DesignMarkup.Proofs.Computations
import DesignMarkup.Proofs.FormCoding

/-!
# Authorization links

The address where users authorize carries the parameters of the application as a query. Their
values are any texts, also of the characters that mean something in a query, and the state is one
that others may choose. Form coding keeps them apart: a coded text has no ampersand and no equals
sign, and it reads back as the text. So whoever cuts the address at these signs and undoes the
coding finds the parameters that were given, in order, and none besides.
-/

namespace DesignMarkup

namespace Text

/-! ## Reading a query -/

/-- The pieces of a query between ampersands, each cut at its equals signs, with form coding
undone. -/
def queryParts (query : List Char) : List (List (List Char)) :=
  (splitAll '&' query).map fun piece => (splitAll '=' piece).map formDecode

def querySigns : List Char := ['&', '=']

/-! ## Coded bytes -/

/-- A plus in a coded text is a blank. -/
def unplus (c : Char) : Char := if c = '+' then ' ' else c

theorem formDecode_eq (s : List Char) : formDecode s = ofUtf8 (percentBytes (s.map unplus)) := rfl

theorem hexDigit?_upperHex : ∀ n < 16, hexDigit? (upperHex n) = some n := by decide

theorem not_mem_querySigns_of_hexDigit? {c : Char} {n : Nat} (h : hexDigit? c = some n) :
    c ∉ querySigns := by
  intro sign
  simp only [querySigns, List.mem_cons, List.not_mem_nil, or_false] at sign
  rcases sign with rfl | rfl <;> cases h

theorem unplus_of_hexDigit? {c : Char} {n : Nat} (h : hexDigit? c = some n) : unplus c = c := by
  refine if_neg ?_
  rintro rfl
  cases h

/-- A byte that stands for itself is of ASCII and no mark of a query. -/
theorem plain_of_isPlainByte {b : Nat} (h : isPlainByte b = true) :
    b < 0x80 ∧ Char.ofNat b ∉ queryMarks ∧ Char.ofNat b ∉ querySigns := by
  have ascii : b < 0x80 := by
    simp only [isPlainByte, Bool.or_eq_true, Bool.and_eq_true, decide_eq_true_eq, beq_iff_eq] at h
    omega
  have apart : ∀ b < 0x80, isPlainByte b = true →
      Char.ofNat b ∉ queryMarks ∧ Char.ofNat b ∉ querySigns := by
    decide
  exact ⟨ascii, apart b ascii h⟩

/-- The three ways to write a byte: a plus for a blank, a plain byte as itself, and any other
behind a percent sign. -/
theorem formByte_cases {b : Nat} (byte : b < 256) :
    (b = 0x20 ∧ formByte b = ['+']) ∨ (isPlainByte b = true ∧ formByte b = [Char.ofNat b]) ∨
      ∃ first second, hexDigit? first = some (b / 16) ∧ hexDigit? second = some (b % 16) ∧
        formByte b = ['%', first, second] := by
  rw [formByte]
  by_cases blank : b = 0x20
  · rw [if_pos blank]
    exact .inl ⟨blank, rfl⟩
  · rw [if_neg blank]
    by_cases plain : isPlainByte b = true
    · rw [if_pos plain]
      exact .inr (.inl ⟨plain, rfl⟩)
    · rw [if_neg plain]
      have high := hexDigit?_upperHex (b / 16) (by omega)
      have low := hexDigit?_upperHex (b % 16) (by omega)
      exact .inr (.inr ⟨_, _, high, low, rfl⟩)

theorem lt_of_mem_utf8 {s : List Char} {b : Nat} (h : b ∈ utf8 s) : b < 256 := by
  obtain ⟨c, -, h⟩ := List.mem_flatMap.mp h
  have scalar : c.toNat < 0x110000 := by
    have : c.toNat < 0xD800 ∨ 0xDFFF < c.toNat ∧ c.toNat < 0x110000 := c.valid
    omega
  unfold utf8Char at h
  generalize c.toNat = n at scalar h
  dsimp only at h
  split at h
  · simp only [List.mem_cons, List.not_mem_nil, or_false] at h
    omega
  · split at h
    · simp only [List.mem_cons, List.not_mem_nil, or_false] at h
      omega
    · split at h <;> simp only [List.mem_cons, List.not_mem_nil, or_false] at h <;> omega

/-! ## Coded texts -/

/-- Once the pluses are blanks again, coded bytes are one of the ways to write the bytes. -/
theorem spells_formBytes {bytes : List Nat} (h : ∀ b ∈ bytes, b < 256) :
    Spells ((bytes.flatMap formByte).map unplus) bytes := by
  induction bytes with
  | nil => exact .nothing
  | cons b rest ih =>
      obtain ⟨byte, others⟩ := List.forall_mem_cons.mp h
      rw [List.flatMap_cons, List.map_append]
      rcases formByte_cases byte with ⟨rfl, coded⟩ | ⟨plain, coded⟩ | ⟨_, _, high, low, coded⟩
      · rw [coded]
        exact .plain (b := 0x20) (by decide) (by decide) (ih others)
      · obtain ⟨ascii, unmarked, -⟩ := plain_of_isPlainByte plain
        have same : unplus (Char.ofNat b) = Char.ofNat b := by
          refine if_neg fun plus => unmarked ?_
          rw [plus]
          decide
        rw [coded, List.map_singleton, same]
        exact .plain ascii unmarked (ih others)
      · have whole : b / 16 * 16 + b % 16 = b := by omega
        have spelled := Spells.percent high low (ih others)
        rw [whole] at spelled
        rw [coded, List.map_cons, List.map_cons, List.map_singleton, unplus_of_hexDigit? high,
          unplus_of_hexDigit? low]
        exact spelled

/-- Every text reads back from its coding. -/
theorem formDecode_formEncode (s : List Char) : formDecode (formEncode s) = s := by
  have spelled : Spells ((formEncode s).map unplus) (utf8 s) :=
    spells_formBytes fun b hb => lt_of_mem_utf8 hb
  rw [formDecode_eq, percentBytes_of_spells spelled, ofUtf8_utf8]

/-- A query is not cut within a coded text. -/
theorem not_mem_formEncode {sign : Char} (h : sign ∈ querySigns) (s : List Char) :
    sign ∉ formEncode s := by
  intro mem
  obtain ⟨b, hb, mem⟩ := List.mem_flatMap.mp mem
  rcases formByte_cases (lt_of_mem_utf8 hb) with ⟨-, coded⟩ | ⟨plain, coded⟩ |
    ⟨first, second, high, low, coded⟩
  · obtain rfl := List.mem_singleton.mp (coded ▸ mem)
    exact absurd h (by decide)
  · obtain rfl := List.mem_singleton.mp (coded ▸ mem)
    exact (plain_of_isPlainByte plain).2.2 h
  · rw [coded] at mem
    simp only [List.mem_cons, List.not_mem_nil, or_false] at mem
    rcases mem with rfl | rfl | rfl
    · exact absurd h (by decide)
    · exact not_mem_querySigns_of_hexDigit? high h
    · exact not_mem_querySigns_of_hexDigit? low h

/-- A query gives back the names and values that it was made of, whatever is in them. -/
theorem queryParts_formPairs {pairs : List (List Char × List Char)} (some : pairs ≠ []) :
    queryParts (formPairs pairs) = pairs.map fun p => [p.1, p.2] := by
  have ampersand (s : List Char) : '&' ∉ formEncode s := not_mem_formEncode (by decide) s
  have equals (s : List Char) : '=' ∉ formEncode s := not_mem_formEncode (by decide) s
  have whole : ∀ piece ∈ pairs.map fun p => formEncode p.1 ++ '=' :: formEncode p.2,
      '&' ∉ piece := by
    intro piece hpiece
    obtain ⟨p, -, rfl⟩ := List.mem_map.mp hpiece
    simp [ampersand]
  rw [queryParts, formPairs, splitAll_intercalate (mt List.map_eq_nil_iff.mp some) whole,
    List.map_map]
  refine List.map_congr_left fun p _ => ?_
  show (splitAll '=' (formEncode p.1 ++ '=' :: formEncode p.2)).map formDecode = _
  rw [splitAll_append (equals p.1), splitAll_of_not_mem (equals p.2), List.map_cons,
    List.map_singleton, formDecode_formEncode, formDecode_formEncode]

/-- An address without a question mark ends at the one behind it. -/
theorem splitFirst_address {address : String} (bare : '?' ∉ address.toList) (query : List Char) :
    splitFirst '?' (address ++ "?" ++ String.ofList query).toList
      = (address.toList, some query) := by
  have text := String.toList_ofList (l := query)
  rw [String.toList_append, String.toList_append, text, List.append_assoc]
  exact splitFirst_behind bare (some query)

end Text

/-- The settings of an environment name the service, and the rest of what an address carries are
texts. -/
theorem Settings.texts_of_ofEnvironment {env : Environment} {s : Settings}
    (h : ofEnvironment env = .ok s) :
    s.oauthAuthUrl = .text "https://www.figma.com/oauth" ∧
      s.oauthScope = .text "file_content:read" ∧
      s.clientId = .text (variableOr env "FIGMA_CLIENT_ID" "") ∧
      s.redirectUri = .text (variableOr env "FIGMA_REDIRECT_URI"
        (variableOr env "APP_URL" "http://localhost:3000" ++ "/api/figma/auth/callback")) := by
  obtain ⟨timeout, -, h⟩ := bind_eq_ok_iff.mp h
  obtain ⟨depth, -, h⟩ := bind_eq_ok_iff.mp h
  obtain rfl := pure_eq_ok_iff.mp h
  exact ⟨rfl, rfl, rfl, rfl⟩

namespace Tokens

/-- A state counts as given when its text is not empty. -/
theorem isPresent_of_textOrEmpty {v : Value} {s : String} (h : v.textOrEmpty = .ok s) :
    (v.isPresent = true ↔ s ≠ "") ∧ (v.isPresent = true → v.plain = s) := by
  unfold Value.textOrEmpty at h
  split at h
  · rename_i present
    cases v with
    | text t =>
        obtain rfl := Except.ok.inj h
        exact ⟨by simp [Value.isPresent], fun _ => rfl⟩
    | _ => cases h
  · rename_i absent
    obtain rfl := Except.ok.inj h
    exact ⟨iff_of_false absent (· rfl), fun present => absurd present absent⟩

/-- The address where users authorize leads to the service and carries exactly the parameters that
were given, in order and each with its own value, whatever characters the client's name, the
address to come back to, the scope and the state are made of. The state is among them if and only if
there is one. -/
theorem queryParts_authUrl {s : Settings} {address client back scope told : String} {state : Value}
    (site : s.oauthAuthUrl = .text address) (bare : '?' ∉ address.toList)
    (known : s.clientId = .text client) (named : client ≠ "")
    (returns : s.redirectUri = .text back) (asks : s.oauthScope = .text scope)
    (given : state.textOrEmpty = .ok told) :
    ∃ url query, authUrl s state = .ok url ∧
      Text.splitFirst '?' url.toList = (address.toList, some query) ∧
      Text.queryParts query
        = ([("client_id", client), ("redirect_uri", back), ("scope", scope),
            ("response_type", "code")] ++ if told = "" then [] else [("state", told)]).map
          fun p => [p.1.toList, p.2.toList] := by
  obtain ⟨present, text⟩ := isPresent_of_textOrEmpty given
  have there : s.clientId.isPresent = true := by
    rw [known]
    simpa [Value.isPresent] using named
  have front : s.oauthAuthUrl.plain = address := by
    rw [site]
    rfl
  refine ⟨_, Text.formPairs (authParameters s state), if_pos there, ?_, ?_⟩
  · rw [front]
    exact Text.splitFirst_address bare _
  · have some : authParameters s state ≠ [] := List.cons_ne_nil _ _
    rw [Text.queryParts_formPairs some, authParameters, known, returns, asks]
    by_cases none : told = ""
    · rw [if_neg (mt present.mp (not_not_intro none)), if_pos none]
      rfl
    · have carried : parameter "state" state = ("state".toList, told.toList) := by
        rw [parameter, text (present.mpr none)]
      rw [if_pos (present.mpr none), if_neg none, carried]
      rfl

/-- A client and an address to come back to that look like parameters. -/
def crowded : Environment :=
  [("FIGMA_CLIENT_ID", "a&client_id=b"), ("FIGMA_REDIRECT_URI", "https://x/?state=1&y=%20#z")]

theorem queryParts_authUrl_crowded :
    ∃ s url query, Settings.ofEnvironment crowded = .ok s ∧
      authUrl s (.text "é +%26&state=😀") = .ok url ∧
      Text.splitFirst '?' url.toList = ("https://www.figma.com/oauth".toList, some query) ∧
      Text.queryParts query
        = [["client_id".toList, "a&client_id=b".toList],
            ["redirect_uri".toList, "https://x/?state=1&y=%20#z".toList],
            ["scope".toList, "file_content:read".toList], ["response_type".toList, "code".toList],
            ["state".toList, "é +%26&state=😀".toList]] := by
  obtain ⟨s, h⟩ : ∃ s, Settings.ofEnvironment crowded = .ok s := exists_ok_of_isOk (by decide)
  obtain ⟨site, asks, known, returns⟩ := Settings.texts_of_ofEnvironment h
  have given : (Value.text "é +%26&state=😀").textOrEmpty = .ok "é +%26&state=😀" := rfl
  obtain ⟨url, query, built, cut, parts⟩ :=
    queryParts_authUrl site (by decide) known (by decide) returns asks given
  exact ⟨s, url, query, h, built, cut, parts⟩

end Tokens

end DesignMarkup
