import DesignMarkup.Proofs.Imports

/-!
# The traffic of an import

An import sends at most two questions, each as one request that may be repeated. Which requests
they are follows from the link and from the images of the design, and nothing more is sent once an
error is certain: a request is repeated only behind an outcome that leaves it open, and the images
are asked for only behind an answer from which the design could be made.
-/

namespace DesignMarkup

/-! ## Exchanges as requests -/

/-- Requests that are one and the same, each but the last with an outcome that leaves it open. -/
structure Client.Repeats (c : Client) (limit : Nat) (outcomes : List Outcome) (request : Request)
    (sent : List Request) : Prop where
  alike : ∀ r ∈ sent, r = request
  within : sent.length ≤ limit
  undecided : ∀ i, i + 1 < sent.length → c.LeavesOpen limit outcomes i

/-- The requests that a session sends and their outcomes, one taken for each. -/
structure Wire.Sends (w : Wire) (sent : List Request) (w' : Wire) : Prop where
  requests : w'.requests = w.requests ++ sent
  outcomes : w'.outcomes = w.outcomes.drop sent.length

namespace Wire

variable {w w' : Wire}

theorem sends_nil (w : Wire) : w.Sends [] w where
  requests := (List.append_nil _).symm
  outcomes := rfl

theorem sends_after (w : Wire) (request : Request) (times : Nat) (respites : List Respite) :
    w.Sends (List.replicate times request) (w.after request times respites) where
  requests := rfl
  outcomes := by rw [List.length_replicate]; rfl

theorem Sends.reporting {sent : List Request} (h : w.Sends sent w') (lines : List LogLine) :
    w.Sends sent (w'.reporting lines) :=
  ⟨h.requests, h.outcomes⟩

theorem Sends.append {w'' : Wire} {first second : List Request} (h : w.Sends first w')
    (h' : w'.Sends second w'') : w.Sends (first ++ second) w'' where
  requests := by rw [h'.requests, h.requests, List.append_assoc]
  outcomes := by rw [h'.outcomes, h.outcomes, List.drop_drop, List.length_append]

end Wire

section

variable {c : Client} {limit : Nat} (limited : c.settings.maxRetries.number? = some (.whole limit))
  (once : 1 ≤ limit)

include limited once

/-- A question is sent, as the same request each time, and answered exactly by the body of a
response to the last one that is no error. -/
theorem Client.exists_sent_on_ask (place : String) (params : Value) (w : Wire) :
    ∃ result w' sent, (c.ask place params).on w = (result, w') ∧ w.Sends sent w' ∧ sent ≠ [] ∧
      c.Repeats limit w.outcomes (c.question place params) sent ∧
      ∀ v, result = .ok v ↔ ∃ r, w.outcomes[sent.length - 1]? = some (.answered r) ∧
        r.isOk = true ∧ r.json = .ok v := by
  obtain ⟨k, within, before, result, respites, run, ending⟩ :=
    c.on_ask_cases limited place params once w
  have last : (List.replicate (k + 1) (c.question place params)).length - 1 = k := by simp
  refine ⟨result, _, _, run, w.sends_after _ _ _, by simp, ?_, fun v => ?_⟩
  · exact
      { alike := fun r hr => List.eq_of_mem_replicate hr
        within := by rw [List.length_replicate]; exact within
        undecided := fun i hi => before i (by rw [List.length_replicate] at hi; omega) }
  · rw [last]
    constructor
    · rintro rfl
      rcases ending with ⟨o, decides, reply⟩ | ⟨f, -, failed⟩
      · obtain ⟨r, rfl, accepted, json⟩ := Outcome.answered_of_reply reply.symm
        exact ⟨r, decides.here, accepted, json⟩
      · cases failed
    · rintro ⟨r, here, accepted, json⟩
      have decides : c.Decides limit w.outcomes k (.answered r) :=
        ⟨within, before, here, Or.inr (Outcome.isConclusive_of_isOk accepted)⟩
      obtain ⟨_, asked⟩ := c.on_ask_of_decides limited place params decides
      rw [Outcome.reply_answered accepted, json] at asked
      exact (Prod.mk.inj (run.symm.trans asked)).1

namespace Imported

/-- The images of a converted design are asked for exactly if there are any and their nodes are
texts. -/
theorem exists_sent_on_withImages (key : String) (r : Converted) (w : Wire) :
    ∃ result w' sent, (withImages c key r).on w = (result, w') ∧ w.Sends sent w' ∧
      (sent ≠ [] ↔ r.images ≠ [] ∧ ∃ ids : List String, r.images.map (·.nodeId) = ids.map .text) ∧
      ∀ ids : List String, r.images ≠ [] → r.images.map (·.nodeId) = ids.map .text →
        c.Repeats limit w.outcomes (c.question (ImageUse.place key) (ImageUse.params ids))
          sent := by
  by_cases used : r.images = []
  · exact ⟨_, _, [], on_withImages_of_none used, w.sends_nil,
      ⟨fun some => absurd rfl some, fun some => absurd used some.1⟩,
      fun _ some => absurd used some⟩
  · by_cases texts : ∃ ids : List String, r.images.map (·.nodeId) = ids.map .text
    · have only := texts
      obtain ⟨ids, texts⟩ := texts
      obtain ⟨result, w', sent, asked, sends, some, repeats, -⟩ :=
        c.exists_sent_on_ask limited once (ImageUse.place key) (ImageUse.params ids) w
      obtain ⟨lines, run⟩ := on_withImages_of_asked used texts asked
      refine ⟨_, _, sent, run, sends.reporting lines, ⟨fun _ => ⟨used, only⟩, fun _ => some⟩, ?_⟩
      intro ids' _ texts'
      obtain rfl := List.map_injective_iff.mpr (fun _ _ => Value.text.inj) (texts.symm.trans texts')
      exact repeats
    · obtain ⟨fault, lines, run⟩ := on_withImages_of_no_texts used texts
      exact ⟨_, _, [], run, w.sends_nil.reporting lines,
        ⟨fun some => absurd rfl some, fun some => absurd some.2 texts⟩,
        fun ids _ h => absurd ⟨ids, h⟩ texts⟩

end Imported

end

/-! ## The whole -/

namespace Imported

/-- A node can be made a design with images of certain nodes: it is not too deep and it
converts. -/
structure Illustrates (c : Client) (options : Except Fault Options) (node : Value)
    (ids : List String) : Prop where
  depth : Value.shape.depth node = .ok node.levels
  within : ∀ m : Int, c.settings.maxTreeDepth = .whole m → node.levels ≤ m
  shallow : Value.shape.ensure node c.settings.maxTreeDepth = .ok ()
  converts : ∃ o r, options = .ok o ∧ convertValue node o = .ok r ∧ r.images ≠ [] ∧
    r.images.map (·.nodeId) = ids.map .text

theorem illustrates_iff {c : Client} {options : Except Fault Options} {node : Value}
    {ids : List String} :
    Illustrates c options node ids ↔ ∃ r, prepared c options node = .ok r ∧ r.images ≠ [] ∧
      r.images.map (·.nodeId) = ids.map .text := by
  constructor
  · rintro ⟨-, -, shallow, o, r, options, converted, used, texts⟩
    exact ⟨r, prepared_eq_ok_iff.mpr ⟨shallow, o, options, converted⟩, used, texts⟩
  · rintro ⟨r, made, used, texts⟩
    obtain ⟨shallow, o, options, converted⟩ := prepared_eq_ok_iff.mp made
    have depth := Value.depth_of_convertValue converted
    refine ⟨depth, fun m limit => ?_, shallow, o, r, options, converted, used, texts⟩
    by_contra beyond
    rw [limit, TreeShape.ensure_of_depth depth, if_pos (by omega)] at shallow
    cases shallow

/-- Behind the answer to the first question images are asked for exactly if the node has any. -/
theorem exists_sent_on_ofUrl_of_fetched {c : Client} {limit : Nat}
    (limited : c.settings.maxRetries.number? = some (.whole limit)) (once : 1 ≤ limit)
    {url : Value} {link : ShareLink} (linked : ShareLink.ofValue? url = .ok (some link))
    {w w' : Wire} {node fileName : Value}
    (fetched : (fetchTarget c link).on w = (.ok (node, fileName), w'))
    (options : Except Fault Options) :
    ∃ sent, w'.Sends sent ((ofUrl c url options).on w).2 ∧
      (sent ≠ [] ↔ ∃ ids, Illustrates c options node ids) ∧
      ∀ ids, Illustrates c options node ids → c.Repeats limit w'.outcomes
        (c.question (ImageUse.place link.fileKey) (ImageUse.params ids)) sent := by
  cases made : prepared c options node with
  | error f =>
      have none : ∀ ids, ¬ Illustrates c options node ids := by
        intro ids illustrates
        obtain ⟨r, made', -⟩ := illustrates_iff.mp illustrates
        cases made.symm.trans made'
      rw [on_ofUrl_of_unprepared linked fetched made]
      refine ⟨[], w'.sends_nil, iff_of_false (absurd rfl) ?_, fun ids h => absurd h (none ids)⟩
      rintro ⟨ids, illustrates⟩
      exact none ids illustrates
  | ok r =>
      have same {ids : List String} : Illustrates c options node ids ↔
          r.images ≠ [] ∧ r.images.map (·.nodeId) = ids.map .text := by
        rw [illustrates_iff]
        simp [made]
      obtain ⟨result, w'', sent, run, sends, images, repeats⟩ :=
        exists_sent_on_withImages limited once link.fileKey r w'
      rw [on_ofUrl_of_prepared linked fetched made run]
      refine ⟨sent, sends, ?_, fun ids h => ?_⟩
      · rw [images]
        simp only [same, exists_and_left]
      · obtain ⟨used, texts⟩ := same.mp h
        exact repeats ids used texts

/-- The outcome that the first question ended with calls for images of certain nodes: it is a
response that is no error, and the node found in it has those images. -/
def CallsForImages (c : Client) (options : Except Fault Options) (link : ShareLink)
    (last : Option Outcome) (ids : List String) : Prop :=
  ∃ response answer node fileName, last = some (.answered response) ∧ response.isOk = true ∧
    response.json = .ok answer ∧ link.targetIn answer = .ok (node, fileName) ∧
    Illustrates c options node ids

theorem callsForImages_iff {c : Client} {options : Except Fault Options} {link : ShareLink}
    {result : Except Failure Value} {last : Option Outcome}
    (answered : ∀ v, result = .ok v ↔
      ∃ r, last = some (.answered r) ∧ r.isOk = true ∧ r.json = .ok v) {ids : List String} :
    CallsForImages c options link last ids ↔
      ∃ node fileName, result >>= link.targetIn = .ok (node, fileName) ∧
        Illustrates c options node ids := by
  constructor
  · rintro ⟨response, answer, node, fileName, here, accepted, json, target, illustrates⟩
    have result := (answered answer).mpr ⟨response, here, accepted, json⟩
    exact ⟨node, fileName, bind_eq_ok_iff.mpr ⟨answer, result, target⟩, illustrates⟩
  · rintro ⟨node, fileName, found, illustrates⟩
    obtain ⟨answer, result, target⟩ := bind_eq_ok_iff.mp found
    obtain ⟨response, here, accepted, json⟩ := (answered answer).mp result
    exact ⟨response, answer, node, fileName, here, accepted, json, target, illustrates⟩

/-- The requests of an import: first those for the node of the link, then those for the images of
the design. -/
structure Traffic (c : Client) (limit : Nat) (url : String) (options : Except Fault Options)
    (w : Wire) (run : Except Failure Imported × Wire) (first second : List Request) : Prop where
  sends : w.Sends (first ++ second) run.2
  first_le : first.length ≤ limit
  second_le : second.length ≤ limit
  first_eq_nil_iff : first = [] ↔ ShareLink.ofText? url = none
  no_link : ShareLink.ofText? url = none → run.1 = .error .noShareLink
  token : ∀ r ∈ first ++ second, r.headers.lookup "X-Figma-Token" = some c.token
  target : ∀ link, ShareLink.ofText? url = some link →
    c.Repeats limit w.outcomes (c.question link.place link.params) first
  second_ne_nil_iff : second ≠ [] ↔ ∃ link ids, ShareLink.ofText? url = some link ∧
    CallsForImages c options link w.outcomes[first.length - 1]? ids
  images : ∀ link ids, ShareLink.ofText? url = some link →
    CallsForImages c options link w.outcomes[first.length - 1]? ids →
    c.Repeats limit (w.outcomes.drop first.length)
      (c.question (ImageUse.place link.fileKey) (ImageUse.params ids)) second

section

variable {c : Client} {limit : Nat} {url : String} {options : Except Fault Options}
  {w : Wire} {run : Except Failure Imported × Wire} {first second : List Request}

theorem traffic_of_no_link (none : ShareLink.ofText? url = none)
    (h : run = (.error .noShareLink, w)) : Traffic c limit url options w run [] [] := by
  subst h
  exact
    { sends := w.sends_nil, first_le := Nat.zero_le _, second_le := Nat.zero_le _
      first_eq_nil_iff := ⟨fun _ => none, fun _ => rfl⟩
      no_link := fun _ => rfl
      token := fun r hr => absurd hr List.not_mem_nil
      target := fun link h => by cases none.symm.trans h
      second_ne_nil_iff := by simp [none]
      images := fun link _ h => by cases none.symm.trans h }

/-- Two exchanges are the traffic of an import if the second one is there exactly where an answer
calls for it. -/
theorem traffic_of_link {link : ShareLink} (linked : ShareLink.ofText? url = some link)
    (sends : w.Sends (first ++ second) run.2) (some : first ≠ [])
    (target : c.Repeats limit w.outcomes (c.question link.place link.params) first)
    (called : second ≠ [] ↔ ∃ ids, CallsForImages c options link w.outcomes[first.length - 1]? ids)
    (images : ∀ ids, CallsForImages c options link w.outcomes[first.length - 1]? ids →
      c.Repeats limit (w.outcomes.drop first.length)
        (c.question (ImageUse.place link.fileKey) (ImageUse.params ids)) second) :
    Traffic c limit url options w run first second := by
  have carried (place params) :
      (c.question place params).headers.lookup "X-Figma-Token" = Option.some c.token := rfl
  have again (h : second ≠ []) : ∃ ids, c.Repeats limit (w.outcomes.drop first.length)
      (c.question (ImageUse.place link.fileKey) (ImageUse.params ids)) second := by
    obtain ⟨ids, calls⟩ := called.mp h
    exact ⟨ids, images ids calls⟩
  exact
    { sends := sends
      first_le := target.within
      second_le := by
        by_cases none : second = []
        · rw [none]
          exact Nat.zero_le _
        · obtain ⟨ids, repeats⟩ := again none
          exact repeats.within
      first_eq_nil_iff :=
        ⟨fun none => absurd none some, fun none => by cases linked.symm.trans none⟩
      no_link := fun none => by cases linked.symm.trans none
      token := by
        intro r hr
        rcases List.mem_append.mp hr with hr | hr
        · rw [target.alike r hr]
          exact carried _ _
        · obtain ⟨ids, repeats⟩ := again (List.ne_nil_of_mem hr)
          rw [repeats.alike r hr]
          exact carried _ _
      target := fun link' h => by
        obtain rfl := Option.some.inj (linked.symm.trans h)
        exact target
      second_ne_nil_iff := by simpa [linked] using called
      images := fun link' ids h => by
        obtain rfl := Option.some.inj (linked.symm.trans h)
        exact images ids }

end

/-- Whatever is imported and whatever comes of its requests, they keep to their two exchanges, and
the second takes place exactly if the first is answered with a node that has images. -/
theorem exists_traffic_on_ofUrl {c : Client} {limit : Nat}
    (limited : c.settings.maxRetries.number? = some (.whole limit)) (once : 1 ≤ limit)
    (url : String) (options : Except Fault Options) (w : Wire) :
    ∃ first second,
      Traffic c limit url options w ((ofUrl c (.text url) options).on w) first second := by
  have parsed := ShareLink.ofValue?_text url
  cases linked : ShareLink.ofText? url with
  | none =>
      rw [linked] at parsed
      exact ⟨[], [], traffic_of_no_link linked (on_ofUrl_of_none parsed)⟩
  | some link =>
      rw [linked] at parsed
      obtain ⟨result, w', first, asked, sends, some, repeats, answered⟩ :=
        c.exists_sent_on_ask limited once link.place link.params w
      have fetched := on_fetchTarget asked
      cases found : result >>= link.targetIn with
      | error f =>
          have none (ids) :
              ¬ CallsForImages c options link w.outcomes[first.length - 1]? ids := by
            rw [callsForImages_iff answered, found]
            rintro ⟨node, fileName, found, -⟩
            cases found
          rw [found] at fetched
          refine ⟨first, [], traffic_of_link linked ?_ some repeats ?_ ?_⟩
          · rw [on_ofUrl_of_unfetched parsed fetched, List.append_nil]
            exact sends
          · exact iff_of_false (absurd rfl) (not_exists.mpr none)
          · exact fun ids calls => absurd calls (none ids)
      | ok target =>
          obtain ⟨node, fileName⟩ := target
          have calls (ids) : CallsForImages c options link w.outcomes[first.length - 1]? ids ↔
              Illustrates c options node ids := by
            rw [callsForImages_iff answered, found]
            simp
          rw [found] at fetched
          obtain ⟨second, sends', called, images⟩ :=
            exists_sent_on_ofUrl_of_fetched limited once parsed fetched options
          refine ⟨first, second, traffic_of_link linked (sends.append sends') some repeats ?_ ?_⟩
          · rw [called]
            exact exists_congr fun ids => (calls ids).symm
          · intro ids called
            rw [← sends.outcomes]
            exact images ids ((calls ids).mp called)

/-- Two requests that differ are one of each exchange. -/
theorem length_of_append_eq_pair {a b : Request} (distinct : b ≠ a) {first second : List Request}
    (both : first ++ second = [a, b]) (some : first ≠ []) (alike : ∀ r ∈ first, r = a) :
    first.length = 1 ∧ second.length = 1 := by
  match first, some, both with
  | [_], _, both =>
      refine ⟨rfl, ?_⟩
      simpa using congrArg List.length both
  | _ :: r :: rest, _, both =>
      obtain ⟨-, both⟩ := List.cons_eq_cons.mp both
      obtain ⟨rfl, -⟩ := List.cons_eq_cons.mp both
      exact absurd (alike r (by simp)) distinct

/-- The gallery and its pictures are asked for once each. -/
theorem exists_traffic_gallery :
    ∃ first second, Traffic Gallery.visitor 2 Gallery.url (.ok .standard) (Gallery.wire .null)
        ((ofUrl Gallery.visitor (.text Gallery.url) (.ok .standard)).on (Gallery.wire .null))
        first second ∧
      first.length = 1 ∧ second.length = 1 := by
  have limited : Gallery.visitor.settings.maxRetries.number? = some (.whole (2 : Nat)) := rfl
  obtain ⟨first, second, traffic⟩ := exists_traffic_on_ofUrl limited (by decide) Gallery.url
    (.ok .standard) (Gallery.wire .null)
  refine ⟨first, second, traffic, ?_⟩
  obtain ⟨r, converted, texts, -⟩ := Gallery.converted
  obtain ⟨lines, run⟩ := Gallery.on_ofUrl .null converted texts
  have both := traffic.sends.requests
  rw [run] at both
  have some : first ≠ [] := fun none =>
    Option.some_ne_none _ (Gallery.linked.symm.trans (traffic.first_eq_nil_iff.mp none))
  refine length_of_append_eq_pair ?_ both.symm some (traffic.target _ Gallery.linked).alike
  intro same
  exact absurd (Value.text.inj (congrArg Request.url same)) (by decide)

end Imported

end DesignMarkup
