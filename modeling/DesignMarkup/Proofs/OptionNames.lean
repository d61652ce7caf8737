import Mathlib.Data.List.Induction
import Mathlib.Data.List.Nodup
import DesignMarkup.Proofs.OptionReach

/-!
# What the names of options ask for

An option is asked for under either of its two names, and a name of neither kind says nothing. Of
the members of an object that name one option only the last counts, so what an object asks for
is read off option by option. All else follows from that: names that say nothing may come and go,
a name may give way to the other one, and where no option is named in both ways the order of the
members does not count.
-/

namespace DesignMarkup.Options

/-! ## Names -/

def Field.words : Field → List String
  | .preserveAutoLayout => ["preserve", "auto", "layout"]
  | .convertEffects => ["convert", "effects"]
  | .importVariants => ["import", "variants"]
  | .useFlexbox => ["use", "flexbox"]
  | .generateTailwind => ["generate", "tailwind"]

def Field.underscored (f : Field) : String := "_".intercalate f.words

def Field.capitalized (f : Field) : String :=
  String.join (f.words.take 1 ++ (f.words.drop 1).map String.capitalize)

def Field.names (f : Field) : List String := [f.underscored, f.capitalized]

example : Field.preserveAutoLayout.names = ["preserve_auto_layout", "preserveAutoLayout"] := by decide

def Field.all : List Field :=
  [.preserveAutoLayout, .convertEffects, .importVariants, .useFlexbox, .generateTailwind]

def IsOption (name : String) : Prop := ∃ f ∈ Field.all, name ∈ f.names

instance (name : String) : Decidable (IsOption name) :=
  inferInstanceAs (Decidable (∃ f ∈ Field.all, name ∈ f.names))

section

variable {name : String} {f g : Field}

theorem mem_all (f : Field) : f ∈ Field.all := by
  cases f <;> decide

/-- The table of spellings holds the two names of every option. -/
theorem spellings_eq : spellings = Field.all.flatMap fun f => f.names.map fun name => (name, f) := by
  decide

theorem lookup_spellings_iff : spellings.lookup name = some f ↔ name ∈ f.names := by
  constructor
  · intro found
    obtain ⟨before, after, split, -⟩ := List.lookup_eq_some_iff.mp found
    have entry : (name, f) ∈ spellings := split ▸ List.mem_append_right _ List.mem_cons_self
    rw [spellings_eq, List.mem_flatMap] at entry
    obtain ⟨g, -, entry⟩ := entry
    obtain ⟨_, mem, same⟩ := List.mem_map.mp entry
    obtain ⟨rfl, rfl⟩ := Prod.mk.inj same
    exact mem
  · have listed : ∀ name ∈ f.names, spellings.lookup name = some f := by
      cases f <;> decide
    exact listed name

/-- No name names two options. -/
theorem eq_of_mem_names (hf : name ∈ f.names) (hg : name ∈ g.names) : f = g := by
  rw [← lookup_spellings_iff] at hf hg
  exact Option.some.inj (hf.symm.trans hg)

theorem isOption_of_mem_names (h : name ∈ f.names) : IsOption name := ⟨f, mem_all f, h⟩

/-- A name of an option that is not one of two is the other. -/
theorem eq_of_mem_names_of_ne {first other : String} (hfirst : first ∈ f.names)
    (hname : name ∈ f.names) (hother : other ∈ f.names) (ne : first ≠ other)
    (apart : name ≠ other) : name = first := by
  simp only [Field.names, List.mem_cons, List.not_mem_nil, or_false] at hfirst hname hother
  rcases hfirst with rfl | rfl <;> rcases hname with rfl | rfl <;> rcases hother with rfl | rfl <;>
    first | rfl | contradiction

end

/-! ## What one member asks for -/

section

variable (o : Options) (b : Bool) (m : String × Value) (f : Field)

theorem get_set_self : (o.set b f).get f = b := by
  cases f <;> rfl

theorem get_setMember :
    (o.setMember m).get f = if m.1 ∈ f.names then m.2.isPresent else o.get f := by
  rw [setMember]
  cases found : spellings.lookup m.1 with
  | none =>
      have unnamed : m.1 ∉ f.names := by
        rw [← lookup_spellings_iff, found]
        exact nofun
      rw [if_neg unnamed]
  | some g =>
      have named := lookup_spellings_iff.mp found
      by_cases same : f = g
      · subst same
        rw [if_pos named]
        exact get_set_self o m.2.isPresent f
      · have unnamed : m.1 ∉ f.names := fun h => same (eq_of_mem_names h named)
        rw [if_neg unnamed]
        exact get_set_of_ne o m.2.isPresent same

theorem eq_of_get {o o' : Options} (h : ∀ f : Field, o.get f = o'.get f) : o = o' := by
  obtain ⟨layout, effects, variants, flexbox, utilities⟩ := o
  obtain ⟨layout', effects', variants', flexbox', utilities'⟩ := o'
  obtain rfl : layout = layout' := h .preserveAutoLayout
  obtain rfl : effects = effects' := h .convertEffects
  obtain rfl : variants = variants' := h .importVariants
  obtain rfl : flexbox = flexbox' := h .useFlexbox
  obtain rfl : utilities = utilities' := h .generateTailwind
  rfl

end

/-! ## What the members of an object ask for -/

def naming (f : Field) (ms : Members) : Members := ms.filter fun m => decide (m.1 ∈ f.names)

/-- What the last member that names an option holds. -/
def lastWord? (f : Field) (ms : Members) : Option Value := (naming f ms).getLast?.map Prod.snd

/-- No option is named in both ways. -/
def NamesOnce (ms : Members) : Prop := ∀ f : Field, ∃ name ∈ f.names, name ∉ ms.map Prod.fst

section

variable {ms ms' before after : Members} {f g : Field} {m : String × Value}

theorem naming_append : naming f (ms ++ ms') = naming f ms ++ naming f ms' := List.filter_append ..

theorem naming_cons_of_mem (h : m.1 ∈ f.names) : naming f (m :: ms) = m :: naming f ms :=
  List.filter_cons_of_pos (decide_eq_true h)

theorem naming_cons_of_not_mem (h : m.1 ∉ f.names) : naming f (m :: ms) = naming f ms :=
  List.filter_cons_of_neg (by simpa using h)

/-- Members that name no option are overlooked. -/
theorem naming_filter (f : Field) (ms : Members) :
    naming f (ms.filter fun m => decide (IsOption m.1)) = naming f ms := by
  rw [naming, naming, List.filter_filter]
  apply List.filter_congr
  intro m _
  by_cases named : m.1 ∈ f.names
  · simp [named, isOption_of_mem_names named]
  · simp [named]

/-- Going through members, each option takes the last word on it. -/
theorem get_foldl_setMember (ms : Members) (o : Options) (f : Field) :
    (ms.foldl setMember o).get f = ((lastWord? f ms).map Value.isPresent).getD (o.get f) := by
  induction ms using List.reverseRecOn with
  | nil => rfl
  | append_singleton ms m ih =>
      rw [List.foldl_append, List.foldl_cons, List.foldl_nil, get_setMember, lastWord?, naming_append]
      by_cases named : m.1 ∈ f.names
      · rw [if_pos named, naming_cons_of_mem named]
        simp [naming]
      · rw [if_neg named, naming_cons_of_not_mem named, ih, lastWord?]
        simp [naming]

/-- Objects with the same last words ask for the same. -/
theorem ofMembers_eq_of_lastWord? (h : ∀ f, lastWord? f ms' = lastWord? f ms) :
    ofMembers ms' = ofMembers ms := by
  apply eq_of_get
  intro f
  rw [ofMembers, ofMembers, get_foldl_setMember, get_foldl_setMember, h f]

/-- Every object is understood. -/
theorem ofValue_object (ms : Members) : ofValue (.object ms) = .ok (ofMembers ms) := by
  cases ms <;> rfl

/-! ## One member for an option -/

section

variable (distinct : (ms.map Prod.fst).Nodup)

include distinct

/-- An option that is not named in both ways is named by one member at most. -/
theorem length_naming_le {other : String} (hother : other ∈ f.names)
    (absent : other ∉ ms.map Prod.fst) : (naming f ms).length ≤ 1 := by
  have names : ((naming f ms).map Prod.fst).Nodup := distinct.sublist (List.filter_sublist.map _)
  have apart : ∀ m ∈ naming f ms, m.1 ∈ f.names ∧ m.1 ≠ other := by
    intro m hm
    obtain ⟨mem, named⟩ := List.mem_filter.mp hm
    refine ⟨of_decide_eq_true named, ?_⟩
    rintro rfl
    exact absent (List.mem_map_of_mem mem)
  cases members : naming f ms with
  | nil => exact Nat.zero_le 1
  | cons first rest =>
      rw [members] at names apart
      obtain ⟨⟨named, ne⟩, others⟩ := List.forall_mem_cons.mp apart
      -- All members have the one name that is left, and no two have the same.
      have same : ∀ m ∈ rest, m.1 = first.1 := fun m hm =>
        eq_of_mem_names_of_ne named (others m hm).1 hother ne (others m hm).2
      cases rest with
      | nil => exact Nat.le_refl 1
      | cons second rest =>
          have twice := (List.nodup_cons.mp names).1
          rw [List.map_cons, same second List.mem_cons_self] at twice
          exact absurd List.mem_cons_self twice

theorem naming_eq_of_perm (once : NamesOnce ms) (perm : ms'.Perm ms) (f : Field) :
    naming f ms' = naming f ms := by
  obtain ⟨other, hother, absent⟩ := once f
  have few := length_naming_le distinct hother absent
  have members : (naming f ms').Perm (naming f ms) := perm.filter _
  rcases Nat.le_one_iff_eq_zero_or_eq_one.mp few with none | one
  · rw [List.length_eq_zero_iff.mp none] at members ⊢
    exact members.eq_nil
  · obtain ⟨m, single⟩ := List.length_eq_one_iff.mp one
    rw [single] at members ⊢
    exact members.eq_singleton

end

/-- A name gives way to the other one, wherever the member is put. -/
theorem lastWord?_respelled {name other : String} {v : Value}
    (distinct : ((before ++ (name, v) :: after).map Prod.fst).Nodup) (hname : name ∈ f.names)
    (hother : other ∈ f.names) (absent : other ∉ (before ++ (name, v) :: after).map Prod.fst)
    {before' after' : Members} (rest : before' ++ after' = before ++ after) (g : Field) :
    lastWord? g (before' ++ (other, v) :: after') = lastWord? g (before ++ (name, v) :: after) := by
  have others : naming g before' ++ naming g after' = naming g before ++ naming g after := by
    rw [← naming_append, ← naming_append, rest]
  by_cases same : g = f
  · subst same
    -- There is no other member that names the option.
    have few := length_naming_le distinct hother absent
    rw [naming_append, naming_cons_of_mem hname] at few
    have none : naming g before ++ naming g after = [] := by
      rw [← List.length_eq_zero_iff]
      simp only [List.length_append, List.length_cons] at few ⊢
      omega
    rw [none] at others
    obtain ⟨noneBefore, noneAfter⟩ := List.append_eq_nil_iff.mp none
    obtain ⟨noneBefore', noneAfter'⟩ := List.append_eq_nil_iff.mp others
    rw [lastWord?, lastWord?, naming_append, naming_append, naming_cons_of_mem hother,
      naming_cons_of_mem hname, noneBefore, noneAfter, noneBefore', noneAfter']
    rfl
  · have unnamed {name : String} (hname : name ∈ f.names) : name ∉ g.names :=
      fun h => same (eq_of_mem_names h hname)
    rw [lastWord?, lastWord?, naming_append, naming_append, naming_cons_of_not_mem (unnamed hother),
      naming_cons_of_not_mem (unnamed hname), others]

end

/-! ## The meaning of an object -/

/-- What is meant by an object that asks for options: every option is as the last member says
that names it, and as usual where there is none. Members that name no option may be put in or left
out anywhere. A member may have the other name of its option where no member has that name yet,
and the order of members does not count where no option is named in both ways. -/
structure AsksFor (ms : Members) (o : Options) : Prop where
  option : ∀ f, o.get f = ((lastWord? f ms).map Value.isPresent).getD (standard.get f)
  unnamed : ∀ ms' : Members,
    ms'.filter (fun m => decide (IsOption m.1)) = ms.filter (fun m => decide (IsOption m.1)) →
      ofValue (.object ms') = .ok o
  respelled : ∀ f : Field, ∀ name ∈ f.names, ∀ other ∈ f.names, ∀ (v : Value) (before after : Members),
    ms = before ++ (name, v) :: after → other ∉ ms.map Prod.fst →
      ∀ before' after' : Members, before' ++ after' = before ++ after →
        ofValue (.object (before' ++ (other, v) :: after')) = .ok o
  reordered : NamesOnce ms → ∀ ms' : Members, ms'.Perm ms → ofValue (.object ms') = .ok o

/-- Every object whose members have different names is understood, and asks for options as their
names say. -/
theorem asksFor_of_object {ms : Members} (distinct : (ms.map Prod.fst).Nodup) :
    ∃ o, ofValue (.object ms) = .ok o ∧ AsksFor ms o := by
  have alike {ms' : Members} (h : ∀ f, lastWord? f ms' = lastWord? f ms) :
      ofValue (.object ms') = .ok (ofMembers ms) := by
    rw [ofValue_object, ofMembers_eq_of_lastWord? h]
  refine ⟨ofMembers ms, ofValue_object ms, ?_, ?_, ?_, ?_⟩
  · exact get_foldl_setMember ms standard
  · intro ms' same
    apply alike
    intro f
    rw [lastWord?, lastWord?, ← naming_filter f ms', same, naming_filter]
  · rintro f name hname other hother v before after rfl absent before' after' rest
    exact alike (lastWord?_respelled distinct hname hother absent rest)
  · intro once ms' perm
    apply alike
    intro f
    rw [lastWord?, lastWord?, naming_eq_of_perm distinct once perm f]

def remarkedRequest : Members :=
  [("remark", .text "draft"), ("useFlexbox", .null), ("convert_effects", .text ""),
    ("generate_tailwind", .list [.null])]

theorem asksFor_remarkedRequest :
    ofValue (.object remarkedRequest) = .ok ⟨true, false, true, false, true⟩ ∧
      NamesOnce remarkedRequest ∧ AsksFor remarkedRequest ⟨true, false, true, false, true⟩ := by
  have once : NamesOnce remarkedRequest := by
    intro f
    cases f <;> decide
  have understood : ofValue (.object remarkedRequest) = .ok ⟨true, false, true, false, true⟩ := rfl
  have distinct : (remarkedRequest.map Prod.fst).Nodup := by decide
  obtain ⟨o, asked, asks⟩ := asksFor_of_object distinct
  obtain rfl := Except.ok.inj (understood.symm.trans asked)
  exact ⟨understood, once, asks⟩

example : ofMembers [("useFlexbox", .null), ("use_flexbox", .text "no")]
    = ofMembers [("use_flexbox", .text "no")] := by decide

end DesignMarkup.Options
