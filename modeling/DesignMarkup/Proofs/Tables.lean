import DesignMarkup.Ordered

/-!
# What is in a table

A table is known by its keys in order and by what stands under each of them. Entering many
values one after the other leaves the old keys in front, puts the new ones behind them in
the order in which they first came, and keeps under each key the value that came last.
-/

namespace DesignMarkup.Ordered

variable {κ α : Type}

def keys (table : Ordered κ α) : List κ := table.map (·.1)

theorem keys_cons (k : κ) (v : α) (rest : Ordered κ α) :
    keys ((k, v) :: rest) = k :: keys rest :=
  rfl

/-! ## One entry -/

variable [DecidableEq κ]

theorem keys_put (key : κ) (value : α) (table : Ordered κ α) :
    (table.put key value).keys
      = if key ∈ table.keys then table.keys else table.keys ++ [key] := by
  induction table with
  | nil => rfl
  | cons entry rest ih =>
      obtain ⟨k, v⟩ := entry
      by_cases hk : k = key
      · simp [put, keys, hk]
      · rw [put, if_neg hk, keys_cons, ih, keys_cons]
        by_cases old : key ∈ keys rest
        · rw [if_pos old, if_pos (List.mem_cons_of_mem k old)]
        · have new : key ∉ k :: keys rest := by
            rw [List.mem_cons, not_or]
            exact ⟨Ne.symm hk, old⟩
          rw [if_neg old, if_neg new, List.cons_append]

theorem lookup_cons (k : κ) (v : α) (rest : Ordered κ α) (c : κ) :
    List.lookup c ((k, v) :: rest) = if k = c then some v else rest.lookup c := by
  by_cases hc : k = c
  · rw [if_pos hc, hc, List.lookup_cons_self]
  · have : (c == k) = false := by simpa using Ne.symm hc
    rw [List.lookup_cons, this, if_neg hc]

/-- A key of a filtered table is looked up in the whole one. -/
theorem lookup_filter {table : Ordered κ α} (distinct : table.keys.Nodup) (p : α → Bool) (c : κ) :
    List.lookup c (table.filter fun e => p e.2) = (List.lookup c table).filter p := by
  induction table with
  | nil => rfl
  | cons entry rest ih =>
      obtain ⟨k, v⟩ := entry
      obtain ⟨new, distinct⟩ := List.nodup_cons.mp distinct
      rw [List.filter_cons, lookup_cons]
      by_cases hc : k = c
      · subst hc
        -- Behind a key that is filtered out it does not come again.
        have later : List.lookup k rest = none := by
          rw [List.lookup_eq_none_iff]
          intro e he
          simpa using fun same : k = e.1 => new (List.mem_map.mpr ⟨e, he, same.symm⟩)
        by_cases hv : p v
        · simp [hv, Option.filter_some]
        · simp [hv, Option.filter_some, ih distinct, later]
      · by_cases hv : p v
        · simp [hv, lookup_cons, hc, ih distinct]
        · simp [hv, hc, ih distinct]

theorem lookup_put (key : κ) (value : α) (table : Ordered κ α) (c : κ) :
    (table.put key value).lookup c = if key = c then some value else table.lookup c := by
  induction table with
  | nil => exact lookup_cons key value [] c
  | cons entry rest ih =>
      obtain ⟨k, v⟩ := entry
      by_cases hk : k = key
      · rw [put, if_pos hk, lookup_cons, lookup_cons, hk]
        split <;> rfl
      · rw [put, if_neg hk, lookup_cons, lookup_cons, ih]
        by_cases hc : key = c
        · rw [if_pos hc, if_neg (hc ▸ hk), if_pos hc]
        · rw [if_neg hc, if_neg hc]

theorem mem_put {key : κ} {value : α} {table : Ordered κ α} {entry : κ × α}
    (h : entry ∈ table.put key value) : entry ∈ table ∨ entry = (key, value) := by
  induction table with
  | nil => exact Or.inr (List.mem_singleton.mp h)
  | cons first rest ih =>
      obtain ⟨k, v⟩ := first
      by_cases hk : k = key
      · rw [put, if_pos hk, List.mem_cons, hk] at h
        exact h.symm.imp_left fun h => List.mem_cons_of_mem _ h
      · rw [put, if_neg hk, List.mem_cons] at h
        rcases h with rfl | h
        · exact Or.inl List.mem_cons_self
        · exact (ih h).imp_left fun h => List.mem_cons_of_mem _ h

theorem put_append {key : κ} {front : Ordered κ α} (h : key ∉ front.keys) (value : α)
    (back : Ordered κ α) : put key value (front ++ back) = front ++ back.put key value := by
  induction front with
  | nil => rfl
  | cons entry rest ih =>
      obtain ⟨k, v⟩ := entry
      rw [keys_cons, List.mem_cons, not_or] at h
      rw [List.cons_append, put, if_neg (Ne.symm h.1), ih h.2]
      rfl

/-! ## Many entries -/

/-- What is in a table was in it before or was entered. -/
theorem mem_putAll {entries : List (κ × α)} {table : Ordered κ α} {entry : κ × α}
    (h : entry ∈ table.putAll entries) : entry ∈ table ∨ entry ∈ entries := by
  induction entries generalizing table with
  | nil => exact Or.inl h
  | cons first rest ih =>
      rcases ih h with h | h
      · exact (mem_put h).imp_right fun h => List.mem_cons.mpr (Or.inl h)
      · exact Or.inr (List.mem_cons_of_mem _ h)

/-- A list without repetitions has none to lose. -/
theorem eraseDups_of_nodup {l : List κ} (h : l.Nodup) : l.eraseDups = l := by
  induction l with
  | nil => rfl
  | cons a rest ih =>
      obtain ⟨ha, hrest⟩ := List.nodup_cons.mp h
      have : rest.filter (fun b => !b == a) = rest := by
        rw [List.filter_eq_self]
        intro b hb
        have : b ≠ a := fun hba => ha (hba ▸ hb)
        simpa using this
      rw [List.eraseDups_cons, this, ih hrest]

theorem nodup_eraseDups (l : List κ) : l.eraseDups.Nodup := by
  match l with
  | [] => exact List.nodup_nil
  | a :: rest =>
      rw [List.eraseDups_cons, List.nodup_cons]
      refine ⟨?_, nodup_eraseDups _⟩
      rw [List.mem_eraseDups]
      simp
termination_by l.length
decreasing_by exact Nat.lt_succ_of_le (List.length_filter_le _ _)

theorem keys_putAll (entries : List (κ × α)) {table : Ordered κ α} (h : table.keys.Nodup) :
    (table.putAll entries).keys = (table.keys ++ entries.map (·.1)).eraseDups := by
  induction entries generalizing table with
  | nil =>
      rw [List.map_nil, List.append_nil, eraseDups_of_nodup h]
      rfl
  | cons entry rest ih =>
      obtain ⟨key, value⟩ := entry
      have step : (table.putAll ((key, value) :: rest)) = (table.put key value).putAll rest := rfl
      have nodup : (table.put key value).keys.Nodup := by
        rw [keys_put]
        split
        · exact h
        · rename_i new
          refine List.nodup_append.mpr ⟨h, by simp, ?_⟩
          intro a ha b hb hab
          obtain rfl := List.mem_singleton.mp hb
          exact new (hab ▸ ha)
      rw [step, ih nodup, keys_put, List.map_cons]
      -- An old key is lost again among the duplicates; a new one is the next to arrive.
      by_cases old : key ∈ table.keys
      · rw [if_pos old, List.eraseDups_append, List.eraseDups_append]
        congr 2
        simp [List.removeAll, old]
      · rw [if_neg old, List.append_assoc]
        rfl

theorem lookup_putAll (entries : List (κ × α)) (table : Ordered κ α) (c : κ) :
    (table.putAll entries).lookup c
      = (((entries.filter (·.1 = c)).getLast?).map (·.2)).or (table.lookup c) := by
  induction entries generalizing table with
  | nil => rfl
  | cons entry rest ih =>
      obtain ⟨key, value⟩ := entry
      have step : (table.putAll ((key, value) :: rest)) = (table.put key value).putAll rest := rfl
      rw [step, ih, lookup_put]
      by_cases hc : key = c
      · simp only [hc, if_true, List.filter_cons, decide_true, List.getLast?_cons]
        cases (rest.filter (·.1 = c)).getLast? <;> rfl
      · simp [hc]

/-! ## Some of the keys -/

theorem filter_put (p : κ → Bool) (key : κ) (value : α) (table : Ordered κ α) :
    (table.put key value).filter (fun e => p e.1)
      = if p key then put key value (table.filter fun e => p e.1)
        else table.filter fun e => p e.1 := by
  induction table with
  | nil => cases hp : p key <;> simp [put, hp]
  | cons entry rest ih =>
      obtain ⟨k, v⟩ := entry
      by_cases hk : k = key
      · subst hk
        cases hp : p k <;> simp [put, hp]
      · rw [put, if_neg hk, List.filter_cons, ih, List.filter_cons]
        -- The entry in front stays where it is, or is left out on both sides.
        cases p k
        · rfl
        · cases p key
          · rfl
          · simp [put, hk]

/-- What is entered under some keys comes to the same whether or not other keys are about. -/
theorem filter_putAll (p : κ → Bool) (entries : List (κ × α)) (table : Ordered κ α) :
    (table.putAll entries).filter (fun e => p e.1)
      = putAll (entries.filter fun e => p e.1) (table.filter fun e => p e.1) := by
  induction entries generalizing table with
  | nil => rfl
  | cons entry rest ih =>
      have step : table.putAll (entry :: rest) = (table.put entry.1 entry.2).putAll rest := rfl
      rw [step, ih, filter_put, List.filter_cons]
      cases p entry.1 <;> rfl

theorem filter_ofEntries (p : κ → Bool) (entries : List (κ × α)) :
    (ofEntries entries).filter (fun e => p e.1) = ofEntries (entries.filter fun e => p e.1) :=
  filter_putAll p entries []

/-! ## Groups of entries -/

/-- Entries whose keys a table lacks come to the same behind it as alone. -/
theorem putAll_append {entries : List (κ × α)} {front : Ordered κ α}
    (new : ∀ e ∈ entries, e.1 ∉ front.keys) (back : Ordered κ α) :
    putAll entries (front ++ back) = front ++ back.putAll entries := by
  induction entries generalizing back with
  | nil => rfl
  | cons entry rest ih =>
      obtain ⟨hentry, hrest⟩ := List.forall_mem_cons.mp new
      have step (table : Ordered κ α) :
          table.putAll (entry :: rest) = (table.put entry.1 entry.2).putAll rest := rfl
      rw [step, put_append hentry, ih hrest, step]

theorem mem_keys_ofEntries {entries : List (κ × α)} {key : κ} :
    key ∈ (ofEntries entries).keys ↔ ∃ e ∈ entries, e.1 = key := by
  have nodup : (keys ([] : Ordered κ α)).Nodup := List.nodup_nil
  rw [ofEntries, keys_putAll entries nodup, List.mem_eraseDups, List.mem_append, List.mem_map]
  exact or_iff_right List.not_mem_nil

/-- Groups of entries that share no key come to what each of them comes to alone, one behind
the other. -/
theorem ofEntries_flatten {groups : List (List (κ × α))}
    (apart : groups.Pairwise fun s t => ∀ e ∈ s, ∀ f ∈ t, e.1 ≠ f.1) :
    ofEntries groups.flatten = (groups.map ofEntries).flatten := by
  induction groups with
  | nil => rfl
  | cons group rest ih =>
      obtain ⟨first, others⟩ := List.pairwise_cons.mp apart
      have new : ∀ f ∈ rest.flatten, f.1 ∉ (ofEntries group).keys := by
        intro f hf old
        obtain ⟨later, hlater, hf⟩ := List.mem_flatten.mp hf
        obtain ⟨e, he, same⟩ := mem_keys_ofEntries.mp old
        exact first later hlater e he f hf same
      have split : ofEntries (group ++ rest.flatten) = (ofEntries group).putAll rest.flatten :=
        List.foldl_append
      have behind := putAll_append new []
      rw [List.append_nil] at behind
      rw [List.flatten_cons, split, behind, List.map_cons, List.flatten_cons, ← ih others]
      rfl

end DesignMarkup.Ordered
