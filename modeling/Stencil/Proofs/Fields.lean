import Mathlib.Data.List.Induction
import Stencil.Fields

/-!
Fields as maps. A lookup finds exactly the entries, a key that is present keeps
its place when it is written, and fields that were written one after the other
have the keys in order of their first writing.
-/

namespace Stencil.Fields

variable {α β : Type}

/-- With distinct keys, looking up a key finds the one entry that has it. -/
theorem lookup_eq_some_iff {entries : List (String × α)} (hNodup : (entries.map Prod.fst).Nodup)
    {key : String} {value : α} : entries.lookup key = some value ↔ (key, value) ∈ entries := by
  induction entries with
  | nil => simp
  | cons entry rest ih =>
      obtain ⟨head, v⟩ := entry
      rw [List.map_cons, List.nodup_cons] at hNodup
      by_cases hHead : key = head
      · subst hHead
        have hAbsent : (key, value) ∉ rest := fun h =>
          hNodup.1 (List.mem_map.mpr ⟨(key, value), h, rfl⟩)
        simp [hAbsent, eq_comm]
      · simp [List.lookup_cons, beq_eq_false_iff_ne.mpr hHead, ih hNodup.2, hHead]

theorem get?_eq_some_iff {f : Fields α} {key : String} {value : α} :
    f.get? key = some value ↔ (key, value) ∈ f.entries :=
  lookup_eq_some_iff f.nodup

/-- An insertion adds one entry and takes away at most one. -/
theorem mem_entries_insert {f : Fields α} {key : String} {value : α} {entry : String × α}
    (h : entry ∈ (f.insert key value).entries) : entry = (key, value) ∨ entry ∈ f.entries := by
  obtain ⟨k, v⟩ := entry
  rw [← get?_eq_some_iff] at h
  by_cases hKey : k = key
  · subst hKey
    rw [get?_insert_self] at h
    exact .inl (by rw [Option.some.inj h])
  · rw [get?_insert_of_ne hKey] at h
    exact .inr (get?_eq_some_iff.mp h)

/-- Change every value in view of its key. -/
def mapWithKey (g : String → α → β) (f : Fields α) : Fields β :=
  ⟨f.entries.map fun entry => (entry.1, g entry.1 entry.2), by
    simpa [List.map_map, Function.comp_def] using f.nodup⟩

/-- Changing all entries by their keys changes what is found under a key. -/
theorem lookup_mapWithKey (g : String → α → β) (entries : List (String × α)) (key : String) :
    (entries.map fun entry => (entry.1, g entry.1 entry.2)).lookup key =
      (entries.lookup key).map (g key) := by
  induction entries with
  | nil => rfl
  | cons entry rest ih =>
      obtain ⟨head, v⟩ := entry
      by_cases hHead : key = head
      · subst hHead
        simp
      · simp [List.lookup_cons, beq_eq_false_iff_ne.mpr hHead, ih]

theorem get?_mapWithKey (g : String → α → β) (f : Fields α) (key : String) :
    (f.mapWithKey g).get? key = (f.get? key).map (g key) :=
  lookup_mapWithKey g f.entries key

/-- Writing a key that is there, after such a change, overrides the change there. -/
theorem insertEntry_mapWithKey (g : String → α → β) {entries : List (String × α)} {key : String}
    (value : β) (hNodup : (entries.map Prod.fst).Nodup) (hKey : key ∈ entries.map Prod.fst) :
    insertEntry key value (entries.map fun entry => (entry.1, g entry.1 entry.2)) =
      entries.map fun entry => (entry.1, if entry.1 = key then value else g entry.1 entry.2) := by
  induction entries with
  | nil => cases hKey
  | cons entry rest ih =>
      obtain ⟨head, v⟩ := entry
      rw [List.map_cons, List.nodup_cons] at hNodup
      simp only [List.map_cons, insertEntry]
      by_cases hHead : head = key
      · subst hHead
        rw [if_pos rfl, if_pos rfl, List.cons.injEq]
        refine ⟨rfl, List.map_congr_left fun other hOther => ?_⟩
        have hNe : other.1 ≠ head := fun h =>
          hNodup.1 (h ▸ List.mem_map.mpr ⟨other, hOther, rfl⟩)
        rw [if_neg hNe]
      · have hRest : key ∈ rest.map Prod.fst :=
          (List.mem_cons.mp hKey).resolve_left (Ne.symm hHead)
        rw [if_neg hHead, if_neg hHead, ih hNodup.2 hRest]

/-- Writing a key that is present changes its value and nothing else. -/
theorem insert_mapWithKey (g : String → α → β) {f : Fields α} {key : String} (value : β)
    (hKey : key ∈ f.keys) :
    (f.mapWithKey g).insert key value =
      f.mapWithKey fun k v => if k = key then value else g k v := by
  rw [insert, mapWithKey, mapWithKey, Fields.mk.injEq]
  exact insertEntry_mapWithKey g value f.nodup hKey

/-- A new key comes last, and one that is there keeps its place. -/
theorem keys_insertEntry (key : String) (value : α) (entries : List (String × α)) :
    (insertEntry key value entries).map Prod.fst =
      if key ∈ entries.map Prod.fst then entries.map Prod.fst
      else entries.map Prod.fst ++ [key] := by
  induction entries with
  | nil => rfl
  | cons entry rest ih =>
      obtain ⟨head, v⟩ := entry
      unfold insertEntry
      by_cases hHead : head = key
      · simp [hHead]
      · simp only [if_neg hHead, List.map_cons, ih, List.mem_cons, Ne.symm hHead, false_or]
        split <;> rfl

/-- Writing a key keeps the keys, or appends the key where it is new. -/
theorem keys_insert (f : Fields α) (key : String) (value : α) :
    (f.insert key value).keys = if key ∈ f.keys then f.keys else f.keys ++ [key] :=
  keys_insertEntry key value f.entries

/-- A list of entries is inserted from left to right. -/
theorem ofList_concat (entries : List (String × α)) (key : String) (value : α) :
    ofList (entries ++ [(key, value)]) = (ofList entries).insert key value := by
  rw [ofList, insertAll, List.foldl_append]
  rfl

/-- An entry with a new key is put at the end. -/
theorem insertEntry_of_not_mem {key : String} (value : α) {entries : List (String × α)}
    (hKey : key ∉ entries.map Prod.fst) :
    insertEntry key value entries = entries ++ [(key, value)] := by
  induction entries with
  | nil => rfl
  | cons entry rest ih =>
      obtain ⟨head, v⟩ := entry
      rw [List.map_cons, List.mem_cons, not_or] at hKey
      rw [insertEntry, if_neg (Ne.symm hKey.1), ih hKey.2, List.cons_append]

/-- Entries with distinct keys stay as they are. -/
theorem entries_ofList {entries : List (String × α)} (hNodup : (entries.map Prod.fst).Nodup) :
    (ofList entries).entries = entries := by
  induction entries using List.reverseRecOn with
  | nil => rfl
  | append_singleton entries last ih =>
      obtain ⟨key, value⟩ := last
      rw [List.map_append, List.nodup_append] at hNodup
      have hKey : key ∉ entries.map Prod.fst := fun hMem =>
        hNodup.2.2 key hMem key (List.mem_singleton_self key) rfl
      rw [ofList_concat]
      change insertEntry key value (ofList entries).entries = entries ++ [(key, value)]
      rw [ih hNodup.1, insertEntry_of_not_mem value hKey]

/-- Inserting the entries of a mapping in order gives the mapping again. -/
theorem ofList_entries (f : Fields α) : ofList f.entries = f := by
  obtain ⟨entries, hNodup⟩ := f
  have hEntries := entries_ofList hNodup
  cases hFields : ofList entries with
  | mk entries' hNodup' =>
      rw [hFields] at hEntries
      exact Fields.mk.injEq .. ▸ hEntries

/-- The keys of fields written one after the other are the distinct ones in the
order of their first writing. -/
theorem keys_ofList (entries : List (String × α)) :
    (ofList entries).keys = (entries.map Prod.fst).eraseDups := by
  induction entries using List.reverseRecOn with
  | nil => rfl
  | append_singleton entries last ih =>
      obtain ⟨key, value⟩ := last
      rw [ofList_concat, keys_insert, ih, List.map_append, List.eraseDups_append]
      by_cases hKey : key ∈ entries.map Prod.fst
      · rw [if_pos (List.mem_eraseDups.mpr hKey)]
        simp only [List.map_cons, List.map_nil, List.removeAll, List.filter_cons, List.filter_nil,
          List.elem_eq_mem, hKey, decide_true, Bool.not_true, Bool.false_eq_true, if_false,
          List.eraseDups_nil, List.append_nil]
      · rw [if_neg (fun h => hKey (List.mem_eraseDups.mp h))]
        simp only [List.map_cons, List.map_nil, List.removeAll, List.filter_cons, List.filter_nil,
          List.elem_eq_mem, hKey, decide_false, Bool.not_false, if_true, List.eraseDups_cons,
          List.eraseDups_nil]

/-- Fields written one after the other hold the last value of every key. -/
theorem get?_ofList (entries : List (String × α)) (key : String) :
    (ofList entries).get? key = entries.reverse.lookup key := by
  induction entries using List.reverseRecOn with
  | nil => rfl
  | append_singleton entries last ih =>
      obtain ⟨head, value⟩ := last
      rw [ofList_concat, List.reverse_append, List.reverse_singleton, List.singleton_append]
      by_cases hHead : key = head
      · subst hHead
        rw [get?_insert_self, List.lookup_cons_self]
      · rw [get?_insert_of_ne hHead, ih, List.lookup_cons, beq_eq_false_iff_ne.mpr hHead]

theorem insertEntry_map (f : α → β) (key : String) (value : α) (entries : List (String × α)) :
    insertEntry key (f value) (entries.map fun entry => (entry.1, f entry.2)) =
      (insertEntry key value entries).map fun entry => (entry.1, f entry.2) := by
  induction entries with
  | nil => rfl
  | cons entry rest ih =>
      simp only [List.map_cons, insertEntry]
      split
      · rfl
      · rw [ih, List.map_cons]

/-- Insertion commutes with a change of all values. -/
theorem insert_map (f : α → β) (fields : Fields α) (key : String) (value : α) :
    (fields.map f).insert key (f value) = (fields.insert key value).map f := by
  simp only [insert, map, insertEntry_map]

end Stencil.Fields
