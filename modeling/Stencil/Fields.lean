/-!
Keyed fields in insertion order. Every key occurs once. Writing a key that is
present keeps its place, and a new key goes to the end.
-/

namespace Stencil

/-- Fields in insertion order with distinct keys. -/
structure Fields (α : Type) where
  entries : List (String × α)
  nodup : (entries.map Prod.fst).Nodup
deriving DecidableEq

namespace Fields

variable {α β : Type}

def empty : Fields α := ⟨[], List.nodup_nil⟩

instance : Inhabited (Fields α) := ⟨empty⟩

def size (f : Fields α) : Nat := f.entries.length

def keys (f : Fields α) : List String := f.entries.map Prod.fst

def get? (f : Fields α) (key : String) : Option α := f.entries.lookup key

/-- The entries with `value` under `key`, in its place or at the end. -/
def insertEntry (key : String) (value : α) : List (String × α) → List (String × α)
  | [] => [(key, value)]
  | (k, v) :: rest =>
    if k = key then (key, value) :: rest else (k, v) :: insertEntry key value rest

/-- Inserting adds its key, and takes away none. -/
theorem mem_keys_insertEntry {key k : String} {value : α} {entries : List (String × α)} :
    k ∈ (insertEntry key value entries).map Prod.fst ↔ k = key ∨ k ∈ entries.map Prod.fst := by
  induction entries with
  | nil => simp [insertEntry]
  | cons entry rest ih =>
    obtain ⟨head, v⟩ := entry
    unfold insertEntry
    split
    · rename_i h
      simp [h]
    · simp only [List.map_cons, List.mem_cons, ih]
      exact or_left_comm

/-- Keys stay distinct, as a key that is there already is not added again. -/
theorem nodup_insertEntry {key : String} {value : α} {entries : List (String × α)}
    (h : (entries.map Prod.fst).Nodup) : ((insertEntry key value entries).map Prod.fst).Nodup := by
  induction entries with
  | nil => simp [insertEntry]
  | cons entry rest ih =>
    obtain ⟨head, v⟩ := entry
    rw [List.map_cons, List.nodup_cons] at h
    unfold insertEntry
    split
    · rename_i hHead
      rw [List.map_cons, List.nodup_cons, ← hHead]
      exact h
    · rename_i hHead
      rw [List.map_cons, List.nodup_cons, mem_keys_insertEntry]
      exact ⟨fun hMem => hMem.elim hHead h.1, ih h.2⟩

def insert (f : Fields α) (key : String) (value : α) : Fields α :=
  ⟨insertEntry key value f.entries, nodup_insertEntry f.nodup⟩

/-- What has been inserted is found. -/
theorem lookup_insertEntry_self (key : String) (value : α) (entries : List (String × α)) :
    (insertEntry key value entries).lookup key = some value := by
  induction entries with
  | nil => simp [insertEntry]
  | cons entry rest ih =>
    obtain ⟨head, v⟩ := entry
    unfold insertEntry
    split
    · simp
    · rename_i h
      simpa [List.lookup_cons, beq_eq_false_iff_ne.mpr (Ne.symm h)] using ih

/-- Under any other key nothing has changed. -/
theorem lookup_insertEntry_of_ne {key other : String} (h : other ≠ key) (value : α)
    (entries : List (String × α)) :
    (insertEntry key value entries).lookup other = entries.lookup other := by
  induction entries with
  | nil => simp [insertEntry, List.lookup_cons, beq_eq_false_iff_ne.mpr h]
  | cons entry rest ih =>
    obtain ⟨head, v⟩ := entry
    unfold insertEntry
    split
    · rename_i hHead
      subst hHead
      simp [List.lookup_cons, beq_eq_false_iff_ne.mpr h]
    · simp [List.lookup_cons, ih]

/-- A field reads as what was last written to it. -/
theorem get?_insert_self (f : Fields α) (key : String) (value : α) :
    (f.insert key value).get? key = some value :=
  lookup_insertEntry_self key value f.entries

/-- Writing a key leaves alone what is under all others. -/
theorem get?_insert_of_ne {f : Fields α} {key other : String} (h : other ≠ key) (value : α) :
    (f.insert key value).get? other = f.get? other :=
  lookup_insertEntry_of_ne h value f.entries

def insertAll (f : Fields α) (entries : List (String × α)) : Fields α :=
  entries.foldl (fun f entry => f.insert entry.1 entry.2) f

/-- The fields that result from writing these entries in order. A repeated key
keeps its first place and its last value. -/
def ofList (entries : List (String × α)) : Fields α := empty.insertAll entries

/-- Change every value and no key. -/
def map (g : α → β) (f : Fields α) : Fields β :=
  ⟨f.entries.map fun entry => (entry.1, g entry.2), by
    have h := f.nodup
    simpa [List.map_map, Function.comp_def] using h⟩

end Fields

end Stencil
