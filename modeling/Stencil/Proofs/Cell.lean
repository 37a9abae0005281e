import Stencil.Proofs.Fields
import Stencil.Proofs.Segment
import Stencil.Value

/-!
Cells entry by entry. Listing the entries and looking them up agree, as long as
an array is short enough for its positions to be addressed. Every entry has one
segment under which it is listed, whatever segment it is looked up with.
-/

namespace Stencil

/-- An array that is written beyond its end grows up to the position, and no
further. -/
theorem size_placeAt (items : Array Value) (position : Nat) (value : Value) :
    (placeAt items position value).size = max items.size (position + 1) := by
  rw [placeAt, Array.size_setIfInBounds, Array.size_append, Array.size_replicate]
  omega

/-- Writing commutes with a change of all values that keeps null, which fills the
gaps. -/
theorem placeAt_map (f : Value → Value) (hNull : f .null = .null) (items : Array Value)
    (position : Nat) (value : Value) :
    placeAt (items.map f) position (f value) = (placeAt items position value).map f := by
  simp only [placeAt, Array.map_setIfInBounds, Array.map_append, Array.map_replicate, hNull,
    Array.size_map]

/-- An array that has been written at a position holds the written value there,
its own items elsewhere, and null in between. -/
theorem getElem?_placeAt (items : Array Value) (position i : Nat) (value : Value) :
    (placeAt items position value)[i]? =
      if i = position then some value
      else if i < items.size then items[i]?
      else if i < position then some .null else none := by
  rw [placeAt, Array.getElem?_setIfInBounds, Array.size_append, Array.size_replicate]
  by_cases hSame : position = i
  · rw [if_pos hSame, if_pos (by omega), if_pos hSame.symm]
  · rw [if_neg hSame, if_neg (Ne.symm hSame)]
    by_cases hOld : i < items.size
    · rw [if_pos hOld, Array.getElem?_append_left hOld]
    · rw [if_neg hOld, Array.getElem?_append_right (Nat.not_lt.mp hOld), Array.getElem?_replicate]
      congr 1
      apply propext
      omega

/-- What an array holds after a write was there, has been written, or fills a gap. -/
theorem mem_placeAt {items : Array Value} {position : Nat} {value item : Value}
    (h : item ∈ placeAt items position value) : item ∈ items ∨ item = .null ∨ item = value := by
  rw [placeAt] at h
  rcases Array.mem_or_eq_of_mem_setIfInBounds h with hOld | rfl
  · rcases Array.mem_append.mp hOld with hOld | hPadding
    · exact .inl hOld
    · exact .inr (.inl (Array.mem_replicate.mp hPadding).2)
  · exact .inr (.inr rfl)

namespace Cell

/-- Whether every position, and the length, can be addressed. -/
def Addressable : Cell → Prop
  | array items => items.size < addressLimit
  | object _ => True

instance : DecidablePred Addressable
  | array items => inferInstanceAs (Decidable (items.size < addressLimit))
  | object _ => inferInstanceAs (Decidable True)

/-- The segment under which an entry is listed. -/
def canonical : Cell → Segment → Segment
  | array _, segment => (segment.position?.map Segment.index).getD segment
  | object _, segment => .key segment.toKey

/-- Change every value in view of the segment under which it is listed. -/
def mapEntries (f : Segment → Value → Value) : Cell → Cell
  | array items => array (items.mapIdx fun position item => f (.index position) item)
  | object fields => object (fields.mapWithKey fun key item => f (.key key) item)

/-- Changing values is changing entries without looking at their segments. -/
theorem mapValues_eq_mapEntries (f : Value → Value) (cell : Cell) :
    cell.mapValues f = cell.mapEntries fun _ => f := by
  cases cell with
  | array items =>
      rw [mapValues, mapEntries, array.injEq]
      ext1
      · simp
      · simp
  | object fields => rfl

theorem kind_mapEntries (f : Segment → Value → Value) (cell : Cell) :
    (cell.mapEntries f).kind = cell.kind := by
  cases cell <;> rfl

/-- Whether an array is too long does not depend on what it holds. -/
theorem addressable_mapEntries {f : Segment → Value → Value} {cell : Cell} :
    (cell.mapEntries f).Addressable ↔ cell.Addressable := by
  cases cell with
  | array items => simp [mapEntries, Addressable]
  | object fields => rfl

/-- The values of a container are those of its entries, in the same order. -/
theorem values_eq_map_entries (cell : Cell) : cell.values = cell.entries.map Prod.snd := by
  cases cell with
  | array items => simp [values, entries, List.map_map, Function.comp_def, List.zipIdx_map_fst]
  | object fields => simp [values, entries, List.map_map, Function.comp_def]

theorem mem_values_of_mem_entries {cell : Cell} {entry : Segment × Value}
    (h : entry ∈ cell.entries) : entry.2 ∈ cell.values := by
  rw [values_eq_map_entries]
  exact List.mem_map_of_mem h

/-- Entries are changed in place, under the segments that they had. -/
theorem entries_mapEntries (f : Segment → Value → Value) (cell : Cell) :
    (cell.mapEntries f).entries = cell.entries.map fun entry => (entry.1, f entry.1 entry.2) := by
  cases cell with
  | array items =>
      apply List.ext_getElem?
      intro i
      simp [mapEntries, entries, List.getElem?_zipIdx, Function.comp_def]
  | object fields =>
      simp [mapEntries, entries, Fields.mapWithKey, List.map_map, Function.comp_def]

/-- The segments of an array are its positions in ascending order. -/
theorem segments_array (items : Array Value) :
    (array items).entries.map Prod.fst = (List.range items.size).map Segment.index := by
  rw [entries, List.map_map]
  change items.toList.zipIdx.map (Segment.index ∘ Prod.snd) = _
  rw [← List.map_map, List.zipIdx_map_snd, List.range_eq_range', Array.length_toList]

/-- The segments of an object are its keys in the order of insertion. -/
theorem segments_object (fields : Fields Value) :
    (object fields).entries.map Prod.fst = fields.keys.map Segment.key := by
  simp [entries, Fields.keys, List.map_map, Function.comp_def]

/-- No two entries are listed under one segment. -/
theorem nodup_segments (cell : Cell) : (cell.entries.map Prod.fst).Nodup := by
  cases cell with
  | array items =>
      rw [segments_array]
      exact List.Pairwise.map _ (fun _ _ hNe hSame => hNe (Segment.index.inj hSame)) List.nodup_range
  | object fields =>
      rw [segments_object]
      exact List.Pairwise.map _ (fun _ _ hNe hSame => hNe (Segment.key.inj hSame)) fields.nodup

/-- Only what a change does to the entries of the container matters. -/
theorem mapEntries_congr {f g : Segment → Value → Value} {cell : Cell}
    (h : ∀ entry ∈ cell.entries, f entry.1 entry.2 = g entry.1 entry.2) :
    cell.mapEntries f = cell.mapEntries g := by
  cases cell with
  | array items =>
      rw [mapEntries, mapEntries, array.injEq, Array.mapIdx_eq_mapIdx_iff]
      intro i hi
      apply h (.index i, items[i])
      simp [entries, List.mk_mem_zipIdx_iff_getElem?, hi]
  | object fields =>
      rw [mapEntries, mapEntries, object.injEq, Fields.mapWithKey, Fields.mapWithKey,
        Fields.mk.injEq]
      refine List.map_congr_left fun entry hEntry => ?_
      rw [Prod.mk.injEq]
      exact ⟨rfl, h (.key entry.1, entry.2) (List.mem_map.mpr ⟨entry, hEntry, rfl⟩)⟩

theorem mapValues_congr {f g : Value → Value} {cell : Cell}
    (h : ∀ value ∈ cell.values, f value = g value) : cell.mapValues f = cell.mapValues g := by
  rw [mapValues_eq_mapEntries, mapValues_eq_mapEntries]
  exact mapEntries_congr fun entry hEntry => h entry.2 (mem_values_of_mem_entries hEntry)

theorem mapValues_id (cell : Cell) : cell.mapValues id = cell := by
  cases cell <;> simp [mapValues, Fields.map]

theorem mapValues_mapValues (f g : Value → Value) (cell : Cell) :
    (cell.mapValues f).mapValues g = cell.mapValues fun value => g (f value) := by
  cases cell with
  | array items => simp [mapValues, Function.comp_def]
  | object fields => simp [mapValues, Fields.map, Function.comp_def]

theorem entries_mapValues (f : Value → Value) (cell : Cell) :
    (cell.mapValues f).entries = cell.entries.map fun entry => (entry.1, f entry.2) := by
  rw [mapValues_eq_mapEntries, entries_mapEntries]

theorem values_mapValues (f : Value → Value) (cell : Cell) :
    (cell.mapValues f).values = cell.values.map f := by
  rw [values_eq_map_entries, entries_mapValues, values_eq_map_entries, List.map_map, List.map_map]
  rfl

/-- What is found is listed under its canonical segment. -/
theorem mem_entries_of_get? {cell : Cell} {segment : Segment} {value : Value}
    (h : cell.get? segment = some value) : (cell.canonical segment, value) ∈ cell.entries := by
  cases cell with
  | array items =>
      obtain ⟨position, hPosition, hItem⟩ := Option.bind_eq_some_iff.mp h
      simp [canonical, entries, hPosition, List.mk_mem_zipIdx_iff_getElem?, hItem]
  | object fields =>
      refine List.mem_map.mpr ⟨(segment.toKey, value), ?_, rfl⟩
      exact Fields.get?_eq_some_iff.mp h

/-- A listed entry is found under its segment, which is the canonical one. -/
theorem get?_of_mem_entries {cell : Cell} (hAddressable : cell.Addressable) {segment : Segment}
    {value : Value} (h : (segment, value) ∈ cell.entries) :
    cell.get? segment = some value ∧ cell.canonical segment = segment := by
  cases cell with
  | array items =>
      obtain ⟨⟨item, position⟩, hMem, hEntry⟩ := List.mem_map.mp h
      obtain ⟨rfl, rfl⟩ := Prod.mk.injEq .. ▸ hEntry
      have hItem : items[position]? = some item := by
        simpa using List.mk_mem_zipIdx_iff_getElem?.mp hMem
      have hLt : position < items.size := (Array.getElem?_eq_some_iff.mp hItem).1
      have hPosition : (Segment.index position).position? = some position :=
        if_pos (Nat.lt_trans hLt hAddressable)
      simp [get?, canonical, hPosition, hItem]
  | object fields =>
      obtain ⟨⟨key, item⟩, hMem, hEntry⟩ := List.mem_map.mp h
      obtain ⟨rfl, rfl⟩ := Prod.mk.injEq .. ▸ hEntry
      exact ⟨Fields.get?_eq_some_iff.mpr hMem, rfl⟩

/-- A changed container is read by reading the container and changing what is found,
under the segment that it is listed with. -/
theorem get?_mapEntries (f : Segment → Value → Value) (cell : Cell) (segment : Segment) :
    (cell.mapEntries f).get? segment = (cell.get? segment).map (f (cell.canonical segment)) := by
  cases cell with
  | array items =>
      cases hPosition : segment.position? with
      | none => simp [mapEntries, get?, hPosition]
      | some position => simp [mapEntries, get?, canonical, hPosition]
  | object fields => exact Fields.get?_mapWithKey _ fields segment.toKey

/-- Writing a listed entry changes its value and nothing else. -/
theorem set?_mapEntries (f : Segment → Value → Value) {cell : Cell}
    (hAddressable : cell.Addressable) {segment : Segment} {old : Value} (value : Value)
    (hEntry : (segment, old) ∈ cell.entries) :
    (cell.mapEntries f).set? segment value =
      some (cell.mapEntries fun s v => if s = segment then value else f s v) := by
  obtain ⟨hGet, hCanonical⟩ := get?_of_mem_entries hAddressable hEntry
  cases cell with
  | array items =>
      obtain ⟨position, hPosition, hItem⟩ := Option.bind_eq_some_iff.mp hGet
      have hSegment : segment = .index position := by
        simpa [canonical, hPosition] using hCanonical.symm
      have hLt : position < items.size := (Array.getElem?_eq_some_iff.mp hItem).1
      have hSize : items.size < addressLimit := hAddressable
      have hFits : position + 1 < addressLimit := by omega
      simp only [mapEntries, set?, hPosition, if_pos hFits, Option.some.injEq, array.injEq]
      have hNoPadding : position + 1 - (items.mapIdx fun i v => f (.index i) v).size = 0 := by
        simp only [Array.size_mapIdx]
        omega
      rw [placeAt, hNoPadding, Array.replicate_zero, Array.append_empty]
      apply Array.ext_getElem?
      intro i
      rw [Array.getElem?_setIfInBounds, Array.getElem?_mapIdx, Array.getElem?_mapIdx,
        Array.size_mapIdx, hSegment]
      by_cases hSame : position = i
      · subst hSame
        simp [hLt]
      · simp [hSame, Ne.symm hSame]
  | object fields =>
      obtain ⟨text, rfl⟩ : ∃ text, segment = .key text := ⟨_, hCanonical.symm⟩
      have hKey : text ∈ fields.keys :=
        List.mem_map.mpr ⟨_, Fields.get?_eq_some_iff.mp hGet, rfl⟩
      simp only [mapEntries, set?, Segment.toKey, Fields.insert_mapWithKey _ value hKey,
        Segment.key.injEq]

/-- Values can be changed before an entry is written or after it. -/
theorem set?_mapValues (f : Value → Value) (hNull : f .null = .null) (cell : Cell)
    (segment : Segment) (value : Value) :
    (cell.mapValues f).set? segment (f value) = (cell.set? segment value).map (mapValues f) := by
  cases cell with
  | array items =>
      simp only [mapValues, set?]
      split
      · split
        · rw [placeAt_map f hNull]
          rfl
        · rfl
      · rfl
  | object fields => exact congrArg (fun fields => some (object fields)) (fields.insert_map f _ _)

/-- A container is determined by its kind and its entries. -/
theorem eq_of_entries {cell cell' : Cell} (hKind : cell.kind = cell'.kind)
    (hEntries : cell.entries = cell'.entries) : cell = cell' := by
  cases cell with
  | array items =>
      cases cell' with
      | object => cases hKind
      | array items' =>
          have hValues : (array items).values = (array items').values := by
            rw [values_eq_map_entries, hEntries, values_eq_map_entries]
          exact congrArg array (Array.toList_inj.mp hValues)
  | object fields =>
      cases cell' with
      | array => cases hKind
      | object fields' =>
          have hInjective : ∀ entry entry' : String × Value,
              (Segment.key entry.1, entry.2) = (Segment.key entry'.1, entry'.2) → entry = entry' := by
            rintro ⟨key, value⟩ ⟨key', value'⟩ hSame
            simpa using hSame
          obtain ⟨entries, _⟩ := fields
          obtain ⟨entries', _⟩ := fields'
          obtain rfl : entries = entries' := (List.map_inj_right hInjective).mp hEntries
          rfl

/-- A write brings in the written value, and nulls where an array grows. -/
theorem mem_values_of_set? {cell written : Cell} {segment : Segment} {value : Value}
    (h : cell.set? segment value = some written) {item : Value} (hItem : item ∈ written.values) :
    item ∈ cell.values ∨ item = .null ∨ item = value := by
  cases cell with
  | array items =>
      simp only [set?] at h
      split at h
      · rw [Option.ite_none_right_eq_some, Option.some.injEq] at h
        rw [← h.2, values, Array.mem_toList_iff] at hItem
        exact (mem_placeAt hItem).imp_left Array.mem_toList_iff.mpr
      · cases h
  | object fields =>
      cases h
      obtain ⟨entry, hEntry, rfl⟩ := List.mem_map.mp hItem
      rcases Fields.mem_entries_insert hEntry with rfl | hOld
      · exact .inr (.inr rfl)
      · exact .inl (List.mem_map.mpr ⟨entry, hOld, rfl⟩)

/-- A write keeps arrays short enough for all positions to be below the limit. -/
theorem addressable_of_set? {cell written : Cell} {segment : Segment} {value : Value}
    (h : cell.set? segment value = some written) (hAddressable : cell.Addressable) :
    written.Addressable := by
  cases cell with
  | array items =>
      simp only [set?] at h
      split at h
      · rw [Option.ite_none_right_eq_some, Option.some.injEq] at h
        rw [← h.2, Addressable, size_placeAt]
        exact Nat.max_lt.mpr ⟨hAddressable, h.1⟩
      · cases h
  | object fields =>
      cases h
      trivial

end Cell

end Stencil
