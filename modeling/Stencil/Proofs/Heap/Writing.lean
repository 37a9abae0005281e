import Stencil.Proofs.Heap.Skeleton

/-!
Writing one entry. A container takes the entry or refuses it. If it takes the
entry, the entry is read under every segment with the same key, and whatever is
read under any other key is as it was. If it refuses the entry, nothing changes.
-/

namespace Stencil

namespace Cell

/-- A container refuses an entry if it is an array and the segment is no
position, or the last one. -/
def Refuses : Cell → Segment → Prop
  | array _, segment =>
    segment.position? = none ∨ segment.position? = some (addressLimit - 1)
  | object _, _ => False

instance (cell : Cell) (segment : Segment) : Decidable (cell.Refuses segment) :=
  match cell with
  | array _ => inferInstanceAs
      (Decidable (segment.position? = none ∨ segment.position? = some (addressLimit - 1)))
  | object _ => inferInstanceAs (Decidable False)

/-- What becomes of a container that takes an entry. -/
inductive Entered (segment : Segment) (value : Value) : Cell → Cell → Prop where
  /-- An array holds the value at the position. Where this is behind its end it
  grows, and holds nulls in between. -/
  | array {items items' : Array Value} {position : Nat}
      (hPosition : segment.position? = some position)
      (size : items'.size = max items.size (position + 1))
      (self : items'[position]? = some value)
      (others : ∀ i, i < items.size → i ≠ position → items'[i]? = items[i]?)
      (padding : ∀ i, items.size ≤ i → i < position → items'[i]? = some .null) :
      Entered segment value (.array items) (.array items')
  /-- An object holds the value under the key, which keeps its place or comes
  last. -/
  | object {fields fields' : Fields Value}
      (keys : fields'.keys =
        if segment.toKey ∈ fields.keys then fields.keys else fields.keys ++ [segment.toKey])
      (self : fields'.get? segment.toKey = some value)
      (others : ∀ key, key ≠ segment.toKey → fields'.get? key = fields.get? key) :
      Entered segment value (.object fields) (.object fields')

variable {cell written : Cell} {segment other : Segment} {value : Value}

/-- An array that takes a position is padded up to it. -/
theorem entered_placeAt (items : Array Value) {position : Nat}
    (hPosition : segment.position? = some position) (value : Value) :
    Entered segment value (.array items) (.array (placeAt items position value)) := by
  refine .array hPosition (size_placeAt items position value) ?_ ?_ ?_
  · rw [getElem?_placeAt, if_pos rfl]
  · intro i hLt hNe
    rw [getElem?_placeAt, if_neg hNe, if_pos hLt]
  · intro i hLe hLt
    rw [getElem?_placeAt, if_neg (Nat.ne_of_lt hLt), if_neg (Nat.not_lt.mpr hLe), if_pos hLt]

theorem entered_insert (fields : Fields Value) (segment : Segment) (value : Value) :
    Entered segment value (.object fields) (.object (fields.insert segment.toKey value)) :=
  .object (fields.keys_insert segment.toKey value) (fields.get?_insert_self segment.toKey value)
    fun _ hNe => Fields.get?_insert_of_ne hNe value

theorem set?_of_refuses (h : cell.Refuses segment) (value : Value) :
    cell.set? segment value = none := by
  cases cell with
  | object fields => cases h
  | array items =>
      rcases h with hNone | hLast
      · simp only [set?, hNone]
      · simp only [set?, hLast]
        exact if_neg (by decide)

/-- What is not refused is entered. -/
theorem exists_entered (h : ¬ cell.Refuses segment) (value : Value) :
    ∃ written, cell.set? segment value = some written ∧ Entered segment value cell written := by
  cases cell with
  | object fields => exact ⟨_, rfl, entered_insert fields segment value⟩
  | array items =>
      obtain ⟨hSome, hNotLast⟩ := not_or.mp h
      obtain ⟨position, hPosition⟩ := Option.ne_none_iff_exists'.mp hSome
      obtain ⟨hLt, -⟩ := Segment.position?_eq_some_iff.mp hPosition
      have hFits : position + 1 < addressLimit := by
        rw [hPosition, Option.some.injEq] at hNotLast
        omega
      refine ⟨_, ?_, entered_placeAt items hPosition value⟩
      simp only [set?, hPosition, if_pos hFits]

/-- What is read under a segment depends on its key alone. -/
theorem get?_congr (cell : Cell) (h : segment.toKey = other.toKey) :
    cell.get? segment = cell.get? other := by
  cases cell with
  | object fields => exact congrArg fields.get? h
  | array items =>
      have hPosition : segment.position? = other.position? := by
        ext position
        rw [Segment.position?_eq_some_iff, Segment.position?_eq_some_iff, h]
      rw [get?, get?, hPosition]

theorem Entered.get?_self (h : Entered segment value cell written) :
    written.get? segment = some value := by
  cases h with
  | array hPosition _ self => simp only [get?, hPosition, Option.bind_some, self]
  | object _ self => exact self

/-- Under any other key the same is read as before. The nulls that an array
grows by are what was read there already. -/
theorem Entered.get?_of_ne (h : Entered segment value cell written)
    (hNe : other.toKey ≠ segment.toKey) :
    (written.get? other).getD .null = (cell.get? other).getD .null := by
  cases h with
  | object _ _ others => exact congrArg (Option.getD · .null) (others _ hNe)
  | @array items items' position hPosition size _ others padding =>
      cases hOther : other.position? with
      | none => simp only [get?, hOther, Option.bind_none]
      | some i =>
          have hApart : i ≠ position := by
            rintro rfl
            exact hNe ((Segment.position?_eq_some_iff.mp hOther).2.trans
              (Segment.position?_eq_some_iff.mp hPosition).2.symm)
          simp only [get?, hOther, Option.bind_some]
          rcases Nat.lt_or_ge i items.size with hOld | hNew
          · rw [others i hOld hApart]
          · rw [Array.getElem?_eq_none hNew]
            rcases Nat.lt_or_ge i position with hGap | hBehind
            · rw [padding i hNew hGap]
              rfl
            · rw [Array.getElem?_eq_none (by omega)]

end Cell

namespace Heap

variable {heap : Heap} {handle : Handle} {cell : Cell} {segment : Segment}

/-- A refused write changes nothing. -/
theorem set_of_refuses (hCell : heap.cell? handle = some cell) (h : cell.Refuses segment)
    (value : Value) : heap.set (.container handle) segment value = heap := by
  simp [set, set?, Value.handle?, hCell, Cell.set?_of_refuses h]

/-- Any other write changes the container that it is made to. -/
theorem exists_set_eq_write (hCell : heap.cell? handle = some cell) (h : ¬ cell.Refuses segment)
    (value : Value) : ∃ written, Cell.Entered segment value cell written ∧
      heap.set (.container handle) segment value = heap.write handle written := by
  obtain ⟨written, hSet, hEntered⟩ := Cell.exists_entered h value
  exact ⟨written, hEntered, set_of_cell? hCell hSet⟩

/-- What becomes of the container that a write is made to. -/
theorem cell?_set_self (hCell : heap.cell? handle = some cell) (segment : Segment) (value : Value) :
    (cell.Refuses segment →
      (heap.set (.container handle) segment value).cell? handle = some cell) ∧
    (¬ cell.Refuses segment → ∃ written, Cell.Entered segment value cell written ∧
      (heap.set (.container handle) segment value).cell? handle = some written) := by
  constructor
  · intro hRefuses
    rw [set_of_refuses hCell hRefuses, hCell]
  · intro hTakes
    obtain ⟨written, hEntered, hSet⟩ := exists_set_eq_write hCell hTakes value
    exact ⟨written, hEntered, by rw [hSet, cell?_write_self (lt_size_of_cell? hCell)]⟩

theorem size_set (heap : Heap) (target : Value) (segment : Segment) (value : Value) :
    (heap.set target segment value).size = heap.size := by
  rw [set]
  cases hSet : heap.set? target segment value with
  | none => rfl
  | some after =>
      simp only [set?, Option.bind_eq_bind, Option.bind_eq_some_iff, Option.pure_def,
        Option.some.injEq] at hSet
      obtain ⟨_, _, _, _, _, _, rfl⟩ := hSet
      exact heap.size_write _ _

/-- A write changes no other container. -/
theorem cell?_set_of_ne {other : Handle} (hNe : other ≠ handle) (segment : Segment)
    (value : Value) :
    (heap.set (.container handle) segment value).cell? other = heap.cell? other := by
  cases hCell : heap.cell? handle with
  | none => simp [set, set?, Value.handle?, hCell]
  | some cell =>
      by_cases hRefuses : cell.Refuses segment
      · rw [set_of_refuses hCell hRefuses]
      · obtain ⟨written, -, hSet⟩ := exists_set_eq_write hCell hRefuses value
        rw [hSet, cell?_write_of_ne hNe.symm]

/-- Reading does not distinguish an index from the key with the same digits. -/
theorem get_congr (heap : Heap) (value : Value) {segment other : Segment}
    (h : segment.toKey = other.toKey) : heap.get value segment = heap.get value other := by
  simp only [get, Cell.get?_congr _ h]

/-- What has been written is read, unless it was refused. -/
theorem get_set_self (hCell : heap.cell? handle = some cell) (h : ¬ cell.Refuses segment)
    (value : Value) :
    (heap.set (.container handle) segment value).get (.container handle) segment = value := by
  obtain ⟨written, hEntered, hSet⟩ := exists_set_eq_write hCell h value
  rw [hSet, get_of_cell? (cell?_write_self (lt_size_of_cell? hCell)), hEntered.get?_self,
    Option.getD_some]

/-- In any other container, and under any other key, the same is read as
before. -/
theorem get_set_of_ne {other : Handle} {key : Segment} (segment : Segment) (value : Value)
    (hNe : other = handle → key.toKey ≠ segment.toKey) :
    (heap.set (.container handle) segment value).get (.container other) key =
      heap.get (.container other) key := by
  by_cases hSame : other = handle
  · subst hSame
    cases hCell : heap.cell? other with
    | none => simp [set, set?, Value.handle?, hCell]
    | some cell =>
        by_cases hRefuses : cell.Refuses segment
        · rw [set_of_refuses hCell hRefuses]
        · obtain ⟨written, hEntered, hSet⟩ := exists_set_eq_write hCell hRefuses value
          rw [hSet, get_of_cell? (cell?_write_self (lt_size_of_cell? hCell)), get_of_cell? hCell]
          exact hEntered.get?_of_ne (hNe rfl)
  · simp only [get, content?, cell?_set_of_ne hSame]

end Heap

end Stencil
