import Stencil.Proofs.Heap.PathWriting

/-!
A container as one map that is addressed by the texts of keys. A position and the
key that is its decimal text address the same entry of an array, the same entry of
an object, and the same entry of a container that is built along a path. So a write
is read under every segment of the same key and under no other, and a path can be
exchanged for the one that is read from its display.
-/

namespace Stencil

namespace Heap

variable {heap : Heap} {target value : Value} {segment other : Segment}

/-- A scalar refuses every entry. An array refuses one if the segment is no
position, or the last one. -/
def Refuses (heap : Heap) (target : Value) (segment : Segment) : Prop :=
  target.isContainer = false ∨ ∃ items, heap.content? target = some (.array items) ∧
    (segment.position? = none ∨ segment.position? = some (addressLimit - 1))

/-- Containers refuse exactly what their cells refuse. -/
theorem refuses_container_iff {handle : Handle} {cell : Cell}
    (hCell : heap.cell? handle = some cell) :
    heap.Refuses (.container handle) segment ↔ cell.Refuses segment := by
  have hContent : heap.content? (.container handle) = some cell := hCell
  cases cell <;> simp [Refuses, Cell.Refuses, Value.isContainer, hContent]

/-- One write, as a write to a map from keys to values. -/
structure MapWrite (heap : Heap) (target : Value) (segment : Segment) (value : Value) : Prop where
  /-- The answer says whether the entry was refused. -/
  refused_iff : heap.set? target segment value = none ↔ heap.Refuses target segment
  /-- A refused write changes nothing at all. -/
  unchanged : heap.Refuses target segment → heap.set target segment value = heap
  taken : ¬ heap.Refuses target segment →
    heap.set? target segment value = some (heap.set target segment value)
  /-- Afterwards the value is read under every segment of this key. Under any other
  segment is read what was read before, also where an array has been padded. -/
  get_eq : ¬ heap.Refuses target segment → ∀ other : Segment,
    (heap.set target segment value).get target other =
      if other.toKey = segment.toKey then value else heap.get target other
  /-- No other container has changed, and none has been added. -/
  frame : ∀ handle, target ≠ .container handle →
    (heap.set target segment value).cell? handle = heap.cell? handle
  size_eq : (heap.set target segment value).size = heap.size
  /-- An array reaches to the position, unless it was longer before. -/
  array : ¬ heap.Refuses target segment → ∀ items, heap.content? target = some (.array items) →
    ∃ position items', segment.position? = some position ∧
      (heap.set target segment value).content? target = some (.array items') ∧
      items'.size = max items.size (position + 1)
  /-- An object keeps the order of its keys. A new key comes last. -/
  object : ∀ fields, heap.content? target = some (.object fields) →
    ∃ fields', (heap.set target segment value).content? target = some (.object fields') ∧
      fields'.keys =
        if segment.toKey ∈ fields.keys then fields.keys else fields.keys ++ [segment.toKey]

/-- Scalars have no entries. -/
theorem mapWrite_of_scalar (hScalar : target.isContainer = false) (segment : Segment)
    (value : Value) : MapWrite heap target segment value := by
  have hSet : heap.set? target segment value = none := by
    cases target with
    | container => cases hScalar
    | _ => rfl
  have hSame : heap.set target segment value = heap := by
    rw [set, hSet, Option.getD_none]
  have hRefuses : heap.Refuses target segment := .inl hScalar
  have hContent : heap.content? target = none := by
    cases target with
    | container => cases hScalar
    | _ => rfl
  exact {
    refused_iff := by simp [hSet, hRefuses]
    unchanged := fun _ => hSame
    taken := fun hTakes => absurd hRefuses hTakes
    get_eq := fun hTakes => absurd hRefuses hTakes
    frame := fun _ _ => by rw [hSame]
    size_eq := by rw [hSame]
    array := fun hTakes => absurd hRefuses hTakes
    object := fun fields hFields => by simp [hContent] at hFields }

/-- What a container has become that takes the entry. -/
theorem mapWrite_of_entered {handle : Handle} {cell written : Cell}
    (hCell : heap.cell? handle = some cell) (hTakes : ¬ cell.Refuses segment)
    (hEntered : Cell.Entered segment value cell written)
    (hSet : heap.set? (.container handle) segment value = some (heap.write handle written)) :
    MapWrite heap (.container handle) segment value := by
  have hResult : heap.set (.container handle) segment value = heap.write handle written := by
    rw [set, hSet, Option.getD_some]
  have hBefore : heap.content? (.container handle) = some cell := hCell
  have hAfter : (heap.write handle written).content? (.container handle) = some written :=
    cell?_write_self (lt_size_of_cell? hCell)
  have hNotRefused : ¬ heap.Refuses (.container handle) segment :=
    fun hRefuses => hTakes ((refuses_container_iff hCell).mp hRefuses)
  exact {
    refused_iff := by simp [hSet, hNotRefused]
    unchanged := fun hRefuses => absurd hRefuses hNotRefused
    taken := fun _ => by rw [hSet, hResult]
    get_eq := fun _ other => by
      split
      next hKey => rw [get_congr _ _ hKey, get_set_self hCell hTakes]
      next hKey => exact get_set_of_ne segment value fun _ => hKey
    frame := fun other hNe =>
      cell?_set_of_ne (fun hSame => hNe (congrArg Value.container hSame.symm)) segment value
    size_eq := size_set _ _ _ _
    array := fun _ items hItems => by
      rw [hResult, hAfter]
      rw [hBefore, Option.some.injEq] at hItems
      subst hItems
      cases hEntered with
      | array hPosition size => exact ⟨_, _, hPosition, rfl, size⟩
    object := fun fields hFields => by
      rw [hResult, hAfter]
      rw [hBefore, Option.some.injEq] at hFields
      subst hFields
      cases hEntered with
      | object keys => exact ⟨_, rfl, keys⟩ }

/-- A container that refuses the entry is an array. -/
theorem mapWrite_of_refuses {handle : Handle} {cell : Cell}
    (hCell : heap.cell? handle = some cell) (hRefuses : cell.Refuses segment) (value : Value) :
    MapWrite heap (.container handle) segment value := by
  have hSet : heap.set? (.container handle) segment value = none := by
    simp [set?, Value.handle?, hCell, Cell.set?_of_refuses hRefuses]
  have hSame := set_of_refuses hCell hRefuses value
  have hRefused := (refuses_container_iff hCell).mpr hRefuses
  have hBefore : heap.content? (.container handle) = some cell := hCell
  exact {
    refused_iff := by simp [hSet, hRefused]
    unchanged := fun _ => hSame
    taken := fun hTakes => absurd hRefused hTakes
    get_eq := fun hTakes => absurd hRefused hTakes
    frame := fun _ _ => by rw [hSame]
    size_eq := by rw [hSame]
    array := fun hTakes => absurd hRefused hTakes
    object := fun fields hFields => by
      rw [hBefore, Option.some.injEq] at hFields
      subst hFields
      cases hRefuses }

/-- Writing and reading treat every value as one map from the texts of keys to
values, in which scalars and some keys of arrays cannot be written. -/
theorem mapWrite_set (hTarget : target.Within heap.handles) (segment : Segment) (value : Value) :
    MapWrite heap target segment value := by
  cases hContainer : target.isContainer with
  | false => exact mapWrite_of_scalar hContainer segment value
  | true =>
      obtain ⟨handle, rfl⟩ := Value.isContainer_iff.mp hContainer
      have hHandle : handle ∈ heap.handles := Value.within_container.mp hTarget
      obtain ⟨cell, hCell⟩ := exists_cell?_of_lt hHandle
      by_cases hRefuses : cell.Refuses segment
      · exact mapWrite_of_refuses hCell hRefuses value
      · obtain ⟨written, hSet, hEntered⟩ := Cell.exists_entered hRefuses value
        refine mapWrite_of_entered hCell hRefuses hEntered ?_
        simp [set?, Value.handle?, hCell, hSet]

/-- An array and an object that hold one another. -/
def facing : Heap where
  cells := #[.array #[.container 1], .object (.ofList [("2", .container 0), ("02", .null)])]

/-- The entry of the array at position two is written under a key. -/
theorem mapWrite_facing : (Value.container 0).Within facing.handles ∧
    MapWrite facing (.container 0) (.key "2") (.text "new") :=
  have hTarget : (Value.container 0).Within facing.handles :=
    Value.within_container.mpr (by decide : 0 < facing.size)
  ⟨hTarget, mapWrite_set hTarget (.key "2") (.text "new")⟩

example : facing.set (.container 0) (.key "2") (.text "new") =
    ⟨#[.array #[.container 1, .null, .text "new"],
      .object (.ofList [("2", .container 0), ("02", .null)])]⟩ := by decide +kernel

end Heap

namespace Cell

variable {segment other : Segment}

/-- What becomes of a container depends on the key alone. -/
theorem set?_congr (cell : Cell) (value : Value) (h : segment.toKey = other.toKey) :
    cell.set? segment value = cell.set? other value := by
  cases cell with
  | array items => rw [set?, set?, Segment.position?_congr h]
  | object fields => rw [set?, set?, h]

end Cell

namespace Heap

variable {segment other : Segment} {path path' : Path}

/-- Writing does not distinguish an index from the key with the same digits. -/
theorem set_congr (heap : Heap) (target value : Value) (h : segment.toKey = other.toKey) :
    heap.set target segment value = heap.set target other value := by
  simp only [set, set?, Cell.set?_congr _ _ h]

theorem childContainer_congr (heap : Heap) (target : Value) (h : segment.toKey = other.toKey) :
    heap.childContainer target segment = heap.childContainer target other := by
  simp only [childContainer, get_congr heap target h, set_congr _ target _ h]

/-- Paths with the same keys lead to the same value. -/
theorem getPath_congr (heap : Heap) (value : Value)
    (h : path.map Segment.toKey = path'.map Segment.toKey) :
    heap.getPath value path = heap.getPath value path' := by
  induction path generalizing path' value with
  | nil => rw [List.map_eq_nil_iff.mp h.symm]
  | cons segment rest ih =>
      obtain ⟨other, rest', rfl, hKey, hRest⟩ := List.map_eq_cons_iff.mp h.symm
      change heap.getPath (heap.get value segment) rest = heap.getPath (heap.get value other) rest'
      rw [get_congr heap value hKey.symm, ih _ hRest.symm]

/-- Nor does a write along a path, whatever containers it creates on the way. -/
theorem setBelow_congr (heap : Heap) (target value : Value)
    (h : path.map Segment.toKey = path'.map Segment.toKey) :
    heap.setBelow target path value = heap.setBelow target path' value := by
  induction path generalizing path' heap target with
  | nil => rw [List.map_eq_nil_iff.mp h.symm]
  | cons segment rest ih =>
      obtain ⟨other, rest', rfl, hKey, hRest⟩ := List.map_eq_cons_iff.mp h.symm
      cases rest with
      | nil =>
          obtain rfl := List.map_eq_nil_iff.mp hRest
          rw [setBelow, setBelow, set_congr heap target value hKey.symm]
      | cons next others =>
          obtain ⟨next', others', rfl, -⟩ := List.map_eq_cons_iff.mp hRest
          rw [setBelow, setBelow, childContainer_congr heap target hKey.symm]
          · exact ih _ _ hRest.symm
          · simp
          · simp

/-- Paths with the same keys lead a write to the same slot, through the same new
containers. -/
theorem setPath_congr (heap : Heap) (root value : Value)
    (h : path.map Segment.toKey = path'.map Segment.toKey) :
    heap.setPath root path value = heap.setPath root path' value := by
  have hEmpty : path.isEmpty = path'.isEmpty := by
    rw [← List.isEmpty_map, h, List.isEmpty_map]
  simp only [setPath, hEmpty, setBelow_congr _ _ value h]

end Heap

namespace Path

variable {path other : Path}

/-- The path that is read from a text: the pieces between the points as keys. -/
def read (text : String) : Path :=
  (text.toList.splitOn '.').map fun piece => .key (String.ofList piece)

/-- The keys of the path contain no points. Positions never do. -/
def Undotted (path : Path) : Prop :=
  ∀ text, Segment.key text ∈ path → '.' ∉ text.toList

/-- No reader and no writer can tell the paths from one another. A write leaves the
same root and the same heap. -/
structure Interchangeable (path other : Path) : Prop where
  getPath_eq : ∀ (heap : Heap) (value : Value), heap.getPath value other = heap.getPath value path
  setPath_eq : ∀ (heap : Heap) (root value : Value),
    heap.setPath root other value = heap.setPath root path value

/-- Paths that agree key by key can be exchanged in every read and every write. -/
theorem interchangeable_of_keys (h : path.map Segment.toKey = other.map Segment.toKey) :
    Interchangeable path other where
  getPath_eq := fun heap value => (heap.getPath_congr value h).symm
  setPath_eq := fun heap root value => (heap.setPath_congr root value h).symm

/-- A dot inside a segment would be taken for a separator, so undotted paths have
none. -/
theorem Undotted.not_mem_toKey (h : path.Undotted) {segment : Segment} (hMem : segment ∈ path) :
    '.' ∉ segment.toKey.toList := by
  cases segment with
  | key text => exact h text hMem
  | index position =>
      rw [Segment.toKey, String.toList_ofList]
      intro hDigit
      have hIsDigit : '.'.isDigit = true :=
        Nat.isDigit_of_mem_toDigits (by decide) (by decide) hDigit
      simp at hIsDigit

/-- The displayed path is its keys with dots in between. The empty path is displayed
like the path of one empty key, which is why it is left out. -/
theorem toList_display (hPath : path ≠ []) :
    path.display.toList = ['.'].intercalate (path.map fun segment => segment.toKey.toList) := by
  rw [display, if_neg (by simpa using hPath), String.toList_ofList]

/-- What is read from a display are the keys of the path. -/
theorem read_display (hPath : path ≠ []) (hUndotted : path.Undotted) :
    read path.display = path.map fun segment => .key segment.toKey := by
  have hPieces : path.display.toList.splitOn '.' =
      path.map fun segment => segment.toKey.toList := by
    rw [toList_display hPath]
    refine List.splitOn_intercalate '.' ?_ (by simpa using hPath)
    intro piece hPiece
    obtain ⟨segment, hMem, rfl⟩ := List.mem_map.mp hPiece
    exact hUndotted.not_mem_toKey hMem
  rw [read, hPieces, List.map_map]
  simp [Function.comp_def]

/-- Splitting the displayed path gives its keys back. An index comes back as a key,
so only the keys agree and not the segments. -/
theorem map_toKey_read_display (hPath : path ≠ []) (hUndotted : path.Undotted) :
    (read path.display).map Segment.toKey = path.map Segment.toKey := by
  rw [read_display hPath hUndotted, List.map_map]
  rfl

/-- A displayed path can be read back, and stands for the path wherever it is read
or written. So two paths with the same display stand for one another. -/
theorem interchangeable_read_display (hPath : path ≠ []) (hUndotted : path.Undotted) :
    Interchangeable path (read path.display) ∧
      ∀ other : Path, other ≠ [] → other.Undotted → other.display = path.display →
        Interchangeable path other := by
  have hKeys := map_toKey_read_display hPath hUndotted
  refine ⟨interchangeable_of_keys hKeys.symm, fun other hOther hOtherUndotted hSame => ?_⟩
  apply interchangeable_of_keys
  rw [← hKeys, ← hSame, map_toKey_read_display hOther hOtherUndotted]

/-- A path with an empty key, a key that is the text of a position, a key that is
not, and a position. -/
def assorted : Path := [.key "", .key "7", .key "07", .index 40]

/-- An instance with an index, a key of digits and an ordinary key on one path. -/
theorem interchangeable_assorted : assorted ≠ [] ∧ assorted.Undotted ∧
    Interchangeable assorted (read assorted.display) ∧
      ∀ other : Path, other ≠ [] → other.Undotted → other.display = assorted.display →
        Interchangeable assorted other :=
  have hPath : assorted ≠ [] := List.cons_ne_nil _ _
  have hUndotted : assorted.Undotted := by
    intro text hText
    simp only [assorted, List.mem_cons, List.not_mem_nil, or_false, Segment.key.injEq,
      reduceCtorEq] at hText
    rcases hText with rfl | rfl | rfl <;> decide
  ⟨hPath, hUndotted, interchangeable_read_display hPath hUndotted⟩

example : read assorted.display = [.key "", .key "7", .key "07", .key "40"] := by decide

end Path

end Stencil
