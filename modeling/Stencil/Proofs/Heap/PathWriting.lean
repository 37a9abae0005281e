import Stencil.Proofs.Heap.Unfolding
import Stencil.Proofs.Heap.Writing

/-!
Writing at the end of a path. The path is walked through the containers that are
there, up to the first slot that has to be written. A write changes this slot, or
nothing that exists: what is missing below the slot is built in new containers,
which come into sight only with the slot.
-/

namespace Stencil.Heap

variable {heap before after : Heap} {handle : Handle} {path below : Path} {passed : List Slot}
  {target : Slot} {value : Value} {cell : Cell}

/-- A write goes on in the container that it finds at a segment. -/
theorem setBelow_of_found {segment : Segment} {child : Handle} {rest : Path}
    (hChild : heap.get (.container handle) segment = .container child) (hRest : rest ≠ [])
    (value : Value) :
    heap.setBelow (.container handle) (segment :: rest) value =
      heap.setBelow (.container child) rest value := by
  obtain ⟨next, others, rfl⟩ := List.exists_cons_of_ne_nil hRest
  rw [setBelow, childContainer, hChild]
  · rfl
  · simp

/-- Where it finds none, it goes on in a new empty object, which it has written
there before. -/
theorem setBelow_of_blocked {segment : Segment} {rest : Path}
    (hBlocked : (heap.get (.container handle) segment).isContainer = false) (hRest : rest ≠ [])
    (value : Value) :
    heap.setBelow (.container handle) (segment :: rest) value =
      ((heap.alloc (.object .empty)).2.set (.container handle) segment
        (.container heap.size)).setBelow (.container heap.size) rest value := by
  obtain ⟨next, others, rfl⟩ := List.exists_cons_of_ne_nil hRest
  rw [setBelow, childContainer, hBlocked]
  · rfl
  · simp

/-- The walk along a path from a container through the containers that are there.
It passes slots that hold containers. The first slot that has to be written is
its target, because it is the last of the path or holds no container. The rest
of the path is below the target. -/
inductive Walk (heap : Heap) : Handle → Path → List Slot → Slot → Path → Prop where
  | last {handle : Handle} {segment : Segment} :
      Walk heap handle [segment] [] ⟨handle, segment⟩ []
  | blocked {handle : Handle} {segment : Segment} {below : Path} (hBelow : below ≠ [])
      (hChild : (heap.get (.container handle) segment).isContainer = false) :
      Walk heap handle (segment :: below) [] ⟨handle, segment⟩ below
  | through {handle child : Handle} {segment : Segment} {rest below : Path} {passed : List Slot}
      {target : Slot} (hChild : heap.get (.container handle) segment = .container child)
      (walk : Walk heap child rest passed target below) :
      Walk heap handle (segment :: rest) (⟨handle, segment⟩ :: passed) target below

namespace Walk

theorem path_ne_nil (walk : Walk heap handle path passed target below) : path ≠ [] := by
  cases walk <;> exact List.cons_ne_nil _ _

/-- Every path has a walk. -/
theorem exists_walk (heap : Heap) (handle : Handle) (hPath : path ≠ []) :
    ∃ passed target below, Walk heap handle path passed target below := by
  induction path generalizing handle with
  | nil => exact absurd rfl hPath
  | cons segment rest ih =>
      by_cases hRest : rest = []
      · subst hRest
        exact ⟨_, _, _, .last⟩
      · cases hChild : heap.get (.container handle) segment with
        | container child =>
            obtain ⟨passed, target, below, walk⟩ := ih child hRest
            exact ⟨_, _, _, .through hChild walk⟩
        | _ => exact ⟨_, _, _, .blocked hRest (by rw [hChild]; rfl)⟩

/-- Slots that are passed hold containers. -/
theorem isContainer_of_mem (walk : Walk heap handle path passed target below) {slot : Slot}
    (hSlot : slot ∈ passed) : (heap.get (.container slot.handle) slot.segment).isContainer = true := by
  induction walk with
  | last => cases hSlot
  | blocked => cases hSlot
  | through hChild _ ih =>
      rcases List.mem_cons.mp hSlot with rfl | hSlot
      · rw [hChild]
        rfl
      · exact ih hSlot

/-- A target with something below it holds no container. -/
theorem isContainer_of_below (walk : Walk heap handle path passed target below)
    (hBelow : below ≠ []) :
    (heap.get (.container target.handle) target.segment).isContainer = false := by
  induction walk with
  | last => exact absurd rfl hBelow
  | blocked _ hChild => exact hChild
  | through _ _ ih => exact ih hBelow

/-- A walk does not leave a region. -/
theorem target_mem (walk : Walk heap handle path passed target below) {region : Set Handle}
    (hRegion : heap.Region region) (hHandle : handle ∈ region) : target.handle ∈ region := by
  induction walk with
  | last => exact hHandle
  | blocked => exact hHandle
  | @through handle child segment _ _ _ _ hChild _ ih =>
      have hWithin := hRegion.get_within (Value.within_container.mpr hHandle) segment
      rw [hChild] at hWithin
      exact ih (Value.within_container.mp hWithin)

/-- From every slot that is passed, the path leads on to the target. -/
theorem exists_path_of_mem (walk : Walk heap handle path passed target below) {slot : Slot}
    (hSlot : slot ∈ passed) : heap.Reaches (.container handle) slot.handle ∧ ∃ path, path ≠ [] ∧
      heap.getPath (.container slot.handle) path = .container target.handle := by
  have hTarget : ∀ {handle path passed target below}, Walk heap handle path passed target below →
      ∃ path, heap.getPath (.container handle) path = .container target.handle := by
    intro handle path passed target below walk
    induction walk with
    | last => exact ⟨[], rfl⟩
    | blocked => exact ⟨[], rfl⟩
    | @through handle child segment _ _ _ _ hChild _ ih =>
        obtain ⟨path, hPath⟩ := ih
        exact ⟨segment :: path, by rw [← hPath, ← hChild]; rfl⟩
  induction walk with
  | last => cases hSlot
  | blocked => cases hSlot
  | @through handle child segment _ _ _ _ hChild walk ih =>
      rcases List.mem_cons.mp hSlot with rfl | hSlot
      · obtain ⟨path, hPath⟩ := hTarget walk
        exact ⟨⟨[], rfl⟩, segment :: path, List.cons_ne_nil _ _, by rw [← hPath, ← hChild]; rfl⟩
      · obtain ⟨⟨front, hFront⟩, hBack⟩ := ih hSlot
        exact ⟨⟨segment :: front, by rw [← hFront, ← hChild]; rfl⟩, hBack⟩

/-- Nothing is written before the walk has come to its target. -/
theorem setBelow_eq (walk : Walk heap handle path passed target below) (value : Value) :
    heap.setBelow (.container handle) path value =
      heap.setBelow (.container target.handle) (target.segment :: below) value := by
  induction walk with
  | last => rfl
  | blocked => rfl
  | through hChild walk ih => rw [setBelow_of_found hChild walk.path_ne_nil, ih]

/-- A heap in which the slots that are passed read as before is walked in the
same way. -/
theorem getPath_eq (walk : Walk before handle path passed target below)
    (hPassed : ∀ slot ∈ passed, after.get (.container slot.handle) slot.segment =
      before.get (.container slot.handle) slot.segment) :
    after.getPath (.container handle) path =
      after.getPath (.container target.handle) (target.segment :: below) := by
  induction walk with
  | last => rfl
  | blocked => rfl
  | @through handle child segment rest _ _ _ hChild walk ih =>
      rw [List.forall_mem_cons] at hPassed
      rw [← ih hPassed.2, ← hChild, ← hPassed.1]
      rfl

end Walk

/-- New objects one below the other along a path, one after the other in the
heap. Each has a single entry, which is the next of them, or the value at the
end of the path. -/
inductive Nested (heap : Heap) (value : Value) : Handle → Path → Prop where
  | last {handle : Handle} {segment : Segment}
      (hCell : heap.cell? handle = some (.object (.ofList [(segment.toKey, value)]))) :
      Nested heap value handle [segment]
  | cons {handle : Handle} {segment : Segment} {rest : Path}
      (hCell : heap.cell? handle =
        some (.object (.ofList [(segment.toKey, .container (handle + 1))])))
      (nested : Nested heap value (handle + 1) rest) : Nested heap value handle (segment :: rest)

/-- The path leads through these objects to the value. -/
theorem Nested.getPath_eq (h : Nested heap value handle path) :
    heap.getPath (.container handle) path = value := by
  have hEntry : ∀ handle (segment : Segment) (entry : Value),
      heap.cell? handle = some (.object (.ofList [(segment.toKey, entry)])) →
        heap.get (.container handle) segment = entry := by
    intro handle segment entry hCell
    rw [get_of_cell? hCell, Cell.get?, Fields.get?_ofList, List.reverse_singleton,
      List.lookup_cons_self, Option.getD_some]
  induction h with
  | last hCell => exact hEntry _ _ _ hCell
  | cons hCell _ ih =>
      rw [← ih, ← hEntry _ _ _ hCell]
      rfl

/-- Below a new empty object at the end of the heap, a write builds what is
missing, and changes nothing else. Each object that it adds is the only entry of
the one before. -/
theorem nested_setBelow (hCell : heap.cell? handle = some (.object .empty))
    (hLast : heap.size = handle + 1) (hPath : path ≠ []) (value : Value) :
    Nested (heap.setBelow (.container handle) path value) value handle path ∧
      (heap.setBelow (.container handle) path value).size = handle + path.length ∧
      ∀ other < handle, (heap.setBelow (.container handle) path value).cell? other =
        heap.cell? other := by
  induction path generalizing heap handle with
  | nil => exact absurd rfl hPath
  | cons segment rest ih =>
      have hSet : ∀ before : Heap, before.cell? handle = some (.object .empty) → ∀ entry,
          before.set (.container handle) segment entry =
            before.write handle (.object (.ofList [(segment.toKey, entry)])) :=
        fun before hBefore entry => set_of_cell? hBefore rfl
      by_cases hRest : rest = []
      · subst hRest
        rw [setBelow, hSet heap hCell]
        refine ⟨.last (cell?_write_self (lt_size_of_cell? hCell)), ?_, ?_⟩
        · rw [size_write, hLast]
          rfl
        · exact fun other hLt => cell?_write_of_ne (Nat.ne_of_gt hLt)
      · have hGet : heap.get (.container handle) segment = .null := by
          rw [get_of_cell? hCell]
          rfl
        have hLt := lt_size_of_cell? hCell
        have hGrown : (heap.alloc (.object .empty)).2.cell? handle = some (.object .empty) :=
          (cell?_alloc_of_lt hLt).trans hCell
        have hNext : (heap.alloc (.object .empty)).2.cell? (handle + 1) = some (.object .empty) := by
          rw [← hLast, cell?_alloc_self]
        have hStep : heap.setBelow (.container handle) (segment :: rest) value =
            ((heap.alloc (.object .empty)).2.write handle
              (.object (.ofList [(segment.toKey, .container (handle + 1))]))).setBelow
                (.container (handle + 1)) rest value := by
          rw [setBelow_of_blocked (by rw [hGet]; rfl) hRest, hLast, hSet _ hGrown]
        have hEmpty : ((heap.alloc (.object .empty)).2.write handle
            (.object (.ofList [(segment.toKey, .container (handle + 1))]))).cell? (handle + 1) =
              some (.object .empty) :=
          (cell?_write_of_ne (Nat.ne_of_lt (Nat.lt_succ_self handle))).trans hNext
        rw [hStep]
        obtain ⟨hNested, hSize, hFrame⟩ :=
          ih hEmpty (by rw [size_write, size_alloc, hLast]) hRest
        refine ⟨.cons ?_ hNested, ?_, ?_⟩
        · rw [hFrame handle (Nat.lt_succ_self handle), cell?_write_self (lt_size_of_cell? hGrown)]
        · rw [hSize, List.length_cons]
          omega
        · intro other hOther
          rw [hFrame other (Nat.lt_succ_of_lt hOther), cell?_write_of_ne (Nat.ne_of_gt hOther),
            cell?_alloc_of_lt (Nat.lt_trans hOther hLt)]

/-- What stands in the target of a walk afterwards: the value, or the first of the
new objects on the way to it. -/
def placed (heap : Heap) (below : Path) (value : Value) : Value :=
  if below = [] then value else .container heap.size

/-- What a write along the end of a path leaves behind, from its target in this
container on. -/
structure Placed (heap : Heap) (value : Value) (target : Slot) (below : Path) (cell : Cell)
    (after : Heap) : Prop where
  /-- A container that refuses the entry is as it was. -/
  refused : cell.Refuses target.segment → after.cell? target.handle = some cell
  /-- Any other container has changed in this one entry. -/
  entered : ¬ cell.Refuses target.segment → ∃ written,
    Cell.Entered target.segment (heap.placed below value) cell written ∧
      after.cell? target.handle = some written
  /-- No other container that was there has changed. -/
  frame : ∀ handle < heap.size, handle ≠ target.handle → after.cell? handle = heap.cell? handle
  /-- What has been added are the objects for the segments below the target. -/
  size_eq : after.size = heap.size + below.length
  nested : below ≠ [] → Nested after value heap.size below

/-- From its target on, a write changes this slot only, and builds what is below
it. -/
theorem placed_setBelow (hCell : heap.cell? target.handle = some cell)
    (hBlocked : below ≠ [] →
      (heap.get (.container target.handle) target.segment).isContainer = false) (value : Value) :
    Placed heap value target below cell
      (heap.setBelow (.container target.handle) (target.segment :: below) value) := by
  by_cases hBelow : below = []
  · subst hBelow
    obtain ⟨hRefused, hEntered⟩ := cell?_set_self hCell target.segment value
    rw [setBelow]
    exact {
      refused := hRefused
      entered := hEntered
      frame := fun handle _ hNe => cell?_set_of_ne hNe target.segment value
      size_eq := heap.size_set _ _ _
      nested := fun hNonempty => absurd rfl hNonempty }
  · have hLt := lt_size_of_cell? hCell
    have hGrown : (heap.alloc (.object .empty)).2.cell? target.handle = some cell :=
      (cell?_alloc_of_lt hLt).trans hCell
    obtain ⟨hRefused, hEntered⟩ :=
      cell?_set_self hGrown target.segment (.container heap.size)
    have hEmpty : ((heap.alloc (.object .empty)).2.set (.container target.handle) target.segment
        (.container heap.size)).cell? heap.size = some (.object .empty) :=
      (cell?_set_of_ne (Nat.ne_of_gt hLt) _ _).trans (cell?_alloc_self heap _)
    obtain ⟨hNested, hSize, hFrame⟩ :=
      nested_setBelow hEmpty (by rw [size_set, size_alloc]) hBelow value
    rw [setBelow_of_blocked (hBlocked hBelow) hBelow]
    exact {
      refused := fun hRefuses => (hFrame _ hLt).trans (hRefused hRefuses)
      entered := fun hTakes => by
        obtain ⟨written, hWritten, hAfter⟩ := hEntered hTakes
        rw [placed, if_neg hBelow]
        exact ⟨written, hWritten, (hFrame _ hLt).trans hAfter⟩
      frame := fun handle hOld hNe => by
        rw [hFrame handle hOld, cell?_set_of_ne hNe, cell?_alloc_of_lt hOld]
      size_eq := hSize
      nested := fun _ => hNested }

/-- The target reads as what has been placed there, and every other slot reads as
before. -/
theorem Placed.get_self (h : Placed heap value target below cell after)
    (hTakes : ¬ cell.Refuses target.segment) :
    after.get (.container target.handle) target.segment = heap.placed below value := by
  obtain ⟨written, hEntered, hAfter⟩ := h.entered hTakes
  rw [get_of_cell? hAfter, hEntered.get?_self, Option.getD_some]

/-- Slots with another key keep their value, and so do all slots of other
containers. -/
theorem Placed.get_of_ne (h : Placed heap value target below cell after)
    (hCell : heap.cell? target.handle = some cell) {slot : Slot} (hSlot : slot.handle < heap.size)
    (hNe : slot.handle = target.handle → slot.segment.toKey ≠ target.segment.toKey) :
    after.get (.container slot.handle) slot.segment =
      heap.get (.container slot.handle) slot.segment := by
  by_cases hSame : slot.handle = target.handle
  · rw [hSame]
    by_cases hRefuses : cell.Refuses target.segment
    · rw [get_of_cell? (h.refused hRefuses), get_of_cell? hCell]
    · obtain ⟨written, hEntered, hAfter⟩ := h.entered hRefuses
      rw [get_of_cell? hAfter, get_of_cell? hCell, hEntered.get?_of_ne (hNe hSame)]
  · simp only [get, content?, h.frame slot.handle hSlot hSame]

/-- From the target on, the path leads to the value. -/
theorem Placed.getPath_eq (h : Placed heap value target below cell after)
    (hTakes : ¬ cell.Refuses target.segment) :
    after.getPath (.container target.handle) (target.segment :: below) = value := by
  change after.getPath (after.get (.container target.handle) target.segment) below = value
  rw [h.get_self hTakes, placed]
  split
  next hBelow => rw [hBelow]; rfl
  next hBelow => exact (h.nested hBelow).getPath_eq

/-- The container that a write along a path starts at: the root, or a new empty
object in the place of a root that is a scalar. -/
def rooted (heap : Heap) (root : Value) : Value × Heap :=
  if root.isContainer then (root, heap) else heap.allocObject []

/-- A write along a path does all of what it is to do or nothing. The walk from
the container that it starts at has come to a target in this container, and the
result is the root and the heap afterwards. -/
structure Atomic (heap : Heap) (root : Value) (path : Path) (value : Value) (origin : Handle)
    (start : Heap) (passed : List Slot) (target : Slot) (below : Path) (cell : Cell)
    (result : Value × Heap) : Prop where
  start_eq : heap.rooted root = (.container origin, start)
  walk : Walk start origin path passed target below
  cell_eq : start.cell? target.handle = some cell
  root_eq : result.1 = .container origin
  placed : Placed start value target below cell result.2
  /-- No container that existed has changed but that of the target, and this one
  only if it has taken the entry. -/
  untouched : ∀ handle < heap.size, (handle = target.handle → cell.Refuses target.segment) →
    result.2.cell? handle = heap.cell? handle
  /-- If it has, the path leads to the value, unless its last slot is one that the
  walk had passed before, and the path ends there no more. -/
  read : ¬ cell.Refuses target.segment →
    (below = [] → ∀ slot ∈ passed, slot.handle = target.handle →
      slot.segment.toKey ≠ target.segment.toKey) → result.2.getPath result.1 path = value
  /-- Without cycles the walk passes the container of the target only once. -/
  simple : heap.Acyclic root → ∀ slot ∈ passed, slot.handle ≠ target.handle

variable {start : Heap} {root : Value} {origin : Handle}

/-- Where there is a cell for the target, the write starts at the container, and
does all of what it is to do or nothing. A target with something below it holds no
container, so it is none of the slots that are passed. -/
theorem atomic_of_walk (hRooted : heap.rooted root = (.container origin, start))
    (hOld : ∀ handle < heap.size, start.cell? handle = heap.cell? handle)
    (hPath : path ≠ []) (walk : Walk start origin path passed target below)
    (hCell : start.cell? target.handle = some cell) (value : Value)
    (hSimple : heap.Acyclic root → ∀ slot ∈ passed, slot.handle ≠ target.handle) :
    Atomic heap root path value origin start passed target below cell
      (heap.setPath root path value) := by
  have hResult : heap.setPath root path value =
      (.container origin, start.setBelow (.container origin) path value) := by
    have hStart : (if root.isContainer then (root, heap) else heap.allocObject []) =
        (.container origin, start) := hRooted
    rw [setPath, if_neg (by simpa using hPath), hStart]
  have hPlaced := placed_setBelow hCell walk.isContainer_of_below value
  rw [← walk.setBelow_eq value] at hPlaced
  rw [hResult]
  exact {
    start_eq := hRooted
    walk
    cell_eq := hCell
    root_eq := rfl
    placed := hPlaced
    untouched := fun handle hHandle hRefuses => by
      by_cases hTarget : handle = target.handle
      · rw [← hOld handle hHandle, hTarget, hPlaced.refused (hRefuses hTarget), hCell]
      · have hLt : handle < start.size := by
          obtain ⟨_, hThere⟩ := exists_cell?_of_lt hHandle
          exact lt_size_of_cell? ((hOld handle hHandle).trans hThere)
        rw [hPlaced.frame handle hLt hTarget, hOld handle hHandle]
    read := fun hTakes hApart => by
      rw [walk.getPath_eq, hPlaced.getPath_eq hTakes]
      intro slot hSlot
      have hContainer := walk.isContainer_of_mem hSlot
      have hHandle : slot.handle < start.size := by
        obtain ⟨child, hChild⟩ := Value.isContainer_iff.mp hContainer
        obtain ⟨_, _, hSelf, hThere, -⟩ := exists_entry_of_get hChild Value.noConfusion
        obtain rfl := Value.container.inj hSelf
        exact lt_size_of_cell? hThere
      refine hPlaced.get_of_ne hCell hHandle fun hSame hKey => ?_
      by_cases hBelow : below = []
      · exact hApart hBelow slot hSlot hSame hKey
      · have hBlocked := walk.isContainer_of_below hBelow
        rw [hSame, get_congr start _ hKey, hBlocked] at hContainer
        cases hContainer
    simple := hSimple }

/-- A write along a path is made at one slot or not at all. On an acyclic root no
container is passed twice, as it would be reached from itself. From a scalar root the
walk ends at once, in a new object that is empty. -/
theorem atomic_setPath (hHeap : heap.WellFormed) (hRoot : root.Within heap.handles)
    (hPath : path ≠ []) (value : Value) :
    ∃ origin start passed target below cell,
      Atomic heap root path value origin start passed target below cell
        (heap.setPath root path value) := by
  cases hContainer : root.isContainer with
  | true =>
      obtain ⟨origin, rfl⟩ := Value.isContainer_iff.mp hContainer
      obtain ⟨passed, target, below, walk⟩ := Walk.exists_walk heap origin hPath
      obtain ⟨cell, hCell⟩ := hHeap.region_handles.exists_cell?
        (walk.target_mem hHeap.region_handles (Value.within_container.mp hRoot))
      refine ⟨origin, heap, passed, target, below, cell,
        atomic_of_walk rfl (fun _ _ => rfl) hPath walk hCell value ?_⟩
      intro hAcyclic slot hSlot hSame
      obtain ⟨hReaches, path', hNonempty, hBack⟩ := walk.exists_path_of_mem hSlot
      exact hAcyclic slot.handle hReaches path' hNonempty (hSame ▸ hBack)
  | false =>
      obtain ⟨segment, below, rfl⟩ := List.exists_cons_of_ne_nil hPath
      have hEmpty : (heap.allocObject []).2.cell? heap.size = some (.object (.ofList [])) :=
        cell?_alloc_self heap _
      have walk : Walk (heap.allocObject []).2 heap.size (segment :: below) []
          ⟨heap.size, segment⟩ below := by
        by_cases hBelow : below = []
        · subst hBelow
          exact .last
        · refine .blocked hBelow ?_
          rw [get_of_cell? hEmpty]
          rfl
      refine ⟨heap.size, _, [], ⟨heap.size, segment⟩, below, _, atomic_of_walk ?_
        (fun handle hLt => cell?_alloc_of_lt hLt) hPath walk hEmpty value
        fun _ _ hSlot => absurd hSlot List.not_mem_nil⟩
      rw [rooted, hContainer]
      rfl

/-- An array that holds itself, to be written to beyond its end. -/
def looping : Heap where
  cells := #[.array #[.container 0, .text "first"]]

/-- An instance whose path passes its own target, and that has to be padded. -/
theorem atomic_setPath_looping :
    looping.WellFormed ∧ (Value.container 0).Within looping.handles ∧
      [Segment.index 0, .index 3, .key "name"] ≠ [] ∧
      ∃ origin start passed target below cell,
        Atomic looping (.container 0) [.index 0, .index 3, .key "name"] (.bool true) origin start
          passed target below cell
          (looping.setPath (.container 0) [.index 0, .index 3, .key "name"] (.bool true)) :=
  have hRoot : (Value.container 0).Within looping.handles :=
    Value.within_container.mpr (by decide : 0 < looping.size)
  ⟨by decide, hRoot, List.cons_ne_nil _ _,
    atomic_setPath (by decide) hRoot (List.cons_ne_nil _ _) (.bool true)⟩

/-- The value is reached through a new object in the new last place of the
array. -/
example : (looping.setPath (.container 0) [.index 0, .index 3, .key "name"] (.bool true)).2 =
    ⟨#[.array #[.container 0, .text "first", .null, .container 1],
      .object (.ofList [("name", .bool true)])]⟩ := by decide +kernel

end Stencil.Heap
