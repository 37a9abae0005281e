import Mathlib.Data.List.Induction
import Mathlib.Data.List.Nodup
import Stencil.Proofs.Heap.Region

/-!
Paths and routes. A path is what a lookup is given, and may use any segment that
addresses an entry. A route goes from entry to entry under the listed segments
and names the containers that it passes. Every container that a path leads to is
at the end of a route that passes no container twice.
-/

namespace Stencil.Heap

variable {heap : Heap} {region : Set Handle} {value target : Value}

theorem get_of_cell? {handle : Handle} {cell : Cell} (hCell : heap.cell? handle = some cell)
    (segment : Segment) :
    heap.get (.container handle) segment = (cell.get? segment).getD .null := by
  simp [get, content?, hCell]

theorem entries_of_cell? {handle : Handle} {cell : Cell} (hCell : heap.cell? handle = some cell) :
    heap.entries (.container handle) = cell.entries := by
  simp [entries, content?, hCell]

/-- A listed entry is read under its segment. -/
theorem Region.get_of_mem_entries {region : Set Handle} (h : heap.Region region) {handle : Handle}
    (hHandle : handle ∈ region) {cell : Cell} (hCell : heap.cell? handle = some cell)
    {entry : Segment × Value} (hEntry : entry ∈ cell.entries) :
    heap.get (.container handle) entry.1 = entry.2 := by
  obtain ⟨hGet, -⟩ := Cell.get?_of_mem_entries (h.addressable handle hHandle cell hCell) hEntry
  rw [get_of_cell? hCell, hGet, Option.getD_some]

/-- Scalars have no entries. -/
theorem get_of_not_isContainer (h : value.isContainer = false) (segment : Segment) :
    heap.get value segment = .null := by
  cases value <;> first | rfl | cases h

/-- What is read and is not null has been found in a cell. -/
theorem exists_entry_of_get {segment : Segment} (h : heap.get value segment = target)
    (hTarget : target ≠ .null) :
    ∃ handle cell, value = .container handle ∧ heap.cell? handle = some cell ∧
      cell.get? segment = some target := by
  subst h
  cases hFound : (heap.content? value).bind fun cell => cell.get? segment with
  | none => exact absurd (by rw [get, hFound]; rfl) hTarget
  | some found =>
      obtain ⟨cell, hCell, hGet⟩ := Option.bind_eq_some_iff.mp hFound
      cases value with
      | container handle => exact ⟨handle, cell, rfl, hCell, by rw [get, hFound, hGet]; rfl⟩
      | _ => cases hCell

/-- Reading along a path can be done in two parts. -/
theorem getPath_append (heap : Heap) (value : Value) (front back : Path) :
    heap.getPath value (front ++ back) = heap.getPath (heap.getPath value front) back :=
  List.foldl_append

theorem getPath_concat (heap : Heap) (value : Value) (path : Path) (segment : Segment) :
    heap.getPath value (path ++ [segment]) = heap.get (heap.getPath value path) segment :=
  heap.getPath_append value path [segment]

/-- Nothing is found below null. -/
theorem getPath_null (heap : Heap) (path : Path) : heap.getPath .null path = .null := by
  induction path with
  | nil => rfl
  | cons segment rest ih => exact ih

/-- A path that leads to a container from some value starts in a container. -/
theorem isContainer_of_getPath {path : Path} {handle : Handle}
    (h : heap.getPath value path = .container handle) : value.isContainer = true := by
  cases path with
  | nil =>
      obtain rfl : value = .container handle := h
      rfl
  | cons segment rest =>
      cases hValue : value.isContainer with
      | true => rfl
      | false =>
          change heap.getPath (heap.get value segment) rest = _ at h
          rw [get_of_not_isContainer hValue, getPath_null] at h
          cases h

/-- Below a path that leads to a container, a write goes to this container and
creates nothing on the way. -/
theorem setBelow_concat {root : Value} {path : Path} {handle : Handle}
    (h : heap.getPath root path = .container handle) (segment : Segment) (written : Value) :
    heap.setBelow root (path ++ [segment]) written =
      heap.set (.container handle) segment written := by
  induction path generalizing root with
  | nil =>
      obtain rfl : root = .container handle := h
      rfl
  | cons first rest ih =>
      change heap.getPath (heap.get root first) rest = _ at h
      have hChild : (heap.get root first).isContainer = true := isContainer_of_getPath h
      obtain ⟨second, others, hSplit⟩ := List.exists_cons_of_ne_nil (List.concat_ne_nil segment rest)
      rw [List.cons_append, hSplit, setBelow, childContainer, if_pos hChild, ← hSplit]
      · exact ih h
      · simp

/-- A way from entry to entry: the containers that it passes, the segments of
the entries, and where it ends. -/
inductive Route (heap : Heap) : Value → List Handle → Path → Value → Prop where
  | nil (value : Value) : Route heap value [] [] value
  | cons {handle : Handle} {cell : Cell} {segment : Segment} {child target : Value}
      {passed : List Handle} {path : Path}
      (hCell : heap.cell? handle = some cell) (hEntry : (segment, child) ∈ cell.entries)
      (rest : Route heap child passed path target) :
      Route heap (.container handle) (handle :: passed) (segment :: path) target

namespace Route

variable {passed : List Handle} {path : Path} {handle : Handle} {cell : Cell} {segment : Segment}

/-- A route can be extended at its end by an entry of the container it leads to. -/
theorem concat {child : Value} (route : Route heap value passed path (.container handle))
    (hCell : heap.cell? handle = some cell) (hEntry : (segment, child) ∈ cell.entries) :
    Route heap value (passed ++ [handle]) (path ++ [segment]) child := by
  generalize hEnd : Value.container handle = last at route
  induction route with
  | nil =>
      subst hEnd
      exact .cons hCell hEntry (.nil child)
  | cons hFirst hFirstEntry _ ih => exact .cons hFirst hFirstEntry (ih hEnd)

/-- Conversely, a route with any step can be taken apart at its last one. -/
theorem exists_last (route : Route heap value passed path target) (hPath : path ≠ []) :
    ∃ passed' handle path' segment cell, passed = passed' ++ [handle] ∧ path = path' ++ [segment] ∧
      Route heap value passed' path' (.container handle) ∧ heap.cell? handle = some cell ∧
      (segment, target) ∈ cell.entries := by
  induction route with
  | nil => exact absurd rfl hPath
  | @cons handle cell segment child target passed path hCell hEntry rest ih =>
      cases path with
      | nil =>
          cases rest
          exact ⟨[], handle, [], segment, cell, rfl, rfl, .nil _, hCell, hEntry⟩
      | cons next others =>
          obtain ⟨passed', last, path', final, cell', rfl, hPath', route', hLast, hFinal⟩ :=
            ih (List.cons_ne_nil _ _)
          exact ⟨handle :: passed', last, segment :: path', final, cell', rfl,
            by rw [hPath', List.cons_append], .cons hCell hEntry route', hLast, hFinal⟩

/-- A route can be left at every container that it passes. -/
theorem exists_until {before after : List Handle}
    (route : Route heap value (before ++ handle :: after) path target) :
    ∃ path', Route heap value before path' (.container handle) := by
  induction before generalizing value path with
  | nil => cases route with | cons => exact ⟨[], .nil _⟩
  | cons first others ih =>
      cases route with
      | cons hCell hEntry rest =>
          obtain ⟨path', route'⟩ := ih rest
          exact ⟨_, .cons hCell hEntry route'⟩

/-- A route can be divided wherever its path can. -/
theorem exists_middle {front back : Path}
    (route : Route heap value passed (front ++ back) target) :
    ∃ before after middle, passed = before ++ after ∧ Route heap value before front middle ∧
      Route heap middle after back target := by
  induction front generalizing value passed with
  | nil => exact ⟨[], passed, value, rfl, .nil value, route⟩
  | cons segment front ih =>
      cases route with
      | @cons handle cell _ child _ passed _ hCell hEntry rest =>
          obtain ⟨before, after, middle, rfl, first, second⟩ := ih rest
          exact ⟨handle :: before, after, middle, rfl, .cons hCell hEntry first, second⟩

/-- The path of a route says which containers it passes and where it ends. -/
theorem unique {passed' : List Handle} {target' : Value}
    (route : Route heap value passed path target) (other : Route heap value passed' path target') :
    passed = passed' ∧ target = target' := by
  induction route generalizing passed' with
  | nil =>
      cases other
      exact ⟨rfl, rfl⟩
  | @cons handle cell segment child _ _ path hCell hEntry _ ih =>
      cases other with
      | @cons _ cell' _ child' _ _ _ hCell' hEntry' rest =>
          obtain rfl : cell = cell' := Option.some.inj (hCell.symm.trans hCell')
          have hSame := List.inj_on_of_nodup_map cell.nodup_segments hEntry hEntry' rfl
          obtain rfl : child = child' := congrArg Prod.snd hSame
          obtain ⟨rfl, rfl⟩ := ih rest
          exact ⟨rfl, rfl⟩

/-- In a region a route stays inside, and its path leads where it ends. -/
theorem getPath_eq (route : Route heap value passed path target) (hRegion : heap.Region region)
    (hValue : value.Within region) : heap.getPath value path = target := by
  induction route with
  | nil => rfl
  | @cons handle cell segment child _ _ path hCell hEntry _ ih =>
      have hMem := Value.within_container.mp hValue
      obtain ⟨hGet, -⟩ := Cell.get?_of_mem_entries (hRegion.addressable handle hMem cell hCell) hEntry
      have hChild : heap.get (.container handle) segment = child := by
        rw [get_of_cell? hCell, hGet, Option.getD_some]
      have hWithin := hRegion.get_within hValue segment
      change heap.getPath (heap.get (.container handle) segment) path = _
      rw [hChild] at hWithin ⊢
      exact ih hWithin

end Route

/-- A route that passes none of these containers, and no container twice. -/
inductive SimpleRoute (heap : Heap) :
    List Handle → Value → List Handle → Path → Value → Prop where
  | nil (ancestors : List Handle) (value : Value) : SimpleRoute heap ancestors value [] [] value
  | cons {ancestors passed : List Handle} {handle : Handle} {cell : Cell} {segment : Segment}
      {child target : Value} {path : Path}
      (hNew : handle ∉ ancestors) (hCell : heap.cell? handle = some cell)
      (hEntry : (segment, child) ∈ cell.entries)
      (rest : SimpleRoute heap (handle :: ancestors) child passed path target) :
      SimpleRoute heap ancestors (.container handle) (handle :: passed) (segment :: path) target

/-- A simple route is a route without repetitions that avoids the open containers. -/
theorem simpleRoute_iff {ancestors passed : List Handle} {path : Path} :
    SimpleRoute heap ancestors value passed path target ↔
      Route heap value passed path target ∧ passed.Nodup ∧ ∀ handle ∈ passed, handle ∉ ancestors := by
  constructor
  · intro h
    induction h with
    | nil => exact ⟨.nil _, List.nodup_nil, List.forall_mem_nil _⟩
    | cons hNew hCell hEntry _ ih =>
        obtain ⟨route, hNodup, hAvoids⟩ := ih
        rw [List.nodup_cons, List.forall_mem_cons]
        exact ⟨.cons hCell hEntry route, ⟨fun hMem => hAvoids _ hMem List.mem_cons_self, hNodup⟩,
          hNew, fun other hMem hOpen => hAvoids other hMem (List.mem_cons_of_mem _ hOpen)⟩
  · rintro ⟨route, hNodup, hAvoids⟩
    induction route generalizing ancestors with
    | nil => exact .nil ancestors _
    | cons hCell hEntry _ ih =>
        rw [List.nodup_cons] at hNodup
        rw [List.forall_mem_cons] at hAvoids
        refine .cons hAvoids.1 hCell hEntry (ih hNodup.2 fun other hMem hOpen => ?_)
        rcases List.mem_cons.mp hOpen with rfl | hOpen
        · exact hNodup.1 hMem
        · exact hAvoids.2 other hMem hOpen

/-- A container that a path leads to is at the end of a route that passes no
container twice, and does not pass this container either. A path that comes back to
a container is cut off where it first met it. -/
theorem exists_simple_route {path : Path} {handle : Handle}
    (h : heap.getPath value path = .container handle) :
    ∃ passed path', Route heap value passed path' (.container handle) ∧
      (passed ++ [handle]).Nodup := by
  induction path using List.reverseRecOn generalizing handle with
  | nil =>
      obtain rfl : value = .container handle := h
      exact ⟨[], [], .nil _, by simp⟩
  | append_singleton path segment ih =>
      rw [getPath_concat] at h
      obtain ⟨parent, cell, hParent, hCell, hGet⟩ := exists_entry_of_get h (by simp)
      obtain ⟨passed, path', route, hNodup⟩ := ih hParent
      have longer := route.concat hCell (Cell.mem_entries_of_get? hGet)
      by_cases hMem : handle ∈ passed ++ [parent]
      · obtain ⟨before, after, hSplit⟩ := List.append_of_mem hMem
        rw [hSplit] at longer hNodup
        obtain ⟨shorter, route'⟩ := longer.exists_until
        refine ⟨before, shorter, route', hNodup.sublist ?_⟩
        exact List.Sublist.append_left (List.singleton_sublist.mpr List.mem_cons_self) before
      · refine ⟨passed ++ [parent], _, longer, ?_⟩
        rw [List.nodup_append]
        exact ⟨hNodup, by simp, fun a ha b hb => by
          rw [List.mem_singleton.mp hb]
          rintro rfl
          exact hMem ha⟩

/-- The containers that can be reached from a value are a region. -/
theorem WellFormed.region_reaches (h : heap.WellFormed) (hValue : value.Within heap.handles) :
    heap.Region {handle | heap.Reaches value handle} where
  allocated := fun _ hReaches => h.region_handles.mem_of_reaches hValue hReaches
  closed := by
    rintro handle ⟨path, hPath⟩ cell hCell child hChild reached hReached
    rw [Cell.values_eq_map_entries] at hChild
    obtain ⟨entry, hEntry, rfl⟩ := List.mem_map.mp hChild
    refine ⟨path ++ [entry.1], ?_⟩
    rw [getPath_concat, hPath,
      h.region_handles.get_of_mem_entries (lt_size_of_cell? hCell) hCell hEntry]
    exact Value.mem_handle?_iff.mp hReached
  addressable := fun _ _ cell hCell => h.addressable cell (Array.mem_of_getElem? hCell)

end Stencil.Heap
