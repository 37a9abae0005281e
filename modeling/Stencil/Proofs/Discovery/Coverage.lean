import Stencil.Proofs.Discovery.Recursion
import Stencil.Proofs.Heap.Slot

/-!
What discovery finds. The placeholders of a template are the values other than
containers at the ends of the routes that pass no container twice. Every entry
that some path leads to, even one that goes round cycles, is the end of such a
route, so no entry is missed.
-/

namespace Stencil.Heap

variable {heap : Heap} {region : Set Handle}

/-- The placeholders below a value are at the ends of the routes from it that
avoid its ancestors and pass no container twice. -/
theorem mem_placeholdersBelow_iff {ancestors : List Handle} {value : Value}
    {placeholder : Placeholder} :
    placeholder ∈ heap.placeholdersBelow Value.isPlaceholder ancestors value ↔
      placeholder.value.isContainer = false ∧ ∃ passed,
        Route heap value passed placeholder.path placeholder.value ∧ passed.Nodup ∧
          ∀ handle ∈ passed, handle ∉ ancestors := by
  obtain ⟨path, target⟩ := placeholder
  simp only [← simpleRoute_iff]
  fun_induction placeholdersBelow heap Value.isPlaceholder ancestors value
      generalizing path target with
  | case1 ancestors handle hOpen =>
      rw [iff_false_left List.not_mem_nil]
      rintro ⟨hScalar, passed, route⟩
      cases route with
      | nil => cases hScalar
      | cons hNew => exact hNew hOpen
  | case2 ancestors handle hOpen hAccepts => cases hAccepts
  | case3 ancestors handle hOpen hAccepts hCell =>
      rw [iff_false_left List.not_mem_nil]
      rintro ⟨hScalar, passed, route⟩
      cases route with
      | nil => cases hScalar
      | cons _ hSome => cases hCell.symm.trans hSome
  | case4 ancestors handle hOpen hAccepts cell hCell ih =>
      simp only [List.mem_flatMap, List.mem_map]
      constructor
      · rintro ⟨⟨segment, child⟩, hEntry, ⟨rest, _⟩, hInner, hSame⟩
        obtain ⟨rfl, rfl⟩ := Placeholder.mk.inj hSame
        obtain ⟨hScalar, passed, route⟩ := (ih (segment, child) _ _).mp hInner
        exact ⟨hScalar, handle :: passed, .cons hOpen hCell hEntry route⟩
      · rintro ⟨hScalar, passed, route⟩
        cases route with
        | nil => cases hScalar
        | @cons _ passed _ _ segment child _ path _ hSome hEntry rest =>
            obtain rfl := Option.some.inj (hCell.symm.trans hSome)
            exact ⟨(segment, child), hEntry, ⟨path, target⟩,
              (ih (segment, child) _ _).mpr ⟨hScalar, passed, rest⟩, rfl⟩
  | case5 ancestors scalar hScalar hAccepts =>
      rw [List.mem_singleton, Placeholder.mk.injEq]
      constructor
      · rintro ⟨rfl, rfl⟩
        exact ⟨Value.isContainer_eq_false_iff.mpr hScalar, [], .nil _ _⟩
      · rintro ⟨-, passed, route⟩
        cases route with
        | nil => exact ⟨rfl, rfl⟩
        | cons => exact absurd rfl (hScalar _)
  | case6 ancestors scalar hScalar hAccepts =>
      rw [Value.isPlaceholder, Value.isContainer_eq_false_iff.mpr hScalar] at hAccepts
      exact absurd rfl hAccepts

/-- Discovery walks through containers, so no placeholder is one. -/
theorem isContainer_of_mem_discover {template : Value} {placeholder : Placeholder}
    (h : placeholder ∈ heap.discover template) : placeholder.value.isContainer = false := by
  rw [discover, discoverWith_eq, mem_placeholdersBelow_iff] at h
  exact h.1

/-- What a discovered placeholder is: the entry, other than a container, of the
slot that its path addresses. -/
theorem exists_slot_of_mem_discover (hRegion : heap.Region region) {handle : Handle}
    (hRoot : handle ∈ region) {placeholder : Placeholder}
    (h : placeholder ∈ heap.discover (.container handle)) :
    ∃ slot, heap.slot? (.container handle) placeholder.path = some slot ∧
      heap.Holds slot placeholder.value ∧ placeholder.value.isContainer = false := by
  rw [discover, discoverWith_eq, mem_placeholdersBelow_iff] at h
  obtain ⟨hScalar, passed, route, -⟩ := h
  have hPath : placeholder.path ≠ [] := by
    intro hEmpty
    obtain ⟨path, target⟩ := placeholder
    obtain rfl : path = [] := hEmpty
    cases route
    cases hScalar
  obtain ⟨passed', parent, path, segment, cell, -, hSplit, route', hCell, hEntry⟩ :=
    route.exists_last hPath
  have hParent := route'.getPath_eq hRegion (Value.within_container.mpr hRoot)
  exact ⟨⟨parent, segment⟩, slot?_eq_some_iff.mpr ⟨path, hSplit, hParent⟩, ⟨cell, hCell, hEntry⟩,
    hScalar⟩

/-- No entry is missed: an entry other than a container, of a container that
some path leads to, is a placeholder, though perhaps on another path. -/
theorem exists_mem_discover (hRegion : heap.Region region) {root : Value}
    (hRoot : root.Within region) {slot : Slot} {target : Value}
    (hReaches : heap.Reaches root slot.handle) (hHolds : heap.Holds slot target)
    (hTarget : target.isContainer = false) :
    ∃ path, heap.slot? root path = some slot ∧ ⟨path, target⟩ ∈ heap.discover root := by
  obtain ⟨path, hPath⟩ := hReaches
  obtain ⟨cell, hCell, hEntry⟩ := hHolds
  obtain ⟨passed, path', route, hNodup⟩ := exists_simple_route hPath
  refine ⟨path' ++ [slot.segment], ?_, ?_⟩
  · exact slot?_eq_some_iff.mpr ⟨path', rfl, route.getPath_eq hRegion hRoot⟩
  · rw [discover, discoverWith_eq, mem_placeholdersBelow_iff]
    exact ⟨hTarget, passed ++ [slot.handle], route.concat hCell hEntry, hNodup, by simp⟩

/-- A template that is no container is its own placeholder. -/
theorem discover_of_not_isContainer {root : Value} (h : root.isContainer = false) :
    heap.discover root = [⟨[], root⟩] := by
  rw [discover, discoverWith_eq, heap.placeholdersBelow_of_not_isContainer _ _ h]
  simp [Value.isPlaceholder, h]

/-- Whatever a path leads to, other than a container or nothing, is a
placeholder. -/
theorem exists_mem_discover_of_getPath (hRegion : heap.Region region) {root target : Value}
    (hRoot : root.Within region) {path : Path} (hPath : heap.getPath root path = target)
    (hTarget : target.isContainer = false) (hNull : target ≠ .null) :
    ∃ path', ⟨path', target⟩ ∈ heap.discover root := by
  rcases List.eq_nil_or_concat path with rfl | ⟨front, segment, rfl⟩
  · obtain rfl : root = target := hPath
    rw [discover_of_not_isContainer hTarget]
    exact ⟨[], List.mem_singleton_self _⟩
  · rw [List.concat_eq_append, getPath_concat] at hPath
    obtain ⟨handle, cell, hParent, hCell, hGet⟩ := exists_entry_of_get hPath hNull
    have hHolds := exists_holds_of_get? hCell hGet
    have hReaches : heap.Reaches root (Slot.handle ⟨handle, cell.canonical segment⟩) :=
      ⟨front, hParent⟩
    obtain ⟨path', -, hMem⟩ := exists_mem_discover hRegion hRoot hReaches hHolds hTarget
    exact ⟨path', hMem⟩

/-- Every path of a placeholder leads to the placeholder. -/
theorem getPath_of_mem_discover (hRegion : heap.Region region) {root : Value}
    (hRoot : root.Within region) {placeholder : Placeholder}
    (h : placeholder ∈ heap.discover root) :
    heap.getPath root placeholder.path = placeholder.value := by
  rw [discover, discoverWith_eq, mem_placeholdersBelow_iff] at h
  obtain ⟨-, passed, route, -⟩ := h
  exact route.getPath_eq hRegion hRoot

end Stencil.Heap
