import Stencil.Proofs.Discovery.Coverage

/-!
Discovery is exact. Every placeholder is read at its path, no path of one is the
path of another or the beginning of it, and every entry other than a container
that some route ends at is a placeholder. A route that passes no container twice
is the path of a placeholder itself.
-/

namespace Stencil.Heap

variable {heap : Heap} {region : Set Handle}

/-- The recursion finds no two placeholders on one path. Below different entries, paths
differ in their first segments. -/
theorem nodup_paths (heap : Heap) (accepts : Value → Bool) (ancestors : List Handle)
    (value : Value) :
    ((heap.placeholdersBelow accepts ancestors value).map Placeholder.path).Nodup := by
  fun_induction placeholdersBelow heap accepts ancestors value with
  | case1 ancestors handle hOpen => exact List.nodup_nil
  | case2 ancestors handle hOpen hAccepts => exact List.nodup_singleton _
  | case3 ancestors handle hOpen hAccepts hCell => exact List.nodup_nil
  | case4 ancestors handle hOpen hAccepts cell hCell ih =>
      rw [List.map_flatMap, List.nodup_flatMap]
      constructor
      · intro entry hEntry
        have hPaths : ((heap.placeholdersBelow accepts (handle :: ancestors) entry.2).map
              (Placeholder.under [entry.1])).map Placeholder.path =
            ((heap.placeholdersBelow accepts (handle :: ancestors) entry.2).map
              Placeholder.path).map (entry.1 :: ·) := by
          rw [List.map_map, List.map_map]
          rfl
        rw [hPaths]
        exact (ih entry).map fun _ _ hSame => (List.cons.inj hSame).2
      · refine (List.pairwise_map.mp cell.nodup_segments).imp fun hNe => ?_
        intro path hFirst hSecond
        simp only [List.mem_map] at hFirst hSecond
        obtain ⟨_, ⟨first, -, rfl⟩, rfl⟩ := hFirst
        obtain ⟨_, ⟨second, -, rfl⟩, hSame⟩ := hSecond
        exact hNe (List.cons.inj hSame).1.symm
  | case5 ancestors scalar hScalar hAccepts => exact List.nodup_singleton _
  | case6 ancestors scalar hScalar hAccepts => exact List.nodup_nil

/-- A placeholder is at the end of a route that passes no container twice. -/
theorem exists_route_of_mem_discover {template : Value} {placeholder : Placeholder}
    (h : placeholder ∈ heap.discover template) :
    ∃ passed, Route heap template passed placeholder.path placeholder.value ∧ passed.Nodup := by
  rw [discover, discoverWith_eq, mem_placeholdersBelow_iff] at h
  obtain ⟨-, passed, route, hNodup, -⟩ := h
  exact ⟨passed, route, hNodup⟩

/-- There are no placeholders below a placeholder. -/
theorem path_eq_of_append {template : Value} {first second : Placeholder} {back : Path}
    (hFirst : first ∈ heap.discover template) (hSecond : second ∈ heap.discover template)
    (hPath : second.path = first.path ++ back) : first.path = second.path := by
  obtain ⟨_, shorter, -⟩ := exists_route_of_mem_discover hFirst
  obtain ⟨_, longer, -⟩ := exists_route_of_mem_discover hSecond
  rw [hPath] at longer
  obtain ⟨_, _, middle, -, front, rest⟩ := longer.exists_middle
  obtain ⟨-, hMiddle⟩ := shorter.unique front
  have hScalar := isContainer_of_mem_discover hFirst
  rw [hMiddle] at hScalar
  cases rest with
  | nil => rw [hPath, List.append_nil]
  | cons => cases hScalar

/-- What discovery finds in a template, and where. -/
structure Exact (heap : Heap) (template : Value) : Prop where
  /-- A placeholder is what its path leads to, and no container. -/
  read : ∀ placeholder ∈ heap.discover template,
    heap.getPath template placeholder.path = placeholder.value ∧
      placeholder.value.isContainer = false
  /-- Its path passes no container twice. -/
  simple : ∀ placeholder ∈ heap.discover template, ∃ passed,
    Route heap template passed placeholder.path placeholder.value ∧ passed.Nodup
  /-- No two placeholders have one path. -/
  nodup : ((heap.discover template).map Placeholder.path).Nodup
  /-- No path of a placeholder is the beginning of a longer one. -/
  apart : ∀ first ∈ heap.discover template, ∀ second ∈ heap.discover template,
    first.path <+: second.path → first.path = second.path
  /-- An entry other than a container at the end of any route, of any length, is
  a placeholder whose path leads to this entry. -/
  complete : ∀ passed path handle segment target,
    Route heap template passed path (.container handle) → heap.Holds ⟨handle, segment⟩ target →
      target.isContainer = false →
        ∃ placeholder ∈ heap.discover template, placeholder.value = target ∧
          heap.slot? template placeholder.path = some ⟨handle, segment⟩
  /-- If the route passes no container twice, it is the path of the placeholder. -/
  direct : ∀ passed path handle segment target,
    Route heap template passed path (.container handle) → heap.Holds ⟨handle, segment⟩ target →
      target.isContainer = false → (passed ++ [handle]).Nodup →
        ⟨path ++ [segment], target⟩ ∈ heap.discover template

/-- Discovery finds every entry other than a container, each of them where it is
and on no path twice, through sharing and cycles. -/
theorem exact_discover {template : Value} (hHeap : heap.WellFormed)
    (hTemplate : template.Within heap.handles) : Exact heap template where
  read := fun _ hMem =>
    ⟨getPath_of_mem_discover hHeap.region_handles hTemplate hMem, isContainer_of_mem_discover hMem⟩
  simple := fun _ hMem => exists_route_of_mem_discover hMem
  nodup := by
    rw [discover, discoverWith_eq]
    exact nodup_paths heap _ [] template
  apart := by
    rintro first hFirst second hSecond ⟨back, hPath⟩
    exact path_eq_of_append hFirst hSecond hPath.symm
  complete := by
    intro passed path handle segment target route hHolds hTarget
    obtain ⟨path', hSlot, hMem⟩ := exists_mem_discover hHeap.region_handles hTemplate
      ⟨path, route.getPath_eq hHeap.region_handles hTemplate⟩ hHolds hTarget
    exact ⟨_, hMem, rfl, hSlot⟩
  direct := by
    intro passed path handle segment target route hHolds hTarget hNodup
    obtain ⟨cell, hCell, hEntry⟩ := hHolds
    rw [discover, discoverWith_eq, mem_placeholdersBelow_iff]
    exact ⟨hTarget, passed ++ [handle], route.concat hCell hEntry, hNodup, by simp⟩

/-- Two containers that hold one another, one of them twice. -/
def knotted : Heap where
  cells := #[
    .object (.ofList [("name", .text "who"), ("left", .container 1), ("right", .container 1)]),
    .array #[.null, .container 0, .text "first", .container 1]]

theorem exact_knotted :
    knotted.WellFormed ∧ (Value.container 0).Within knotted.handles ∧
      Exact knotted (.container 0) :=
  ⟨by decide, Value.within_container.mpr (by decide : 0 < knotted.size),
    exact_discover (by decide) (Value.within_container.mpr (by decide : 0 < knotted.size))⟩

end Stencil.Heap
