import Mathlib.Order.BooleanAlgebra.Set
import Stencil.Proofs.Pipe.CallableFree
import Stencil.Proofs.Pipe.Isolation

/-!
The frame of extraction and of pipes. Without callables, no container that
exists is changed, whatever the templates and the source share. What can be
reached from the result is new or belongs to the source.
-/

namespace Stencil.Pipe

variable {Memory : Type} {behaviour : Behaviour Memory} {source : Value} {world : World Memory}
  {pipe : Pipe} {root : Handle}

/-- A filled skeleton refers to its own containers and to what it has been
filled with. -/
theorem Filling.Filled.region_union {filling : Filling Memory} {roots : Memory → Set Handle}
    {done : List Placeholder} {filled : Slot → Option Value} {seen : Set Handle}
    (h : filling.Filled roots done filled) (hApart : filling.Apart roots)
    (hSeen : (filling.after done).2.heap.Region seen)
    (hFilled : ∀ slot value, filled slot = some value → value.Within seen) :
    (filling.after done).2.heap.Region (seen ∪ filling.places) := by
  have hSkeleton := h.kept.skeleton
  refine ⟨?_, ?_, ?_⟩
  · rintro handle (hOld | hPlace)
    · exact hSeen.allocated hOld
    · exact Nat.lt_of_lt_of_le (hApart.allocated hPlace) h.kept.size_le
  · rintro handle (hOld | ⟨original, hOriginal, rfl⟩) cell hCell value hValue
    · exact (hSeen.closed handle hOld cell hCell value hValue).mono Set.subset_union_left
    · obtain ⟨found, hFound⟩ := hSkeleton.closed.exists_cell? hOriginal
      rw [hSkeleton.copied original hOriginal, hFound, Option.map_some] at hCell
      rw [← Option.some.inj hCell, Cell.values_eq_map_entries, Cell.entries_mapEntries] at hValue
      simp only [List.map_map, List.mem_map, Function.comp_apply] at hValue
      obtain ⟨entry, hEntry, rfl⟩ := hValue
      cases hKind : entry.2.isContainer with
      | true =>
          obtain ⟨child, hChild⟩ := Value.isContainer_iff.mp hKind
          have hWithin := hSkeleton.closed.closed original hOriginal found hFound _
            (Cell.mem_values_of_mem_entries hEntry)
          rw [hChild] at hWithin ⊢
          exact Value.within_container.mpr
            (.inr (Set.mem_image_of_mem _ (Value.within_container.mp hWithin)))
      | false =>
          rw [Heap.overlay_of_not_isContainer _ _ _ _ hKind]
          cases hAnswer : filled ⟨original, entry.1⟩ with
          | none => exact Value.within_of_not_isContainer hKind _
          | some value => exact (hFilled _ value hAnswer).mono Set.subset_union_left
  · rintro handle (hOld | ⟨original, hOriginal, rfl⟩) cell hCell
    · exact hSeen.addressable handle hOld cell hCell
    · obtain ⟨found, hFound⟩ := hSkeleton.closed.exists_cell? hOriginal
      rw [hSkeleton.copied original hOriginal, hFound, Option.map_some] at hCell
      rw [← Option.some.inj hCell]
      exact Cell.addressable_mapEntries.mpr
        (hSkeleton.closed.addressable original hOriginal found hFound)

/-- A filled skeleton and all that is outside of it are the whole heap. -/
theorem Filling.Filled.wellFormed {filling : Filling Memory} {roots : Memory → Set Handle}
    {done : List Placeholder} {filled : Slot → Option Value}
    (h : filling.Filled roots done filled) (hApart : filling.Apart roots)
    (hFilled : ∀ slot value, filled slot = some value →
      value.Within (filling.start.heap.handles \ filling.places)) :
    (filling.after done).2.heap.WellFormed := by
  have hHandles : filling.start.heap.handles ⊆ (filling.after done).2.heap.handles := fun _ hLt =>
    Nat.lt_of_lt_of_le hLt h.kept.size_le
  have hRegion := h.region_union hApart h.kept.view.closed fun slot value hValue =>
    (hFilled slot value hValue).mono fun _ hMem => ⟨hHandles hMem.1, hMem.2⟩
  rw [Set.sdiff_union_of_subset (hApart.allocated.trans hHandles)] at hRegion
  exact Heap.wellFormed_of_region hRegion

/-- What is filled in while nothing is called is a binding. -/
theorem answer_silent_within {bindings : Bindings} {extracted value : Value} {seen : Set Handle}
    (hBindings : bindings.Within seen) {placeholder : Placeholder} {world : World Memory}
    (h : (answer .silent bindings extracted source placeholder world).1 = some value) :
    value.Within seen := by
  unfold answer at h
  cases hRequest : placeholder.request with
  | name name =>
      rw [hRequest] at h
      rw [← Option.some.inj h]
      exact Bindings.within_get hBindings _
  | position number =>
      rw [hRequest] at h
      rw [← Option.some.inj h]
      exact Bindings.within_get hBindings _
  | function id =>
      rw [hRequest] at h
      rw [← Option.some.inj h]
      exact Value.within_null
  | inert =>
      rw [hRequest] at h
      cases h

/-- What a callable-free extraction and a callable-free pipe do to the heap, and
what their results can reach. Existing containers are those from before. -/
structure Framed (pipe : Pipe) (source : Value) (before : World Memory)
    (extraction final : Value × World Memory) : Prop where
  /-- Extraction changes no existing container. -/
  extraction_frame : Heap.AgreeOn before.heap.handles before.heap extraction.2.heap
  /-- The extracted value is a new container. -/
  extraction_new : ∃ handle, extraction.1 = .container handle ∧ before.heap.size ≤ handle ∧
    handle < extraction.2.heap.size
  /-- The pipe changes no existing container. -/
  frame : Heap.AgreeOn before.heap.handles before.heap final.2.heap
  /-- The result is a new container if the output template is a container. -/
  new : pipe.output.isContainer → ∃ handle, final.1 = .container handle ∧
    before.heap.size ≤ handle ∧ handle < final.2.heap.size
  /-- What the result reaches is new or reached from the source. -/
  reaches : ∀ handle, final.2.heap.Reaches final.1 handle →
    before.heap.size ≤ handle ∨ before.heap.Reaches source handle
  /-- The result reaches a container of a template only where the source does. -/
  templates : ∀ handle, before.heap.Reaches pipe.input handle ∨ before.heap.Reaches pipe.output handle →
    final.2.heap.Reaches final.1 handle → before.heap.Reaches source handle

/-- Filling changes no existing container. -/
theorem CallableFree.agreeOn_apply (behaviour : Behaviour Memory)
    (h : pipe.CallableFree world.heap source) :
    Heap.AgreeOn world.heap.handles world.heap (pipe.apply behaviour source world).2.heap := by
  rw [h.apply_eq behaviour]
  cases hKind : pipe.output.isContainer with
  | true =>
      obtain ⟨root, hOutput⟩ := Value.isContainer_iff.mp hKind
      obtain ⟨-, hApply, filled, hFilled⟩ := h.exists_filled .silent hOutput
      have hNone := h.slots_request_ne .silent
      rw [slots_eq_placeholders .silent source hOutput] at hNone
      rw [hApply]
      intro handle hLt
      rw [(hFilled.frame hNone).2 handle, ← h.agreeOn_blank .silent handle hLt]
      · rfl
      · rintro ⟨original, -, hCopy⟩
        exact Nat.not_lt.mpr (hCopy ▸ Heap.size_le_copyOf _ _ original) (h.subset_handles hLt)
  | false =>
      rw [Pipe.apply_eq, stage_of_not_isContainer .silent source _ hKind, answer_world]
      · exact h.agreeOn_blank .silent
      · refine h.slots_request_ne .silent _ ?_
        rw [slots_of_not_isContainer _ hKind]
        exact List.mem_singleton_self _

/-- All that can be reached from the result of a callable-free pipe: what the
source reaches, and containers of the copy. -/
theorem CallableFree.exists_region (behaviour : Behaviour Memory)
    (h : pipe.CallableFree world.heap source) :
    ∃ places : Set Handle, (∀ handle ∈ places, world.heap.size ≤ handle) ∧
      (pipe.apply behaviour source world).2.heap.Region
        ({handle | world.heap.Reaches source handle} ∪ places) ∧
      (pipe.apply behaviour source world).1.Within
        ({handle | world.heap.Reaches source handle} ∪ places) ∧
      (pipe.output.isContainer →
        ∃ handle ∈ places, (pipe.apply behaviour source world).1 = .container handle) := by
  have hSeen := h.wellFormed.region_reaches h.source_within
  have hSource : source.Within {handle | world.heap.Reaches source handle} := fun handle hHandle =>
    ⟨[], Value.mem_handle?_iff.mp hHandle⟩
  have hBindings := Extraction.bindings_within .silent source h.input_free
    h.wellFormed.region_handles h.input_within pipe.config hSeen hSource
  have hFinal : (pipe.apply behaviour source world).2.heap.Region
      {handle | world.heap.Reaches source handle} :=
    hSeen.congr fun handle hMem => h.agreeOn_apply behaviour handle (hSeen.allocated hMem)
  cases hKind : pipe.output.isContainer with
  | true =>
      obtain ⟨root, hOutput⟩ := Value.isContainer_iff.mp hKind
      obtain ⟨hApart, hApply, filled, hFilled⟩ := h.exists_filled behaviour hOutput
      have hRoot : (pipe.filling .silent source (pipe.prepare .silent source world) root).place root ∈
          (pipe.filling .silent source (pipe.prepare .silent source world) root).places :=
        Set.mem_image_of_mem _ hApart.root_mem
      rw [hApply] at hFinal ⊢
      rw [hFilled.result]
      refine ⟨_, ?_, hFilled.region_union hApart hFinal ?_, ?_, fun _ => ⟨_, hRoot, rfl⟩⟩
      · rintro _ ⟨original, -, rfl⟩
        exact Nat.le_trans (Nat.le_of_lt h.sound.size_lt) (Heap.size_le_copyOf _ _ original)
      · intro slot value hValue
        obtain ⟨before, last, rest, -, -, -, hAnswer⟩ := hFilled.answered slot value hValue
        exact answer_silent_within hBindings hAnswer
      · exact Value.within_container.mpr (.inr hRoot)
  | false =>
      refine ⟨∅, by simp, by rwa [Set.union_empty], ?_, by simp⟩
      rw [h.apply_eq behaviour, Pipe.apply_eq, stage_of_not_isContainer .silent source _ hKind,
        Set.union_empty]
      cases hAnswer : (answer .silent (pipe.prepare .silent source world).bindings
        (pipe.prepare .silent source world).extracted source ⟨[], pipe.output⟩
        (pipe.blank (pipe.prepare .silent source world)).2).1 with
      | none => exact Value.within_of_not_isContainer hKind _
      | some value => exact answer_silent_within hBindings hAnswer

/-- A callable-free pipe leaves a well-formed heap behind, and its result is in
it. -/
theorem CallableFree.wellFormed_apply (behaviour : Behaviour Memory)
    (h : pipe.CallableFree world.heap source) :
    (pipe.apply behaviour source world).2.heap.WellFormed ∧
      (pipe.apply behaviour source world).1.Within
        (pipe.apply behaviour source world).2.heap.handles := by
  obtain ⟨places, -, hReached, hResult, -⟩ := h.exists_region behaviour
  refine ⟨?_, hResult.mono hReached.allocated⟩
  cases hKind : pipe.output.isContainer with
  | true =>
      obtain ⟨root, hOutput⟩ := Value.isContainer_iff.mp hKind
      obtain ⟨hApart, hApply, filled, hFilled⟩ := h.exists_filled behaviour hOutput
      have hBindings := Extraction.bindings_within .silent source h.input_free
        h.wellFormed.region_handles h.input_within pipe.config h.wellFormed.region_handles
        h.source_within
      rw [hApply]
      refine hFilled.wellFormed hApart fun slot value hValue => ?_
      obtain ⟨before, last, rest, -, -, -, hAnswer⟩ := hFilled.answered slot value hValue
      rw [outside_places]
      exact answer_silent_within (hBindings.mono h.subset_handles) hAnswer
  | false =>
      have hHeap : (pipe.apply behaviour source world).2.heap =
          (pipe.prepare .silent source world).world.heap := by
        rw [h.apply_eq behaviour, Pipe.apply_eq, stage_of_not_isContainer .silent source _ hKind,
          answer_world]
        · exact Heap.deepCopy_heap_of_not_isContainer hKind
        · refine h.slots_request_ne .silent _ ?_
          rw [slots_of_not_isContainer _ hKind]
          exact List.mem_singleton_self _
      rw [hHeap]
      exact h.sound.wellFormed

/-- Neither extraction nor a pipe changes what exists, and both results are new,
however the templates and the source are shared among one another. -/
theorem framed_apply (behaviour : Behaviour Memory) (world : World Memory)
    (h : pipe.CallableFree world.heap source) :
    Framed pipe source world
      (Extractor.apply ⟨pipe.input, pipe.config⟩ behaviour source world)
      (pipe.apply behaviour source world) := by
  obtain ⟨places, hPlaces, hRegion, hWithin, hRoot⟩ := h.exists_region behaviour
  have hStored : (Extractor.apply ⟨pipe.input, pipe.config⟩ behaviour source world) =
      ((pipe.prepare behaviour source world).extracted, (pipe.prepare behaviour source world).world) :=
    rfl
  have hReaches : ∀ handle,
      (pipe.apply behaviour source world).2.heap.Reaches (pipe.apply behaviour source world).1 handle →
        world.heap.size ≤ handle ∨ world.heap.Reaches source handle := by
    intro handle hReaches
    rcases hRegion.mem_of_reaches hWithin hReaches with hSource | hPlace
    · exact .inr hSource
    · exact .inl (hPlaces handle hPlace)
  refine ⟨?_, ?_, h.agreeOn_apply behaviour, ?_, hReaches, ?_⟩
  · rw [hStored, h.world_prepare behaviour]
    exact fun handle hLt => Heap.cell?_alloc_of_lt hLt
  · have hWorld := Extraction.bindings_world behaviour source h.input_free
      h.wellFormed.region_handles h.input_within pipe.config
    refine ⟨world.heap.size, ?_, Nat.le_refl _, ?_⟩
    · exact congrArg (fun after : World Memory => Value.container after.heap.size) hWorld
    · rw [hStored, h.world_prepare behaviour, Heap.size_alloc]
      exact Nat.lt_succ_self _
  · intro hKind
    obtain ⟨handle, hMem, hResult⟩ := hRoot hKind
    refine ⟨handle, hResult, hPlaces handle hMem, hRegion.allocated (.inr hMem)⟩
  · intro handle hTemplate hResult
    have hOld : handle < world.heap.size := by
      rcases hTemplate with hInput | hOutput
      · exact h.wellFormed.region_handles.mem_of_reaches h.input_within hInput
      · exact h.wellFormed.region_handles.mem_of_reaches h.output_within hOutput
    rcases hReaches handle hResult with hNew | hSource
    · exact absurd hOld (Nat.not_lt.mpr hNew)
    · exact hSource

/-- The source may be the output template itself. -/
theorem framed_tangled :
    tangledPipe.CallableFree tangled tangledPipe.output ∧
      Framed tangledPipe tangledPipe.output ⟨tangled, ()⟩
        (Extractor.apply ⟨tangledPipe.input, tangledPipe.config⟩ .silent tangledPipe.output
          ⟨tangled, ()⟩)
        (tangledPipe.apply .silent tangledPipe.output ⟨tangled, ()⟩) :=
  ⟨tangledPipe_callableFree 3 (by decide),
    framed_apply .silent ⟨tangled, ()⟩ (tangledPipe_callableFree 3 (by decide))⟩

end Stencil.Pipe
