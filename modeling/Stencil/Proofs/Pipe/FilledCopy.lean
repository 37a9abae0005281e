import Stencil.Proofs.Pipe.CallableFree

/-!
What a callable-free pipe makes: a copy of the output template, with its sharing
and its cycles, in which every text and every number has been replaced by a
binding. Discovery does not follow a cycle twice and meets shared containers
more than once, but every slot is on some route that it follows.
-/

namespace Stencil.Pipe

variable {Memory : Type} {behaviour : Behaviour Memory} {source : Value} {world : World Memory}
  {pipe : Pipe}

namespace Filling

variable {filling : Filling Memory} {roots : Memory → Set Handle} {filled : Slot → Option Value}

/-- No slot has been missed: each has been filled with the answer to a
placeholder of its value, if there was an answer. The placeholder of a slot that has
not been filled is inert. -/
theorem Filled.exists_turn (h : filling.Filled roots filling.placeholders filled)
    (hApart : filling.Apart roots) (slot : Slot) {value : Value}
    (hReaches : filling.start.heap.Reaches (.container filling.root) slot.handle)
    (hHolds : filling.start.heap.Holds slot value) (hValue : value.isContainer = false) :
    ∃ done path, filled slot = (filling.turn done ⟨path, value⟩).1 := by
  have hClosed := hApart.skeleton.closed
  have hRoot := Value.within_container.mpr hApart.root_mem
  have hSlotMem := hClosed.mem_of_reaches hRoot hReaches
  cases hFilled : filled slot with
  | some found =>
      obtain ⟨before, ⟨path, last⟩, rest, hSplit, hLast, -, hAnswer⟩ :=
        h.answered slot found hFilled
      have hMem : ⟨path, last⟩ ∈ filling.placeholders := by
        rw [hSplit]
        exact List.mem_append_right _ List.mem_cons_self
      obtain ⟨lastSlot, hLastSlot, -, hLastHolds, -⟩ := hApart.exists_slot hMem
      obtain rfl := Option.some.inj (hLastSlot.symm.trans hLast)
      obtain rfl : last = value := hLastHolds.unique hHolds hClosed hSlotMem
      exact ⟨before, path, hAnswer.symm⟩
  | none =>
      obtain ⟨path, hSlot, hMem⟩ := Heap.exists_mem_discover hClosed hRoot hReaches hHolds hValue
      refine ⟨[], path, ?_⟩
      by_contra hAnswer
      refine h.complete ⟨path, value⟩ hMem (fun hInert => hAnswer ?_) slot hSlot hFilled
      exact (answer_eq_none_iff.mpr hInert).symm

/-- Where a path leads to a scalar of the template, it leads to the answer to a
placeholder of this value, or to the scalar where there was no answer. -/
theorem Filled.getPath_scalar (h : filling.Filled roots filling.placeholders filled)
    (hApart : filling.Apart roots) {path : Path} {value : Value}
    (hPath : filling.start.heap.getPath (.container filling.root) path = value)
    (hValue : value.isContainer = false) (hNull : value ≠ .null) :
    ∃ done other, (filling.after filling.placeholders).2.heap.getPath
        (filling.after filling.placeholders).1 path =
      (filling.turn done ⟨other, value⟩).1.getD value := by
  have hRoot := Value.within_container.mpr hApart.root_mem
  rcases List.eq_nil_or_concat path with rfl | ⟨front, segment, rfl⟩
  · rw [← hPath] at hValue
    cases hValue
  · rw [List.concat_eq_append] at hPath ⊢
    rw [Heap.getPath_concat] at hPath
    obtain ⟨parent, cell, hParent, hCell, hGet⟩ := Heap.exists_entry_of_get hPath hNull
    have hReaches : filling.start.heap.Reaches (.container filling.root) parent := ⟨front, hParent⟩
    obtain ⟨done, other, hFilled⟩ :=
      h.exists_turn hApart ⟨parent, cell.canonical segment⟩ hReaches
        (Heap.exists_holds_of_get? hCell hGet) hValue
    have hSkeleton := h.kept.skeleton
    have hMem := hSkeleton.closed.mem_of_reaches hRoot hReaches
    refine ⟨done, other, ?_⟩
    rw [h.result, Heap.getPath_concat, hSkeleton.getPath_container hApart.root_mem hParent,
      hSkeleton.get_eq hMem hCell, hGet, Option.map_some, Option.getD_some,
      Heap.overlay_of_not_isContainer _ _ _ _ hValue, hFilled]

/-- Where a path leads to a container of the template, it leads to its place,
with entries under the same segments, and null where there was null. -/
theorem Filled.exists_cell (h : filling.Filled roots filling.placeholders filled)
    (hApart : filling.Apart roots) {handle : Handle}
    (hReaches : filling.start.heap.Reaches (.container filling.root) handle) :
    ∃ cell copy, filling.start.heap.cell? handle = some cell ∧
      (filling.after filling.placeholders).2.heap.cell? (filling.place handle) = some copy ∧
      copy.kind = cell.kind ∧ copy.entries.map Prod.fst = cell.entries.map Prod.fst ∧
      ∀ segment, (segment, .null) ∈ cell.entries → (segment, .null) ∈ copy.entries := by
  have hSkeleton := h.kept.skeleton
  have hMem := hSkeleton.closed.mem_of_reaches (Value.within_container.mpr hApart.root_mem) hReaches
  obtain ⟨cell, hCell⟩ := hSkeleton.closed.exists_cell? hMem
  have hCopied := hSkeleton.copied handle hMem
  rw [hCell, Option.map_some] at hCopied
  refine ⟨cell, _, hCell, hCopied, Cell.kind_mapEntries _ cell, ?_, ?_⟩
  · rw [Cell.entries_mapEntries, List.map_map]
    rfl
  · intro segment hNull
    obtain ⟨done, path, hTurn⟩ :=
      h.exists_turn hApart ⟨handle, segment⟩ hReaches ⟨cell, hCell, hNull⟩ rfl
    rw [Cell.entries_mapEntries, List.mem_map]
    refine ⟨(segment, .null), hNull, ?_⟩
    rw [Heap.overlay_of_not_isContainer _ _ _ _ rfl, hTurn]
    rfl

end Filling

/-- A copy of a template in which the texts and the numbers have been replaced
by bindings, and nothing else. Paths may have any length and go round cycles. -/
structure FilledCopy (bindings : Bindings) (before : Heap) (template : Value) (after : Heap)
    (result : Value) : Prop where
  /-- Where the template has a text, the result has its binding. -/
  text : ∀ path name, before.getPath template path = .text name →
    after.getPath result path = bindings.get (.key name)
  /-- Where the template has a number, the result has its binding. -/
  number : ∀ path number, before.getPath template path = .number number →
    after.getPath result path = bindings.get (.ofNumber number)
  /-- Booleans are as they were. -/
  bool : ∀ path flag, before.getPath template path = .bool flag →
    after.getPath result path = .bool flag
  /-- Where the template has a container, the result has a new one of the same
  kind, with entries under the same segments in the same order. Nulls are as
  they were. -/
  container : ∀ path handle, before.getPath template path = .container handle →
    ∃ copy cell filled, after.getPath result path = .container copy ∧ before.size ≤ copy ∧
      before.cell? handle = some cell ∧ after.cell? copy = some filled ∧ filled.kind = cell.kind ∧
      filled.entries.map Prod.fst = cell.entries.map Prod.fst ∧
      ∀ segment, (segment, .null) ∈ cell.entries → (segment, .null) ∈ filled.entries
  /-- Two paths lead to one container of the result exactly when they lead to
  one container of the template. -/
  sharing : ∀ path other handle otherHandle, before.getPath template path = .container handle →
    before.getPath template other = .container otherHandle →
    (after.getPath result path = after.getPath result other ↔ handle = otherHandle)

/-- Every placeholder of a callable-free template is filled, through sharing and
cycles, and nothing else is changed in the copy. -/
theorem filledCopy_apply (behaviour : Behaviour Memory) (world : World Memory)
    (h : pipe.CallableFree world.heap source) (hOutput : pipe.output.isContainer) :
    FilledCopy (Extraction.bindings behaviour pipe.config pipe.input source world).1 world.heap
      pipe.output (pipe.apply behaviour source world).2.heap
      (pipe.apply behaviour source world).1 := by
  obtain ⟨root, hRoot⟩ := Value.isContainer_iff.mp hOutput
  obtain ⟨hApart, hApply, filled, hFilled⟩ := h.exists_filled behaviour hRoot
  have hBindings := Extraction.bindings_silent behaviour source h.input_free
    h.wellFormed.region_handles h.input_within pipe.config
  have hSame := h.agreeOn_blank .silent
  have hTemplate := fun path =>
    hSame.getPath h.wellFormed.region_handles h.output_within path
  have hSkeleton := hFilled.kept.skeleton
  have hWithin := Value.within_container.mpr hApart.root_mem
  rw [hRoot] at hTemplate ⊢
  rw [hApply, hBindings]
  refine ⟨?_, ?_, ?_, ?_, ?_⟩
  · intro path name hPath
    obtain ⟨done, other, hRead⟩ :=
      hFilled.getPath_scalar hApart ((hTemplate path).trans hPath) rfl (by simp)
    exact hRead
  · intro path number hPath
    obtain ⟨done, other, hRead⟩ :=
      hFilled.getPath_scalar hApart ((hTemplate path).trans hPath) rfl (by simp)
    exact hRead
  · intro path flag hPath
    obtain ⟨done, other, hRead⟩ :=
      hFilled.getPath_scalar hApart ((hTemplate path).trans hPath) rfl (by simp)
    exact hRead
  · intro path handle hPath
    have hStart := (hTemplate path).trans hPath
    obtain ⟨cell, copy, hCell, hCopy, hShape⟩ := hFilled.exists_cell hApart ⟨path, hStart⟩
    have hOld : handle < world.heap.size := by
      refine h.wellFormed.region_handles.mem_of_reaches h.output_within ⟨path, ?_⟩
      rw [hRoot]
      exact hPath
    refine ⟨_, cell, copy, ?_, ?_, (hSame handle hOld).symm.trans hCell, hCopy, hShape⟩
    · rw [hFilled.result]
      exact hSkeleton.getPath_container hApart.root_mem hStart
    · exact Nat.le_trans (Nat.le_of_lt h.sound.size_lt) (Heap.size_le_copyOf _ _ handle)
  · intro path other handle otherHandle hPath hOther
    have hStart := (hTemplate path).trans hPath
    have hOtherStart := (hTemplate other).trans hOther
    rw [hFilled.result, hSkeleton.getPath_container hApart.root_mem hStart,
      hSkeleton.getPath_container hApart.root_mem hOtherStart, Value.container.injEq]
    constructor
    · exact hSkeleton.injective _ (hSkeleton.closed.mem_of_reaches hWithin ⟨path, hStart⟩) _
        (hSkeleton.closed.mem_of_reaches hWithin ⟨other, hOtherStart⟩)
    · exact fun hSameHandle => congrArg _ hSameHandle

/-- Templates that share containers and hold one another in cycles are filled
like any others. -/
theorem filledCopy_tangled :
    tangledPipe.CallableFree tangled (.container 0) ∧ tangledPipe.output.isContainer ∧
      FilledCopy
        (Extraction.bindings .silent tangledPipe.config tangledPipe.input (.container 0)
          ⟨tangled, ()⟩).1
        tangled (.container 3) (tangledPipe.apply .silent (.container 0) ⟨tangled, ()⟩).2.heap
        (tangledPipe.apply .silent (.container 0) ⟨tangled, ()⟩).1 :=
  ⟨tangledPipe_callableFree 0 (by decide), rfl,
    filledCopy_apply .silent ⟨tangled, ()⟩ (tangledPipe_callableFree 0 (by decide)) rfl⟩

end Stencil.Pipe
