import Stencil.Proofs.Pipe.Composition

/-!
Pipes with one template on both sides. Such a pipe is a projection: run over its
own result, it makes that result again. Where several placeholders are bound to
one segment, the first run leaves each of them what the last has found, so in
the second run they all find one value. A position that may not be filled reads
as null in both runs.
-/

namespace Stencil

variable {Memory : Type}

theorem Placeholder.value_of_position {placeholder : Placeholder} {number : Number}
    (h : placeholder.request = .position number) : placeholder.value = .number number := by
  unfold request at h
  split at h
  all_goals cases h
  assumption

/-- What becomes of a scalar depends on nothing but what segments read as. -/
theorem Bindings.image_congr {bindings other : Bindings}
    (h : ∀ segment, other.get segment = bindings.get segment) (place place' : Handle → Handle)
    {value : Value} (hScalar : value.isContainer = false) :
    other.image place' value = bindings.image place value := by
  cases value with
  | text name => exact h _
  | number number => exact h _
  | container => cases hScalar
  | _ => rfl

namespace Pipe

/-- A placeholder is filled with its image, even where it is null. -/
theorem Image.getPath_placeholder {bindings : Bindings} {place : Handle → Handle}
    {before after : Heap} {template result : Value} {region : Set Handle}
    (h : Image bindings place before template after result) (hRegion : before.Region region)
    (hTemplate : template.Within region) {placeholder : Placeholder}
    (hMem : placeholder ∈ before.discover template) :
    after.getPath result placeholder.path = bindings.image place placeholder.value := by
  cases hKind : template.isContainer with
  | false =>
      rw [Heap.discover_of_not_isContainer hKind, List.mem_singleton] at hMem
      subst hMem
      exact h.result_eq
  | true =>
      obtain ⟨root, rfl⟩ := Value.isContainer_iff.mp hKind
      obtain ⟨slot, hSlot, -⟩ :=
        Heap.exists_slot_of_mem_discover hRegion (Value.within_container.mp hTemplate) hMem
      obtain ⟨front, hPath, hParent⟩ := Heap.slot?_eq_some_iff.mp hSlot
      rw [← Heap.getPath_of_mem_discover hRegion hTemplate hMem, hPath, Heap.getPath_concat,
        h.getPath hParent Value.noConfusion, Bindings.image, h.get_eq hParent]

/-- A second result that is the first one over again, each in the heap in which
its run has ended. -/
structure Reproduced (before : Heap) (template : Value) (once twice : Value × World Memory) :
    Prop where
  /-- The results have the same shape, and the same scalars everywhere. -/
  same : SameResult before.handles before template once.2.heap once.1 twice.2.heap twice.1
  /-- Every placeholder has the same scalar or the same container in both. -/
  placeholder : ∀ placeholder ∈ before.discover template,
    twice.2.heap.getPath twice.1 placeholder.path = once.2.heap.getPath once.1 placeholder.path
  /-- The second run changes nothing that there was after the first. -/
  kept : Heap.AgreeOn once.2.heap.handles once.2.heap twice.2.heap

namespace CallableFree

variable {world : World Memory} {template source : Value} {config : Config}

/-- The result of a pipe with one template can be run through it again. -/
theorem again (behaviour : Behaviour Memory)
    (h : CallableFree ⟨template, template, config⟩ world.heap source) :
    CallableFree ⟨template, template, config⟩
      (apply ⟨template, template, config⟩ behaviour source world).2.heap
      (apply ⟨template, template, config⟩ behaviour source world).1 := by
  obtain ⟨hHeap, hResult⟩ := h.wellFormed_apply behaviour
  exact .of_agreeOn h.wellFormed.region_handles (h.agreeOn_apply behaviour) hHeap h.input_within
    h.output_within h.input_free h.output_free hResult

/-- What the template finds in the result of a pipe that it has filled reads as
what it has found in the source. -/
theorem get_bindings_again (behaviour : Behaviour Memory)
    (h : CallableFree ⟨template, template, config⟩ world.heap source) (segment : Segment) :
    (Extraction.bindings behaviour config template
        (apply ⟨template, template, config⟩ behaviour source world).1
        (apply ⟨template, template, config⟩ behaviour source world).2).1.get segment =
      (Extraction.bindings behaviour config template source world).1.get segment := by
  obtain ⟨place, -, hImage⟩ := h.exists_image behaviour
  have hRegion := h.wellFormed.region_handles
  have hFilled := fun placeholder =>
    @Image.getPath_placeholder _ _ _ _ _ _ _ hImage hRegion h.output_within placeholder
  rw [Extraction.bindings_eq (h.again behaviour).input_free
    (h.again behaviour).wellFormed.region_handles (h.again behaviour).input_within,
    (h.agreeOn_apply behaviour).discover hRegion h.input_within]
  refine Bindings.get_rebound config (Extraction.bindings_eq h.input_free hRegion h.input_within config)
    ?_ ?_ segment
  · intro placeholder hMem name hName
    rw [hFilled placeholder hMem, Placeholder.value_of_name hName]
    rfl
  · intro placeholder hMem number hNumber
    rw [hFilled placeholder hMem, Placeholder.value_of_position hNumber]
    rfl

end CallableFree

/-- A pipe with one template on both sides makes its own result again. The
template may hold anything but callables: texts and numbers of any kind, however
often, and shared containers and cycles. -/
theorem reproduced_apply (behaviour : Behaviour Memory) (world : World Memory)
    (template source : Value) (config : Config)
    (h : CallableFree ⟨template, template, config⟩ world.heap source) :
    Reproduced world.heap template (apply ⟨template, template, config⟩ behaviour source world)
      (applyThrough template template template config config behaviour source world) := by
  have hRegion := h.wellFormed.region_handles
  have hFirst := h.agreeOn_apply behaviour
  have hSecond := (h.again behaviour).agreeOn_apply behaviour
  have hHandles := (hRegion.congr hFirst).allocated
  obtain ⟨place, hNew, hImage⟩ := h.exists_image behaviour
  obtain ⟨place', hNew', hImage'⟩ := (h.again behaviour).exists_image behaviour
  replace hImage' := hImage'.congr hRegion h.output_within hFirst
  have hSame : ∀ value : Value, value.isContainer = false → _ := fun _ =>
    Bindings.image_congr (h.get_bindings_again behaviour) place place'
  have hWithin := Extraction.bindings_within behaviour source h.input_free hRegion h.input_within
    config hRegion h.source_within
  have hTwins : Twins _ _ place place' world.heap.handles world.heap template _ _ _ _ :=
    { image := hImage
      image' := hImage'
      region := hRegion
      agree := hFirst
      agree' := fun handle hMem => (hSecond handle (hHandles hMem)).trans (hFirst handle hMem)
      apart := fun handle hMem => Nat.not_lt.mpr (hNew handle) hMem
      apart' := fun handle hMem => Nat.not_lt.mpr (hNew' handle) (hHandles hMem)
      scalar := fun path hScalar =>
        ⟨(hSame _ hScalar).symm, Bindings.within_image hWithin place hScalar⟩ }
  refine ⟨hTwins.sameResult, ?_, hSecond⟩
  intro placeholder hMem
  have hOnce := hImage.getPath_placeholder hRegion h.output_within hMem
  have hTwice := hImage'.getPath_placeholder hRegion h.output_within hMem
  exact hTwice.trans ((hSame _ (Heap.isContainer_of_mem_discover hMem)).trans hOnce.symm)

/-- One half, a number that is no position. -/
def half : Number := .float ⟨false, 4503599627370496, 1021, by decide⟩

/-- A source, and a template that binds a name twice, a position that may be
filled, one that is beyond the usual bound and a fraction. It holds itself, and
one of its containers twice. -/
def mirrored : Heap where
  cells := #[
    .object (.ofList [("name", .text "Ada"), ("alias", .text "Countess"), ("tags", .container 1),
      ("self", .container 0)]),
    .array #[.text "first", .container 0, .null],
    .object (.ofList [("name", .text "who"), ("alias", .text "who"), ("tags", .container 3),
      ("again", .container 3), ("self", .container 2), ("flag", .bool true)]),
    .array #[.number (.ofNat 1), .number (.ofNat 70000), .number half, .null]]

/-- What is bound to no position, twice or as a fraction is reproduced. -/
theorem reproduced_mirrored :
    CallableFree ⟨.container 2, .container 2, .default⟩ mirrored (.container 0) ∧
      Reproduced mirrored (.container 2)
        (apply ⟨.container 2, .container 2, .default⟩ .silent (.container 0) ⟨mirrored, ()⟩)
        (applyThrough (.container 2) (.container 2) (.container 2) .default .default .silent
          (.container 0) ⟨mirrored, ()⟩) :=
  have h : CallableFree ⟨.container 2, .container 2, .default⟩ mirrored (.container 0) :=
    { wellFormed := by decide
      input_within := Value.within_container.mpr (by decide : 2 < mirrored.size)
      output_within := Value.within_container.mpr (by decide : 2 < mirrored.size)
      source_within := Value.within_container.mpr (by decide : 0 < mirrored.size)
      input_free := Heap.callableFree_of_forall (by decide) (by decide)
      output_free := Heap.callableFree_of_forall (by decide) (by decide) }
  ⟨h, reproduced_apply .silent ⟨mirrored, ()⟩ (.container 2) (.container 0) .default h⟩

end Pipe

end Stencil
