import Stencil.Proofs.Pipe.Preparation

/-!
Templates without callables. Their placeholders only read, so it makes no
difference what callables would do, and everything that exists when such a pipe
starts is as it was when it ends.
-/

namespace Stencil

variable {Memory : Type} {behaviour : Behaviour Memory} {source : Value} {world : World Memory}

/-- No path leads to a callable. -/
def Heap.CallableFree (heap : Heap) (template : Value) : Prop :=
  ∀ path id, heap.getPath template path ≠ .callable id

theorem Placeholder.value_of_request {placeholder : Placeholder} {id : CallableId}
    (h : placeholder.request = .function id) : placeholder.value = .callable id := by
  unfold request at h
  split at h
  all_goals cases h
  assumption

/-- Where no container holds a callable, no path leads to one. -/
theorem Heap.callableFree_of_forall {heap : Heap}
    (hCells : ∀ cell ∈ heap.cells, ∀ value ∈ cell.values, heap.kind value ≠ .callable)
    {template : Value} (hTemplate : heap.kind template ≠ .callable) :
    heap.CallableFree template := by
  have hPath : ∀ path, heap.kind (heap.getPath template path) ≠ .callable := by
    intro path
    induction path generalizing template with
    | nil => exact hTemplate
    | cons segment rest ih =>
        refine ih ?_
        by_cases hNull : heap.get template segment = .null
        · rw [hNull]
          exact Kind.noConfusion
        · obtain ⟨handle, cell, -, hCell, hGet⟩ := exists_entry_of_get rfl hNull
          exact hCells cell (Array.mem_of_getElem? hCell) _ (Cell.mem_values_of_get? hGet)
  intro path id hCallable
  exact hPath path (by rw [hCallable]; rfl)

/-- No path leads out of a region without callables to one. -/
theorem Heap.Region.callableFree {heap : Heap} {region : Set Handle} (h : heap.Region region)
    (hCells : ∀ handle ∈ region, ∀ cell, heap.cell? handle = some cell →
      ∀ value ∈ cell.values, heap.kind value ≠ .callable)
    {root : Handle} (hRoot : root ∈ region) : heap.CallableFree (.container root) := by
  intro path id hPath
  obtain rfl | ⟨front, segment, rfl⟩ := path.eq_nil_or_concat
  · cases hPath
  · rw [List.concat_eq_append, getPath_concat] at hPath
    obtain ⟨handle, cell, hParent, hCell, hGet⟩ := exists_entry_of_get hPath Value.noConfusion
    have hMem := h.mem_of_reaches (Value.within_container.mpr hRoot) ⟨front, hParent⟩
    exact hCells handle hMem cell hCell _ (Cell.mem_values_of_get? hGet) rfl

/-- A template without callables has no placeholder that calls one. -/
theorem Heap.CallableFree.request_ne {heap : Heap} {template : Value}
    (h : heap.CallableFree template) {region : Set Handle} (hRegion : heap.Region region)
    (hTemplate : template.Within region) :
    ∀ placeholder ∈ heap.discover template, ∀ id, placeholder.request ≠ .function id := by
  intro placeholder hMem id hRequest
  refine h placeholder.path id ?_
  rw [getPath_of_mem_discover hRegion hTemplate hMem, Placeholder.value_of_request hRequest]

namespace Extraction

theorem contribute_silent {placeholder : Placeholder} (h : ∀ id, placeholder.request ≠ .function id)
    (world : World Memory) :
    contribute behaviour source placeholder world = contribute .silent source placeholder world := by
  unfold contribute
  cases hRequest : placeholder.request with
  | function id => exact absurd hRequest (h id)
  | _ => rfl

/-- Where nothing is called, it makes no difference what callables do. -/
theorem contributions_silent {placeholders : List Placeholder}
    (h : ∀ placeholder ∈ placeholders, ∀ id, placeholder.request ≠ .function id)
    (world : World Memory) :
    contributions behaviour source placeholders world =
      contributions .silent source placeholders world := by
  induction placeholders generalizing world with
  | nil => rfl
  | cons placeholder rest ih =>
      rw [List.forall_mem_cons] at h
      rw [contributions_cons, contributions_cons, contribute_silent h.1, ih h.2]

theorem contributions_world {placeholders : List Placeholder}
    (h : ∀ placeholder ∈ placeholders, ∀ id, placeholder.request ≠ .function id)
    (world : World Memory) : (contributions behaviour source placeholders world).2 = world := by
  induction placeholders generalizing world with
  | nil => rfl
  | cons placeholder rest ih =>
      rw [List.forall_mem_cons] at h
      rw [contributions_cons]
      exact (ih h.2 _).trans (contribute_world h.1 world)

variable (behaviour source) {template : Value} {region : Set Handle}

/-- A callable-free template is extracted alike under every behaviour. -/
theorem bindings_silent (hFree : world.heap.CallableFree template)
    (hRegion : world.heap.Region region) (hTemplate : template.Within region) (config : Config) :
    bindings behaviour config template source world =
      bindings .silent config template source world := by
  rw [bindings, bindings, contributions_silent (hFree.request_ne hRegion hTemplate)]

/-- And nothing in the world changes by it. -/
theorem bindings_world (hFree : world.heap.CallableFree template)
    (hRegion : world.heap.Region region) (hTemplate : template.Within region) (config : Config) :
    (bindings behaviour config template source world).2 = world :=
  contributions_world (hFree.request_ne hRegion hTemplate) world

theorem bindings_within (hFree : world.heap.CallableFree template)
    (hRegion : world.heap.Region region) (hTemplate : template.Within region) (config : Config)
    {seen : Set Handle} (hSeen : world.heap.Region seen) (hSource : source.Within seen) :
    (bindings behaviour config template source world).1.Within seen := by
  have hView : world.View (fun _ => ∅) seen := ⟨hSeen, Set.empty_subset _⟩
  have hWorld := bindings_world .silent source hFree hRegion hTemplate config
  obtain ⟨-, hBindings⟩ :=
    confined_bindings Behaviour.silent_confined config template hView hSource
  rw [bindings_silent behaviour source hFree hRegion hTemplate]
  rwa [hWorld, Heap.grown_self] at hBindings

end Extraction

namespace Pipe

/-- What a callable-free pipe is run on: templates without callables and a
source, all of them in a well-formed heap. They may share containers. -/
structure CallableFree (pipe : Pipe) (heap : Heap) (source : Value) : Prop where
  wellFormed : heap.WellFormed
  input_within : pipe.input.Within heap.handles
  output_within : pipe.output.Within heap.handles
  source_within : source.Within heap.handles
  input_free : heap.CallableFree pipe.input
  output_free : heap.CallableFree pipe.output

/-- A heap in which a source and two templates share containers, and hold one
another in cycles. -/
def tangled : Heap where
  cells := #[
    .object (.ofList [("name", .text "Ada"), ("tags", .container 1)]),
    .array #[.text "first", .null, .container 0],
    .object (.ofList [("name", .text "who"), ("tags", .text "list"), ("self", .container 2)]),
    .object (.ofList [("who", .text "who"), ("parts", .container 4), ("also", .container 4),
      ("source", .container 0)]),
    .array #[.text "list", .bool true, .null, .container 3]]

/-- A callable-free pipe between two templates of the tangled heap. -/
def tangledPipe : Pipe where
  input := .container 2
  output := .container 3

theorem tangledPipe_callableFree (source : Handle) (hSource : source < tangled.size) :
    tangledPipe.CallableFree tangled (.container source) where
  wellFormed := by decide
  input_within := Value.within_container.mpr (by decide : 2 < tangled.size)
  output_within := Value.within_container.mpr (by decide : 3 < tangled.size)
  source_within := Value.within_container.mpr hSource
  input_free := Heap.callableFree_of_forall (by decide) (by decide)
  output_free := Heap.callableFree_of_forall (by decide) (by decide)

theorem answer_silent {bindings : Bindings} {extracted : Value} {placeholder : Placeholder}
    (h : ∀ id, placeholder.request ≠ .function id) (world : World Memory) :
    answer behaviour bindings extracted source placeholder world =
      answer .silent bindings extracted source placeholder world := by
  unfold answer
  cases hRequest : placeholder.request with
  | function id => exact absurd hRequest (h id)
  | _ => rfl

theorem fill_silent {bindings : Bindings} {extracted : Value} {placeholders : List Placeholder}
    (h : ∀ placeholder ∈ placeholders, ∀ id, placeholder.request ≠ .function id) (result : Value)
    (world : World Memory) :
    fill behaviour bindings extracted source placeholders result world =
      fill .silent bindings extracted source placeholders result world := by
  induction placeholders generalizing result world with
  | nil => rfl
  | cons placeholder rest ih =>
      rw [List.forall_mem_cons] at h
      rw [fill, fill, answer_silent h.1]
      split
      · exact ih h.2 _ _
      · exact ih h.2 _ _

namespace CallableFree

variable {pipe : Pipe} (behaviour)

theorem prepare_eq (h : pipe.CallableFree world.heap source) :
    pipe.prepare behaviour source world = pipe.prepare .silent source world := by
  rw [prepare, prepare,
    Extraction.bindings_silent behaviour source h.input_free h.wellFormed.region_handles h.input_within]

/-- Extraction leaves every container as it was, and the bindings are stored in
a new one. -/
theorem world_prepare (h : pipe.CallableFree world.heap source) :
    (pipe.prepare behaviour source world).world = { world with
      heap := (world.heap.alloc
        (Extraction.bindings behaviour pipe.config pipe.input source world).1.content).2 } := by
  have hWorld := Extraction.bindings_world behaviour source h.input_free
    h.wellFormed.region_handles h.input_within pipe.config
  rw [prepare]
  simp only [World.withHeap, hWorld, Bindings.store]

/-- When filling begins, every container is as it was at the start. -/
theorem agreeOn_blank (h : pipe.CallableFree world.heap source) :
    Heap.AgreeOn world.heap.handles world.heap
      (pipe.blank (pipe.prepare behaviour source world)).2.heap := by
  intro handle hLt
  have hSize : world.heap.size < (pipe.prepare behaviour source world).world.heap.size := by
    rw [h.world_prepare behaviour, Heap.size_alloc]
    exact Nat.lt_succ_self _
  rw [blank_frame pipe _ handle (Nat.lt_trans hLt hSize), h.world_prepare behaviour]
  exact Heap.cell?_alloc_of_lt hLt

/-- The output template has not been written to before its slots are found. -/
theorem slots_request_ne (h : pipe.CallableFree world.heap source) :
    ∀ placeholder ∈ pipe.slots (pipe.prepare behaviour source world),
      ∀ id, placeholder.request ≠ .function id := by
  have hSame := h.agreeOn_blank behaviour
  have hRegion := h.wellFormed.region_handles
  have hFree : (pipe.blank (pipe.prepare behaviour source world)).2.heap.CallableFree pipe.output := by
    intro path id
    rw [hSame.getPath hRegion h.output_within]
    exact h.output_free path id
  exact hFree.request_ne (hRegion.congr hSame) h.output_within

/-- A callable-free pipe does the same whatever callables do. -/
theorem apply_eq (h : pipe.CallableFree world.heap source) :
    pipe.apply behaviour source world = pipe.apply .silent source world := by
  rw [Pipe.apply_eq, Pipe.apply_eq, h.prepare_eq behaviour]
  exact fill_silent (h.slots_request_ne .silent) _ _

theorem sound (h : pipe.CallableFree world.heap source) :
    Sound (fun _ => ∅) world (pipe.prepare .silent source world) :=
  sound_prepare pipe Behaviour.silent_confined h.wellFormed (Set.empty_subset _) h.source_within

theorem subset_handles (h : pipe.CallableFree world.heap source) :
    world.heap.handles ⊆ (pipe.prepare .silent source world).world.heap.handles :=
  fun _ hLt => Nat.lt_trans hLt h.sound.size_lt

/-- The filling of a callable-free pipe in the end: every slot of the copy has
its answer, and nothing else has changed. -/
theorem exists_filled (h : pipe.CallableFree world.heap source) {root : Handle}
    (hOutput : pipe.output = .container root) :
    (pipe.filling .silent source (pipe.prepare .silent source world) root).Apart (fun _ => ∅) ∧
      pipe.apply behaviour source world =
        (pipe.filling .silent source (pipe.prepare .silent source world) root).after
          (pipe.filling .silent source (pipe.prepare .silent source world) root).placeholders ∧
      ∃ filled, (pipe.filling .silent source (pipe.prepare .silent source world) root).Filled
        (fun _ => ∅)
        (pipe.filling .silent source (pipe.prepare .silent source world) root).placeholders
        filled := by
  have hOutputWithin := h.output_within.mono h.subset_handles
  have hApart := h.sound.apart Behaviour.silent_confined (h.source_within.mono h.subset_handles)
    hOutput hOutputWithin
  refine ⟨hApart, ?_, hApart.exists_filled _ fun _ hMem => hMem⟩
  rw [h.apply_eq behaviour, Pipe.apply_eq, stage_eq_after h.sound.wellFormed hOutput hOutputWithin,
    slots_eq_placeholders .silent source hOutput]

end CallableFree

end Pipe

end Stencil
