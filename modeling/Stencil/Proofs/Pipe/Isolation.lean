import Stencil.Proofs.Pipe.Course
import Stencil.Routine

/-!
Isolation. Callables may write to whatever they can reach while a pipe runs: to
the bindings that they are called with, to the source, and to the templates if
they have captured them. The result does not depend on any of this. It is read
from bindings that were fixed before, and from a copy that callables never see.
-/

namespace Stencil.Pipe

variable {Memory : Type}

/-- What a pipe keeps to, whatever callables do. The final result and world are
those of the whole run. -/
structure Isolated (pipe : Pipe) (behaviour : Behaviour Memory) (source : Value)
    (world : World Memory) (prepared : Prepared Memory) (final : Value × World Memory) : Prop where
  /-- A text reads as its binding. -/
  name : ∀ placeholder ∈ pipe.slots prepared, ∀ name, placeholder.request = .name name →
    final.2.heap.getPath final.1 placeholder.path = prepared.bindings.get (.key name)
  /-- A number reads as its binding. -/
  position : ∀ placeholder ∈ pipe.slots prepared, ∀ number, placeholder.request = .position number →
    final.2.heap.getPath final.1 placeholder.path = prepared.bindings.get (.ofNumber number)
  /-- A callable reads as the outcome of the last call for its slot. -/
  outcome : ∀ placeholder ∈ pipe.slots prepared, ∀ id, placeholder.request = .function id →
    ∃ before last rest, pipe.slots prepared = before ++ last :: rest ∧
      (pipe.blank prepared).2.heap.slot? pipe.output last.path =
        (pipe.blank prepared).2.heap.slot? pipe.output placeholder.path ∧
      (∀ other ∈ rest, (pipe.blank prepared).2.heap.slot? pipe.output other.path ≠
        (pipe.blank prepared).2.heap.slot? pipe.output placeholder.path) ∧
      last.request = .function id ∧
      final.2.heap.getPath final.1 placeholder.path =
        (behaviour id (.filling prepared.extracted source)
          (pipe.stage behaviour source prepared before).2).1
  /-- Nothing but a callable changes anything when its turn to be answered comes. -/
  idle : ∀ placeholder : Placeholder, (∀ id, placeholder.request ≠ .function id) →
    ∀ world : World Memory, (Extraction.contribute behaviour source placeholder world).2 = world ∧
      (answer behaviour prepared.bindings prepared.extracted source placeholder world).2 = world
  /-- The turn of a callable changes what the callable changes, and nothing else. -/
  called : ∀ (placeholder : Placeholder) (id : CallableId), placeholder.request = .function id →
    ∀ world : World Memory, (Extraction.contribute behaviour source placeholder world).2 =
        (behaviour id (.extraction (world.heap.getPath source placeholder.path) placeholder.path
          source) world).2 ∧
      (answer behaviour prepared.bindings prepared.extracted source placeholder world).2 =
        (behaviour id (.filling prepared.extracted source) world).2
  /-- Storing the bindings changes no container. -/
  stored : ∀ handle,
    handle < (Extraction.bindings behaviour pipe.config pipe.input source world).2.heap.size →
    prepared.world.heap.cell? handle =
      (Extraction.bindings behaviour pipe.config pipe.input source world).2.heap.cell? handle
  /-- Copying the output template changes no container. -/
  copied : ∀ handle, handle < prepared.world.heap.size →
    (pipe.blank prepared).2.heap.cell? handle = prepared.world.heap.cell? handle
  /-- Filling in an answer changes only containers that were added by the copy. -/
  filled : ∀ before placeholder rest, pipe.slots prepared = before ++ placeholder :: rest →
    ∀ handle, handle < prepared.world.heap.size ∨ (pipe.blank prepared).2.heap.size ≤ handle →
      (pipe.stage behaviour source prepared (before ++ [placeholder])).2.heap.cell? handle =
        (answer behaviour prepared.bindings prepared.extracted source placeholder
          (pipe.stage behaviour source prepared before).2).2.heap.cell? handle
  /-- From the first world to the final one, whatever is not changed by a callable
  is a container that the pipe itself has added. -/
  course : ∃ made, Course behaviour world made final.2 ∧
    ∀ handle ∈ made, world.heap.size ≤ handle

variable {pipe : Pipe} {behaviour : Behaviour Memory} {source : Value} {world : World Memory}
  {prepared : Prepared Memory} {roots : Memory → Set Handle} {root : Handle}

/-- Every placeholder that asks for something reads as the answer to the last
one in its slot. -/
theorem exists_last_answer {before : World Memory} (h : Sound roots before prepared)
    (hBehaviour : behaviour.Confined roots) (hSource : source.Within prepared.world.heap.handles)
    (hOutput : pipe.output.Within prepared.world.heap.handles) {placeholder : Placeholder}
    (hMem : placeholder ∈ pipe.slots prepared) (hAsks : placeholder.request ≠ .inert) :
    ∃ before last rest, pipe.slots prepared = before ++ last :: rest ∧
      (pipe.blank prepared).2.heap.slot? pipe.output last.path =
        (pipe.blank prepared).2.heap.slot? pipe.output placeholder.path ∧
      (∀ other ∈ rest, (pipe.blank prepared).2.heap.slot? pipe.output other.path ≠
        (pipe.blank prepared).2.heap.slot? pipe.output placeholder.path) ∧
      last.request = placeholder.request ∧
      (answer behaviour prepared.bindings prepared.extracted source last
        (pipe.stage behaviour source prepared before).2).1 =
        some ((pipe.stage behaviour source prepared (pipe.slots prepared)).2.heap.getPath
          (pipe.stage behaviour source prepared (pipe.slots prepared)).1 placeholder.path) := by
  cases hKind : pipe.output.isContainer with
  | true =>
      obtain ⟨root, hRoot⟩ := Value.isContainer_iff.mp hKind
      have hApart := h.apart hBehaviour hSource hRoot hOutput
      rw [slots_eq_placeholders behaviour source hRoot] at hMem ⊢
      obtain ⟨before, last, rest, hSplit, hSlot, hRest, hRequest, hAnswer⟩ :=
        hApart.exists_last_answer hMem hAsks
      rw [← stage_eq_after h.wellFormed hRoot hOutput] at hAnswer
      rw [hRoot]
      refine ⟨before, last, rest, hSplit, hSlot, hRest, hRequest, ?_⟩
      rw [stage_eq_after h.wellFormed hRoot hOutput before]
      exact hAnswer
  | false =>
      have hSlots := slots_of_not_isContainer prepared hKind
      rw [hSlots, List.mem_singleton] at hMem
      subst hMem
      refine ⟨[], ⟨[], pipe.output⟩, [], hSlots, rfl, by simp, rfl, ?_⟩
      have hGiven : (answer behaviour prepared.bindings prepared.extracted source ⟨[], pipe.output⟩
          (pipe.blank prepared).2).1 ≠ none := fun hNone => hAsks (answer_eq_none_iff.mp hNone)
      obtain ⟨value, hValue⟩ := Option.ne_none_iff_exists'.mp hGiven
      rw [stage_of_not_isContainer behaviour source prepared hKind, hValue]
      exact hValue

/-- A pipe is isolated from its callables, whatever they do and whatever they
have captured. All that is asked of them is that they see no containers but
those that they can reach. -/
theorem isolated_apply (pipe : Pipe) {behaviour : Behaviour Memory} {source : Value}
    {world : World Memory} {roots : Memory → Set Handle} (hBehaviour : behaviour.Confined roots)
    (hHeap : world.heap.WellFormed) (hCaptured : roots world.memory ⊆ world.heap.handles)
    (hSource : source.Within world.heap.handles) (hOutput : pipe.output.Within world.heap.handles) :
    Isolated pipe behaviour source world (pipe.prepare behaviour source world)
      (pipe.apply behaviour source world) := by
  have h := sound_prepare pipe hBehaviour hHeap hCaptured hSource
  have hHandles : world.heap.handles ⊆ (pipe.prepare behaviour source world).world.heap.handles :=
    fun _ hLt => Nat.lt_trans hLt h.size_lt
  have hExtraction : world.heap.size ≤
      (Extraction.bindings behaviour pipe.config pipe.input source world).2.heap.size :=
    (Extraction.confined_bindings hBehaviour pipe.config pipe.input
      ⟨hHeap.region_handles, hCaptured⟩ hSource).1.heap.size_le
  have hLast := fun placeholder => @exists_last_answer _ _ _ _ _ _ _ h hBehaviour
    (hSource.mono hHandles) (hOutput.mono hHandles) placeholder
  rw [apply_eq]
  refine ⟨?_, ?_, ?_, ?_, ?_, ?_, ?_, ?_, ?_⟩
  · intro placeholder hMem name hRequest
    obtain ⟨before, last, rest, -, -, -, hSame, hAnswer⟩ :=
      hLast placeholder hMem (by rw [hRequest]; exact Request.noConfusion)
    rw [answer, hSame, hRequest] at hAnswer
    exact (Option.some.inj hAnswer).symm
  · intro placeholder hMem number hRequest
    obtain ⟨before, last, rest, -, -, -, hSame, hAnswer⟩ :=
      hLast placeholder hMem (by rw [hRequest]; exact Request.noConfusion)
    rw [answer, hSame, hRequest] at hAnswer
    exact (Option.some.inj hAnswer).symm
  · intro placeholder hMem id hRequest
    obtain ⟨before, last, rest, hSplit, hSlot, hRest, hSame, hAnswer⟩ :=
      hLast placeholder hMem (by rw [hRequest]; exact Request.noConfusion)
    refine ⟨before, last, rest, hSplit, hSlot, hRest, hSame.trans hRequest, ?_⟩
    rw [answer, hSame, hRequest] at hAnswer
    exact (Option.some.inj hAnswer).symm
  · exact fun placeholder hIdle world =>
      ⟨Extraction.contribute_world hIdle world, answer_world hIdle world⟩
  · intro placeholder id hRequest world
    rw [Extraction.contribute, answer, hRequest]
    exact ⟨rfl, rfl⟩
  · exact fun handle hLt => Heap.cell?_alloc_of_lt hLt
  · exact fun handle hLt => Heap.cell?_deepCopy_of_lt hLt
  · intro before placeholder rest hSplit handle hOutside
    obtain ⟨heap, hWorld, -, hFrame⟩ :=
      stage_frame h hBehaviour (hSource.mono hHandles) (hOutput.mono hHandles) hSplit
    rw [hWorld]
    exact hFrame handle hOutside
  · have hCourse := (Course.blank pipe behaviour source world).stage h hBehaviour
      (hSource.mono hHandles) (hOutput.mono hHandles)
      (fun handle hLe hLt => .inr ⟨hLe, hLt⟩) (List.append_nil _).symm
    refine ⟨_, hCourse, ?_⟩
    rintro handle (⟨hLe, -⟩ | ⟨hLe, -⟩)
    · exact Nat.le_trans hExtraction hLe
    · exact Nat.le_trans (Nat.le_of_lt h.size_lt) hLe

/-- Every callable overwrites an entry of what it is called with, and returns
it. While filling, this is the extracted value. -/
def spoiling : Behaviour Registry := fun _ =>
  (Routine.setPrimary (.key "name") (.text "spoiled") .primary).run

/-- The procedure writes to nothing but its first argument, which it may reach. -/
theorem spoiling_confined : spoiling.Confined fun _ => ∅ := by
  intro id invocation world region hView hPrimary _
  have hText : (Value.text "spoiled").Within region := Value.within_of_not_isContainer rfl region
  have hCall : spoiling id invocation world = (invocation.primary,
      { world with heap := world.heap.set invocation.primary (.key "name") (.text "spoiled") }) := by
    simp only [spoiling, Routine.run]
  rw [hCall]
  refine ⟨⟨Heap.Confined.set hView.closed hPrimary _ hText, Set.empty_subset _⟩, ?_⟩
  exact hPrimary.mono (Heap.subset_grown _ _ _)

/-- A source, an input template with a callable, and an output template in which
callables and a text share a container. -/
def spoilable : World Registry where
  heap := ⟨#[
    .object (.ofList [("name", .text "Ada")]),
    .object (.ofList [("name", .text "name"), ("more", .callable 0)]),
    .object (.ofList [("first", .callable 1), ("left", .container 3), ("right", .container 3)]),
    .array #[.text "name", .callable 2]]⟩
  memory := .empty

/-- Callables that overwrite the bindings do not change what texts read as. -/
theorem isolated_spoiling :
    spoilable.heap.WellFormed ∧
      Isolated ⟨.container 1, .container 2, .default⟩ spoiling (.container 0) spoilable
        (prepare ⟨.container 1, .container 2, .default⟩ spoiling (.container 0) spoilable)
        (apply ⟨.container 1, .container 2, .default⟩ spoiling (.container 0) spoilable) :=
  ⟨by decide, isolated_apply ⟨.container 1, .container 2, .default⟩ spoiling_confined (by decide)
    (Set.empty_subset _) (Value.within_container.mpr (by decide : 0 < spoilable.heap.size))
    (Value.within_container.mpr (by decide : 2 < spoilable.heap.size))⟩

end Stencil.Pipe
