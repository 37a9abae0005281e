import Stencil.Proofs.Pipe.Preparation

/-!
The course of a run. Every change is made either by a callable, which leaves what
it leaves, or by the pipe itself, which adds containers and writes to no others
than those that it has added.
-/

namespace Stencil.Pipe

variable {Memory : Type}

/-- How a world comes about from the first one. The set has the containers that
the pipe itself has made. -/
inductive Course (behaviour : Behaviour Memory) (first : World Memory) :
    Set Handle → World Memory → Prop where
  | start : Course behaviour first ∅ first
  /-- A callable is called. -/
  | called {made : Set Handle} {world : World Memory} (h : Course behaviour first made world)
      (id : CallableId) (invocation : Invocation) :
      Course behaviour first made (behaviour id invocation world).2
  /-- The pipe adds some containers, and writes to some of those that it has made. -/
  | own {made : Set Handle} {world next : World Memory} (h : Course behaviour first made world)
      (hMemory : next.memory = world.memory) (hSize : world.heap.size ≤ next.heap.size)
      (hKept : ∀ handle < world.heap.size, handle ∉ made →
        next.heap.cell? handle = world.heap.cell? handle) :
      Course behaviour first
        (made ∪ {handle | world.heap.size ≤ handle ∧ handle < next.heap.size}) next

variable {pipe : Pipe} {behaviour : Behaviour Memory} {source : Value} {first world : World Memory}
  {prepared : Prepared Memory} {made : Set Handle} {roots : Memory → Set Handle}

/-- A template that is no container has one placeholder, and its answer is the
whole result. -/
theorem slots_of_not_isContainer (prepared : Prepared Memory)
    (hOutput : pipe.output.isContainer = false) :
    pipe.slots prepared = [⟨[], pipe.output⟩] :=
  Heap.discover_of_not_isContainer hOutput

theorem stage_of_not_isContainer (behaviour : Behaviour Memory) (source : Value)
    (prepared : Prepared Memory) (hOutput : pipe.output.isContainer = false) :
    pipe.stage behaviour source prepared (pipe.slots prepared) =
      ((answer behaviour prepared.bindings prepared.extracted source ⟨[], pipe.output⟩
          (pipe.blank prepared).2).1.getD pipe.output,
        (answer behaviour prepared.bindings prepared.extracted source ⟨[], pipe.output⟩
          (pipe.blank prepared).2).2) := by
  have hCopy : (pipe.blank prepared).1 = pipe.output := Heap.deepCopy_of_not_isContainer hOutput
  rw [slots_of_not_isContainer prepared hOutput, stage, hCopy, fill]
  rcases answer behaviour prepared.bindings prepared.extracted source ⟨[], pipe.output⟩
    (pipe.blank prepared).2 with ⟨given, after⟩
  cases given <;> rfl

/-- What the pipe itself does when a placeholder has been answered is a write to
containers that were added by the copy. -/
theorem stage_frame {before : World Memory} (h : Sound roots before prepared)
    (hBehaviour : behaviour.Confined roots) (hSource : source.Within prepared.world.heap.handles)
    (hOutput : pipe.output.Within prepared.world.heap.handles)
    {before rest : List Placeholder} {placeholder : Placeholder}
    (hSplit : pipe.slots prepared = before ++ placeholder :: rest) :
    ∃ heap, (pipe.stage behaviour source prepared (before ++ [placeholder])).2 =
        { (answer behaviour prepared.bindings prepared.extracted source placeholder
          (pipe.stage behaviour source prepared before).2).2 with heap := heap } ∧
      heap.size = (answer behaviour prepared.bindings prepared.extracted source placeholder
        (pipe.stage behaviour source prepared before).2).2.heap.size ∧
      ∀ handle, handle < prepared.world.heap.size ∨ (pipe.blank prepared).2.heap.size ≤ handle →
        heap.cell? handle = (answer behaviour prepared.bindings prepared.extracted source
          placeholder (pipe.stage behaviour source prepared before).2).2.heap.cell? handle := by
  cases hKind : pipe.output.isContainer with
  | true =>
      obtain ⟨root, hRoot⟩ := Value.isContainer_iff.mp hKind
      have hApart := h.apart hBehaviour hSource hRoot hOutput
      rw [slots_eq_placeholders behaviour source hRoot] at hSplit
      rw [stage_eq_after h.wellFormed hRoot hOutput, stage_eq_after h.wellFormed hRoot hOutput]
      obtain ⟨heap, hWorld, hSize, hFrame⟩ := hApart.turn_frame hSplit
      refine ⟨heap, hWorld, hSize, fun handle hOutside => hFrame handle ?_⟩
      rintro ⟨original, hOriginal, rfl⟩
      rcases hOutside with hOld | hNew
      · exact Nat.not_lt.mpr (Heap.size_le_copyOf _ _ original) hOld
      · exact Nat.not_lt.mpr hNew (Heap.copyOf_lt hOriginal)
  | false =>
      rw [slots_of_not_isContainer prepared hKind] at hSplit
      obtain ⟨rfl, hSingle⟩ : before = [] ∧ placeholder :: rest = [⟨[], pipe.output⟩] := by
        cases before with
        | nil => exact ⟨rfl, hSplit.symm⟩
        | cons first others => simp at hSplit
      obtain ⟨rfl, -⟩ := List.cons.inj hSingle
      have hStage := stage_of_not_isContainer behaviour source prepared hKind
      rw [slots_of_not_isContainer prepared hKind] at hStage
      rw [List.nil_append, hStage]
      exact ⟨_, rfl, rfl, fun _ _ => rfl⟩

namespace Course

/-- The turn of a placeholder that contributes changes what its callable changes. -/
theorem contribute (h : Course behaviour first made world) (placeholder : Placeholder) :
    Course behaviour first made (Extraction.contribute behaviour source placeholder world).2 := by
  unfold Extraction.contribute
  cases placeholder.request with
  | function id => exact h.called id _
  | _ => exact h

/-- The turns of an input template follow one another. -/
theorem contributions (h : Course behaviour first made world) (placeholders : List Placeholder) :
    Course behaviour first made
      (Extraction.contributions behaviour source placeholders world).2 := by
  induction placeholders generalizing world with
  | nil => exact h
  | cons placeholder rest ih => exact ih (h.contribute placeholder)

/-- The turn of a placeholder that is answered changes no more than that. -/
theorem answer (h : Course behaviour first made world) (bindings : Bindings) (extracted : Value)
    (placeholder : Placeholder) :
    Course behaviour first made
      (Pipe.answer behaviour bindings extracted source placeholder world).2 := by
  unfold Pipe.answer
  cases placeholder.request with
  | function id => exact h.called id _
  | _ => exact h

/-- A write to containers that the pipe has made. -/
theorem write (h : Course behaviour first made world) {heap : Heap}
    (hSize : heap.size = world.heap.size)
    (hKept : ∀ handle, handle ∉ made → heap.cell? handle = world.heap.cell? handle) :
    Course behaviour first made { world with heap := heap } := by
  have hNone : {handle | world.heap.size ≤ handle ∧ handle < heap.size} = ∅ :=
    Set.eq_empty_of_forall_notMem fun handle hMem =>
      Nat.not_lt.mpr hMem.1 (Nat.lt_of_lt_of_eq hMem.2 hSize)
  have hNext : Course behaviour first _ { world with heap := heap } :=
    h.own rfl hSize.ge fun handle _ => hKept handle
  rwa [hNone, Set.union_empty] at hNext

/-- The bindings and the copy of the output template are stored in new containers. -/
theorem blank (pipe : Pipe) (behaviour : Behaviour Memory) (source : Value) (world : World Memory) :
    Course behaviour world
      ({handle | (Extraction.bindings behaviour pipe.config pipe.input source world).2.heap.size ≤
          handle ∧ handle < (pipe.prepare behaviour source world).world.heap.size} ∪
        {handle | (pipe.prepare behaviour source world).world.heap.size ≤ handle ∧
          handle < (pipe.blank (pipe.prepare behaviour source world)).2.heap.size})
      (pipe.blank (pipe.prepare behaviour source world)).2 := by
  have hBindings : Course behaviour world ∅
      (Extraction.bindings behaviour pipe.config pipe.input source world).2 :=
    start.contributions _
  have hStored : Course behaviour world _ (pipe.prepare behaviour source world).world :=
    hBindings.own rfl
    (Nat.le_of_lt (Nat.lt_of_lt_of_eq (Nat.lt_succ_self _) (Heap.size_alloc _ _).symm))
    fun handle hLt _ => Heap.cell?_alloc_of_lt hLt
  rw [Set.empty_union] at hStored
  exact hStored.own rfl (Heap.size_deepCopy _ pipe.output ▸ Nat.le_add_right _ _)
    fun handle hLt _ => Heap.cell?_deepCopy_of_lt hLt

/-- Answers are written to containers that were added by the copy. -/
theorem stage {before : World Memory} (h : Sound roots before prepared)
    (hBehaviour : behaviour.Confined roots) (hSource : source.Within prepared.world.heap.handles)
    (hOutput : pipe.output.Within prepared.world.heap.handles)
    (hStart : Course behaviour first made (pipe.blank prepared).2)
    (hCopies : ∀ handle, prepared.world.heap.size ≤ handle →
      handle < (pipe.blank prepared).2.heap.size → handle ∈ made)
    {done rest : List Placeholder} (hSplit : pipe.slots prepared = done ++ rest) :
    Course behaviour first made (pipe.stage behaviour source prepared done).2 := by
  induction done using List.reverseRecOn generalizing rest with
  | nil => exact hStart
  | append_singleton done placeholder ih =>
      rw [List.append_assoc, List.singleton_append] at hSplit
      obtain ⟨heap, hWorld, hSize, hFrame⟩ := stage_frame h hBehaviour hSource hOutput hSplit
      rw [hWorld]
      refine ((ih hSplit).answer _ _ placeholder).write hSize fun handle hOther => hFrame handle ?_
      by_contra hInside
      rw [not_or, Nat.not_lt, Nat.not_le] at hInside
      exact hOther (hCopies handle hInside.1 hInside.2)

end Course

end Stencil.Pipe
