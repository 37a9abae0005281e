import Stencil.Proofs.Extraction.Confinement
import Stencil.Proofs.Heap.Copy
import Stencil.Proofs.Pipe.Filling

/-!
What a pipe does before it fills anything. It extracts bindings, stores them for
callables, and copies the output template. The copy is in containers of its own
that nothing else refers to, so when filling begins it is apart from everything
that callables can see.
-/

namespace Stencil

variable {Memory : Type}

/-- What a pipe has before it copies its output template. -/
structure Prepared (Memory : Type) where
  bindings : Bindings
  extracted : Value
  world : World Memory

namespace Pipe

variable (pipe : Pipe) (behaviour : Behaviour Memory) (source : Value) (world : World Memory)

/-- Extract bindings and store them. -/
def prepare : Prepared Memory :=
  let (bindings, world) := Extraction.bindings behaviour pipe.config pipe.input source world
  let (extracted, world) := world.withHeap bindings.store
  ⟨bindings, extracted, world⟩

/-- The copy of the output template before anything has been filled. -/
def blank (prepared : Prepared Memory) : Value × World Memory :=
  prepared.world.withHeap fun heap => heap.deepCopy pipe.output

/-- The placeholders of the output template when filling begins. -/
def slots (prepared : Prepared Memory) : List Placeholder :=
  (pipe.blank prepared).2.heap.discover pipe.output

/-- The result and the world after the turns of some placeholders. -/
def stage (prepared : Prepared Memory) (done : List Placeholder) : Value × World Memory :=
  fill behaviour prepared.bindings prepared.extracted source done (pipe.blank prepared).1
    (pipe.blank prepared).2

theorem apply_eq :
    pipe.apply behaviour source world =
      pipe.stage behaviour source (pipe.prepare behaviour source world)
        (pipe.slots (pipe.prepare behaviour source world)) :=
  rfl

/-- The filling of a copied template with a container at its root. -/
def filling (prepared : Prepared Memory) (root : Handle) : Filling Memory where
  behaviour := behaviour
  bindings := prepared.bindings
  extracted := prepared.extracted
  source := source
  start := (pipe.blank prepared).2
  root := root
  region := {handle | handle ∈ prepared.world.heap.reachable pipe.output}
  place := prepared.world.heap.copyOf pipe.output

variable {pipe behaviour source world} {roots : Memory → Set Handle} {root : Handle}

/-- Once the bindings are stored the heap is well-formed, and there is nothing
in the bindings that is not in the heap. -/
structure Sound (roots : Memory → Set Handle) (before : World Memory)
    (prepared : Prepared Memory) : Prop where
  size_lt : before.heap.size < prepared.world.heap.size
  wellFormed : prepared.world.heap.WellFormed
  captured : roots prepared.world.memory ⊆ prepared.world.heap.handles
  extracted_within : prepared.extracted.Within prepared.world.heap.handles

theorem sound_prepare (pipe : Pipe) (hBehaviour : behaviour.Confined roots)
    (hHeap : world.heap.WellFormed) (hCaptured : roots world.memory ⊆ world.heap.handles)
    (hSource : source.Within world.heap.handles) :
    Sound roots world (pipe.prepare behaviour source world) := by
  obtain ⟨hConfined, hBindings⟩ := Extraction.confined_bindings hBehaviour pipe.config pipe.input
    ⟨hHeap.region_handles, hCaptured⟩ hSource
  have hMemory := hConfined.captured
  rw [Heap.grown_handles hConfined.heap.size_le] at hBindings hMemory
  obtain ⟨hValues, hAddressable⟩ := Bindings.within_content hBindings
  have hSize : (pipe.prepare behaviour source world).world.heap.size =
      (Extraction.bindings behaviour pipe.config pipe.input source world).2.heap.size + 1 :=
    Heap.size_alloc _ _
  refine ⟨?_, hConfined.heap.wellFormed.alloc hValues hAddressable, fun handle hMem => ?_, ?_⟩
  · rw [hSize]
    exact Nat.lt_succ_of_le hConfined.heap.size_le
  · refine Nat.lt_of_lt_of_eq ?_ hSize.symm
    exact Nat.lt_succ_of_lt (hMemory hMem)
  · refine Value.within_container.mpr (Nat.lt_of_lt_of_eq ?_ hSize.symm)
    exact Nat.lt_succ_self _

variable {prepared : Prepared Memory}

/-- The copy of the output template is new, and nothing that was there before
changes. -/
theorem blank_frame (pipe : Pipe) (prepared : Prepared Memory) :
    Heap.AgreeOn prepared.world.heap.handles prepared.world.heap (pipe.blank prepared).2.heap :=
  fun _ hLt => Heap.cell?_deepCopy_of_lt hLt

theorem outside_places (pipe : Pipe) (behaviour : Behaviour Memory) (source : Value)
    (prepared : Prepared Memory) (root : Handle) :
    (pipe.filling behaviour source prepared root).start.heap.handles \
        (pipe.filling behaviour source prepared root).places =
      prepared.world.heap.handles := by
  ext handle
  constructor
  · rintro ⟨hLt, hOutside⟩
    by_contra hNew
    obtain ⟨original, hOriginal, hCopy⟩ := Heap.exists_copyOf (Nat.not_lt.mp hNew) hLt
    exact hOutside ⟨original, hOriginal, hCopy⟩
  · intro hLt
    refine ⟨Heap.lt_size_of_cell? ((Heap.cell?_deepCopy_of_lt hLt).trans
      (Heap.exists_cell?_of_lt hLt).choose_spec), ?_⟩
    rintro ⟨original, -, hCopy⟩
    exact Nat.not_lt.mpr (hCopy ▸ Heap.size_le_copyOf _ _ original) hLt

/-- When filling begins, the copy is apart from everything that callables can
see. -/
theorem Sound.apart {before : World Memory} (h : Sound roots before prepared)
    (hBehaviour : behaviour.Confined roots) (hSource : source.Within prepared.world.heap.handles)
    (hOutput : pipe.output = .container root)
    (hWithin : pipe.output.Within prepared.world.heap.handles) :
    (pipe.filling behaviour source prepared root).Apart roots := by
  have hOutside := outside_places pipe behaviour source prepared root
  obtain ⟨-, hReachable⟩ := h.wellFormed.region_reachable hWithin
  rw [hOutput] at hReachable
  refine ⟨hBehaviour, h.wellFormed.skeleton_deepCopy hWithin, ?_, ?_, ⟨?_, ?_⟩, ?_, ?_⟩
  · change root ∈ {handle | handle ∈ prepared.world.heap.reachable pipe.output}
    rw [hOutput]
    exact Value.within_container.mp hReachable
  · rintro _ ⟨original, hOriginal, rfl⟩
    exact Heap.copyOf_lt hOriginal
  · rw [hOutside]
    exact h.wellFormed.region_handles.congr (blank_frame pipe prepared)
  · rw [hOutside]
    exact h.captured
  · rw [hOutside]
    exact h.extracted_within
  · rw [hOutside]
    exact hSource

/-- The stages of the pipe are those of the filling. -/
theorem stage_eq_after (hHeap : prepared.world.heap.WellFormed)
    (hOutput : pipe.output = .container root)
    (hWithin : pipe.output.Within prepared.world.heap.handles) (done : List Placeholder) :
    pipe.stage behaviour source prepared done =
      (pipe.filling behaviour source prepared root).after done := by
  obtain ⟨-, hReachable⟩ := hHeap.region_reachable hWithin
  have hCopy : (pipe.blank prepared).1 =
      .container (prepared.world.heap.copyOf pipe.output root) := by
    rw [hOutput] at hReachable ⊢
    exact (congrArg (fun output => (prepared.world.heap.deepCopy output).1) hOutput).trans
      (Heap.deepCopy_container (Value.within_container.mp hReachable))
  rw [stage, hCopy]
  rfl

/-- The slots of an output template with storage are the placeholders that its copy
is filled at. -/
theorem slots_eq_placeholders (behaviour : Behaviour Memory) (source : Value)
    (hOutput : pipe.output = .container root) :
    pipe.slots prepared = (pipe.filling behaviour source prepared root).placeholders := by
  rw [slots, hOutput]
  rfl

end Pipe

end Stencil
