import Stencil.Proofs.Pipe.FilledCopy
import Stencil.Proofs.Pipe.Frame

/-!
The image of a template. What a callable-free pipe makes is given by one map on
values: a text and a number become their bindings, a container becomes its
place, and anything else stays. The map takes every container of the template,
entry by entry, to the container at its place.
-/

namespace Stencil

variable {Memory : Type}

/-- What becomes of a value of a template. -/
def Bindings.image (bindings : Bindings) (place : Handle → Handle) : Value → Value
  | .text name => bindings.get (.key name)
  | .number number => bindings.get (.ofNumber number)
  | .container handle => .container (place handle)
  | value => value

theorem Bindings.within_image {bindings : Bindings} {region : Set Handle}
    (h : bindings.Within region) (place : Handle → Handle) {value : Value}
    (hScalar : value.isContainer = false) : (bindings.image place value).Within region := by
  cases value with
  | text name => exact within_get h _
  | number number => exact within_get h _
  | container => cases hScalar
  | _ => exact Value.within_of_not_isContainer rfl region

namespace Pipe

/-- A result that is the image of a template, with every container that the
template reaches at a place of its own. -/
structure Image (bindings : Bindings) (place : Handle → Handle) (before : Heap) (template : Value)
    (after : Heap) (result : Value) : Prop where
  result_eq : result = bindings.image place template
  injective : ∀ handle other, before.Reaches template handle → before.Reaches template other →
    place handle = place other → handle = other
  copied : ∀ handle, before.Reaches template handle → after.cell? (place handle) =
    (before.cell? handle).map (Cell.mapValues (bindings.image place))

variable {behaviour : Behaviour Memory} {source : Value} {world : World Memory} {pipe : Pipe}
  {bindings : Bindings} {extracted : Value} {place : Handle → Handle}

section

variable {before after other : Heap} {template result value : Value}

/-- The entries at a place are the images of those of the container. -/
theorem Image.get_eq (h : Image bindings place before template after result) {path : Path}
    {handle : Handle} (hPath : before.getPath template path = .container handle)
    (segment : Segment) :
    after.get (.container (place handle)) segment =
      bindings.image place (before.getPath template (path ++ [segment])) := by
  rw [Heap.getPath_concat, hPath, Heap.get, Heap.get, Heap.content?, Heap.content?,
    h.copied handle ⟨path, hPath⟩]
  cases before.cell? handle with
  | none => rfl
  | some cell =>
      rw [Option.map_some, Option.bind_some, Option.bind_some, Cell.mapValues_eq_mapEntries,
        Cell.get?_mapEntries]
      cases cell.get? segment <;> rfl

/-- A path leads in the result to the image of what it leads to in the template.
Where it leads to nothing in the template, it may go on into a binding. -/
theorem Image.getPath (h : Image bindings place before template after result) {path : Path}
    (hPath : before.getPath template path = value) (hValue : value ≠ .null) :
    after.getPath result path = bindings.image place value := by
  induction path using List.reverseRecOn generalizing value with
  | nil =>
      obtain rfl : template = value := hPath
      exact h.result_eq
  | append_singleton path segment ih =>
      have hEntry := hPath
      rw [Heap.getPath_concat] at hEntry
      obtain ⟨handle, -, hParent, -⟩ := Heap.exists_entry_of_get hEntry hValue
      rw [Heap.getPath_concat, ih hParent Value.noConfusion, Bindings.image, h.get_eq hParent, hPath]

/-- Only what the template reaches matters for its images. -/
theorem Image.congr {region : Set Handle} (h : Image bindings place before template after result)
    (hRegion : other.Region region) (hTemplate : template.Within region)
    (hSame : Heap.AgreeOn region other before) :
    Image bindings place other template after result := by
  have hReaches : ∀ handle, other.Reaches template handle → before.Reaches template handle := by
    rintro handle ⟨path, hPath⟩
    exact ⟨path, (hSame.getPath hRegion hTemplate path).trans hPath⟩
  refine ⟨h.result_eq, fun first second hFirst hSecond =>
    h.injective first second (hReaches first hFirst) (hReaches second hSecond), ?_⟩
  intro handle hHandle
  rw [h.copied handle (hReaches handle hHandle),
    hSame handle (hRegion.mem_of_reaches hTemplate hHandle)]

end

/-- The answer to a placeholder that calls nothing is its image. -/
theorem answer_getD {path : Path} {value : Value} {world : World Memory}
    (hScalar : value.isContainer = false) (hNone : ∀ id, value ≠ .callable id) :
    (answer behaviour bindings extracted source ⟨path, value⟩ world).1.getD value =
      bindings.image place value := by
  cases value with
  | container => cases hScalar
  | callable id => exact absurd rfl (hNone id)
  | _ => rfl

/-- Once all placeholders have had their turns and none has called anything, the
entries of the skeleton are images. -/
theorem Filling.Filled.overlay_eq {filling : Filling Memory} {roots : Memory → Set Handle}
    {filled : Slot → Option Value} (h : filling.Filled roots filling.placeholders filled)
    (hApart : filling.Apart roots)
    (hNone : ∀ placeholder ∈ filling.placeholders, ∀ id, placeholder.request ≠ .function id)
    {handle : Handle} {cell : Cell} {segment : Segment} {value : Value}
    (hReaches : filling.start.heap.Reaches (.container filling.root) handle)
    (hCell : filling.start.heap.cell? handle = some cell) (hEntry : (segment, value) ∈ cell.entries) :
    Heap.overlay filling.place filled handle segment value =
      filling.bindings.image filling.place value := by
  cases hScalar : value.isContainer with
  | true =>
      obtain ⟨child, rfl⟩ := Value.isContainer_iff.mp hScalar
      rfl
  | false =>
      have hSlot : filling.start.heap.Reaches (.container filling.root)
          (Slot.handle ⟨handle, segment⟩) := hReaches
      have hHolds : filling.start.heap.Holds ⟨handle, segment⟩ value := ⟨cell, hCell, hEntry⟩
      obtain ⟨path, -, hPlaceholder⟩ := Heap.exists_mem_discover hApart.skeleton.closed
        (Value.within_container.mpr hApart.root_mem) hSlot hHolds hScalar
      obtain ⟨done, other, hTurn⟩ := h.exists_turn hApart _ hSlot hHolds hScalar
      rw [Heap.overlay_of_not_isContainer _ _ _ _ hScalar, hTurn]
      exact answer_getD hScalar fun id hCallable =>
        hNone _ hPlaceholder id (by rw [Placeholder.request, hCallable])

namespace CallableFree

theorem image_of_not_isContainer (h : pipe.CallableFree world.heap source)
    (hOutput : pipe.output.isContainer = false) (place : Handle → Handle) :
    Image (Extraction.bindings .silent pipe.config pipe.input source world).1 place world.heap
      pipe.output (pipe.apply .silent source world).2.heap (pipe.apply .silent source world).1 := by
  have hReaches : ∀ handle, ¬ world.heap.Reaches pipe.output handle := by
    rintro handle ⟨path, hPath⟩
    rw [Heap.isContainer_of_getPath hPath] at hOutput
    cases hOutput
  refine ⟨?_, fun handle _ hHandle => absurd hHandle (hReaches handle),
    fun handle hHandle => absurd hHandle (hReaches handle)⟩
  rw [Pipe.apply_eq, stage_of_not_isContainer .silent source _ hOutput]
  exact answer_getD hOutput (h.output_free [])

/-- The result of a callable-free pipe is an image of its output template, at
places that are new. -/
theorem exists_image (behaviour : Behaviour Memory) (h : pipe.CallableFree world.heap source) :
    ∃ place, (∀ handle, world.heap.size ≤ place handle) ∧
      Image (Extraction.bindings behaviour pipe.config pipe.input source world).1 place
        world.heap pipe.output (pipe.apply behaviour source world).2.heap
        (pipe.apply behaviour source world).1 := by
  rw [Extraction.bindings_silent behaviour source h.input_free h.wellFormed.region_handles
    h.input_within, h.apply_eq behaviour]
  cases hKind : pipe.output.isContainer with
  | false =>
      exact ⟨fun _ => world.heap.size, fun _ => Nat.le_refl _, h.image_of_not_isContainer hKind _⟩
  | true =>
      obtain ⟨root, hRoot⟩ := Value.isContainer_iff.mp hKind
      obtain ⟨hApart, hApply, filled, hFilled⟩ := h.exists_filled .silent hRoot
      have hSame := h.agreeOn_blank .silent
      have hNone := h.slots_request_ne .silent
      rw [slots_eq_placeholders .silent source hRoot] at hNone
      have hSkeleton := hFilled.kept.skeleton
      have hWithin := Value.within_container.mpr hApart.root_mem
      have hReaches : ∀ handle, world.heap.Reaches pipe.output handle →
          (pipe.blank (pipe.prepare .silent source world)).2.heap.Reaches (.container root)
            handle := by
        rintro handle ⟨path, hPath⟩
        refine ⟨path, ?_⟩
        rw [← hRoot, hSame.getPath h.wellFormed.region_handles h.output_within, hPath]
      have hMem := fun handle hHandle =>
        hSkeleton.closed.mem_of_reaches hWithin (hReaches handle hHandle)
      rw [hApply, hRoot]
      rw [hRoot] at hReaches hMem
      refine ⟨_, ?_, hFilled.result, fun handle other hHandle hOther =>
        hSkeleton.injective _ (hMem handle hHandle) _ (hMem other hOther), ?_⟩
      · exact fun handle =>
          Nat.le_trans (Nat.le_of_lt h.sound.size_lt) (Heap.size_le_copyOf _ _ handle)
      · intro handle hHandle
        have hOld := h.wellFormed.region_handles.mem_of_reaches h.output_within (hRoot ▸ hHandle)
        obtain ⟨cell, hCell⟩ := Heap.exists_cell?_of_lt hOld
        have hStart := (hSame handle hOld).trans hCell
        rw [hCell, hSkeleton.copied handle (hMem handle hHandle)]
        refine (congrArg _ hStart).trans (congrArg some ?_)
        rw [Cell.mapValues_eq_mapEntries]
        exact Cell.mapEntries_congr fun entry hEntry =>
          hFilled.overlay_eq hApart hNone (hReaches handle hHandle) hStart hEntry

end CallableFree

end Pipe

end Stencil
