import Stencil.Procedure
import Stencil.Proofs.Discovery.Recursion
import Stencil.Proofs.Heap.Descent
import Stencil.Proofs.Heap.Slot

/-!
Texts replaced by callables. In a heap in which some slots that held texts have been
given callables that name by these texts, every other entry is as it was. A template
has the same placeholders there, but for the replaced ones, and every path leads to the
same container.
-/

namespace Stencil

variable {Memory : Type}

/-- Answer with the first argument. -/
def Procedure.identity : Procedure Memory := fun invocation world => (invocation.primary, world)

/-- What may stand in a template in the place of a value: the value, or for a text a
callable that names its first argument by it. -/
inductive Names (behaviour : Behaviour Memory) : Value → Value → Prop where
  | same (value : Value) : Names behaviour value value
  | named {name : String} {id : CallableId}
      (h : behaviour id = Procedure.identity.named name) :
      Names behaviour (.text name) (.callable id)

/-- A placeholder, and what stands at its path when some texts have been replaced. -/
structure Placeholder.Renamed (behaviour : Behaviour Memory)
    (placeholder placeholder' : Placeholder) : Prop where
  path : placeholder'.path = placeholder.path
  value : Names behaviour placeholder.value placeholder'.value

variable {behaviour : Behaviour Memory} {value value' : Value}

/-- Only texts are replaced, so containers stay containers. -/
theorem Names.isContainer_eq (h : Names behaviour value value') :
    value'.isContainer = value.isContainer := by
  cases h <;> rfl

/-- A container is never replaced, and keeps its identity. -/
theorem Names.eq_container {handle : Handle} (h : Names behaviour (.container handle) value') :
    value' = .container handle := by
  cases h
  rfl

namespace Heap

variable {heap : Heap} {chosen : Slot → Option CallableId} {handle : Handle} {cell : Cell}
  {template template' : Value}

/-- The value in a slot if some slots have been given callables. -/
def replacement (chosen : Slot → Option CallableId) (handle : Handle) (segment : Segment)
    (value : Value) : Value :=
  match chosen ⟨handle, segment⟩ with
  | some id => .callable id
  | none => value

/-- The heap in which these slots have been given callables. -/
def replaced (heap : Heap) (chosen : Slot → Option CallableId) : Heap :=
  ⟨heap.cells.mapIdx fun handle cell => cell.mapEntries (replacement chosen handle)⟩

/-- Each cell is replaced entry by entry, and stays where it is. -/
theorem cell?_replaced (heap : Heap) (chosen : Slot → Option CallableId) (handle : Handle) :
    (heap.replaced chosen).cell? handle =
      (heap.cell? handle).map (Cell.mapEntries (replacement chosen handle)) :=
  Array.getElem?_mapIdx

theorem size_replaced (heap : Heap) (chosen : Slot → Option CallableId) :
    (heap.replaced chosen).size = heap.size :=
  Array.size_mapIdx

/-- A container with no such slot is as it was. -/
theorem cell?_replaced_of_unchosen (h : ∀ segment, chosen ⟨handle, segment⟩ = none) :
    (heap.replaced chosen).cell? handle = heap.cell? handle := by
  have hSame : replacement chosen handle = fun _ => id := by
    funext segment value
    rw [replacement, h]
    rfl
  rw [cell?_replaced, hSame]
  cases hCell : heap.cell? handle with
  | none => rfl
  | some cell =>
      rw [Option.map_some, ← Cell.mapValues_eq_mapEntries, Cell.mapValues_id]

/-- The slots held texts, and have been given callables that name by them. -/
def Chosen (behaviour : Behaviour Memory) (heap : Heap) (chosen : Slot → Option CallableId) : Prop :=
  ∀ slot id, chosen slot = some id →
    ∃ name, heap.Holds slot (.text name) ∧ behaviour id = Procedure.identity.named name

section Chosen

variable (h : heap.Chosen behaviour chosen)

include h

theorem names_replacement (hCell : heap.cell? handle = some cell) {entry : Segment × Value}
    (hEntry : entry ∈ cell.entries) :
    Names behaviour entry.2 (replacement chosen handle entry.1 entry.2) := by
  rw [replacement]
  cases hChosen : chosen ⟨handle, entry.1⟩ with
  | none => exact .same _
  | some id =>
      obtain ⟨name, ⟨found, hFound, hText⟩, hNamed⟩ := h _ id hChosen
      obtain rfl := Option.some.inj (hCell.symm.trans hFound)
      have hSame := List.inj_on_of_nodup_map cell.nodup_segments hEntry hText rfl
      rw [hSame]
      exact .named hNamed

/-- Both templates have the same placeholders, but for the texts that have been
replaced. -/
theorem names_placeholdersBelow (ancestors : List Handle) (hNames : Names behaviour value value') :
    List.Forall₂ (Placeholder.Renamed behaviour)
      (heap.placeholdersBelow Value.isPlaceholder ancestors value)
      ((heap.replaced chosen).placeholdersBelow Value.isPlaceholder ancestors value') := by
  induction ancestors, value using descent_induction heap generalizing value' with
  | scalar ancestors value hScalar =>
      have hScalar' : value'.isContainer = false := hNames.isContainer_eq.trans hScalar
      rw [placeholdersBelow_of_not_isContainer _ _ _ hScalar,
        placeholdersBelow_of_not_isContainer _ _ _ hScalar', Value.isPlaceholder,
        Value.isPlaceholder, hScalar, hScalar']
      exact .cons ⟨rfl, hNames⟩ .nil
  | opened ancestors handle hOpen =>
      obtain rfl := hNames.eq_container
      rw [placeholdersBelow_of_mem _ _ hOpen, placeholdersBelow_of_mem _ _ hOpen]
      exact .nil
  | missing ancestors handle hNew hCell =>
      obtain rfl := hNames.eq_container
      have hNone := cell?_replaced heap chosen handle
      rw [hCell, Option.map_none] at hNone
      rw [placeholdersBelow_of_enter _ _ hNew Bool.false_ne_true,
        placeholdersBelow_of_enter _ _ hNew Bool.false_ne_true]
      simp [entries, content?, hCell, hNone]
  | enter ancestors handle cell hNew hCell ih =>
      obtain rfl := hNames.eq_container
      have hReplaced := cell?_replaced heap chosen handle
      rw [hCell, Option.map_some] at hReplaced
      rw [placeholdersBelow_of_enter _ _ hNew Bool.false_ne_true,
        placeholdersBelow_of_enter _ _ hNew Bool.false_ne_true, entries_of_cell? hCell,
        entries_of_cell? hReplaced, Cell.entries_mapEntries, List.flatMap_map]
      refine List.rel_flatMap (R := fun entry entry' => entry' = entry ∧ entry ∈ cell.entries)
        (List.forall₂_same.mpr fun entry hEntry => ⟨rfl, hEntry⟩) ?_
      rintro _ entry ⟨rfl, hEntry⟩
      rw [List.forall₂_map_left_iff, List.forall₂_map_right_iff]
      refine (ih entry.2 (names_replacement h hCell hEntry)).imp fun placeholder placeholder' hBoth =>
        ⟨?_, hBoth.value⟩
      rw [Placeholder.under, Placeholder.under, hBoth.path]

/-- A template keeps its placeholders in order, each at its path, with the chosen
texts replaced. -/
theorem names_discover (hNames : Names behaviour template template') :
    List.Forall₂ (Placeholder.Renamed behaviour)
      (heap.discover template) ((heap.replaced chosen).discover template') := by
  rw [discover, discover, discoverWith_eq, discoverWith_eq]
  exact names_placeholdersBelow h [] hNames

/-- A read gives what it gave before, or the callable that names by the text it
gave. -/
theorem names_get (hNames : Names behaviour value value') (segment : Segment) :
    Names behaviour (heap.get value segment) ((heap.replaced chosen).get value' segment) := by
  cases hKind : value.isContainer with
  | false =>
      have hKind' : value'.isContainer = false := hNames.isContainer_eq.trans hKind
      rw [get_of_not_isContainer hKind, get_of_not_isContainer hKind']
      exact .same _
  | true =>
      obtain ⟨handle, rfl⟩ := Value.isContainer_iff.mp hKind
      obtain rfl := hNames.eq_container
      rw [get, get, content?, content?, cell?_replaced]
      cases hCell : heap.cell? handle with
      | none => exact .same _
      | some cell =>
          rw [Option.map_some, Option.bind_some, Option.bind_some, Cell.get?_mapEntries]
          cases hGet : cell.get? segment with
          | none => exact .same _
          | some found => exact names_replacement h hCell (Cell.mem_entries_of_get? hGet)

/-- The same along every path, since replaced texts lead no further. -/
theorem names_getPath (hNames : Names behaviour value value') (path : Path) :
    Names behaviour (heap.getPath value path) ((heap.replaced chosen).getPath value' path) := by
  induction path generalizing value value' with
  | nil => exact hNames
  | cons segment rest ih => exact ih (names_get h hNames segment)

/-- Whoever reaches a container with such a slot reaches the callable in it. -/
theorem exists_callable_of_reaches (hHeap : heap.WellFormed) {slot : Slot} {id : CallableId}
    (hChosen : chosen slot = some id) (hReaches : heap.Reaches value slot.handle) :
    ∃ path, (heap.replaced chosen).getPath value path = .callable id := by
  obtain ⟨path, hPath⟩ := hReaches
  obtain ⟨name, ⟨cell, hCell, hEntry⟩, -⟩ := h slot id hChosen
  obtain ⟨hGet, hCanonical⟩ := Cell.get?_of_mem_entries
    (hHeap.addressable cell (Array.mem_of_getElem? hCell)) hEntry
  have hThere := names_getPath h (.same value) path
  rw [hPath] at hThere
  have hReplaced := cell?_replaced heap chosen slot.handle
  rw [hCell, Option.map_some] at hReplaced
  refine ⟨path ++ [slot.segment], ?_⟩
  rw [getPath_concat, hThere.eq_container, get_of_cell? hReplaced, Cell.get?_mapEntries, hGet,
    hCanonical, Option.map_some, Option.getD_some, replacement, hChosen]

end Chosen

end Heap

end Stencil
