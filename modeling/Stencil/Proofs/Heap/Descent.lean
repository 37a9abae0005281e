import Mathlib.Logic.Relation
import Stencil.Proofs.Heap.Route

/-!
Descending from containers to what they hold. A walk that never enters an open
container comes to an end, and this is the induction behind all of them. Without
cycles every descent comes to an end, whether or not it minds its ancestors.
-/

namespace Stencil.Heap

variable {heap other : Heap} {region : Set Handle} {value : Value}

/-- A walk ends at scalars and at containers that are open already. From any other
container it goes on with the entries, and the container is open for them. -/
theorem descent_induction (heap : Heap) {motive : List Handle → Value → Prop}
    (scalar : ∀ ancestors value, value.isContainer = false → motive ancestors value)
    (opened : ∀ ancestors handle, handle ∈ ancestors → motive ancestors (.container handle))
    (missing : ∀ ancestors handle, handle ∉ ancestors → heap.cell? handle = none →
      motive ancestors (.container handle))
    (enter : ∀ ancestors handle cell, handle ∉ ancestors → heap.cell? handle = some cell →
      (∀ value, motive (handle :: ancestors) value) → motive ancestors (.container handle))
    (ancestors : List Handle) (value : Value) : motive ancestors value := by
  induction hCount : heap.unvisited ancestors using Nat.strong_induction_on
    generalizing ancestors value with
  | h count ih =>
      subst hCount
      cases hKind : value.isContainer with
      | false => exact scalar ancestors value hKind
      | true =>
          obtain ⟨handle, rfl⟩ := Value.isContainer_iff.mp hKind
          by_cases hOpen : handle ∈ ancestors
          · exact opened ancestors handle hOpen
          cases hCell : heap.cell? handle with
          | none => exact missing ancestors handle hOpen hCell
          | some cell =>
              exact enter ancestors handle cell hOpen hCell fun child =>
                ih _ (unvisited_cons_lt hCell hOpen) (handle :: ancestors) child rfl

/-- The first value is one of those that the second, a container, holds. -/
def Held (heap : Heap) (child value : Value) : Prop :=
  ∃ cell, heap.content? value = some cell ∧ child ∈ cell.values

/-- A read that does not come back empty descends into the container. -/
theorem held_of_get {segment : Segment} (h : heap.get value segment ≠ .null) :
    heap.Held (heap.get value segment) value := by
  obtain ⟨handle, cell, rfl, hCell, hGet⟩ := exists_entry_of_get rfl h
  exact ⟨cell, hCell, Cell.mem_values_of_get? hGet⟩

/-- In a region, what a container holds is read from it. -/
theorem Region.exists_get_of_held (h : heap.Region region) (hValue : value.Within region)
    {child : Value} (hHeld : heap.Held child value) :
    child.Within region ∧ ∃ segment, heap.get value segment = child := by
  obtain ⟨cell, hCell, hChild⟩ := hHeld
  cases value with
  | container handle =>
      have hHandle := Value.within_container.mp hValue
      refine ⟨h.closed handle hHandle cell hCell child hChild, ?_⟩
      rw [Cell.values_eq_map_entries] at hChild
      obtain ⟨entry, hEntry, rfl⟩ := List.mem_map.mp hChild
      exact ⟨entry.1, h.get_of_mem_entries hHandle hCell hEntry⟩
  | _ => cases hCell

/-- There is nothing to descend into. -/
theorem acc_held_of_not_isContainer (h : value.isContainer = false) : Acc heap.Held value := by
  refine .intro value ?_
  rintro child ⟨cell, hCell, -⟩
  cases value with
  | container => cases h
  | _ => cases hCell

/-- No container that can be reached from the value can be reached from
itself. -/
def Acyclic (heap : Heap) (value : Value) : Prop :=
  ∀ handle, heap.Reaches value handle →
    ∀ path, path ≠ [] → heap.getPath (.container handle) path ≠ .container handle

namespace Acyclic

/-- Whatever is found in a value without cycles has none either. -/
theorem get (h : heap.Acyclic value) (segment : Segment) :
    heap.Acyclic (heap.get value segment) := by
  rintro handle ⟨path, hPath⟩
  exact h handle ⟨segment :: path, hPath⟩

/-- Whether a value has cycles is decided by the region in which it lies. -/
theorem congr (h : heap.Acyclic value) (hSame : AgreeOn region heap other)
    (hRegion : heap.Region region) (hValue : value.Within region) : other.Acyclic value := by
  rintro handle ⟨path, hPath⟩ back hBack
  rw [hSame.getPath hRegion hValue] at hPath
  have hHandle : (Value.container handle).Within region := hPath ▸ hRegion.getPath_within hValue path
  rw [hSame.getPath hRegion hHandle]
  exact h handle ⟨path, hPath⟩ back hBack

/-- Every descent from a value without cycles comes to an end. Paths lead from the open
containers to the value, so it is none of them. -/
theorem acc_held (h : heap.Acyclic value) (hRegion : heap.Region region)
    (hValue : value.Within region) : Acc heap.Held value := by
  have hBelow : ∀ (ancestors : List Handle) (value : Value), value.Within region →
      heap.Acyclic value → (∀ ancestor ∈ ancestors, ∃ path, path ≠ [] ∧
        heap.getPath (.container ancestor) path = value) → Acc heap.Held value := by
    intro ancestors value
    induction ancestors, value using descent_induction heap with
    | scalar ancestors value hScalar => exact fun _ _ _ => acc_held_of_not_isContainer hScalar
    | opened ancestors handle hOpen =>
        intro _ hAcyclic hAbove
        obtain ⟨path, hPath, hBack⟩ := hAbove handle hOpen
        exact absurd hBack (hAcyclic handle ⟨[], rfl⟩ path hPath)
    | missing ancestors handle hNew hCell =>
        intro hWithin
        obtain ⟨cell, hSome⟩ := hRegion.exists_cell? (Value.within_container.mp hWithin)
        cases hCell.symm.trans hSome
    | enter ancestors handle cell hNew hCell ih =>
        intro hWithin hAcyclic hAbove
        refine .intro _ fun child hHeld => ?_
        obtain ⟨hChild, segment, rfl⟩ := hRegion.exists_get_of_held hWithin hHeld
        refine ih _ hChild (hAcyclic.get segment) ?_
        rw [List.forall_mem_cons]
        refine ⟨⟨[segment], List.cons_ne_nil _ _, rfl⟩, fun ancestor hOpen => ?_⟩
        obtain ⟨path, -, hPath⟩ := hAbove ancestor hOpen
        exact ⟨path ++ [segment], by simp, by rw [getPath_concat, hPath]⟩
  exact hBelow [] value hValue h fun _ hMem => absurd hMem List.not_mem_nil

end Acyclic

/-- Where every descent comes to an end, no path leads from a container back to
it. A cycle through the container leads through one of its entries as well. -/
theorem getPath_ne_of_acc {container : Value} (h : Acc heap.Held container)
    (hContainer : container.isContainer = true) {path : Path} (hPath : path ≠ []) :
    heap.getPath container path ≠ container := by
  induction h generalizing path with
  | intro container _ ih =>
      cases path with
      | nil => exact absurd rfl hPath
      | cons segment rest =>
          intro hBack
          obtain ⟨handle, rfl⟩ := Value.isContainer_iff.mp hContainer
          change heap.getPath (heap.get (.container handle) segment) rest = _ at hBack
          have hChild : (heap.get (.container handle) segment).isContainer = true :=
            isContainer_of_getPath hBack
          have hNull : heap.get (.container handle) segment ≠ .null := by
            intro hNull
            rw [hNull] at hChild
            cases hChild
          refine ih _ (held_of_get hNull) hChild (List.concat_ne_nil segment rest) ?_
          rw [getPath_concat, hBack]

/-- Every descent from a value that is read along a path comes to an end, if every
descent from the root does. -/
theorem acc_getPath (h : Acc heap.Held value) (path : Path) :
    Acc heap.Held (heap.getPath value path) := by
  induction path generalizing value with
  | nil => exact h
  | cons segment rest ih =>
      change Acc heap.Held (heap.getPath (heap.get value segment) rest)
      refine ih ?_
      by_cases hNull : heap.get value segment = .null
      · rw [hNull]
        exact acc_held_of_not_isContainer rfl
      · exact h.inv (held_of_get hNull)

/-- A value from which every descent comes to an end has no cycles. -/
theorem acyclic_of_acc (h : Acc heap.Held value) : heap.Acyclic value := by
  rintro handle ⟨path, hPath⟩ back hBack
  exact getPath_ne_of_acc (hPath ▸ acc_getPath h path) rfl hBack

/-- Where containers hold only older ones, there are no cycles. -/
theorem acyclic_of_older
    (h : ∀ handle < heap.size, ∀ entry ∈ heap.entries (.container handle),
      ∀ child ∈ entry.2.handle?, child < handle) (value : Value) : heap.Acyclic value := by
  refine acyclic_of_acc ?_
  have hOlder : ∀ handle, Acc heap.Held (.container handle) := by
    intro handle
    induction handle using Nat.strong_induction_on with
    | h handle ih =>
        refine .intro _ ?_
        rintro child ⟨cell, hCell, hChild⟩
        cases hKind : child.isContainer with
        | false => exact acc_held_of_not_isContainer hKind
        | true =>
            obtain ⟨inner, rfl⟩ := Value.isContainer_iff.mp hKind
            rw [Cell.values_eq_map_entries, ← entries_of_cell? hCell] at hChild
            obtain ⟨entry, hEntry, hInner⟩ := List.mem_map.mp hChild
            exact ih inner (h handle (lt_size_of_cell? hCell) entry hEntry inner
              (Value.mem_handle?_iff.mpr hInner))
  cases hKind : value.isContainer with
  | false => exact acc_held_of_not_isContainer hKind
  | true =>
      obtain ⟨handle, rfl⟩ := Value.isContainer_iff.mp hKind
      exact hOlder handle

end Stencil.Heap
