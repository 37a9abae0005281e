import Mathlib.Data.List.Forall2
import Stencil.Heap.Document
import Stencil.Proofs.Heap.Descent

/-!
The trail of a conversion. A conversion leaves the trail as it has found it, so
what it answers depends on nothing but the way that leads to a value. The
recursion below hands the way down and takes nothing back, and conversion is this
recursion.
-/

namespace Stencil

section

variable {α β ε : Type} {items : List α} {f : α → Except ε β} {g : α → List ε}

/-- Wrapping a result does not turn failure into success. -/
theorem map_eq_ok_iff {answer : Except ε α} {result : β} (k : α → β) :
    k <$> answer = .ok result ↔ ∃ found, answer = .ok found ∧ k found = result := by
  cases answer <;> simp [Functor.map, Except.map]

/-- Wrapping a result keeps the failure as it is. -/
theorem map_eq_error_iff {answer : Except ε α} {failure : ε} (k : α → β) :
    k <$> answer = .error failure ↔ answer = .error failure := by
  cases answer <;> simp [Functor.map, Except.map]

/-- A traversal only depends on the answers at the listed items. -/
theorem mapM_congr {f f' : α → Except ε β} (h : ∀ item ∈ items, f item = f' item) :
    items.mapM f = items.mapM f' := by
  induction items with
  | nil => rfl
  | cons item rest ih =>
      rw [List.forall_mem_cons] at h
      rw [List.mapM_cons, List.mapM_cons, h.1, ih h.2]

/-- All items together have these answers just if each of them has its own. -/
theorem mapM_eq_ok_iff {answers : List β} : items.mapM f = .ok answers ↔
    List.Forall₂ (fun item answer => f item = .ok answer) items answers := by
  induction items generalizing answers with
  | nil => cases answers <;> simp [pure, Except.pure]
  | cons item rest ih =>
      rw [List.mapM_cons]
      cases hItem : f item with
      | error => cases answers <;> simp [bind, Except.bind, hItem]
      | ok answer =>
          cases hRest : rest.mapM f with
          | error => cases answers <;> simp [bind, Except.bind, ← ih, hItem, hRest]
          | ok others =>
              cases answers <;> simp [bind, Except.bind, pure, Except.pure, ← ih, hItem, hRest]

/-- Where the failure of an item is the first of a list, that of all together is
the first of all lists. -/
theorem mapM_eq_error_iff (h : ∀ item ∈ items, ∀ failure,
      f item = .error failure ↔ (g item).head? = some failure) (failure : ε) :
    items.mapM f = .error failure ↔ (items.flatMap g).head? = some failure := by
  induction items with
  | nil => simp [pure, Except.pure]
  | cons item rest ih =>
      rw [List.forall_mem_cons] at h
      rw [List.mapM_cons, List.flatMap_cons, List.head?_append]
      cases hItem : f item with
      | error found =>
          rw [(h.1 found).mp hItem]
          simp [bind, Except.bind]
      | ok answer =>
          have hNone : (g item).head? = none := by
            rw [Option.eq_none_iff_forall_ne_some]
            intro found hFound
            cases hItem.symm.trans ((h.1 found).mpr hFound)
          rw [hNone, Option.none_or, ← ih h.2]
          cases rest.mapM f <;> simp [bind, Except.bind, pure, Except.pure]

end

namespace Heap

variable {heap : Heap} {ancestors : List Handle} {handle : Handle}

/-- The document of a value at the end of a route, whose last segment comes
first, below the containers on that route. -/
def toJsonBelow (heap : Heap) (ancestors : List Handle) (route : Path) (value : Value) :
    Except Failure Json :=
  match value with
  | .null => .ok .null
  | .bool flag => .ok (.bool flag)
  | .number value => .ok (.number value)
  | .text value => .ok (.text value)
  | .callable _ => .error (.unrepresentable route.reverse .callable)
  | .container handle =>
    if _hOpen : handle ∈ ancestors then .error (.cycle route.reverse)
    else
      match _hCell : heap.cell? handle with
      | none => .ok .null
      | some cell =>
        cell.assemble <$> cell.entries.mapM fun entry =>
          toJsonBelow heap (handle :: ancestors) (entry.1 :: route) entry.2
termination_by heap.unvisited ancestors
decreasing_by exact unvisited_cons_lt ‹_› ‹_›

/-- An open container that is met again is reported with the path that leads to it. -/
theorem toJsonBelow_of_mem (hOpen : handle ∈ ancestors) (route : Path) :
    heap.toJsonBelow ancestors route (.container handle) = .error (.cycle route.reverse) := by
  rw [toJsonBelow, dif_pos hOpen]

/-- A reference without a cell converts to null. Well-formed heaps have none. -/
theorem toJsonBelow_of_missing (hNew : handle ∉ ancestors) (hCell : heap.cell? handle = none)
    (route : Path) : heap.toJsonBelow ancestors route (.container handle) = .ok .null := by
  rw [toJsonBelow, dif_neg hNew]
  split
  next => rfl
  next hSome => cases hCell.symm.trans hSome

/-- The document of a container that is not open is made of those of its entries,
in their order. -/
theorem toJsonBelow_of_enter {cell : Cell} (hNew : handle ∉ ancestors)
    (hCell : heap.cell? handle = some cell) (route : Path) :
    heap.toJsonBelow ancestors route (.container handle) =
      cell.assemble <$> cell.entries.mapM fun entry =>
        heap.toJsonBelow (handle :: ancestors) (entry.1 :: route) entry.2 := by
  rw [toJsonBelow, dif_neg hNew]
  split
  next hNone => cases hCell.symm.trans hNone
  next hSome => rw [Option.some.inj (hCell.symm.trans hSome)]

/-- After an entry, the others are converted from where it has been. -/
theorem convertEntries_cons (trail : Trail) (segment : Segment) (value : Value)
    (rest : List (Segment × Value)) :
    (heap.convertEntries trail ((segment, value) :: rest)).result = do
      let document ← (heap.convert (trail.push segment) value).result
      let documents ← (heap.convertEntries trail rest).result
      return document :: documents := by
  rw [convertEntries]
  obtain ⟨result, left, rfl⟩ := heap.convert (trail.push segment) value
  cases result with
  | error => rfl
  | ok document =>
      change Except.map _ (heap.convertEntries trail rest).result = _
      cases (heap.convertEntries trail rest).result <;> rfl

/-- Every entry is converted along the same route, since the entries before it have
left the trail as it was. -/
theorem convertEntries_result (route : Path)
    (h : ∀ route value, (heap.convert ⟨route, ancestors⟩ value).result =
      heap.toJsonBelow ancestors route value) (entries : List (Segment × Value)) :
    (heap.convertEntries ⟨route, ancestors⟩ entries).result = entries.mapM fun entry =>
      heap.toJsonBelow ancestors (entry.1 :: route) entry.2 := by
  induction entries with
  | nil =>
      rw [convertEntries]
      rfl
  | cons entry rest ih => rw [convertEntries_cons, List.mapM_cons, ih, Trail.push, h]

/-- Conversion with a trail answers what the recursion answers. The induction is on
the containers that are not open yet. -/
theorem convert_result (heap : Heap) (ancestors : List Handle) (route : Path) (value : Value) :
    (heap.convert ⟨route, ancestors⟩ value).result = heap.toJsonBelow ancestors route value := by
  induction ancestors, value using descent_induction heap generalizing route with
  | scalar ancestors value hScalar =>
      cases value with
      | container => cases hScalar
      | _ => rw [convert, toJsonBelow]
  | opened ancestors handle hOpen => rw [convert, dif_pos hOpen, toJsonBelow_of_mem hOpen]
  | missing ancestors handle hNew hCell =>
      rw [convert, dif_neg hNew, toJsonBelow_of_missing hNew hCell]
      split
      next => rfl
      next hSome => cases hCell.symm.trans hSome
  | enter ancestors handle cell hNew hCell ih =>
      rw [convert, dif_neg hNew, toJsonBelow_of_enter hNew hCell,
        ← convertEntries_result route (fun route value => ih value route)]
      split
      next hNone => cases hCell.symm.trans hNone
      next hSome =>
        cases hCell.symm.trans hSome
        rfl

theorem toJson_eq (heap : Heap) (value : Value) : heap.toJson value = heap.toJsonBelow [] [] value :=
  heap.convert_result [] [] value

end Heap

end Stencil
