import Mathlib.Data.List.Basic
import Stencil.Placeholder
import Stencil.Proofs.Heap.Region

/-!
Discovery as a recursion. The placeholders below a value are those of its
entries, one entry after the other, and nothing where the value is one of its
own ancestors. A step of the search moves what is still to be found to what has
been found, and changes nothing of the two together, so the search ends with this
list in this order.
-/

namespace Stencil

/-- The same placeholder, seen from further up. -/
def Placeholder.under (front : Path) (placeholder : Placeholder) : Placeholder :=
  ⟨front ++ placeholder.path, placeholder.value⟩

/-- Going up two levels is going up once by the joint path. -/
theorem Placeholder.under_under (front back : Path) (placeholder : Placeholder) :
    (placeholder.under back).under front = placeholder.under (front ++ back) := by
  simp [under]

namespace Heap

/-- The placeholders of a value below some containers, with their paths from
that value on. -/
def placeholdersBelow (heap : Heap) (accepts : Value → Bool) (ancestors : List Handle)
    (value : Value) : List Placeholder :=
  match value with
  | .container handle =>
    if _hOpen : handle ∈ ancestors then []
    else if accepts (.container handle) then [⟨[], .container handle⟩]
    else
      match _hCell : heap.cell? handle with
      | none => []
      | some cell =>
        cell.entries.flatMap fun entry =>
          (placeholdersBelow heap accepts (handle :: ancestors) entry.2).map
            (Placeholder.under [entry.1])
  | scalar => if accepts scalar then [⟨[], scalar⟩] else []
termination_by heap.unvisited ancestors
decreasing_by exact unvisited_cons_lt ‹_› ‹_›

variable (heap : Heap) (accepts : Value → Bool)

/-- Where a cycle closes, nothing is found. -/
theorem placeholdersBelow_of_mem {ancestors : List Handle} {handle : Handle}
    (hOpen : handle ∈ ancestors) :
    heap.placeholdersBelow accepts ancestors (.container handle) = [] := by
  rw [placeholdersBelow, dif_pos hOpen]

/-- A container that is accepted as a whole is not looked into. -/
theorem placeholdersBelow_of_accepts {ancestors : List Handle} {handle : Handle}
    (hOpen : handle ∉ ancestors) (hAccepts : accepts (.container handle)) :
    heap.placeholdersBelow accepts ancestors (.container handle) = [⟨[], .container handle⟩] := by
  rw [placeholdersBelow, dif_neg hOpen, if_pos hAccepts]

/-- Any other container has the placeholders of its entries, in their order, each
one segment further down. -/
theorem placeholdersBelow_of_enter {ancestors : List Handle} {handle : Handle}
    (hOpen : handle ∉ ancestors) (hAccepts : ¬ accepts (.container handle)) :
    heap.placeholdersBelow accepts ancestors (.container handle) =
      (heap.entries (.container handle)).flatMap fun entry =>
        (heap.placeholdersBelow accepts (handle :: ancestors) entry.2).map
          (Placeholder.under [entry.1]) := by
  rw [placeholdersBelow, dif_neg hOpen, if_neg hAccepts]
  unfold entries content?
  split
  · rename_i hCell
    simp [hCell]
  · rename_i cell hCell
    simp [hCell]

/-- A value that is no container is found itself, if it is accepted. -/
theorem placeholdersBelow_of_not_isContainer (ancestors : List Handle) {value : Value}
    (h : value.isContainer = false) :
    heap.placeholdersBelow accepts ancestors value =
      if accepts value then [⟨[], value⟩] else [] := by
  cases value with
  | container => cases h
  | _ =>
      rw [placeholdersBelow]
      exact fun _ hContainer => Value.noConfusion hContainer

end Heap

namespace Discovery

variable (heap : Heap) (accepts : Value → Bool)

/-- What is still to be found from a stack of open containers, with the route to
the innermost. -/
def pending : List Frame → Path → List Placeholder
  | [], _ => []
  | frame :: frames, route =>
    (frame.rest.flatMap fun entry =>
      (heap.placeholdersBelow accepts (frame.handle :: frames.map Frame.handle) entry.2).map
        (Placeholder.under (entry.1 :: route).reverse)) ++ pending frames route.tail

namespace Search

/-- What a search finds altogether: what it has found already, and what it has
still to find. -/
def outcome (search : Search) : List Placeholder :=
  search.found.reverse ++ pending heap accepts search.frames search.route

/-- Looking at an entry adds what the recursion finds below it, either to what
has been found or to what is still to be found. -/
theorem outcome_look (search : Search) (segment : Segment) (child : Value) :
    (search.look heap accepts segment child).outcome heap accepts =
      search.found.reverse ++
        ((heap.placeholdersBelow accepts search.ancestors child).map
          (Placeholder.under (segment :: search.route).reverse) ++
            pending heap accepts search.frames search.route) := by
  unfold look
  split
  next inner =>
    split
    next hOpen =>
      rw [heap.placeholdersBelow_of_mem accepts hOpen]
      rfl
    next hOpen =>
      split
      next hAccepts =>
        rw [heap.placeholdersBelow_of_accepts accepts hOpen hAccepts]
        simp [outcome, record, Placeholder.under]
      next hAccepts =>
        rw [heap.placeholdersBelow_of_enter accepts hOpen hAccepts, List.map_flatMap]
        simp only [outcome, enter, pending, List.map_map, Function.comp_def,
          Placeholder.under_under, search.inStep, List.tail_cons, List.reverse_cons]
  next hScalar =>
    have hKind : child.isContainer = false := Value.isContainer_eq_false_iff.mpr hScalar
    rw [heap.placeholdersBelow_of_not_isContainer accepts _ hKind]
    split
    next => simp [outcome, record, Placeholder.under]
    next => rfl

/-- No step changes what a search finds altogether. -/
theorem outcome_step {search next : Search} (hStep : search.step heap accepts = some next) :
    next.outcome heap accepts = search.outcome heap accepts := by
  rcases search with ⟨_ | ⟨⟨handle, _ | ⟨⟨segment, child⟩, rest⟩⟩, frames⟩, route, ancestors, found,
    inStep⟩
  · cases hStep
  · cases hStep
    rfl
  · cases hStep
    rw [outcome_look]
    simp [outcome, pending, inStep]

/-- A search that takes no step has found everything. -/
theorem outcome_of_step_eq_none {search : Search} (hStep : search.step heap accepts = none) :
    search.outcome heap accepts = search.found.reverse := by
  rcases search with ⟨_ | ⟨⟨handle, _ | ⟨⟨segment, child⟩, rest⟩⟩, frames⟩, route, ancestors, found,
    inStep⟩
  · simp [outcome, pending]
  · cases hStep
  · cases hStep

/-- In the end a search has found what it was to find at the start. -/
theorem found_run (search : Search) :
    (search.run heap accepts).found.reverse = search.outcome heap accepts := by
  have hKept : (search.run heap accepts).outcome heap accepts = search.outcome heap accepts :=
    Loop.run_keeps (motive := fun other => other.outcome heap accepts = search.outcome heap accepts)
      rfl fun _ _ hKept hStep => (outcome_step heap accepts hStep).trans hKept
  exact (outcome_of_step_eq_none heap accepts Loop.step_run).symm.trans hKept

/-- A search that starts at a container finds what the recursion finds there. -/
theorem outcome_start {root : Handle} (hAccepts : ¬ accepts (.container root)) :
    (start heap root).outcome heap accepts =
      heap.placeholdersBelow accepts [] (.container root) := by
  rw [heap.placeholdersBelow_of_enter accepts List.not_mem_nil hAccepts]
  simp [outcome, start, enter, pending]

end Search

end Discovery

/-- Discovery lists what the recursion finds, in the same order. -/
theorem Heap.discoverWith_eq (heap : Heap) (accepts : Value → Bool) (template : Value) :
    heap.discoverWith accepts template = heap.placeholdersBelow accepts [] template := by
  cases hKind : template.isContainer with
  | false =>
      rw [heap.placeholdersBelow_of_not_isContainer accepts [] hKind]
      cases template with
      | container => cases hKind
      | _ => rfl
  | true =>
      obtain ⟨root, rfl⟩ := Value.isContainer_iff.mp hKind
      rw [discoverWith]
      by_cases hAccepts : accepts (.container root)
      · rw [if_pos hAccepts, heap.placeholdersBelow_of_accepts accepts (List.not_mem_nil) hAccepts]
      · rw [if_neg hAccepts, Discovery.Search.found_run,
          Discovery.Search.outcome_start heap accepts hAccepts]

/-- Discovery is the recursion, and its loop comes to an end on every template,
however containers are shared and hold one another in cycles. The classifier is
any function, and may accept containers. -/
theorem Heap.discoverWith_halts (heap : Heap) (accepts : Value → Bool) (template : Value) :
    heap.discoverWith accepts template = heap.placeholdersBelow accepts [] template ∧
      ∀ root, template = .container root → accepts template = false →
        ∃ last, Loop.Halts (Discovery.Search.step heap accepts) (.start heap root) last ∧
          last.found.reverse = heap.placeholdersBelow accepts [] template := by
  refine ⟨heap.discoverWith_eq accepts template, ?_⟩
  rintro root rfl hRejects
  have hAccepts : ¬ accepts (.container root) := Bool.eq_false_iff.mp hRejects
  refine ⟨(Discovery.Search.start heap root).run heap accepts, Loop.halts_run, ?_⟩
  rw [Discovery.Search.found_run, Discovery.Search.outcome_start heap accepts hAccepts]

/-- What is found in a region depends on the content of the region alone. -/
theorem Heap.AgreeOn.placeholdersBelow {heap other : Heap} {region : Set Handle}
    (hSame : AgreeOn region heap other) (hRegion : heap.Region region) (accepts : Value → Bool)
    {ancestors : List Handle} {value : Value} (hValue : value.Within region) :
    other.placeholdersBelow accepts ancestors value =
      heap.placeholdersBelow accepts ancestors value := by
  fun_induction Heap.placeholdersBelow heap accepts ancestors value with
  | case1 ancestors handle hOpen => exact other.placeholdersBelow_of_mem accepts hOpen
  | case2 ancestors handle hOpen hAccepts =>
      exact other.placeholdersBelow_of_accepts accepts hOpen hAccepts
  | case3 ancestors handle hOpen hAccepts hCell =>
      obtain ⟨cell, hSome⟩ := hRegion.exists_cell? (Value.within_container.mp hValue)
      rw [hCell] at hSome
      cases hSome
  | case4 ancestors handle hOpen hAccepts cell hCell ih =>
      have hHandle := Value.within_container.mp hValue
      have hEntries : other.entries (.container handle) = cell.entries := by
        rw [entries, Heap.content?, hSame handle hHandle, hCell]
        rfl
      rw [other.placeholdersBelow_of_enter accepts hOpen hAccepts, hEntries]
      refine List.flatMap_congr fun entry hEntry => ?_
      have hChild := Cell.mem_values_of_mem_entries hEntry
      rw [ih entry (hRegion.closed handle hHandle cell hCell _ hChild)]
  | case5 ancestors scalar hScalar hAccepts =>
      rw [other.placeholdersBelow_of_not_isContainer accepts ancestors
        (Value.isContainer_eq_false_iff.mpr hScalar), if_pos hAccepts]
  | case6 ancestors scalar hScalar hAccepts =>
      rw [other.placeholdersBelow_of_not_isContainer accepts ancestors
        (Value.isContainer_eq_false_iff.mpr hScalar), if_neg hAccepts]

/-- Discovery finds the same as long as nothing that it looks at has changed. -/
theorem Heap.AgreeOn.discover {heap other : Heap} {region : Set Handle}
    (hSame : AgreeOn region heap other) (hRegion : heap.Region region) {template : Value}
    (hTemplate : template.Within region) : other.discover template = heap.discover template := by
  rw [Heap.discover, Heap.discover, discoverWith_eq, discoverWith_eq,
    hSame.placeholdersBelow hRegion _ hTemplate]

end Stencil
