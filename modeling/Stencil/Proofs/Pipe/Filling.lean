import Stencil.Pipe
import Stencil.Proofs.Confinement
import Stencil.Proofs.Discovery.Coverage
import Stencil.Proofs.Heap.Skeleton

/-!
Filling. The placeholders of a template take their turns, and each turn fills
one slot of the skeleton. The skeleton and what callables can see stay apart
from one another, so whatever callables do, a slot holds the answer of the last
placeholder that has addressed it.
-/

namespace Stencil.Pipe

variable {Memory : Type} {behaviour : Behaviour Memory} {bindings : Bindings}
  {extracted source : Value}

theorem fill_append (behaviour : Behaviour Memory) (bindings : Bindings) (extracted source : Value)
    (first second : List Placeholder) (result : Value) (world : World Memory) :
    fill behaviour bindings extracted source (first ++ second) result world =
      fill behaviour bindings extracted source second
        (fill behaviour bindings extracted source first result world).1
        (fill behaviour bindings extracted source first result world).2 := by
  induction first generalizing result world with
  | nil => rfl
  | cons placeholder rest ih =>
      rw [List.cons_append, fill, fill]
      split
      · exact ih _ _
      · exact ih _ _

theorem fill_concat_of_none {placeholder : Placeholder} {first : List Placeholder} {result : Value}
    {world after : World Memory}
    (h : answer behaviour bindings extracted source placeholder
      (fill behaviour bindings extracted source first result world).2 = (none, after)) :
    fill behaviour bindings extracted source (first ++ [placeholder]) result world =
      ((fill behaviour bindings extracted source first result world).1, after) := by
  rw [fill_append, fill, h]
  rfl

theorem fill_concat_of_some {placeholder : Placeholder} {first : List Placeholder} {result : Value}
    {world after : World Memory} {value root : Value} {heap : Heap}
    (h : answer behaviour bindings extracted source placeholder
      (fill behaviour bindings extracted source first result world).2 = (some value, after))
    (hSet : after.heap.setPath (fill behaviour bindings extracted source first result world).1
      placeholder.path value = (root, heap)) :
    fill behaviour bindings extracted source (first ++ [placeholder]) result world =
      (root, { after with heap := heap }) := by
  rw [fill_append, fill, h]
  simp only [hSet]
  rfl

theorem request_congr {placeholder other : Placeholder} (h : placeholder.value = other.value) :
    placeholder.request = other.request := by
  rw [Placeholder.request, Placeholder.request, h]

/-- Only inert placeholders are left unanswered. -/
theorem answer_eq_none_iff {placeholder : Placeholder} {world : World Memory} :
    (answer behaviour bindings extracted source placeholder world).1 = none ↔
      placeholder.request = .inert := by
  unfold answer
  cases placeholder.request <;> simp

/-- An answer changes nothing unless a callable gives it. -/
theorem answer_world {placeholder : Placeholder} (h : ∀ id, placeholder.request ≠ .function id)
    (world : World Memory) :
    (answer behaviour bindings extracted source placeholder world).2 = world := by
  unfold answer
  cases hRequest : placeholder.request with
  | function id => exact absurd hRequest (h id)
  | _ => rfl

theorem confined_answer {roots : Memory → Set Handle} (hBehaviour : behaviour.Confined roots)
    {region : Set Handle} {world : World Memory} (hView : world.View roots region)
    (hExtracted : extracted.Within region) (hSource : source.Within region)
    (placeholder : Placeholder) :
    World.Confined roots region world
      (answer behaviour bindings extracted source placeholder world).2 := by
  unfold answer
  cases placeholder.request with
  | function id =>
      exact (hBehaviour id (.filling extracted source) world region hView hExtracted hSource).1
  | _ => exact .refl hView

/-- What is added to a heap is outside of everything that was in it. -/
theorem grown_diff {places : Set Handle} {before after : Heap} (hPlaces : places ⊆ before.handles)
    (hSize : before.size ≤ after.size) :
    Heap.grown (before.handles \ places) before after = after.handles \ places := by
  ext handle
  constructor
  · rintro (⟨hLt, hOutside⟩ | ⟨hLe, hLt⟩)
    · exact ⟨Nat.lt_of_lt_of_le hLt hSize, hOutside⟩
    · exact ⟨hLt, fun hMem => Nat.not_lt.mpr hLe (hPlaces hMem)⟩
  · rintro ⟨hLt, hOutside⟩
    by_cases hOld : handle < before.size
    · exact .inl ⟨hOld, hOutside⟩
    · exact .inr ⟨Nat.not_lt.mp hOld, hLt⟩

/-- A write to some places leaves alone what is seen outside of them. -/
theorem view_of_frame {roots : Memory → Set Handle} {world : World Memory} {heap : Heap}
    {places : Set Handle} (hView : world.View roots (world.heap.handles \ places))
    (hSize : heap.size = world.heap.size)
    (hFrame : ∀ handle, handle ∉ places → heap.cell? handle = world.heap.cell? handle) :
    ({ world with heap := heap } : World Memory).View roots (heap.handles \ places) := by
  have hHandles : heap.handles = world.heap.handles := by
    rw [Heap.handles, hSize]
    rfl
  rw [hHandles]
  exact ⟨hView.closed.congr fun handle hMem => hFrame handle hMem.2, hView.captured⟩

/-- A filling that is about to begin: a template, a region of containers around
it, and the places where these containers have been copied to. -/
structure Filling (Memory : Type) where
  behaviour : Behaviour Memory
  bindings : Bindings
  extracted : Value
  source : Value
  start : World Memory
  root : Handle
  region : Set Handle
  place : Handle → Handle

namespace Filling

variable (filling : Filling Memory)

/-- The containers that are to be filled. -/
def places : Set Handle := filling.place '' filling.region

/-- The placeholders of the template. -/
def placeholders : List Placeholder := filling.start.heap.discover (.container filling.root)

/-- The slot of the template that a placeholder stands in. -/
def slot? (placeholder : Placeholder) : Option Slot :=
  filling.start.heap.slot? (.container filling.root) placeholder.path

/-- The result and the world after the turns of some placeholders. -/
def after (done : List Placeholder) : Value × World Memory :=
  fill filling.behaviour filling.bindings filling.extracted filling.source done
    (.container (filling.place filling.root)) filling.start

/-- What a placeholder is answered when its turn comes after those of others. -/
def turn (done : List Placeholder) (placeholder : Placeholder) : Option Value × World Memory :=
  answer filling.behaviour filling.bindings filling.extracted filling.source placeholder
    (filling.after done).2

/-- The last of the placeholders that stand in a slot has been answered with
this value when its turn came. -/
def LastAnswer (done : List Placeholder) (slot : Slot) (value : Value) : Prop :=
  ∃ before last rest, done = before ++ last :: rest ∧ filling.slot? last = some slot ∧
    (∀ other ∈ rest, filling.slot? other ≠ some slot) ∧
    (filling.turn before last).1 = some value

/-- What is apart when the filling begins: on the one side the copy that is to
be filled, on the other side the arguments of callables and what they have
captured. -/
structure Apart (roots : Memory → Set Handle) : Prop where
  confined : filling.behaviour.Confined roots
  skeleton : Heap.Skeleton filling.start.heap filling.region filling.place (fun _ => none)
    filling.start.heap
  root_mem : filling.root ∈ filling.region
  allocated : filling.places ⊆ filling.start.heap.handles
  view : filling.start.View roots (filling.start.heap.handles \ filling.places)
  extracted_within : filling.extracted.Within (filling.start.heap.handles \ filling.places)
  source_within : filling.source.Within (filling.start.heap.handles \ filling.places)

/-- The state in which the skeleton is there and apart. -/
structure Kept (roots : Memory → Set Handle) (filled : Slot → Option Value)
    (world : World Memory) : Prop where
  size_le : filling.start.heap.size ≤ world.heap.size
  skeleton : Heap.Skeleton filling.start.heap filling.region filling.place filled world.heap
  view : world.View roots (world.heap.handles \ filling.places)

/-- What the turns of some placeholders have brought about: the skeleton is
still there and apart, and every slot has been filled with its last answer. As
long as no callable had a turn, nothing else has changed. -/
structure Filled (roots : Memory → Set Handle) (done : List Placeholder)
    (filled : Slot → Option Value) : Prop where
  result : (filling.after done).1 = .container (filling.place filling.root)
  kept : filling.Kept roots filled (filling.after done).2
  answered : ∀ slot value, filled slot = some value → filling.LastAnswer done slot value
  complete : ∀ placeholder ∈ done, placeholder.request ≠ .inert →
    ∀ slot, filling.slot? placeholder = some slot → filled slot ≠ none
  frame : (∀ placeholder ∈ done, ∀ id, placeholder.request ≠ .function id) →
    (filling.after done).2.heap.size = filling.start.heap.size ∧
      ∀ handle, handle ∉ filling.places →
        (filling.after done).2.heap.cell? handle = filling.start.heap.cell? handle

variable {filling} {roots : Memory → Set Handle} {done : List Placeholder}
  {placeholder : Placeholder} {filled : Slot → Option Value} {slot : Slot} {value : Value}

/-- The slot of a placeholder holds the placeholder. -/
theorem Apart.exists_slot (hApart : filling.Apart roots)
    (hMem : placeholder ∈ filling.placeholders) :
    ∃ slot, filling.slot? placeholder = some slot ∧ slot.handle ∈ filling.region ∧
      filling.start.heap.Holds slot placeholder.value ∧ placeholder.value.isContainer = false := by
  have hClosed := hApart.skeleton.closed
  obtain ⟨slot, hSlot, hHolds, hScalar⟩ :=
    Heap.exists_slot_of_mem_discover hClosed hApart.root_mem hMem
  exact ⟨slot, hSlot,
    hClosed.mem_of_slot? (Value.within_container.mpr hApart.root_mem) hSlot, hHolds, hScalar⟩

/-- Placeholders of one slot ask for the same, because they are the same value. -/
theorem Apart.request_eq (hApart : filling.Apart roots) {other : Placeholder}
    (hMem : placeholder ∈ filling.placeholders) (hOther : other ∈ filling.placeholders)
    (hSame : filling.slot? other = filling.slot? placeholder) :
    other.request = placeholder.request := by
  obtain ⟨slot, hSlot, hSlotMem, hHolds, -⟩ := hApart.exists_slot hMem
  obtain ⟨otherSlot, hOtherSlot, -, hOtherHolds, -⟩ := hApart.exists_slot hOther
  obtain rfl : otherSlot = slot :=
    Option.some.inj (hOtherSlot.symm.trans (hSame.trans hSlot))
  exact request_congr (hOtherHolds.unique hHolds hApart.skeleton.closed hSlotMem)

/-- Answers that have been given stay the last ones as long as the slot is not
addressed again. -/
theorem LastAnswer.concat (h : filling.LastAnswer done slot value)
    (hOther : filling.slot? placeholder ≠ some slot) :
    filling.LastAnswer (done ++ [placeholder]) slot value := by
  obtain ⟨before, last, rest, rfl, hSlot, hRest, hAnswer⟩ := h
  refine ⟨before, last, rest ++ [placeholder], by simp, hSlot, ?_, hAnswer⟩
  rw [List.forall_mem_append, List.forall_mem_singleton]
  exact ⟨hRest, hOther⟩

theorem Apart.filled_nil (hApart : filling.Apart roots) : filling.Filled roots [] fun _ => none where
  result := rfl
  kept := ⟨Nat.le_refl _, hApart.skeleton, hApart.view⟩
  answered := by
    intro slot value hFilled
    cases hFilled
  complete := by
    intro placeholder hMem
    cases hMem
  frame := fun _ => ⟨rfl, fun _ _ => rfl⟩

/-- A callable that has its turn does not touch the skeleton. -/
theorem Kept.turn (hApart : filling.Apart roots)
    (h : filling.Kept roots filled (filling.after done).2) (placeholder : Placeholder) :
    filling.Kept roots filled (filling.turn done placeholder).2 := by
  have hHandles : filling.start.heap.handles ⊆ (filling.after done).2.heap.handles := fun _ hLt =>
    Nat.lt_of_lt_of_le hLt h.size_le
  have hPlaces := hApart.allocated.trans hHandles
  have hOutside : filling.start.heap.handles \ filling.places ⊆
      (filling.after done).2.heap.handles \ filling.places :=
    fun _ hMem => ⟨hHandles hMem.1, hMem.2⟩
  have hConfined : World.Confined roots _ (filling.after done).2 (filling.turn done placeholder).2 :=
    confined_answer hApart.confined h.view (hApart.extracted_within.mono hOutside)
      (hApart.source_within.mono hOutside) placeholder
  refine ⟨Nat.le_trans h.size_le hConfined.heap.size_le, h.skeleton.congr ?_, ?_⟩
  · intro handle hMem
    exact hConfined.heap.frame handle (hPlaces hMem) fun hOther => hOther.2 hMem
  · rw [← grown_diff hPlaces hConfined.heap.size_le]
    exact hConfined.view

/-- An answer that is written at the path of a placeholder goes into the
skeleton, and nothing outside of it changes. -/
theorem Kept.setPath (hApart : filling.Apart roots) {world : World Memory}
    (h : filling.Kept roots filled world) (hMem : placeholder ∈ filling.placeholders)
    (hSlot : filling.slot? placeholder = some slot) (value : Value) :
    ∃ heap, world.heap.setPath (.container (filling.place filling.root)) placeholder.path value =
        (.container (filling.place filling.root), heap) ∧
      heap.size = world.heap.size ∧
      (∀ handle, handle ∉ filling.places → heap.cell? handle = world.heap.cell? handle) ∧
      filling.Kept roots (Function.update filled slot (some value)) { world with heap := heap } := by
  obtain ⟨_, hSlot', hSlotMem, hHolds, hScalar⟩ := hApart.exists_slot hMem
  obtain rfl := Option.some.inj (hSlot'.symm.trans hSlot)
  obtain ⟨heap, hSet, hSize, hFrame, hSkeleton⟩ :=
    h.skeleton.setPath hApart.root_mem hSlot hHolds hScalar value
  have hOutside : ∀ handle, handle ∉ filling.places →
      heap.cell? handle = world.heap.cell? handle := fun handle hOutside =>
    hFrame handle fun hPlace => hOutside ⟨_, hSlotMem, hPlace.symm⟩
  exact ⟨heap, hSet, hSize, hOutside, Nat.le_trans h.size_le (Nat.le_of_eq hSize.symm), hSkeleton,
    view_of_frame h.view hSize hOutside⟩

/-- The turn of an inert placeholder fills nothing. Nor has its slot been filled
before, for then it would hold a value that is answered. -/
theorem Filled.concat_of_none (hApart : filling.Apart roots) (h : filling.Filled roots done filled)
    (hDone : ∀ other ∈ done, other ∈ filling.placeholders)
    (hMem : placeholder ∈ filling.placeholders) {world : World Memory}
    (hTurn : filling.turn done placeholder = (none, world)) :
    filling.Filled roots (done ++ [placeholder]) filled := by
  have hInert : placeholder.request = .inert := answer_eq_none_iff.mp (congrArg Prod.fst hTurn)
  have hWorld : (filling.turn done placeholder).2 = (filling.after done).2 :=
    answer_world (fun id hFunction => by rw [hInert] at hFunction; cases hFunction) _
  rw [hTurn] at hWorld
  obtain rfl : world = (filling.after done).2 := hWorld
  have hAfter : filling.after (done ++ [placeholder]) = filling.after done :=
    fill_concat_of_none hTurn
  refine ⟨by rw [hAfter]; exact h.result, by rw [hAfter]; exact h.kept, ?_, ?_, ?_⟩
  · intro slot value hFilled
    refine (h.answered slot value hFilled).concat fun hSlot => ?_
    obtain ⟨before, last, rest, rfl, hLast, -, hGiven⟩ := h.answered slot value hFilled
    have hSame := hApart.request_eq hMem (hDone last (by simp)) (hLast.trans hSlot.symm)
    rw [turn, answer_eq_none_iff.mpr (hSame.trans hInert)] at hGiven
    cases hGiven
  · rw [List.forall_mem_append, List.forall_mem_singleton]
    exact ⟨h.complete, fun hAsks => absurd hInert hAsks⟩
  · intro hNone
    rw [hAfter]
    exact h.frame fun other hOther => hNone other (List.mem_append_left _ hOther)

/-- The turn of any other placeholder fills its slot with the answer. -/
theorem Filled.concat_of_some (hApart : filling.Apart roots) (h : filling.Filled roots done filled)
    (hMem : placeholder ∈ filling.placeholders) (hSlot : filling.slot? placeholder = some slot)
    {world : World Memory} (hTurn : filling.turn done placeholder = (some value, world)) :
    filling.Filled roots (done ++ [placeholder]) (Function.update filled slot (some value)) := by
  have hKept := h.kept.turn hApart placeholder
  rw [hTurn] at hKept
  obtain ⟨heap, hSet, hSize, hFrame, hWritten⟩ := hKept.setPath hApart hMem hSlot value
  have hAfter : filling.after (done ++ [placeholder]) =
      (.container (filling.place filling.root), { world with heap := heap }) := by
    rw [← h.result] at hSet
    rw [after, fill_concat_of_some hTurn hSet]
    exact congrArg (·, _) h.result
  refine ⟨by rw [hAfter], by rw [hAfter]; exact hWritten, ?_, ?_, ?_⟩
  · intro other found hFilled
    by_cases hOther : other = slot
    · rw [hOther, Function.update_self] at hFilled
      rw [hOther, ← Option.some.inj hFilled]
      exact ⟨done, placeholder, [], rfl, hSlot, by simp, congrArg Prod.fst hTurn⟩
    · rw [Function.update_of_ne hOther] at hFilled
      refine (h.answered other found hFilled).concat fun hSame => hOther ?_
      exact Option.some.inj (hSame.symm.trans hSlot)
  · intro other hOther hAsks otherSlot hOtherSlot
    by_cases hSame : otherSlot = slot
    · rw [hSame, Function.update_self]
      exact Option.some_ne_none value
    · rw [Function.update_of_ne hSame]
      rcases List.mem_append.mp hOther with hOld | hNew
      · exact h.complete other hOld hAsks otherSlot hOtherSlot
      · rw [List.mem_singleton.mp hNew] at hOtherSlot
        exact absurd (Option.some.inj (hOtherSlot.symm.trans hSlot)) hSame
  · rw [List.forall_mem_append, List.forall_mem_singleton, hAfter]
    rintro ⟨hOld, hNew⟩
    have hWorld : (filling.turn done placeholder).2 = (filling.after done).2 := answer_world hNew _
    rw [hTurn] at hWorld
    obtain rfl : world = (filling.after done).2 := hWorld
    obtain ⟨hOldSize, hOldFrame⟩ := h.frame hOld
    exact ⟨hSize.trans hOldSize, fun handle hOutside =>
      (hFrame handle hOutside).trans (hOldFrame handle hOutside)⟩

/-- However many placeholders have had their turns, the skeleton is there and
apart, and every slot holds its last answer. -/
theorem Apart.exists_filled (hApart : filling.Apart roots) (done : List Placeholder)
    (hDone : ∀ other ∈ done, other ∈ filling.placeholders) :
    ∃ filled, filling.Filled roots done filled := by
  induction done using List.reverseRecOn with
  | nil => exact ⟨_, hApart.filled_nil⟩
  | append_singleton done placeholder ih =>
      rw [List.forall_mem_append, List.forall_mem_singleton] at hDone
      obtain ⟨filled, h⟩ := ih hDone.1
      obtain ⟨slot, hSlot, -⟩ := hApart.exists_slot hDone.2
      cases hTurn : filling.turn done placeholder with
      | mk answer world =>
          cases answer with
          | none => exact ⟨_, h.concat_of_none hApart hDone.1 hDone.2 hTurn⟩
          | some value => exact ⟨_, h.concat_of_some hApart hDone.2 hSlot hTurn⟩

/-- In the end a placeholder that asks for something reads as what the last one
in its slot has been answered. -/
theorem Apart.exists_last_answer (hApart : filling.Apart roots)
    (hMem : placeholder ∈ filling.placeholders) (hAsks : placeholder.request ≠ .inert) :
    ∃ before last rest, filling.placeholders = before ++ last :: rest ∧
      filling.slot? last = filling.slot? placeholder ∧
      (∀ other ∈ rest, filling.slot? other ≠ filling.slot? placeholder) ∧
      last.request = placeholder.request ∧
      (filling.turn before last).1 = some ((filling.after filling.placeholders).2.heap.getPath
        (filling.after filling.placeholders).1 placeholder.path) := by
  obtain ⟨filled, h⟩ := hApart.exists_filled filling.placeholders fun _ hOther => hOther
  obtain ⟨slot, hSlot, -, hHolds, hScalar⟩ := hApart.exists_slot hMem
  have hRead := h.kept.skeleton.getPath_slot hApart.root_mem hSlot hHolds hScalar
  obtain ⟨value, hValue⟩ :=
    Option.ne_none_iff_exists'.mp (h.complete placeholder hMem hAsks slot hSlot)
  obtain ⟨before, last, rest, hSplit, hLast, hRest, hAnswer⟩ := h.answered slot value hValue
  have hLastMem : last ∈ filling.placeholders := by
    rw [hSplit]
    exact List.mem_append_right _ List.mem_cons_self
  refine ⟨before, last, rest, hSplit, hLast.trans hSlot.symm, ?_, ?_, ?_⟩
  · rw [hSlot]
    exact hRest
  · exact hApart.request_eq hMem hLastMem (hLast.trans hSlot.symm)
  · rw [h.result, hRead, hValue, hAnswer, Option.getD_some]

/-- What filling itself does when a placeholder has been answered is a write into
the skeleton. -/
theorem Apart.turn_frame (hApart : filling.Apart roots) {before rest : List Placeholder}
    (hSplit : filling.placeholders = before ++ placeholder :: rest) :
    ∃ heap, (filling.after (before ++ [placeholder])).2 =
        { (filling.turn before placeholder).2 with heap := heap } ∧
      heap.size = (filling.turn before placeholder).2.heap.size ∧
      ∀ handle, handle ∉ filling.places →
        heap.cell? handle = (filling.turn before placeholder).2.heap.cell? handle := by
  have hMem : placeholder ∈ filling.placeholders := by
    rw [hSplit]
    exact List.mem_append_right _ List.mem_cons_self
  obtain ⟨filled, h⟩ := hApart.exists_filled before fun other hOther => by
    rw [hSplit]
    exact List.mem_append_left _ hOther
  obtain ⟨slot, hSlot, -⟩ := hApart.exists_slot hMem
  rcases hTurn : filling.turn before placeholder with ⟨answer, world⟩
  cases answer with
  | none => exact ⟨world.heap, congrArg Prod.snd (fill_concat_of_none hTurn), rfl, fun _ _ => rfl⟩
  | some value =>
      have hKept := h.kept.turn hApart placeholder
      rw [hTurn] at hKept
      obtain ⟨heap, hSet, hSize, hFrame, -⟩ := hKept.setPath hApart hMem hSlot value
      rw [← h.result] at hSet
      exact ⟨heap, congrArg Prod.snd (fill_concat_of_some hTurn hSet), hSize, hFrame⟩

end Filling

end Stencil.Pipe
