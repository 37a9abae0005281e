import Mathlib.Data.List.Pairwise
import Stencil.Proofs.Confinement
import Stencil.Proofs.Heap.SameDocument

/-!
Values built from documents. Every array and every object of a document gets a
new container of its own, so nothing is shared in what is built, and no other
container is changed. What is built unfolds to the document.
-/

namespace Stencil

namespace Json

/-- What holds of scalars, and of arrays and objects when it holds of what is in
them, holds of every document. -/
theorem induction {motive : Json → Prop} (scalar : ∀ document value,
      document.scalar? = some value → motive document)
    (array : ∀ items, (∀ item ∈ items, motive item) → motive (.array items))
    (object : ∀ entries : List (String × Json), (∀ entry ∈ entries, motive entry.2) →
      motive (.object entries))
    (document : Json) : motive document := by
  induction hSize : sizeOf document using Nat.strong_induction_on generalizing document with
  | h size ih =>
      subst hSize
      cases document with
      | array items =>
          refine array items fun item hItem => ih _ ?_ item rfl
          have hLt := List.sizeOf_lt_of_mem hItem
          rw [Json.array.sizeOf_spec]
          omega
      | object entries =>
          refine object entries fun entry hEntry => ih _ ?_ entry.2 rfl
          have hLt := List.sizeOf_lt_of_mem hEntry
          rw [Prod.mk.sizeOf_spec] at hLt
          rw [Json.object.sizeOf_spec]
          omega
      | _ => exact scalar _ _ rfl

/-- The recursive definition over lists says that all items are proper. -/
theorem properItems_iff {items : List Json} : ProperItems items ↔ ∀ item ∈ items, item.Proper := by
  induction items with
  | nil => simp [ProperItems]
  | cons item rest ih => rw [ProperItems, ih, List.forall_mem_cons]

/-- The keys of the entries do not matter here: `Json.Proper` asks for distinct keys
beside this. -/
theorem properEntries_iff {entries : List (String × Json)} :
    ProperEntries entries ↔ ∀ entry ∈ entries, entry.2.Proper := by
  induction entries with
  | nil => simp [ProperEntries]
  | cons entry rest ih => rw [ProperEntries, ih, List.forall_mem_cons]

mutual

/-- How many arrays and objects a document has, itself included. -/
def containers : Json → Nat
  | array items => containersOfItems items + 1
  | object entries => containersOfEntries entries + 1
  | _ => 0

def containersOfItems : List Json → Nat
  | [] => 0
  | item :: items => containers item + containersOfItems items

def containersOfEntries : List (String × Json) → Nat
  | [] => 0
  | (_, item) :: entries => containers item + containersOfEntries entries

end

/-- An object document needs as many containers as the list of its values. -/
theorem containersOfEntries_eq (entries : List (String × Json)) :
    containersOfEntries entries = containersOfItems (entries.map Prod.snd) := by
  induction entries with
  | nil => rfl
  | cons entry rest ih => rw [containersOfEntries, List.map_cons, containersOfItems, ih]

end Json

namespace Heap

variable {heap other : Heap} {value : Value} {document : Json} {first : Handle}

/-- Agreement on the old containers passes through a heap that may hold more. -/
theorem AgreeOn.trans {last : Heap} (h : AgreeOn heap.handles heap other)
    (hRest : AgreeOn other.handles other last) : AgreeOn heap.handles heap last := by
  intro handle hMem
  obtain ⟨cell, hCell⟩ := exists_cell?_of_lt hMem
  exact (hRest handle (lt_size_of_cell? ((h handle hMem).trans hCell))).trans (h handle hMem)

theorem agreeOn_alloc (heap : Heap) (cell : Cell) :
    AgreeOn heap.handles heap (heap.alloc cell).2 := fun _ hMem => cell?_alloc_of_lt hMem

/-- What stands at the end of a route through a value that has an unfolding has
one as well. -/
theorem Unfolds.exists_unfolds_of_route (h : heap.Unfolds value document) {passed : List Handle}
    {path : Path} {target : Value} (route : Route heap value passed path target) :
    ∃ below, heap.Unfolds target below := by
  induction route generalizing document with
  | nil => exact ⟨document, h⟩
  | cons hCell hEntry _ ih =>
      cases h with
      | container hSome hValues =>
          obtain rfl := Option.some.inj (hCell.symm.trans hSome)
          exact ih (hValues _ (Cell.mem_values_of_mem_entries hEntry))

/-- Routes through an unfolding stay inside the table, since each container on them
has a cell. -/
theorem Unfolds.lt_size_of_route (h : heap.Unfolds value document) {passed : List Handle}
    {path : Path} {handle : Handle} (route : Route heap value passed path (.container handle)) :
    handle < heap.size := by
  obtain ⟨below, hBelow⟩ := h.exists_unfolds_of_route route
  have hHandle : handle ∈ heap.handles := Value.within_container.mp hBelow.within
  exact hHandle

/-- No routes are added to a value that has an unfolding by what happens later. -/
theorem Unfolds.route (h : heap.Unfolds value document) (hKept : AgreeOn heap.handles heap other)
    {passed : List Handle} {path : Path} {target : Value}
    (route : Route other value passed path target) : Route heap value passed path target := by
  induction route generalizing document with
  | nil value => exact .nil value
  | cons hCell hEntry _ ih =>
      cases h with
      | container hSome hValues =>
          rw [hKept _ (lt_size_of_cell? hSome)] at hCell
          obtain rfl := Option.some.inj (hCell.symm.trans hSome)
          exact .cons hCell hEntry (ih (hValues _ (Cell.mem_values_of_mem_entries hEntry)))

/-- The containers of a value are from `first` on, and each of them is at the end
of one route. -/
structure Owns (heap : Heap) (first : Handle) (value : Value) : Prop where
  first_le : ∀ {passed path handle}, Route heap value passed path (.container handle) →
    first ≤ handle
  path_eq : ∀ {passed path passed' path' handle}, Route heap value passed path (.container handle) →
    Route heap value passed' path' (.container handle) → path = path'

/-- No container is at the end of routes from both values. -/
def Apart (heap : Heap) (value value' : Value) : Prop :=
  ∀ {passed path passed' path' handle}, Route heap value passed path (.container handle) →
    ¬ Route heap value' passed' path' (.container handle)

/-- Ownership only concerns containers below the value, so the heap may grow
elsewhere. -/
theorem Owns.congr (h : heap.Owns first value) (hUnfolds : heap.Unfolds value document)
    (hKept : AgreeOn heap.handles heap other) : other.Owns first value where
  first_le := fun route => h.first_le (hUnfolds.route hKept route)
  path_eq := fun route route' =>
    h.path_eq (hUnfolds.route hKept route) (hUnfolds.route hKept route')

theorem owns_of_not_isContainer (h : value.isContainer = false) : heap.Owns first value := by
  have hNone : ∀ {passed path handle}, ¬ Route heap value passed path (.container handle) := by
    intro passed path handle route
    cases route <;> cases h
  exact ⟨fun route => absurd route hNone, fun route => absurd route hNone⟩

/-- A new container owns its containers when it holds values that own theirs, and
are apart from one another. It is newer than all of them. -/
theorem owns_alloc {cell : Cell} (hFirst : first ≤ heap.size)
    (hUnfolds : ∀ value ∈ cell.values, heap.Unfolds value (heap.document value))
    (hOwns : ∀ value ∈ cell.values, heap.Owns first value)
    (hApart : cell.values.Pairwise heap.Apart) :
    (heap.alloc cell).2.Owns first (.container heap.size) := by
  have hEntry : ∀ {segment child}, (segment, child) ∈ cell.entries → child ∈ cell.values :=
    Cell.mem_values_of_mem_entries
  have hBelow : ∀ {segment child passed path target}, (segment, child) ∈ cell.entries →
      Route (heap.alloc cell).2 child passed path target → Route heap child passed path target :=
    fun hMem route => (hUnfolds _ (hEntry hMem)).route (heap.agreeOn_alloc cell) route
  have hEntries : cell.entries.Pairwise fun entry entry' => heap.Apart entry.2 entry'.2 := by
    rwa [Cell.values_eq_map_entries, List.pairwise_map] at hApart
  have hSymm : Std.Symm fun entry entry' : Segment × Value => heap.Apart entry.2 entry'.2 :=
    ⟨fun _ _ h => fun route route' => h route' route⟩
  constructor
  · intro passed path handle route
    cases route with
    | nil => exact hFirst
    | cons hCell hMem rest =>
        obtain rfl := Option.some.inj ((cell?_alloc_self heap cell).symm.trans hCell)
        exact (hOwns _ (hEntry hMem)).first_le (hBelow hMem rest)
  · intro passed path passed' path' handle route route'
    cases route with
    | nil =>
        cases route' with
        | nil => rfl
        | cons hCell hMem rest =>
            obtain rfl := Option.some.inj ((cell?_alloc_self heap cell).symm.trans hCell)
            exact absurd ((hUnfolds _ (hEntry hMem)).lt_size_of_route (hBelow hMem rest))
              (Nat.lt_irrefl _)
    | @cons _ found segment child _ _ _ hCell hMem rest =>
        obtain rfl := Option.some.inj ((cell?_alloc_self heap cell).symm.trans hCell)
        cases route' with
        | nil =>
            exact absurd ((hUnfolds _ (hEntry hMem)).lt_size_of_route (hBelow hMem rest))
              (Nat.lt_irrefl _)
        | @cons _ _ segment' child' _ _ _ hCell' hMem' rest' =>
            obtain rfl := Option.some.inj ((cell?_alloc_self heap cell).symm.trans hCell')
            by_cases hSame : (segment, child) = (segment', child')
            · obtain ⟨rfl, rfl⟩ := Prod.mk.inj hSame
              exact congrArg _
                ((hOwns _ (hEntry hMem)).path_eq (hBelow hMem rest) (hBelow hMem rest'))
            · exact absurd (hBelow hMem' rest')
                (hEntries.forall hMem hMem' hSame (hBelow hMem rest))

/-- A document has been built: in containers that are added, one for each array
and object of it, and nothing is shared. -/
structure Separate (heap : Heap) (document : Json) (outcome : Value × Heap) : Prop where
  /-- No container that was there has changed. -/
  kept : AgreeOn heap.handles heap outcome.2
  /-- As many containers are added as the document has arrays and objects. -/
  added : outcome.2.size = heap.size + document.containers
  /-- All containers of the value are new, and each of them is at the end of one
  route. -/
  owns : outcome.2.Owns heap.size outcome.1
  /-- The value, written out, is the document. -/
  unfolds : outcome.2.Unfolds outcome.1 document

/-- Documents have been built one after the other. -/
structure SeparateItems (heap : Heap) (items : List Json) (outcome : List Value × Heap) : Prop where
  kept : AgreeOn heap.handles heap outcome.2
  added : outcome.2.size = heap.size + Json.containersOfItems items
  owns : ∀ value ∈ outcome.1, outcome.2.Owns heap.size value
  apart : outcome.1.Pairwise outcome.2.Apart
  unfolds : List.Forall₂ outcome.2.Unfolds outcome.1 items

/-- What is built later is newer than all that was built before, so it is apart
from it. -/
theorem SeparateItems.cons {item : Json} {items : List Json} {first : Value × Heap}
    {rest : List Value × Heap} (hFirst : heap.Separate item first)
    (hRest : first.2.SeparateItems items rest) :
    heap.SeparateItems (item :: items) (first.1 :: rest.1, rest.2) where
  kept := hFirst.kept.trans hRest.kept
  added := by rw [hRest.added, hFirst.added, Json.containersOfItems, Nat.add_assoc]
  owns := by
    have hLe : heap.size ≤ first.2.size := by
      rw [hFirst.added]
      exact Nat.le_add_right _ _
    rw [List.forall_mem_cons]
    refine ⟨hFirst.owns.congr hFirst.unfolds hRest.kept, fun value hValue => ?_⟩
    have hOwns := hRest.owns value hValue
    exact ⟨fun route => Nat.le_trans hLe (hOwns.first_le route), hOwns.path_eq⟩
  apart := by
    refine List.pairwise_cons.mpr ⟨fun value hValue => ?_, hRest.apart⟩
    intro passed path passed' path' handle route route'
    have hOld := hFirst.unfolds.lt_size_of_route (hFirst.unfolds.route hRest.kept route)
    exact Nat.not_le_of_gt hOld ((hRest.owns value hValue).first_le route')
  unfolds := .cons (hFirst.unfolds.congr hRest.kept) hRest.unfolds

/-- Items built one after another are separate: each later one lies above all that
the earlier ones took. -/
theorem separateItems_ofItems {items : List Json}
    (h : ∀ item ∈ items, ∀ heap : Heap, heap.Separate item (heap.ofJson item)) (heap : Heap) :
    heap.SeparateItems items (heap.ofItems items) := by
  induction items generalizing heap with
  | nil => exact ⟨fun _ _ => rfl, rfl, List.forall_mem_nil _, .nil, .nil⟩
  | cons item rest ih =>
      rw [List.forall_mem_cons] at h
      exact .cons (h.1 heap) (ih h.2 _)

/-- Entries are built as their values are. -/
theorem ofEntries_eq (heap : Heap) (entries : List (String × Json)) :
    heap.ofEntries entries = ((entries.map Prod.fst).zip (heap.ofItems (entries.map Prod.snd)).1,
      (heap.ofItems (entries.map Prod.snd)).2) := by
  induction entries generalizing heap with
  | nil => rfl
  | cons entry rest ih =>
      simp only [ofEntries, ih]
      rfl

/-- A container of values that have been built completes what they belong to. -/
theorem SeparateItems.alloc {items : List Json} {outcome : List Value × Heap}
    (h : heap.SeparateItems items outcome) (cell : Cell) (hValues : cell.values = outcome.1)
    (hDocument : cell.toJson outcome.2.document = document)
    (hContainers : document.containers = Json.containersOfItems items + 1) :
    heap.Separate document (outcome.2.alloc cell) := by
  obtain ⟨-, hUnfolds⟩ := map_document h.unfolds
  rw [← hValues] at hUnfolds
  refine ⟨h.kept.trans (outcome.2.agreeOn_alloc cell), ?_, ?_, ?_⟩
  · rw [size_alloc, h.added, hContainers, Nat.add_assoc]
  · refine owns_alloc ?_ hUnfolds (hValues ▸ h.owns) (hValues ▸ h.apart)
    rw [h.added]
    exact Nat.le_add_right _ _
  · rw [← hDocument]
    exact .container (cell?_alloc_self _ cell) fun value hMem =>
      (hUnfolds value hMem).congr (outcome.2.agreeOn_alloc cell)

/-- The array that is allocated last is newer than all its items and reaches nothing
else. -/
theorem SeparateItems.allocArray {items : List Json} {outcome : List Value × Heap}
    (h : heap.SeparateItems items outcome) :
    heap.Separate (.array items) (outcome.2.allocArray outcome.1) :=
  h.alloc (.array outcome.1.toArray) rfl
    (congrArg Json.array (map_document h.unfolds).1.symm) (Json.containers.eq_1 items)

/-- The fields of an object that has been built are those of the document. -/
theorem SeparateItems.entries_ofList {entries : List (String × Json)} {outcome : List Value × Heap}
    (h : heap.SeparateItems (entries.map Prod.snd) outcome)
    (hNodup : (entries.map Prod.fst).Nodup) :
    (Fields.ofList ((entries.map Prod.fst).zip outcome.1)).entries =
        (entries.map Prod.fst).zip outcome.1 ∧
      (Cell.object (.ofList ((entries.map Prod.fst).zip outcome.1))).values = outcome.1 := by
  have hLength : outcome.1.length = (entries.map Prod.fst).length := by
    rw [List.length_map, h.unfolds.length_eq, List.length_map]
  have hEntries : (Fields.ofList ((entries.map Prod.fst).zip outcome.1)).entries =
      (entries.map Prod.fst).zip outcome.1 := by
    refine Fields.entries_ofList ?_
    rw [List.map_fst_zip (Nat.le_of_eq hLength.symm)]
    exact hNodup
  refine ⟨hEntries, ?_⟩
  rw [Cell.values, hEntries, List.map_snd_zip (Nat.le_of_eq hLength)]

/-- The same for objects, where distinct keys keep every built value an entry. -/
theorem SeparateItems.allocObject {entries : List (String × Json)} {outcome : List Value × Heap}
    (h : heap.SeparateItems (entries.map Prod.snd) outcome)
    (hNodup : (entries.map Prod.fst).Nodup) :
    heap.Separate (.object entries)
      (outcome.2.allocObject ((entries.map Prod.fst).zip outcome.1)) := by
  obtain ⟨hEntries, hValues⟩ := h.entries_ofList hNodup
  refine h.alloc (.object (.ofList ((entries.map Prod.fst).zip outcome.1))) hValues ?_ ?_
  · refine congrArg Json.object
      (Eq.trans ?_ (List.zip_of_prod rfl (map_document h.unfolds).1).symm)
    rw [hEntries, List.zip_map_right]
    rfl
  · rw [Json.containers, Json.containersOfEntries_eq]

/-- Every document is built in new containers of its own. -/
theorem separate_ofJson (hProper : document.Proper) (heap : Heap) :
    heap.Separate document (heap.ofJson document) := by
  induction document using Json.induction generalizing heap with
  | scalar document value hScalar =>
      cases document with
      | array => cases hScalar
      | object => cases hScalar
      | _ => exact ⟨fun _ _ => rfl, rfl, owns_of_not_isContainer rfl, by constructor⟩
  | array items ih =>
      have hItems := Json.properItems_iff.mp hProper
      exact (separateItems_ofItems (fun item hMem => ih item hMem (hItems item hMem))
        heap).allocArray
  | object entries ih =>
      have hEntries := Json.properEntries_iff.mp hProper.2
      have hItems : ∀ item ∈ entries.map Prod.snd, ∀ heap : Heap,
          heap.Separate item (heap.ofJson item) := by
        rw [List.forall_mem_map]
        exact fun entry hMem => ih entry hMem (hEntries entry hMem)
      rw [ofJson, ofEntries_eq]
      exact (separateItems_ofItems hItems heap).allocObject hProper.1

end Heap

end Stencil
