import Stencil.Proofs.Heap.Conversion
import Stencil.Proofs.Pipe.CallableFree

/-!
Documents as the unfoldings of values. A value unfolds to a document when its
entries do, each on its own, so shared containers are written out wherever they
occur. A value without callables and cycles has one unfolding, and this is the
document that it is converted to. Whatever is read from a value unfolds to what
stands at the same place of the document.
-/

namespace Stencil

namespace Json

/-- The entries of a document with the segments that they are listed under. -/
def listed : Json → List (Segment × Json)
  | array items => items.zipIdx.map fun (item, position) => (.index position, item)
  | object entries => entries.map fun (key, item) => (.key key, item)
  | _ => []

/-- The entry of a document that a segment addresses. -/
def child? : Json → Segment → Option Json
  | array items, segment => segment.position?.bind fun position => items[position]?
  | object entries, segment => entries.lookup segment.toKey
  | _, _ => none

/-- What a path leads to in a document, null where it leads nowhere. -/
def follow (document : Json) (path : Path) : Json :=
  path.foldl (fun document segment => (document.child? segment).getD .null) document

end Json

namespace Cell

/-- The document of a container whose values have these documents. -/
def toJson (document : Value → Json) : Cell → Json
  | array items => .array (items.toList.map document)
  | object fields => .object (fields.entries.map fun entry => (entry.1, document entry.2))

variable {cell other : Cell} {document document' : Value → Json}

theorem listed_toJson (document : Value → Json) (cell : Cell) :
    (cell.toJson document).listed = cell.entries.map fun entry => (entry.1, document entry.2) := by
  cases cell with
  | array items => simp [toJson, Json.listed, entries, List.zipIdx_map, Function.comp_def]
  | object fields => simp [toJson, Json.listed, entries, Function.comp_def]

/-- Children of the document are the documents of the entries under the same
segments. -/
theorem child?_toJson (document : Value → Json) (cell : Cell) (segment : Segment) :
    (cell.toJson document).child? segment = (cell.get? segment).map document := by
  cases cell with
  | array items =>
      rw [toJson, Json.child?, get?, Option.map_bind]
      refine congrArg _ (funext fun position => ?_)
      simp
  | object fields =>
      rw [toJson, Json.child?, get?, Fields.get?]
      induction fields.entries with
      | nil => rfl
      | cons entry rest ih =>
          rw [List.map_cons, List.lookup_cons, List.lookup_cons, ih]
          cases segment.toKey == entry.1 <;> rfl

theorem toJson_congr (h : ∀ value ∈ cell.values, document value = document' value) :
    cell.toJson document = cell.toJson document' := by
  cases cell with
  | array items => exact congrArg Json.array (List.map_congr_left h)
  | object fields =>
      refine congrArg Json.object (List.map_congr_left fun entry hEntry => ?_)
      rw [h entry.2 (List.mem_map.mpr ⟨entry, hEntry, rfl⟩)]

/-- Containers have the same document just if they are of one kind and their
entries have the same documents under the same segments. -/
theorem toJson_eq_iff : cell.toJson document = other.toJson document' ↔
    cell.kind = other.kind ∧ List.Forall₂
      (fun entry entry' => entry.1 = entry'.1 ∧ document entry.2 = document' entry'.2)
      cell.entries other.entries := by
  have hListed : (cell.toJson document).listed = (other.toJson document').listed ↔ List.Forall₂
      (fun entry entry' => entry.1 = entry'.1 ∧ document entry.2 = document' entry'.2)
      cell.entries other.entries := by
    rw [listed_toJson, listed_toJson, ← List.forall₂_eq_eq_eq, List.forall₂_map_left_iff,
      List.forall₂_map_right_iff]
    simp only [Prod.mk.injEq]
  rw [← hListed]
  constructor
  · intro h
    refine ⟨?_, congrArg Json.listed h⟩
    cases cell <;> cases other <;> first | rfl | cases h
  · rintro ⟨hKind, hSame⟩
    cases cell with
    | array items =>
        cases other with
        | object fields => cases hKind
        | array items' =>
            have hItems := congrArg (List.map Prod.snd) hSame
            simp only [toJson, Json.listed, List.map_map, Function.comp_def] at hItems
            simpa [List.zipIdx_map_fst, toJson] using hItems
    | object fields =>
        cases other with
        | array items => cases hKind
        | object fields' =>
            have hEntries := congrArg (List.map fun entry => (entry.1.toKey, entry.2)) hSame
            simpa [toJson, Json.listed, Segment.toKey, Function.comp_def] using hEntries

theorem sizeOf_toJson_lt {value : Value} (document : Value → Json) (h : value ∈ cell.values) :
    sizeOf (document value) < sizeOf (cell.toJson document) := by
  cases cell with
  | array items =>
      have hMem := List.sizeOf_lt_of_mem (List.mem_map_of_mem (f := document) h)
      simp only [values] at hMem
      simp only [toJson, Json.array.sizeOf_spec]
      omega
  | object fields =>
      obtain ⟨entry, hEntry, rfl⟩ := List.mem_map.mp h
      have hMem := List.sizeOf_lt_of_mem (List.mem_map_of_mem
        (f := fun entry : String × Value => (entry.1, document entry.2)) hEntry)
      simp only [toJson, Json.object.sizeOf_spec, Prod.mk.sizeOf_spec] at hMem ⊢
      omega

end Cell

namespace Heap

/-- The value, written out without sharing, is the document. There is none for a
callable and for a container that can be reached from itself. -/
inductive Unfolds (heap : Heap) : Value → Json → Prop where
  | null : Unfolds heap .null .null
  | bool (flag : Bool) : Unfolds heap (.bool flag) (.bool flag)
  | number (number : Number) : Unfolds heap (.number number) (.number number)
  | text (text : String) : Unfolds heap (.text text) (.text text)
  | container {handle : Handle} {cell : Cell} {document : Value → Json}
      (hCell : heap.cell? handle = some cell)
      (hValues : ∀ value ∈ cell.values, Unfolds heap value (document value)) :
      Unfolds heap (.container handle) (cell.toJson document)

variable {heap other : Heap} {value : Value} {document document' : Json} {region : Set Handle}

/-- A value has one unfolding. -/
theorem Unfolds.unique (h : heap.Unfolds value document) (h' : heap.Unfolds value document') :
    document = document' := by
  induction h generalizing document' with
  | container hCell hValues ih =>
      cases h' with
      | container hCell' hValues' =>
          obtain rfl := Option.some.inj (hCell.symm.trans hCell')
          exact Cell.toJson_congr fun value hMem => ih value hMem (hValues' value hMem)
  | _ =>
      cases h'
      rfl

/-- What a value unfolds to stays the same in larger heaps. -/
theorem Unfolds.congr (h : heap.Unfolds value document) (hSame : AgreeOn heap.handles heap other) :
    other.Unfolds value document := by
  induction h with
  | null => exact .null
  | bool flag => exact .bool flag
  | number number => exact .number number
  | text text => exact .text text
  | container hCell _ ih => exact .container ((hSame _ (lt_size_of_cell? hCell)).trans hCell) ih

theorem Unfolds.within (h : heap.Unfolds value document) : value.Within heap.handles := by
  cases h with
  | container hCell => exact Value.within_container.mpr (lt_size_of_cell? hCell)
  | _ => exact Value.within_of_not_isContainer rfl _

/-- What is read from the value unfolds to what is read from the document. Both are
null where there is nothing. -/
theorem Unfolds.get (h : heap.Unfolds value document) (segment : Segment) :
    heap.Unfolds (heap.get value segment) ((document.child? segment).getD .null) := by
  cases h with
  | container hCell hValues =>
      rw [get_of_cell? hCell, Cell.child?_toJson]
      cases hFound : Cell.get? _ segment with
      | none => exact .null
      | some child => exact hValues child (Cell.mem_values_of_get? hFound)
  | _ => exact .null

/-- A path leads in a value to what unfolds to the end of the path in the
document. -/
theorem Unfolds.getPath (h : heap.Unfolds value document) (path : Path) :
    heap.Unfolds (heap.getPath value path) (document.follow path) := by
  induction path generalizing value document with
  | nil => exact h
  | cons segment rest ih => exact ih (h.get segment)

/-- A document has no place for callables. -/
theorem Unfolds.callableFree (h : heap.Unfolds value document) : heap.CallableFree value := by
  intro path id hCallable
  have hEnd := h.getPath path
  rw [hCallable] at hEnd
  cases hEnd

/-- Every descent from a value that has an unfolding comes to an end. -/
theorem Unfolds.acc_held (h : heap.Unfolds value document) : Acc heap.Held value := by
  induction h with
  | container hCell _ ih =>
      refine .intro _ ?_
      rintro child ⟨cell, hSome, hChild⟩
      obtain rfl := Option.some.inj (hCell.symm.trans hSome)
      exact ih child hChild
  | _ => exact acc_held_of_not_isContainer rfl

/-- A document is finite, so no container holds itself. -/
theorem Unfolds.acyclic (h : heap.Unfolds value document) : heap.Acyclic value :=
  acyclic_of_acc h.acc_held

/-- A value without callables and cycles has an unfolding. -/
theorem exists_unfolds (hRegion : heap.Region region) (hValue : value.Within region)
    (hFree : heap.CallableFree value) (hAcyclic : heap.Acyclic value) :
    ∃ document, heap.Unfolds value document := by
  have hAcc := hAcyclic.acc_held hRegion hValue
  clear hAcyclic
  induction hAcc with
  | intro value _ ih =>
      cases value with
      | null => exact ⟨_, .null⟩
      | bool flag => exact ⟨_, .bool flag⟩
      | number number => exact ⟨_, .number number⟩
      | text text => exact ⟨_, .text text⟩
      | callable id => exact absurd rfl (hFree [] id)
      | container handle =>
          obtain ⟨cell, hCell⟩ := hRegion.exists_cell? (Value.within_container.mp hValue)
          have hChildren : ∀ child, child ∈ cell.values →
              ∃ document, heap.Unfolds child document := by
            intro child hMem
            have hHeld : heap.Held child (.container handle) := ⟨cell, hCell, hMem⟩
            obtain ⟨hChild, segment, hGet⟩ := hRegion.exists_get_of_held hValue hHeld
            refine ih child hHeld hChild fun path => ?_
            rw [← hGet]
            exact hFree (segment :: path)
          choose! document hDocument using hChildren
          exact ⟨_, .container hCell hDocument⟩

/-- All of these containers unfold to larger documents, as the ancestors of what
unfolds to this one do. -/
def Beneath (heap : Heap) (ancestors : List Handle) (document : Json) : Prop :=
  ∀ ancestor ∈ ancestors, ∃ whole, heap.Unfolds (.container ancestor) whole ∧
    sizeOf document < sizeOf whole

theorem beneath_nil (heap : Heap) (document : Json) : heap.Beneath [] document := by
  intro ancestor hMem
  cases hMem

/-- A container is not beneath itself. -/
theorem Beneath.notMem {ancestors : List Handle} (h : heap.Beneath ancestors document)
    {handle : Handle} (hUnfolds : heap.Unfolds (.container handle) document) :
    handle ∉ ancestors := by
  intro hOpen
  obtain ⟨whole, hWhole, hLt⟩ := h handle hOpen
  exact Nat.lt_irrefl _ (hUnfolds.unique hWhole ▸ hLt)

/-- What is smaller than the document of a container is beneath it. -/
theorem Beneath.cons {ancestors : List Handle} {handle : Handle} {whole : Json}
    (h : heap.Beneath ancestors whole) (hUnfolds : heap.Unfolds (.container handle) whole)
    (hLt : sizeOf document < sizeOf whole) : heap.Beneath (handle :: ancestors) document := by
  rw [Beneath, List.forall_mem_cons]
  refine ⟨⟨whole, hUnfolds, hLt⟩, fun ancestor hOpen => ?_⟩
  obtain ⟨larger, hLarger, hWhole⟩ := h ancestor hOpen
  exact ⟨larger, hLarger, Nat.lt_trans hLt hWhole⟩

end Heap

namespace Cell

theorem assemble_map (cell : Cell) (document : Value → Json) :
    cell.assemble (cell.entries.map fun entry => document entry.2) = cell.toJson document := by
  have hValues : (cell.entries.map fun entry => document entry.2) = cell.values.map document := by
    rw [values_eq_map_entries, List.map_map]
    rfl
  rw [hValues]
  cases cell with
  | array items => rfl
  | object fields =>
      rw [assemble, values, toJson, Fields.keys, List.map_map, List.zip_map']
      rfl

end Cell

namespace Heap

variable {heap other : Heap} {value : Value} {document : Json}

/-- An unfolding is what conversion gives, wherever the value stands below its
ancestors. -/
theorem Unfolds.toJsonBelow (h : heap.Unfolds value document) {ancestors : List Handle}
    (hBeneath : heap.Beneath ancestors document) (route : Path) :
    heap.toJsonBelow ancestors route value = .ok document := by
  induction h generalizing ancestors route with
  | @container handle cell document hCell hValues ih =>
      have hUnfolds : heap.Unfolds (.container handle) (cell.toJson document) :=
        .container hCell hValues
      have hEntries : (cell.entries.mapM fun entry =>
          heap.toJsonBelow (handle :: ancestors) (entry.1 :: route) entry.2) =
            .ok (cell.entries.map fun entry => document entry.2) := by
        rw [mapM_eq_ok_iff, List.forall₂_map_right_iff, List.forall₂_same]
        intro entry hEntry
        have hValue := Cell.mem_values_of_mem_entries hEntry
        exact ih entry.2 hValue
          (hBeneath.cons hUnfolds (Cell.sizeOf_toJson_lt document hValue)) _
      rw [toJsonBelow_of_enter (hBeneath.notMem hUnfolds) hCell, hEntries, ← cell.assemble_map]
      rfl
  | _ => rw [Heap.toJsonBelow]

/-- A value that unfolds to a document converts to it. -/
theorem Unfolds.toJson (h : heap.Unfolds value document) : heap.toJson value = .ok document := by
  rw [toJson_eq]
  exact h.toJsonBelow (beneath_nil heap document) []

end Heap

end Stencil
