import Stencil.Proofs.Heap.Building
import Stencil.Proofs.Heap.Comparison

/-!
Round trips between values and documents. What is built from a document has this
document. What is built from the document of a value equals the value, wherever
the value shared its containers, and has the same document again.
-/

namespace Stencil.Heap

variable {heap other : Heap} {left right value : Value} {document : Json}

/-- No object of an unfolding repeats a key. -/
theorem Unfolds.proper (h : heap.Unfolds value document) : document.Proper := by
  induction h with
  | @container handle cell document _ _ ih =>
      cases cell with
      | array items => exact Json.properItems_iff.mpr (List.forall_mem_map.mpr ih)
      | object fields =>
          refine ⟨?_, Json.properEntries_iff.mpr (List.forall_mem_map.mpr fun entry hEntry =>
            ih entry.2 (List.mem_map_of_mem hEntry))⟩
          rw [List.map_map]
          exact fields.nodup
  | _ => trivial

/-- Building items one after another keeps a heap well formed. -/
theorem wellFormed_ofItems {items : List Json}
    (h : ∀ item ∈ items, ∀ heap : Heap, heap.WellFormed → (heap.ofJson item).2.WellFormed)
    (hHeap : heap.WellFormed) : (heap.ofItems items).2.WellFormed := by
  induction items generalizing heap with
  | nil => exact hHeap
  | cons item rest ih =>
      rw [List.forall_mem_cons] at h
      exact ih h.2 (h.1 heap hHeap)

/-- A container for separate values only refers to containers that are there
already. -/
theorem SeparateItems.wellFormed_alloc {items : List Json} {outcome : List Value × Heap}
    (h : heap.SeparateItems items outcome) (hHeap : outcome.2.WellFormed) {cell : Cell}
    (hValues : cell.values = outcome.1) (hAddressable : cell.Addressable) :
    (outcome.2.alloc cell).2.WellFormed := by
  obtain ⟨-, hUnfolds⟩ := map_document h.unfolds
  rw [← hValues] at hUnfolds
  exact hHeap.alloc (fun value hMem => (hUnfolds value hMem).within) hAddressable

/-- A document of a value can be addressed wherever the value can. -/
theorem Unfolds.wellFormed_ofJson (h : other.Unfolds value document) (hOther : other.WellFormed)
    (heap : Heap) (hHeap : heap.WellFormed) : (heap.ofJson document).2.WellFormed := by
  induction h generalizing heap with
  | @container handle cell document hCell hValues ih =>
      have hSeparate : ∀ value ∈ cell.values, ∀ heap : Heap,
          heap.Separate (document value) (heap.ofJson (document value)) :=
        fun value hMem => separate_ofJson (hValues value hMem).proper
      cases cell with
      | array items =>
          have hItems := separateItems_ofItems (List.forall_mem_map.mpr hSeparate) heap
          have hSize : ((Cell.array items).values.map document).length < addressLimit := by
            rw [List.length_map]
            exact hOther.addressable _ (Array.mem_of_getElem? hCell)
          rw [← hItems.unfolds.length_eq] at hSize
          exact hItems.wellFormed_alloc (wellFormed_ofItems (List.forall_mem_map.mpr ih) hHeap) rfl
            hSize
      | object fields =>
          have hEntries : ∀ {motive : Json → Prop}, (∀ value ∈ (Cell.object fields).values,
              motive (document value)) → ∀ item ∈ (fields.entries.map fun entry =>
                (entry.1, document entry.2)).map Prod.snd, motive item := by
            intro motive hAll
            rw [List.forall_mem_map, List.forall_mem_map]
            exact fun entry hEntry => hAll entry.2 (List.mem_map_of_mem hEntry)
          have hItems := separateItems_ofItems (hEntries hSeparate) heap
          have hNodup : ((fields.entries.map fun entry => (entry.1, document entry.2)).map
              Prod.fst).Nodup := by
            rw [List.map_map]
            exact fields.nodup
          rw [Cell.toJson, ofJson, ofEntries_eq]
          exact hItems.wellFormed_alloc (wellFormed_ofItems (hEntries ih) hHeap)
            (hItems.entries_ofList hNodup).2 trivial
  | _ => exact hHeap

/-- A document has been built in a heap: its value and the heap afterwards. -/
structure Built (heap : Heap) (document : Json) (outcome : Value × Heap) : Prop where
  wellFormed : outcome.2.WellFormed
  kept : AgreeOn heap.handles heap outcome.2
  unfolds : outcome.2.Unfolds outcome.1 document

/-- A document that some value unfolds to can be built in every heap. -/
theorem Unfolds.built (h : other.Unfolds value document) (hOther : other.WellFormed)
    (heap : Heap) (hHeap : heap.WellFormed) : heap.Built document (heap.ofJson document) :=
  have hSeparate := separate_ofJson h.proper heap
  ⟨h.wellFormed_ofJson hOther heap hHeap, hSeparate.kept, hSeparate.unfolds⟩

/-- Values with one unfolding are equal. -/
theorem Unfolds.equals (hHeap : heap.WellFormed) (h : heap.Unfolds left document)
    (h' : heap.Unfolds right document) : heap.Equals left right :=
  (Equals.iff_same hHeap h h').mpr ((Equals.iff_same hHeap h h).mp (.same left))

/-- Nothing is lost between documents and values. -/
structure RoundTrip (heap : Heap) : Prop where
  /-- A document is built in containers of its own, and what has been built has this
  document, with the same keys in the same order and the same numbers. -/
  document : ∀ document : Json, document.Proper →
    heap.Separate document (heap.ofJson document) ∧
      (heap.ofJson document).2.toJson (heap.ofJson document).1 = .ok document
  /-- A finite value without callables has a document, and equals what is built from
  it. The comparison comes to an end, and what has been built has the same
  document. -/
  value : ∀ value : Value, value.Within heap.handles → heap.CallableFree value →
    heap.Acyclic value → ∃ document, heap.toJson value = .ok document ∧
      (heap.ofJson document).2.equal (heap.ofJson document).1 value = true ∧
      (heap.ofJson document).2.ComesTo (heap.ofJson document).1 value true ∧
      (heap.ofJson document).2.toJson (heap.ofJson document).1 = .ok document

/-- Values are told back from their documents, and documents from their values. -/
theorem roundTrip_ofJson (hHeap : heap.WellFormed) : heap.RoundTrip := by
  refine ⟨fun document hProper => ?_, fun value hValue hFree hAcyclic => ?_⟩
  · have hSeparate := separate_ofJson hProper heap
    exact ⟨hSeparate, hSeparate.unfolds.toJson⟩
  · obtain ⟨document, hUnfolds⟩ := exists_unfolds hHeap.region_handles hValue hFree hAcyclic
    have hBuilt := hUnfolds.built hHeap heap hHeap
    have hKept := hUnfolds.congr hBuilt.kept
    have hEqual := (hBuilt.unfolds.equals hBuilt.wellFormed hKept).equal hBuilt.wellFormed
    have hComes := comesTo_equal hBuilt.wellFormed.region_handles hBuilt.unfolds.within
      hKept.within (.inr hKept.acyclic)
    exact ⟨document, hUnfolds.toJson, hEqual, hEqual ▸ hComes, hBuilt.unfolds.toJson⟩

/-- An instance with an array that is shared by two entries, next to a cycle. -/
theorem roundTrip_paired : paired.WellFormed ∧ paired.CallableFree (.container 0) ∧
    paired.Acyclic (.container 0) ∧ paired.RoundTrip :=
  ⟨by decide, unfolds_paired.callableFree, unfolds_paired.acyclic, roundTrip_ofJson (by decide)⟩

end Stencil.Heap
