import Mathlib.Data.List.Forall2
import Stencil.Proofs.Heap.Unfolding

/-!
Values with the same document. They may be in different heaps, and one of them
may share containers where the other does not. Reading and discovery cannot tell
them apart.
-/

namespace Stencil

/-- Entries that are related one by one are entries of both lists. -/
theorem forall₂_mem {α β : Type} {related : α → β → Prop} {items : List α} {others : List β}
    (h : List.Forall₂ related items others) :
    List.Forall₂ (fun item other => item ∈ items ∧ other ∈ others ∧ related item other) items
      others := by
  refine List.forall₂_iff_zip.mpr ⟨h.length_eq, fun hMem => ?_⟩
  obtain ⟨hItem, hOther⟩ := List.of_mem_zip hMem
  exact ⟨hItem, hOther, List.forall₂_zip h hMem⟩

/-- The scalar that a document stands for, none for an array or an object. -/
def Json.scalar? : Json → Option Value
  | .null => some .null
  | .bool flag => some (.bool flag)
  | .number value => some (.number value)
  | .text value => some (.text value)
  | .array _ => none
  | .object _ => none

namespace Heap

/-- Both values have the same unfolding. -/
def SameDocument (heap : Heap) (value : Value) (other : Heap) (value' : Value) : Prop :=
  ∃ document, heap.Unfolds value document ∧ other.Unfolds value' document

/-- The document of a value, null where there is none. -/
def document (heap : Heap) (value : Value) : Json := (heap.toJson value).toOption.getD .null

variable {heap other after after' : Heap} {value value' : Value} {handle handle' : Handle}
  {cell cell' : Cell} {region region' : Set Handle}

/-- The document that a value unfolds to is the chosen one, since there is no other. -/
theorem Unfolds.document_eq {document : Json} (h : heap.Unfolds value document) :
    heap.document value = document := by
  rw [Heap.document, h.toJson]
  rfl

/-- The documents that values unfold to are theirs. -/
theorem map_document {values : List Value} {documents : List Json}
    (h : List.Forall₂ heap.Unfolds values documents) :
    documents = values.map heap.document ∧
      ∀ value ∈ values, heap.Unfolds value (heap.document value) := by
  induction h with
  | nil => exact ⟨rfl, by simp⟩
  | cons hFirst _ ih =>
      rw [List.map_cons, List.forall_mem_cons, hFirst.document_eq, ← ih.1]
      exact ⟨rfl, hFirst, ih.2⟩

namespace SameDocument

theorem null : SameDocument heap .null other .null := ⟨_, .null, .null⟩

theorem symm (h : SameDocument heap value other value') : SameDocument other value' heap value := by
  obtain ⟨document, hLeft, hRight⟩ := h
  exact ⟨document, hRight, hLeft⟩

theorem unfolds (h : SameDocument heap value other value') :
    heap.Unfolds value (heap.document value) := by
  obtain ⟨document, hLeft, -⟩ := h
  rwa [hLeft.document_eq]

theorem document_eq (h : SameDocument heap value other value') :
    heap.document value = other.document value' := by
  obtain ⟨document, hLeft, hRight⟩ := h
  rw [hLeft.document_eq, hRight.document_eq]

/-- Where entries have the same documents, every value of the first container
has one. -/
theorem unfolds_values {related : Segment × Value → Segment × Value → Prop}
    (hEntries : List.Forall₂ (fun entry entry' => related entry entry' ∧
      SameDocument heap entry.2 other entry'.2) cell.entries cell'.entries) :
    ∀ value ∈ cell.values, heap.Unfolds value (heap.document value) := by
  rw [Cell.values_eq_map_entries, List.forall_mem_map]
  refine ((List.forall₂_and_left (R := related) _ cell'.entries).mp (hEntries.imp ?_)).1
  exact fun _ _ h => ⟨h.2.unfolds, h.1⟩

/-- Containers of one kind have the same document when their entries have, one
by one under the same segments. -/
theorem container (hCell : heap.cell? handle = some cell) (hCell' : other.cell? handle' = some cell')
    (hKind : cell.kind = cell'.kind)
    (hEntries : List.Forall₂ (fun entry entry' => entry.1 = entry'.1 ∧
      SameDocument heap entry.2 other entry'.2) cell.entries cell'.entries) :
    SameDocument heap (.container handle) other (.container handle') := by
  have hSame : cell.toJson heap.document = cell'.toJson other.document :=
    Cell.toJson_eq_iff.mpr ⟨hKind, hEntries.imp fun _ _ h => ⟨h.1, h.2.document_eq⟩⟩
  have hFlip : List.Forall₂ (fun entry' entry => entry.1 = entry'.1 ∧
      SameDocument other entry'.2 heap entry.2) cell'.entries cell.entries :=
    (hEntries.imp fun _ _ h => ⟨h.1, h.2.symm⟩).flip
  refine ⟨_, .container hCell (unfolds_values hEntries), ?_⟩
  rw [hSame]
  exact .container hCell' (unfolds_values hFlip)

/-- Values that are read alike stay so in larger heaps. -/
theorem congr (h : SameDocument heap value other value')
    (hAfter : AgreeOn heap.handles heap after) (hAfter' : AgreeOn other.handles other after') :
    SameDocument after value after' value' := by
  obtain ⟨document, hLeft, hRight⟩ := h
  exact ⟨document, hLeft.congr hAfter, hRight.congr hAfter'⟩

/-- A path leads in both to values with the same document. -/
theorem getPath (h : SameDocument heap value other value') (path : Path) :
    SameDocument heap (heap.getPath value path) other (other.getPath value' path) := by
  obtain ⟨document, hLeft, hRight⟩ := h
  exact ⟨_, hLeft.getPath path, hRight.getPath path⟩

end SameDocument

theorem Unfolds.scalar?_eq {document : Json} (h : heap.Unfolds value document) :
    document.scalar? = if value.isContainer then none else some value := by
  cases h with
  | @container handle cell => cases cell <;> rfl
  | _ => rfl

/-- What unfolds to the document of a scalar is the scalar. -/
theorem Unfolds.eq_of_scalar? {document : Json} (h : heap.Unfolds value document) {scalar : Value}
    (hScalar : document.scalar? = some scalar) : value = scalar := by
  rw [h.scalar?_eq] at hScalar
  exact Option.some.inj (Option.ite_none_left_eq_some.mp hScalar).2

/-- What unfolds to the document of a container is a container of the same kind,
with entries that unfold to the same documents under the same segments. -/
theorem Unfolds.exists_cell {document : Value → Json}
    (h : other.Unfolds value' (cell.toJson document)) :
    ∃ handle' cell', value' = .container handle' ∧ other.cell? handle' = some cell' ∧
      cell.kind = cell'.kind ∧ List.Forall₂ (fun entry entry' => entry.1 = entry'.1 ∧
        other.Unfolds entry'.2 (document entry.2)) cell.entries cell'.entries := by
  generalize hDocument : cell.toJson document = whole at h
  cases h with
  | @container handle' cell' document' hCell' hValues' =>
      obtain ⟨hKind, hEntries⟩ := Cell.toJson_eq_iff.mp hDocument
      refine ⟨handle', cell', rfl, hCell', hKind, ?_⟩
      rw [Cell.values_eq_map_entries, List.forall_mem_map] at hValues'
      refine (forall₂_mem hEntries).imp ?_
      rintro entry entry' ⟨-, hMem, hSegment, hSame⟩
      exact ⟨hSegment, hSame ▸ hValues' entry' hMem⟩
  | _ => cases cell <;> cases hDocument

/-- The placeholders below a value are told by its unfolding. -/
theorem Unfolds.placeholdersBelow_eq {document : Json} (h : heap.Unfolds value document)
    (h' : other.Unfolds value' document) {ancestors ancestors' : List Handle}
    (hBeneath : heap.Beneath ancestors document) (hBeneath' : other.Beneath ancestors' document) :
    heap.placeholdersBelow Value.isPlaceholder ancestors value =
      other.placeholdersBelow Value.isPlaceholder ancestors' value' := by
  induction h generalizing value' ancestors ancestors' with
  | @container handle cell document hCell hValues ih =>
      have hUnfolds : heap.Unfolds (.container handle) (cell.toJson document) :=
        .container hCell hValues
      obtain ⟨handle', cell', rfl, hCell', -, hEntries⟩ := h'.exists_cell
      rw [heap.placeholdersBelow_of_enter _ (hBeneath.notMem hUnfolds) Bool.false_ne_true,
        other.placeholdersBelow_of_enter _ (hBeneath'.notMem h') Bool.false_ne_true,
        entries_of_cell? hCell, entries_of_cell? hCell', ← List.forall₂_eq_eq_eq]
      refine List.rel_flatMap (forall₂_mem hEntries) ?_
      rintro entry entry' ⟨hEntry, -, hSegment, hChild⟩
      have hValue := Cell.mem_values_of_mem_entries hEntry
      have hLt := Cell.sizeOf_toJson_lt document hValue
      have hBelow := ih entry.2 hValue hChild (hBeneath.cons hUnfolds hLt) (hBeneath'.cons h' hLt)
      simp only [List.forall₂_eq_eq_eq, hSegment, hBelow]
  | _ =>
      obtain rfl := h'.eq_of_scalar? rfl
      rw [placeholdersBelow_of_not_isContainer _ _ _ rfl,
        placeholdersBelow_of_not_isContainer _ _ _ rfl]

/-- Values with the same document have the same placeholders at the same
paths. -/
theorem SameDocument.discover_eq (h : SameDocument heap value other value') :
    heap.discover value = other.discover value' := by
  obtain ⟨document, hLeft, hRight⟩ := h
  rw [discover, discover, discoverWith_eq, discoverWith_eq]
  exact hLeft.placeholdersBelow_eq hRight (beneath_nil heap document) (beneath_nil other document)

end Heap

end Stencil
