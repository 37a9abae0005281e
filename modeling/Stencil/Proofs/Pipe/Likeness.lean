import Stencil.Proofs.Pipe.Image

/-!
Two images of one template. If the scalars of the template have become the same
values in both, a path leads in both to places of one container of the template,
or to one value from outside, and goes on in the same way.
-/

namespace Stencil.Pipe

/-- Two values that look alike in two heaps: places of one container of a
template, or one value that is there in both heaps. -/
inductive Alike (place place' : Handle → Handle) (reached common : Set Handle) :
    Value → Value → Prop where
  | place {handle : Handle} (h : handle ∈ reached) :
      Alike place place' reached common (.container (place handle)) (.container (place' handle))
  | same {value : Value} (h : value.Within common) : Alike place place' reached common value value

/-- Two images of a template that differ in their places only. Whatever else
they hold is in a region that the two heaps have in common. -/
structure Twins (bindings bindings' : Bindings) (place place' : Handle → Handle)
    (common : Set Handle) (before : Heap) (template : Value) (after : Heap) (result : Value)
    (after' : Heap) (result' : Value) : Prop where
  image : Image bindings place before template after result
  image' : Image bindings' place' before template after' result'
  region : before.Region common
  agree : Heap.AgreeOn common before after
  agree' : Heap.AgreeOn common before after'
  apart : ∀ handle, place handle ∉ common
  apart' : ∀ handle, place' handle ∉ common
  scalar : ∀ path, (before.getPath template path).isContainer = false →
    bindings.image place (before.getPath template path) =
        bindings'.image place' (before.getPath template path) ∧
      (bindings.image place (before.getPath template path)).Within common

theorem Alike.eq_of_not_isContainer {place place' : Handle → Handle} {reached common : Set Handle}
    {value value' : Value} (h : Alike place place' reached common value value')
    (hScalar : value.isContainer = false) : value' = value := by
  cases h with
  | place => cases hScalar
  | same => rfl

/-- A container from outside of a region is none of those inside. -/
theorem sameContainer_of_notMem {handle : Handle} {common : Set Handle} {value : Value}
    (hHandle : handle ∉ common) (hValue : value.Within common) :
    (Value.container handle).sameContainer value = false ∧
      value.sameContainer (.container handle) = false := by
  cases value with
  | container other =>
      have hNe : handle ≠ other := fun hSame =>
        hHandle (hSame ▸ Value.within_container.mp hValue)
      exact ⟨decide_eq_false hNe, decide_eq_false hNe.symm⟩
  | _ => exact ⟨rfl, rfl⟩

namespace Twins

variable {bindings bindings' : Bindings} {place place' : Handle → Handle} {common : Set Handle}
  {before after after' : Heap} {template result result' value value' other other' : Value}
  (h : Twins bindings bindings' place place' common before template after result after' result')

include h

/-- What the images make of a value of the template is alike. -/
theorem alike_image (path : Path) :
    Alike place place' {handle | before.Reaches template handle} common
      (bindings.image place (before.getPath template path))
      (bindings'.image place' (before.getPath template path)) := by
  cases hKind : (before.getPath template path).isContainer with
  | true =>
      obtain ⟨handle, hPath⟩ := Value.isContainer_iff.mp hKind
      rw [hPath]
      exact .place ⟨path, hPath⟩
  | false =>
      obtain ⟨hSame, hWithin⟩ := h.scalar path hKind
      rw [← hSame]
      exact .same hWithin

/-- Alike values have alike entries. -/
theorem alike_get
    (hAlike : Alike place place' {handle | before.Reaches template handle} common value value')
    (segment : Segment) :
    Alike place place' {handle | before.Reaches template handle} common
      (after.get value segment) (after'.get value' segment) := by
  cases hAlike with
  | place hReached =>
      obtain ⟨path, hPath⟩ := hReached
      rw [h.image.get_eq hPath, h.image'.get_eq hPath]
      exact h.alike_image (path ++ [segment])
  | same hWithin =>
      rw [h.agree.get hWithin, h.agree'.get hWithin]
      exact .same (h.region.get_within hWithin segment)

/-- Every path leads in both results to alike values. -/
theorem alike_getPath (path : Path) :
    Alike place place' {handle | before.Reaches template handle} common
      (after.getPath result path) (after'.getPath result' path) := by
  induction path using List.reverseRecOn with
  | nil =>
      have hRoot := h.alike_image []
      rwa [Heap.getPath, List.foldl_nil, ← h.image.result_eq, ← h.image'.result_eq] at hRoot
  | append_singleton path segment ih =>
      rw [Heap.getPath_concat, Heap.getPath_concat]
      exact h.alike_get ih segment

/-- Alike values have the same kind, and entries under the same segments. -/
theorem shape_of_alike
    (hAlike : Alike place place' {handle | before.Reaches template handle} common value value') :
    after.kind value = after'.kind value' ∧
      (after.entries value).map Prod.fst = (after'.entries value').map Prod.fst := by
  cases hAlike with
  | @place handle hReached =>
      simp only [Heap.kind, Heap.entries, Heap.content?, h.image.copied handle hReached,
        h.image'.copied handle hReached, Option.map_map]
      cases before.cell? handle with
      | none => exact ⟨rfl, rfl⟩
      | some cell =>
          simp [Cell.mapValues_eq_mapEntries, Cell.kind_mapEntries, Cell.entries_mapEntries,
            Function.comp_def]
  | same hWithin =>
      have hContent := (h.agree'.content? hWithin).trans (h.agree.content? hWithin).symm
      refine ⟨?_, by rw [Heap.entries, Heap.entries, hContent]⟩
      cases value with
      | container handle =>
          exact congrArg (fun cell => (cell.map Cell.kind).getD .null) hContent.symm
      | _ => rfl

/-- Whether two values are one container is the same on both sides. -/
theorem sameContainer_of_alike
    (hAlike : Alike place place' {handle | before.Reaches template handle} common value value')
    (hOther : Alike place place' {handle | before.Reaches template handle} common other other') :
    value.sameContainer other = value'.sameContainer other' := by
  cases hAlike with
  | @place handle hReached =>
      cases hOther with
      | @place another hAnother =>
          have hLeft := h.image.injective handle another hReached hAnother
          have hRight := h.image'.injective handle another hReached hAnother
          rw [Value.sameContainer, Value.sameContainer, decide_eq_decide]
          exact ⟨fun hSame => hLeft hSame ▸ rfl, fun hSame => hRight hSame ▸ rfl⟩
      | same hWithin =>
          rw [(sameContainer_of_notMem (h.apart handle) hWithin).1,
            (sameContainer_of_notMem (h.apart' handle) hWithin).1]
  | same hWithin =>
      cases hOther with
      | @place another hAnother =>
          rw [(sameContainer_of_notMem (h.apart another) hWithin).2,
            (sameContainer_of_notMem (h.apart' another) hWithin).2]
      | same => rfl

end Twins

/-- Two results that cannot be told apart by anything that can be read, with the
same binding at every placeholder of the template. What a binding is, and what
it holds, is in the region that the heaps have in common. -/
structure SameResult (common : Set Handle) (before : Heap) (template : Value) (after : Heap)
    (result : Value) (after' : Heap) (result' : Value) : Prop where
  /-- Where the template has a text, both have the same scalar or container. -/
  text : ∀ path name, before.getPath template path = .text name →
    after'.getPath result' path = after.getPath result path ∧
      (after.getPath result path).Within common
  /-- Where the template has a number, both have the same scalar or container. -/
  number : ∀ path number, before.getPath template path = .number number →
    after'.getPath result' path = after.getPath result path ∧
      (after.getPath result path).Within common
  /-- Every path leads to values of the same kind. -/
  kind : ∀ path, after.kind (after.getPath result path) = after'.kind (after'.getPath result' path)
  /-- Scalars are equal. -/
  scalar : ∀ path, (after.getPath result path).isContainer = false →
    after'.getPath result' path = after.getPath result path
  /-- Containers have entries under the same segments in the same order. -/
  segments : ∀ path, (after.entries (after.getPath result path)).map Prod.fst =
    (after'.entries (after'.getPath result' path)).map Prod.fst
  /-- Two paths lead to one container in both or in neither. -/
  sharing : ∀ path other,
    (after.getPath result path).sameContainer (after.getPath result other) =
      (after'.getPath result' path).sameContainer (after'.getPath result' other)

theorem Twins.sameResult {bindings bindings' : Bindings} {place place' : Handle → Handle}
    {common : Set Handle} {before after after' : Heap} {template result result' : Value}
    (h : Twins bindings bindings' place place' common before template after result after' result') :
    SameResult common before template after result after' result' := by
  have hFilled : ∀ path value, before.getPath template path = value → value.isContainer = false →
      value ≠ .null → after'.getPath result' path = after.getPath result path ∧
        (after.getPath result path).Within common := by
    rintro path value rfl hScalar hNull
    obtain ⟨hSame, hWithin⟩ := h.scalar path hScalar
    rw [h.image.getPath rfl hNull, h.image'.getPath rfl hNull]
    exact ⟨hSame.symm, hWithin⟩
  exact {
    text := fun path name hPath => hFilled path _ hPath rfl Value.noConfusion
    number := fun path number hPath => hFilled path _ hPath rfl Value.noConfusion
    kind := fun path => (h.shape_of_alike (h.alike_getPath path)).1
    scalar := fun path => (h.alike_getPath path).eq_of_not_isContainer
    segments := fun path => (h.shape_of_alike (h.alike_getPath path)).2
    sharing := fun path other =>
      h.sameContainer_of_alike (h.alike_getPath path) (h.alike_getPath other) }

end Stencil.Pipe
