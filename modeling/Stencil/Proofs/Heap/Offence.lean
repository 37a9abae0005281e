import Mathlib.Data.List.Nodup
import Stencil.Proofs.Heap.SameDocument

/-!
Why a value has no document. An offence is a callable, or a container at the end
of a route that has passed it already. Conversion takes the routes in entry
order, depth first, and fails with the first offence. Where there is none, it
gives the unfolding of the value.
-/

namespace Stencil

/-- What a document cannot hold, and the path that leads to it. -/
structure Offence where
  path : Path
  value : Value

namespace Offence

/-- The same offence, seen from further up. -/
def under (front : Path) (offence : Offence) : Offence := ⟨front ++ offence.path, offence.value⟩

theorem under_under (front back : Path) (offence : Offence) :
    (offence.under back).under front = offence.under (front ++ back) := by
  simp [under]

/-- The failure that tells of an offence. A container is one where it closes a
cycle, and anything else is a callable. -/
def failure (offence : Offence) : Failure :=
  match offence.value with
  | .container _ => .cycle offence.path
  | _ => .unrepresentable offence.path .callable

end Offence

/-- Whether a value that stands below these containers has no document,
whatever it holds. -/
def Value.Offends (passed : List Handle) : Value → Prop
  | .callable _ => True
  | .container handle => handle ∈ passed
  | _ => False

/-- Only the set of containers above a value matters, so they can be split at any of
them. -/
theorem Value.offends_cons (passed ancestors : List Handle) (handle : Handle) (value : Value) :
    value.Offends (passed ++ handle :: ancestors) ↔ value.Offends (handle :: passed ++ ancestors) := by
  cases value with
  | container other => simp [Offends, or_left_comm]
  | _ => rfl

namespace Cell

/-- The place of a segment among those that the entries are listed under. -/
def rank (cell : Cell) (segment : Segment) : Nat := (cell.entries.map Prod.fst).idxOf segment

/-- Entries are listed in the order of their ranks. -/
theorem pairwise_rank (cell : Cell) :
    cell.entries.Pairwise fun entry entry' => cell.rank entry.1 < cell.rank entry'.1 := by
  rw [List.pairwise_iff_getElem]
  intro i j hi hj hLt
  have hRank : ∀ k (hk : k < cell.entries.length), cell.rank cell.entries[k].1 = k := by
    intro k hk
    have hSegment : k < (cell.entries.map Prod.fst).length := by rwa [List.length_map]
    rw [← List.getElem_map Prod.fst (h := hSegment)]
    exact cell.nodup_segments.idxOf_getElem k hSegment
  rwa [hRank i hi, hRank j hj]

end Cell

namespace Heap

variable {heap : Heap} {region : Set Handle} {value : Value} {ancestors : List Handle}
  {offence : Offence}

/-- Depth-first entry order of the paths from a value. A path comes before those
that go on from its end. Where two paths part, the one that takes the entry
listed first comes first. -/
inductive Before (heap : Heap) : Value → Path → Path → Prop where
  | shorter {value : Value} {segment : Segment} {path : Path} : Before heap value [] (segment :: path)
  | parting {handle : Handle} {cell : Cell} {segment segment' : Segment} {path path' : Path}
      (hCell : heap.cell? handle = some cell) (hRank : cell.rank segment < cell.rank segment') :
      Before heap (.container handle) (segment :: path) (segment' :: path')
  | together {handle : Handle} {cell : Cell} {segment : Segment} {child : Value} {path path' : Path}
      (hCell : heap.cell? handle = some cell) (hEntry : (segment, child) ∈ cell.entries)
      (rest : Before heap child path path') :
      Before heap (.container handle) (segment :: path) (segment :: path')

/-- The order of paths is strict. Its entries are ranked by a list without
repetitions. -/
theorem Before.asymm {path path' : Path} (h : Before heap value path path') :
    ¬ Before heap value path' path := by
  induction h with
  | shorter =>
      intro hBack
      cases hBack
  | parting hCell hRank =>
      intro hBack
      cases hBack with
      | parting hCell' hRank' =>
          obtain rfl := Option.some.inj (hCell.symm.trans hCell')
          exact Nat.lt_asymm hRank hRank'
      | together => exact Nat.lt_irrefl _ hRank
  | together hCell hEntry _ ih =>
      intro hBack
      cases hBack with
      | parting _ hRank => exact Nat.lt_irrefl _ hRank
      | together hCell' hEntry' rest =>
          obtain rfl := Option.some.inj (hCell.symm.trans hCell')
          have hSame := List.inj_on_of_nodup_map (Cell.nodup_segments _) hEntry hEntry' rfl
          obtain ⟨-, rfl⟩ := Prod.mk.inj hSame
          exact ih rest

/-- The offences of a value below some containers, depth first and in entry
order. -/
def offencesBelow (heap : Heap) (ancestors : List Handle) (value : Value) : List Offence :=
  match value with
  | .callable id => [⟨[], .callable id⟩]
  | .container handle =>
    if _hOpen : handle ∈ ancestors then [⟨[], .container handle⟩]
    else
      match _hCell : heap.cell? handle with
      | none => []
      | some cell =>
        cell.entries.flatMap fun entry =>
          (offencesBelow heap (handle :: ancestors) entry.2).map (Offence.under [entry.1])
  | _ => []
termination_by heap.unvisited ancestors
decreasing_by exact unvisited_cons_lt ‹_› ‹_›

/-- An open container closes a cycle, and nothing below it is looked at. -/
theorem offencesBelow_of_mem {handle : Handle} (hOpen : handle ∈ ancestors) :
    heap.offencesBelow ancestors (.container handle) = [⟨[], .container handle⟩] := by
  rw [offencesBelow, dif_pos hOpen]

theorem offencesBelow_of_missing {handle : Handle} (hNew : handle ∉ ancestors)
    (hCell : heap.cell? handle = none) : heap.offencesBelow ancestors (.container handle) = [] := by
  rw [offencesBelow, dif_neg hNew]
  split
  next => rfl
  next hSome => cases hCell.symm.trans hSome

/-- Otherwise the offences of the entries follow one another, each with its segment
in front. -/
theorem offencesBelow_of_enter {handle : Handle} {cell : Cell} (hNew : handle ∉ ancestors)
    (hCell : heap.cell? handle = some cell) :
    heap.offencesBelow ancestors (.container handle) = cell.entries.flatMap fun entry =>
      (heap.offencesBelow (handle :: ancestors) entry.2).map (Offence.under [entry.1]) := by
  rw [offencesBelow, dif_neg hNew]
  split
  next hNone => cases hCell.symm.trans hNone
  next hSome => rw [Option.some.inj (hCell.symm.trans hSome)]

/-- Without entries, a value is the only thing that can offend. -/
theorem offencesBelow_of_not_isContainer (ancestors : List Handle) (h : value.isContainer = false) :
    offence ∈ heap.offencesBelow ancestors value ↔
      offence = ⟨[], value⟩ ∧ value.Offends ancestors := by
  cases value with
  | container => cases h
  | _ => simp [offencesBelow, Value.Offends]

/-- The offences below a value are at the ends of the routes from it that avoid
its ancestors and pass no container twice. -/
theorem mem_offencesBelow_iff : offence ∈ heap.offencesBelow ancestors value ↔
    ∃ passed, SimpleRoute heap ancestors value passed offence.path offence.value ∧
      offence.value.Offends (passed ++ ancestors) := by
  obtain ⟨path, target⟩ := offence
  induction ancestors, value using descent_induction heap generalizing path target with
  | scalar ancestors value hScalar =>
      rw [offencesBelow_of_not_isContainer ancestors hScalar, Offence.mk.injEq]
      constructor
      · rintro ⟨⟨rfl, rfl⟩, hOffends⟩
        exact ⟨[], .nil _ _, hOffends⟩
      · rintro ⟨passed, route, hOffends⟩
        cases route with
        | nil => exact ⟨⟨rfl, rfl⟩, hOffends⟩
        | cons => cases hScalar
  | opened ancestors handle hOpen =>
      rw [offencesBelow_of_mem hOpen, List.mem_singleton, Offence.mk.injEq]
      constructor
      · rintro ⟨rfl, rfl⟩
        exact ⟨[], .nil _ _, hOpen⟩
      · rintro ⟨passed, route, -⟩
        cases route with
        | nil => exact ⟨rfl, rfl⟩
        | cons hNew => exact absurd hOpen hNew
  | missing ancestors handle hNew hCell =>
      rw [offencesBelow_of_missing hNew hCell, iff_false_left List.not_mem_nil]
      rintro ⟨passed, route, hOffends⟩
      cases route with
      | nil => exact hNew hOffends
      | cons _ hSome => cases hCell.symm.trans hSome
  | enter ancestors handle cell hNew hCell ih =>
      rw [offencesBelow_of_enter hNew hCell]
      simp only [List.mem_flatMap, List.mem_map]
      constructor
      · rintro ⟨⟨segment, child⟩, hEntry, ⟨rest, _⟩, hInner, hSame⟩
        obtain ⟨rfl, rfl⟩ := Offence.mk.inj hSame
        obtain ⟨passed, route, hOffends⟩ := (ih child rest _).mp hInner
        exact ⟨handle :: passed, .cons hNew hCell hEntry route,
          (Value.offends_cons _ _ _ _).mp hOffends⟩
      · rintro ⟨passed, route, hOffends⟩
        cases route with
        | nil => exact absurd hOffends hNew
        | @cons _ passed _ _ segment child _ path _ hSome hEntry rest =>
            obtain rfl := Option.some.inj (hCell.symm.trans hSome)
            exact ⟨(segment, child), hEntry, ⟨path, target⟩, (ih child path target).mpr
              ⟨passed, rest, (Value.offends_cons _ _ _ _).mpr hOffends⟩, rfl⟩

/-- Offences are listed in depth-first entry order. -/
theorem pairwise_offencesBelow (heap : Heap) (ancestors : List Handle) (value : Value) :
    (heap.offencesBelow ancestors value).Pairwise fun first second =>
      Before heap value first.path second.path := by
  induction ancestors, value using descent_induction heap with
  | scalar ancestors value hScalar =>
      cases value with
      | container => cases hScalar
      | _ => simp [offencesBelow]
  | opened ancestors handle hOpen =>
      rw [offencesBelow_of_mem hOpen]
      exact List.pairwise_singleton _ _
  | missing ancestors handle hNew hCell =>
      rw [offencesBelow_of_missing hNew hCell]
      exact .nil
  | enter ancestors handle cell hNew hCell ih =>
      rw [offencesBelow_of_enter hNew hCell, List.pairwise_flatMap]
      constructor
      · rintro ⟨segment, child⟩ hEntry
        exact List.pairwise_map.mpr ((ih child).imp fun hBefore => .together hCell hEntry hBefore)
      · refine cell.pairwise_rank.imp fun hRank => ?_
        intro first hFirst second hSecond
        obtain ⟨_, -, rfl⟩ := List.mem_map.mp hFirst
        obtain ⟨_, -, rfl⟩ := List.mem_map.mp hSecond
        exact .parting hCell hRank

/-- A conversion fails with the first offence. -/
theorem toJsonBelow_eq_error_iff {route : Path} {failure : Failure} :
    heap.toJsonBelow ancestors route value = .error failure ↔
      ((heap.offencesBelow ancestors value).map fun offence =>
        (offence.under route.reverse).failure).head? = some failure := by
  induction ancestors, value using descent_induction heap generalizing route failure with
  | scalar ancestors value hScalar =>
      cases value with
      | container => cases hScalar
      | _ => simp [toJsonBelow, offencesBelow, Offence.under, Offence.failure]
  | opened ancestors handle hOpen =>
      rw [toJsonBelow_of_mem hOpen, offencesBelow_of_mem hOpen]
      simp [Offence.under, Offence.failure]
  | missing ancestors handle hNew hCell =>
      rw [toJsonBelow_of_missing hNew hCell, offencesBelow_of_missing hNew hCell]
      simp
  | enter ancestors handle cell hNew hCell ih =>
      rw [toJsonBelow_of_enter hNew hCell, map_eq_error_iff, offencesBelow_of_enter hNew hCell,
        List.map_flatMap]
      refine mapM_eq_error_iff (fun entry _ found => ?_) failure
      rw [ih entry.2, List.map_map]
      simp [Function.comp_def, Offence.under_under]

/-- Values of which one has been reached twice on a route are above themselves. -/
theorem Route.exists_back {passed : List Handle} {path : Path} {target : Value} {handle : Handle}
    (route : Route heap value passed path target) (hPassed : handle ∈ passed) :
    ∃ passed' back, back ≠ [] ∧ Route heap (.container handle) passed' back target := by
  induction route with
  | nil => cases hPassed
  | cons hCell hEntry rest ih =>
      rcases List.mem_cons.mp hPassed with rfl | hPassed
      · exact ⟨_, _, List.cons_ne_nil _ _, .cons hCell hEntry rest⟩
      · exact ih hPassed

/-- An offence at the end of a route that passes no container twice before its
last entry. -/
def HasOffence (heap : Heap) (value : Value) (offence : Offence) : Prop :=
  ∃ passed, Route heap value passed offence.path offence.value ∧ passed.Nodup ∧
    offence.value.Offends passed

/-- An offence whose path comes before those of all others in depth-first entry
order. -/
structure FirstOffence (heap : Heap) (value : Value) (offence : Offence) : Prop where
  found : heap.HasOffence value offence
  before : ∀ other, heap.HasOffence value other →
    other = offence ∨ Before heap value offence.path other.path

/-- The list has every offence there is, although a route of the walk passes no
container twice. -/
theorem hasOffence_iff : heap.HasOffence value offence ↔ offence ∈ heap.offencesBelow [] value := by
  simp [mem_offencesBelow_iff, simpleRoute_iff, HasOffence, and_assoc]

/-- The walk finds offences in the order of their paths, so the first one is at its
head. -/
theorem firstOffence_iff :
    heap.FirstOffence value offence ↔ (heap.offencesBelow [] value).head? = some offence := by
  have hOrder := heap.pairwise_offencesBelow [] value
  constructor
  · rintro ⟨hFound, hBefore⟩
    simp only [hasOffence_iff] at hFound hBefore
    cases hList : heap.offencesBelow [] value with
    | nil =>
        rw [hList] at hFound
        cases hFound
    | cons first rest =>
        rw [hList] at hFound hBefore hOrder
        rcases List.mem_cons.mp hFound with rfl | hLater
        · rfl
        · have hFirst := List.rel_of_pairwise_cons hOrder hLater
          rcases hBefore first List.mem_cons_self with rfl | hSecond
          · rfl
          · exact absurd hFirst hSecond.asymm
  · intro hHead
    obtain ⟨rest, hList⟩ := List.head?_eq_some_iff.mp hHead
    rw [hList] at hOrder
    constructor
    · rw [hasOffence_iff, hList]
      exact List.mem_cons_self
    · intro other hOther
      rw [hasOffence_iff, hList] at hOther
      exact (List.mem_cons.mp hOther).imp_right fun hLater =>
        List.rel_of_pairwise_cons hOrder hLater

/-- A conversion fails with the first offence, and only with that. -/
theorem toJson_eq_error_iff {failure : Failure} : heap.toJson value = .error failure ↔
    ∃ offence, heap.FirstOffence value offence ∧ offence.failure = failure := by
  simp only [firstOffence_iff]
  rw [toJson_eq, toJsonBelow_eq_error_iff, List.head?_map, Option.map_eq_some_iff]
  rfl

/-- A conversion that succeeds gives the unfolding of the value. -/
theorem unfolds_of_toJsonBelow (hRegion : heap.Region region) (hValue : value.Within region)
    {route : Path} {document : Json} (h : heap.toJsonBelow ancestors route value = .ok document) :
    heap.Unfolds value document := by
  induction ancestors, value using descent_induction heap generalizing route document with
  | scalar ancestors value hScalar =>
      cases value with
      | container => cases hScalar
      | _ =>
          rw [toJsonBelow] at h
          cases h <;> constructor
  | opened ancestors handle hOpen =>
      rw [toJsonBelow_of_mem hOpen] at h
      cases h
  | missing ancestors handle hNew hCell =>
      obtain ⟨cell, hSome⟩ := hRegion.exists_cell? (Value.within_container.mp hValue)
      cases hCell.symm.trans hSome
  | enter ancestors handle cell hNew hCell ih =>
      rw [toJsonBelow_of_enter hNew hCell, map_eq_ok_iff] at h
      obtain ⟨documents, hDocuments, rfl⟩ := h
      have hUnfolds : List.Forall₂ heap.Unfolds (cell.entries.map Prod.snd) documents := by
        refine List.forall₂_map_left_iff.mpr ((forall₂_mem (mapM_eq_ok_iff.mp hDocuments)).imp ?_)
        rintro entry below ⟨hEntry, -, hBelow⟩
        exact ih entry.2 (hRegion.closed handle (Value.within_container.mp hValue) cell hCell _
          (Cell.mem_values_of_mem_entries hEntry)) hBelow
      obtain ⟨rfl, hValues⟩ := map_document hUnfolds
      rw [← Cell.values_eq_map_entries] at hValues
      rw [List.map_map, show heap.document ∘ Prod.snd = fun entry => heap.document entry.2 from rfl,
        cell.assemble_map]
      exact .container hCell hValues

/-- A conversion succeeds where the value unfolds to a document, and with that
document. -/
theorem toJson_eq_ok_iff (hRegion : heap.Region region) (hValue : value.Within region)
    {document : Json} : heap.toJson value = .ok document ↔ heap.Unfolds value document :=
  ⟨fun h => unfolds_of_toJsonBelow hRegion hValue (toJson_eq heap value ▸ h), Unfolds.toJson⟩

/-- What conversion says of a value. -/
structure Accurate (heap : Heap) (value : Value) : Prop where
  /-- There is a document just if neither a callable nor a cycle can be reached. -/
  succeeds : (∃ document, heap.toJson value = .ok document) ↔
    heap.CallableFree value ∧ heap.Acyclic value
  /-- The document is the unfolding of the value. -/
  document : ∀ document, heap.toJson value = .ok document ↔ heap.Unfolds value document
  /-- A failure tells of the first offence: a callable, or a container that has
  been passed on the way. Its text shows the path. -/
  failure : ∀ failure, heap.toJson value = .error failure ↔
    (∃ path id, heap.FirstOffence value ⟨path, .callable id⟩ ∧
      failure = .unrepresentable path .callable ∧
      failure.message = "value at '" ++ path.display ++ "' is a " ++ Kind.callable.name ++
        " and has no JSON representation") ∨
    ∃ path handle, heap.FirstOffence value ⟨path, .container handle⟩ ∧ failure = .cycle path ∧
      failure.message =
        "container at '" ++ path.display ++ "' refers back to one of its ancestors"
  /-- A container that is said to close a cycle can be reached from itself. -/
  cycle : ∀ path, heap.toJson value = .error (.cycle path) → ∃ handle back,
    heap.getPath value path = .container handle ∧ back ≠ [] ∧
      heap.getPath (.container handle) back = .container handle

/-- Conversion succeeds on finite data without callables and on nothing else, and
its failures tell of the first offence in depth-first entry order. -/
theorem accurate_toJson (hHeap : heap.WellFormed) (hValue : value.Within heap.handles) :
    heap.Accurate value := by
  have hOk : ∀ document, heap.toJson value = .ok document ↔ heap.Unfolds value document :=
    fun document => toJson_eq_ok_iff hHeap.region_handles hValue
  refine ⟨⟨?_, ?_⟩, hOk, fun failure => ?_, fun path hCycle => ?_⟩
  · rintro ⟨document, hDocument⟩
    have hUnfolds := (hOk document).mp hDocument
    exact ⟨hUnfolds.callableFree, hUnfolds.acyclic⟩
  · rintro ⟨hFree, hAcyclic⟩
    obtain ⟨document, hUnfolds⟩ := exists_unfolds hHeap.region_handles hValue hFree hAcyclic
    exact ⟨document, hUnfolds.toJson⟩
  · rw [toJson_eq_error_iff]
    constructor
    · rintro ⟨⟨path, target⟩, hFirst, rfl⟩
      obtain ⟨passed, -, -, hOffends⟩ := hFirst.found
      cases target with
      | callable id => exact .inl ⟨path, id, hFirst, rfl, rfl⟩
      | container handle => exact .inr ⟨path, handle, hFirst, rfl, rfl⟩
      | _ => cases hOffends
    · rintro (⟨path, id, hFirst, rfl, -⟩ | ⟨path, handle, hFirst, rfl, -⟩)
      · exact ⟨_, hFirst, rfl⟩
      · exact ⟨_, hFirst, rfl⟩
  · obtain ⟨⟨path', target⟩, hFirst, hFailure⟩ := toJson_eq_error_iff.mp hCycle
    obtain ⟨passed, route, -, hOffends⟩ := hFirst.found
    cases target with
    | container handle =>
        obtain rfl := Failure.cycle.inj hFailure
        obtain ⟨passed', back, hBack, route'⟩ := route.exists_back hOffends
        have hEnd : heap.getPath value path' = .container handle :=
          route.getPath_eq hHeap.region_handles hValue
        refine ⟨handle, back, hEnd, hBack, route'.getPath_eq hHeap.region_handles ?_⟩
        exact hEnd ▸ hHeap.region_handles.getPath_within hValue path'
    | _ => cases hFailure

/-- A container that is held twice, and one below it that holds it. -/
def entangled : Heap where
  cells := #[
    .object (.ofList [("first", .container 1), ("second", .container 1), ("call", .callable 0)]),
    .array #[.text "item", .container 2],
    .object (.ofList [("call", .callable 1), ("up", .container 1)])]

/-- An instance with callables and a cycle, each of them at the end of two routes or
more. -/
theorem accurate_entangled : entangled.WellFormed ∧
    (Value.container 0).Within entangled.handles ∧ entangled.Accurate (.container 0) :=
  ⟨by decide, Value.within_container.mpr (by decide : 0 < entangled.size),
    accurate_toJson (by decide) (Value.within_container.mpr (by decide : 0 < entangled.size))⟩

end Heap

end Stencil
