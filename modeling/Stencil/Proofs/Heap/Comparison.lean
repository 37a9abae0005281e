import Stencil.Proofs.Heap.Equality
import Stencil.Proofs.Number.Value

/-!
What the comparison of two values decides. Unfoldings may be infinite, so they
are compared path by path: the same paths lead to the same scalars, the same
callables and containers of the same shape. Where one of two values has no
cycles, the comparison comes to an end without remembering what it compares, and
tells whether they unfold alike. Where both have documents, it tells whether
these are the same.
-/

namespace Stencil

section

variable {α : Type} {items : List α} {test? : α → Option Bool} {test : α → Bool}

/-- Where every test has an answer, so have all of them together. -/
theorem allM_eq_some (h : ∀ item ∈ items, test? item = some (test item)) :
    items.allM test? = some (items.all test) := by
  induction items with
  | nil => rfl
  | cons item rest ih =>
      rw [List.forall_mem_cons] at h
      rw [List.allM, h.1, List.all_cons]
      cases test item with
      | false => rfl
      | true => exact ih h.2

/-- When every test has an answer, so has their short-circuiting conjunction, and it
is the expected one. -/
theorem ite_allM_eq_some (condition : Prop) [Decidable condition]
    (h : ∀ item ∈ items, test? item = some (test item)) :
    (if condition then items.allM test? else some false) = some (condition && items.all test) := by
  split
  next hTrue => rw [decide_eq_true hTrue, Bool.true_and, allM_eq_some h]
  next hFalse => rw [decide_eq_false hFalse, Bool.false_and]

end

namespace Json

mutual

/-- Whether two documents are equal: numbers by kind and value, arrays in order,
and objects as maps, whatever the order of their entries. -/
def same : Json → Json → Bool
  | .null, .null => true
  | .bool a, .bool b => a = b
  | .number a, .number b => a.isInteger = b.isInteger && a.value = b.value
  | .text a, .text b => a = b
  | .array items, .array others => sameItems items others
  | .object entries, .object others =>
    entries.length = others.length && sameEntries entries others
  | _, _ => false

def sameItems : List Json → List Json → Bool
  | [], [] => true
  | item :: items, other :: others => same item other && sameItems items others
  | _, _ => false

/-- Whether all of these entries are among the others. -/
def sameEntries : List (String × Json) → List (String × Json) → Bool
  | [], _ => true
  | (key, item) :: entries, others =>
    (match others.lookup key with
    | some other => same item other
    | none => false) && sameEntries entries others

end

variable {document document' : Value → Json}

/-- Document items are compared pairwise, after their number. -/
theorem sameItems_map (values values' : List Value) :
    sameItems (values.map document) (values'.map document') =
      (values.length = values'.length && (values.zip values').all fun pair =>
        (document pair.1).same (document' pair.2)) := by
  induction values generalizing values' with
  | nil => cases values' <;> simp [sameItems]
  | cons value rest ih =>
      cases values' with
      | nil => simp [sameItems]
      | cons value' rest' =>
          simp only [List.map_cons, sameItems, ih, List.length_cons, Nat.add_right_cancel_iff,
            List.zip_cons_cons, List.all_cons]
          exact Bool.and_left_comm _ _ _

/-- Document entries are compared by key, in whatever order they stand. -/
theorem sameEntries_map (entries : List (String × Value)) (fields : Fields Value) :
    sameEntries (entries.map fun entry => (entry.1, document entry.2))
        (fields.entries.map fun entry => (entry.1, document' entry.2)) =
      entries.all fun entry =>
        match fields.get? entry.1 with
        | some other => (document entry.2).same (document' other)
        | none => false := by
  induction entries with
  | nil => simp [sameEntries]
  | cons entry rest ih =>
      have hLookup : (fields.entries.map fun entry => (entry.1, document' entry.2)).lookup entry.1 =
          (fields.get? entry.1).map document' :=
        Cell.child?_toJson document' (.object fields) (.key entry.1)
      rw [List.map_cons, sameEntries, ih, hLookup, List.all_cons]
      cases fields.get? entry.1 <;> rfl

/-- Documents of containers are the same when the containers agree in what their
values have for documents. -/
theorem same_toJson (cell other : Cell) :
    (cell.toJson document).same (other.toJson document') =
      cell.agree (fun value value' => (document value).same (document' value')) other := by
  cases cell with
  | array items =>
      cases other with
      | array others => simp [Cell.toJson, same, sameItems_map, Cell.agree]
      | object => rfl
  | object fields =>
      cases other with
      | array => rfl
      | object others =>
          rw [Cell.toJson, Cell.toJson, same, sameEntries_map, List.length_map, List.length_map]
          rfl

end Json

namespace Heap

variable {heap : Heap} {left right : Value} {handle handle' : Handle} {cell cell' : Cell}
  {region : Set Handle}

/-- The comparison of two values when nothing is remembered of what is being
compared. It has no answer where it would go down more levels than it may. A
container may be taken to equal itself, or compared with itself like any other. -/
def comparison (heap : Heap) (shortcut : Bool) (levels : Nat) (left right : Value) : Option Bool :=
  match left, right with
  | .number a, .number b => some (a.sameValue b)
  | .container a, .container b =>
    if shortcut && a = b then some true
    else
      match levels with
      | 0 => none
      | levels + 1 =>
        match heap.cell? a, heap.cell? b with
        | some (.array items), some (.array others) =>
          if items.size = others.size then
            (items.toList.zip others.toList).allM fun pair =>
              comparison heap shortcut levels pair.1 pair.2
          else some false
        | some (.object fields), some (.object others) =>
          if fields.size = others.size then
            fields.entries.allM fun entry =>
              match others.get? entry.1 with
              | some other => comparison heap shortcut levels entry.2 other
              | none => some false
          else some false
        | _, _ => some false
  | left, right => some (left = right)

/-- Where all comparisons of entries have answers, so has that of the
containers, one level up. -/
theorem comparison_of_enter {shortcut : Bool} {levels : Nat} {test : Value → Value → Bool}
    (hShortcut : (shortcut && handle = handle') = false)
    (hCell : heap.cell? handle = some cell) (hCell' : heap.cell? handle' = some cell')
    (hAddressable : cell.Addressable)
    (hTest : ∀ segment value value', cell.get? segment = some value →
      cell'.get? segment = some value' →
        heap.comparison shortcut levels value value' = some (test value value')) :
    heap.comparison shortcut (levels + 1) (.container handle) (.container handle') =
      some (cell.agree test cell') := by
  rw [comparison, hShortcut, if_neg Bool.false_ne_true]
  simp only [hCell, hCell']
  cases cell with
  | array items =>
      cases cell' with
      | object => rfl
      | array others =>
          refine ite_allM_eq_some _ fun pair hPair => ?_
          obtain ⟨segment, hItem, hOther⟩ := Cell.exists_get?_of_mem_zip hAddressable hPair
          exact hTest segment pair.1 pair.2 hItem hOther
  | object fields =>
      cases cell' with
      | array => rfl
      | object others =>
          refine ite_allM_eq_some _ fun entry hEntry => ?_
          cases hOther : others.get? entry.1 with
          | none => rfl
          | some other =>
              exact hTest (.key entry.1) entry.2 other (Fields.get?_eq_some_iff.mpr hEntry) hOther

/-- There are finitely many pairs of containers to compare, which bounds the
comparison. -/
theorem length_pairs (heap : Heap) : heap.pairs.length = heap.size * heap.size := by
  simp [pairs]

/-- The comparison comes to an end with this answer, whether or not containers are
taken to equal themselves. It goes down no more levels than there are pairs of
containers. -/
def ComesTo (heap : Heap) (left right : Value) (answer : Bool) : Prop :=
  ∀ shortcut levels, heap.size * heap.size ≤ levels →
    heap.comparison shortcut levels left right = some answer

/-- Where one of two values has no cycles, the comparison comes to an end. No pair is
met below itself, so one level for each pair of containers is enough. -/
theorem comesTo_equal (hRegion : heap.Region region) (hLeft : left.Within region)
    (hRight : right.Within region) (hAcyclic : heap.Acyclic left ∨ heap.Acyclic right) :
    heap.ComesTo left right (heap.equal left right) := by
  intro shortcut levels hLevels
  have hUnvisited : Stencil.unvisited heap.pairs [] ≤ levels := by
    rw [← length_pairs] at hLevels
    exact Nat.le_trans List.countP_le_length hLevels
  refine comparing_induction
    (motive := fun comparing left right => ∀ levels, Stencil.unvisited heap.pairs comparing ≤ levels →
      heap.comparison shortcut levels left right = some (heap.equalBelow comparing left right))
    hRegion ?_ ?_ hLeft hRight hAcyclic levels hUnvisited
  · intro comparing left right hScalar levels _
    unfold equalBelow
    split
    next => rw [comparison]
    next => cases hScalar
    next hNumbers hContainers => rw [comparison] <;> assumption
  · intro comparing handle handle' cell cell' hNew hCell hCell' hAddressable _ ih levels hLevels
    cases hShortcut : (shortcut && handle = handle' : Bool) with
    | true =>
        obtain rfl := of_decide_eq_true (Bool.and_eq_true_iff.mp hShortcut).2
        rw [equalBelow_self, comparison.eq_def]
        exact if_pos hShortcut
    | false =>
        have hLt := Stencil.unvisited_cons_lt (mem_pairs hCell hCell') hNew
        obtain ⟨levels, rfl⟩ := Nat.exists_eq_succ_of_ne_zero (Nat.ne_zero_of_lt (hLt.trans_le hLevels))
        rw [equalBelow_of_enter hNew hCell hCell' hAddressable]
        exact comparison_of_enter hShortcut hCell hCell' hAddressable
          fun segment value value' hValue hValue' =>
            ih segment value value' hValue hValue' levels (by omega)

/-- Values that show no difference before any entry is read. -/
inductive SameNode (heap : Heap) : Value → Value → Prop where
  | scalar (value : Value) (hScalar : value.isContainer = false) : SameNode heap value value
  | number {a b : Number} (hKind : a.isInteger = b.isInteger) (hValue : a.value = b.value) :
      SameNode heap (.number a) (.number b)
  | container {handle handle' : Handle} {cell cell' : Cell}
      (hCell : heap.cell? handle = some cell) (hCell' : heap.cell? handle' = some cell')
      (hShape : cell.SameShape cell') : SameNode heap (.container handle) (.container handle')

namespace SameNode

/-- Values inside a region have a cell each, so they look like themselves. -/
theorem refl (hRegion : heap.Region region) {value : Value} (hValue : value.Within region) :
    heap.SameNode value value := by
  cases hKind : value.isContainer with
  | false => exact .scalar value hKind
  | true =>
      obtain ⟨handle, rfl⟩ := Value.isContainer_iff.mp hKind
      obtain ⟨cell, hCell⟩ := hRegion.exists_cell? (Value.within_container.mp hValue)
      exact .container hCell hCell (.refl cell)

theorem symm (h : heap.SameNode left right) : heap.SameNode right left := by
  cases h with
  | scalar _ hScalar => exact .scalar _ hScalar
  | number hKind hValue => exact .number hKind.symm hValue.symm
  | container hCell hCell' hShape => exact .container hCell' hCell hShape.symm

/-- The middle container is the same one on both sides, so its cell links the outer
two. -/
theorem trans {middle : Value} (h : heap.SameNode left middle) (h' : heap.SameNode middle right) :
    heap.SameNode left right := by
  cases h with
  | scalar => exact h'
  | number hKind hValue =>
      cases h' with
      | scalar => exact .number hKind hValue
      | number hKind' hValue' => exact .number (hKind.trans hKind') (hValue.trans hValue')
  | container hCell hMiddle hShape =>
      cases h' with
      | scalar _ hScalar => cases hScalar
      | container hMiddle' hCell' hShape' =>
          obtain rfl := Option.some.inj (hMiddle.symm.trans hMiddle')
          exact .container hCell hCell' (hShape.trans hShape')

end SameNode

/-- The same paths lead to the same scalars, to the same callables and to
containers of the same shape. -/
def SameUnfolding (heap : Heap) (left right : Value) : Prop :=
  ∀ path, heap.SameNode (heap.getPath left path) (heap.getPath right path)

namespace Equals

/-- Equal values have equal children under every segment, missing ones included. -/
theorem get (h : heap.Equals left right) (segment : Segment) :
    heap.Equals (heap.get left segment) (heap.get right segment) := by
  cases h with
  | same => exact .same _
  | number => exact .same _
  | container hCell hCell' hShape hValues =>
      rw [get_of_cell? hCell, get_of_cell? hCell']
      have hSome := hShape.isSome_eq segment
      cases hValue : Cell.get? _ segment with
      | none =>
          rw [hValue, Option.isSome_none, eq_comm, Option.isSome_eq_false_iff,
            Option.isNone_iff_eq_none] at hSome
          rw [hSome]
          exact .same _
      | some value =>
          rw [hValue, Option.isSome_some, eq_comm, Option.isSome_iff_exists] at hSome
          obtain ⟨value', hValue'⟩ := hSome
          rw [hValue']
          exact hValues segment value value' hValue hValue'

/-- Hence equal values stay equal along every path, however far a cycle carries it. -/
theorem getPath (h : heap.Equals left right) (path : Path) :
    heap.Equals (heap.getPath left path) (heap.getPath right path) := by
  induction path generalizing left right with
  | nil => exact h
  | cons segment rest ih => exact ih (h.get segment)

/-- Equality at the root: the same kind, shape and scalar content. -/
theorem sameNode (h : heap.Equals left right) (hRegion : heap.Region region)
    (hLeft : left.Within region) : heap.SameNode left right := by
  cases h with
  | same => exact .refl hRegion hLeft
  | number hSame =>
      obtain ⟨hKind, hValue⟩ := (Number.sameValue_iff _ _).mp hSame
      exact .number hKind hValue
  | container hCell hCell' hShape => exact .container hCell hCell' hShape

/-- Equal values cannot be told apart by following paths, which is one half of
extensionality. -/
theorem sameUnfolding (h : heap.Equals left right) (hRegion : heap.Region region)
    (hLeft : left.Within region) : heap.SameUnfolding left right :=
  fun path => (h.getPath path).sameNode hRegion (hRegion.getPath_within hLeft path)

/-- Values with documents are equal just if the documents are the same. -/
theorem iff_same (hHeap : heap.WellFormed) {document document' : Json}
    (h : heap.Unfolds left document) (h' : heap.Unfolds right document') :
    heap.Equals left right ↔ document.same document' = true := by
  induction h generalizing right document' with
  | @container handle cell document hCell hValues ih =>
      cases h' with
      | @container handle' cell' document' hCell' hValues' =>
          have hIff : ∀ segment value value', cell.get? segment = some value →
              cell'.get? segment = some value' →
                (heap.Equals value value' ↔ (document value).same (document' value') = true) :=
            fun segment value value' hValue hValue' =>
              ih value (Cell.mem_values_of_get? hValue)
                (hValues' value' (Cell.mem_values_of_get? hValue'))
          rw [Json.same_toJson, Cell.agree_iff
            (hHeap.addressable cell (Array.mem_of_getElem? hCell))
            (hHeap.addressable cell' (Array.mem_of_getElem? hCell'))]
          constructor
          · intro hEquals
            obtain ⟨_, found, hHandle, hFound, hShape, hEntries⟩ := hEquals.exists_cell hCell
            obtain rfl := Value.container.inj hHandle
            obtain rfl := Option.some.inj (hFound.symm.trans hCell')
            exact ⟨hShape, fun segment value value' hValue hValue' =>
              (hIff segment value value' hValue hValue').mp
                (hEntries segment value value' hValue hValue')⟩
          · rintro ⟨hShape, hEntries⟩
            exact .container hCell hCell' hShape fun segment value value' hValue hValue' =>
              (hIff segment value value' hValue hValue').mpr
                (hEntries segment value value' hValue hValue')
      | _ =>
          constructor
          · rintro ⟨⟩
          · intro hSame
            cases cell <;> cases hSame
  | _ =>
      rw [equals_iff_equalBelow [] rfl]
      cases h' with
      | @container _ cell' => cases cell' <;> simp [Heap.equalBelow, Json.same, Cell.toJson]
      | _ => simp [Heap.equalBelow, Json.same, Number.sameValue_iff]

end Equals

/-- Where one of two values has no cycles, they are equal just if they unfold
alike. -/
theorem equals_iff_sameUnfolding (hRegion : heap.Region region) (hLeft : left.Within region)
    (hRight : right.Within region) (hAcyclic : heap.Acyclic left ∨ heap.Acyclic right) :
    heap.Equals left right ↔ heap.SameUnfolding left right := by
  refine ⟨fun h => h.sameUnfolding hRegion hLeft, ?_⟩
  refine comparing_induction
    (motive := fun _ left right => heap.SameUnfolding left right → heap.Equals left right)
    hRegion ?_ ?_ hLeft hRight hAcyclic
  · intro comparing left right hScalar h
    cases h [] with
    | scalar => exact .same left
    | number hKind hValue => exact .number ((Number.sameValue_iff _ _).mpr ⟨hKind, hValue⟩)
    | container => cases hScalar
  · intro comparing handle handle' cell cell' _ hCell hCell' _ _ ih h
    have hShape : cell.SameShape cell' := by
      cases h [] with
      | scalar _ hScalar => cases hScalar
      | container hFound hFound' hShape =>
          obtain rfl := Option.some.inj (hFound.symm.trans hCell)
          obtain rfl := Option.some.inj (hFound'.symm.trans hCell')
          exact hShape
    refine .container hCell hCell' hShape fun segment value value' hValue hValue' => ?_
    refine ih segment value value' hValue hValue' fun path => ?_
    have hNode := h (segment :: path)
    change heap.SameNode (heap.getPath (heap.get _ segment) path)
      (heap.getPath (heap.get _ segment) path) at hNode
    rwa [get_of_cell? hCell, get_of_cell? hCell', hValue, hValue'] at hNode

/-- Equality of values is that of their unfoldings. -/
structure Extensional (heap : Heap) : Prop where
  /-- Where one of two values has no cycles, the comparison comes to an end and
  tells whether they unfold alike. Containers that are taken to equal themselves
  make no difference. -/
  decides : ∀ left right : Value, left.Within heap.handles → right.Within heap.handles →
    heap.Acyclic left ∨ heap.Acyclic right →
      heap.ComesTo left right (heap.equal left right) ∧
        (heap.equal left right = true ↔ heap.SameUnfolding left right)
  /-- Equality is an equivalence of values without cycles. -/
  equivalence : Equivalence
    fun left right : {value : Value // value.Within heap.handles ∧ heap.Acyclic value} =>
      heap.equal left right = true
  /-- Finite values without callables are equal just if their documents are the
  same. -/
  documents : ∀ left right : Value, left.Within heap.handles → right.Within heap.handles →
    heap.Acyclic left → heap.Acyclic right → heap.CallableFree left → heap.CallableFree right →
      ∃ document document', heap.toJson left = .ok document ∧ heap.toJson right = .ok document' ∧
        (heap.equal left right = true ↔ document.same document' = true)

/-- The comparison of values decides equality of their unfoldings. -/
theorem extensional_equal (hHeap : heap.WellFormed) : heap.Extensional := by
  have hRegion := hHeap.region_handles
  have hDecides : ∀ left right : Value, left.Within heap.handles → right.Within heap.handles →
      heap.Acyclic left ∨ heap.Acyclic right →
        (heap.equal left right = true ↔ heap.SameUnfolding left right) :=
    fun left right hLeft hRight hAcyclic =>
      (equal_iff hHeap hLeft hRight hAcyclic).trans
        (equals_iff_sameUnfolding hRegion hLeft hRight hAcyclic)
  refine ⟨fun left right hLeft hRight hAcyclic =>
    ⟨comesTo_equal hRegion hLeft hRight hAcyclic, hDecides left right hLeft hRight hAcyclic⟩,
    ⟨?_, ?_, ?_⟩, ?_⟩
  · rintro ⟨value, hValue, hAcyclic⟩
    exact equalBelow_self heap [] value
  · rintro ⟨left, hLeft, hAcyclic⟩ ⟨right, hRight, hAcyclic'⟩ h
    rw [hDecides left right hLeft hRight (.inl hAcyclic)] at h
    rw [hDecides right left hRight hLeft (.inl hAcyclic')]
    exact fun path => (h path).symm
  · rintro ⟨left, hLeft, hAcyclic⟩ ⟨middle, hMiddle, hAcyclic'⟩ ⟨right, hRight, hAcyclic''⟩ h h'
    rw [hDecides left middle hLeft hMiddle (.inl hAcyclic)] at h
    rw [hDecides middle right hMiddle hRight (.inl hAcyclic')] at h'
    rw [hDecides left right hLeft hRight (.inl hAcyclic)]
    exact fun path => (h path).trans (h' path)
  · intro left right hLeft hRight hAcyclic hAcyclic' hFree hFree'
    obtain ⟨document, hUnfolds⟩ := exists_unfolds hRegion hLeft hFree hAcyclic
    obtain ⟨document', hUnfolds'⟩ := exists_unfolds hRegion hRight hFree' hAcyclic'
    refine ⟨document, document', hUnfolds.toJson, hUnfolds'.toJson, ?_⟩
    rw [equal_iff hHeap hLeft hRight (.inl hAcyclic)]
    exact Equals.iff_same hHeap hUnfolds hUnfolds'

/-- A pair of entries that share a container, the same pair without sharing and in
another order, and a container that holds itself. -/
def paired : Heap where
  cells := #[
    .object (.ofList [("left", .container 1), ("right", .container 1)]),
    .array #[.text "item"],
    .object (.ofList [("right", .container 3), ("left", .container 1)]),
    .array #[.text "item"],
    .array #[.container 4]]

/-- The first container is an acyclic object whose two entries share an array. -/
theorem unfolds_paired : paired.Unfolds (.container 0)
    (.object [("left", .array [.text "item"]), ("right", .array [.text "item"])]) := by
  have hItem : paired.Unfolds (.container 1) (.array [.text "item"]) :=
    @Unfolds.container paired 1 (.array #[.text "item"]) (fun _ => .text "item") rfl
      (by simpa [Cell.values] using Unfolds.text "item")
  refine @Unfolds.container paired 0 _ (fun _ => .array [.text "item"]) rfl fun value hMem => ?_
  obtain rfl : value = .container 1 := by
    revert value
    decide
  exact hItem

/-- The last container holds itself. -/
theorem not_acyclic_paired : ¬ paired.Acyclic (.container 4) :=
  fun h => h 4 ⟨[], rfl⟩ [.index 0] (by decide) (by decide)

/-- An instance with both an acyclic value and a cyclic one in the same heap. -/
theorem extensional_paired : paired.WellFormed ∧ paired.Acyclic (.container 0) ∧
    ¬ paired.Acyclic (.container 4) ∧ paired.Extensional :=
  ⟨by decide, unfolds_paired.acyclic, not_acyclic_paired, extensional_equal (by decide)⟩

end Heap

end Stencil
