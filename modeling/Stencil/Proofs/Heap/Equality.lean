import Mathlib.Data.List.Perm.Subperm
import Stencil.Heap.Equality
import Stencil.Proofs.Heap.Unfolding

/-!
Equality as a relation. Two values are equal when a finite derivation says so:
they are the same, they are numbers of one value, or they are containers of one
kind that hold equal values under the same segments. A derivation is always
found by the comparison of two values. Where there are no cycles, the comparison
finds nothing else, and equal templates have equal placeholders at the same
paths.
-/

namespace Stencil

namespace Number

variable {a b : Number}

theorem sameValue_self (n : Number) : n.sameValue n = true := by
  cases n <;> simp [sameValue, Binary64.sameValue]

theorem sameValue_comm (a b : Number) : a.sameValue b = b.sameValue a := by
  cases a <;> cases b <;> simp [sameValue, Binary64.sameValue, eq_comm, Bool.and_comm]

/-- Different numbers of one value are the two zeros, and both stand for the first
position. -/
theorem eq_or_zero_of_sameValue (h : a.sameValue b = true) :
    a = b ∨ a.position? = some 0 ∧ b.position? = some 0 := by
  have hZero : ∀ x : Binary64, x.significand = 0 → (float x).position? = some 0 := by
    intro x hSignificand
    have hUnits : x.units = 0 := by rw [Binary64.units, hSignificand, Nat.zero_mul]
    simp [position?, Binary64.isIntegral, Binary64.isNonnegative, Binary64.wholePart, hUnits,
      hSignificand]
  cases a with
  | integer =>
      cases b with
      | integer => exact .inl (by simpa [sameValue] using h)
      | float => cases h
  | float x =>
      cases b with
      | integer => cases h
      | float y =>
          rcases (by simpa [sameValue, Binary64.sameValue] using h :
            x = y ∨ x.significand = 0 ∧ y.significand = 0) with rfl | ⟨hLeft, hRight⟩
          · exact .inl rfl
          · exact .inr ⟨hZero x hLeft, hZero y hRight⟩

/-- The two zeros stand for the same position, so numbers of one value do. -/
theorem position?_eq_of_sameValue (h : a.sameValue b = true) : a.position? = b.position? := by
  rcases eq_or_zero_of_sameValue h with rfl | ⟨hLeft, hRight⟩
  · rfl
  · rw [hLeft, hRight]

/-- Numbers of one value stand for the same segment. -/
theorem ofNumber_eq_of_sameValue (h : a.sameValue b = true) :
    Segment.ofNumber a = Segment.ofNumber b := by
  rcases eq_or_zero_of_sameValue h with rfl | ⟨hLeft, hRight⟩
  · rfl
  · simp only [Segment.ofNumber, hLeft, hRight]

end Number

namespace Fields

variable {α : Type}

theorem isSome_get?_iff (f : Fields α) (key : String) : (f.get? key).isSome = true ↔ key ∈ f.keys := by
  rw [Option.isSome_iff_exists, keys, List.mem_map]
  constructor
  · rintro ⟨value, hValue⟩
    exact ⟨_, get?_eq_some_iff.mp hValue, rfl⟩
  · rintro ⟨⟨_, value⟩, hEntry, rfl⟩
    exact ⟨value, get?_eq_some_iff.mpr hEntry⟩

/-- Among distinct keys, as many keys that all occur are all of the keys. -/
theorem keys_iff_of_size_eq {f g : Fields α} (hSize : f.size = g.size)
    (hKeys : ∀ key ∈ f.keys, key ∈ g.keys) (key : String) : key ∈ f.keys ↔ key ∈ g.keys := by
  have hLength : g.keys.length ≤ f.keys.length := by
    simpa [keys, size] using Nat.le_of_eq hSize.symm
  exact ((f.nodup.subperm hKeys).perm_of_length_le hLength).mem_iff

end Fields

namespace Cell

variable {cell other : Cell}

/-- Containers of one kind with entries under the same segments. -/
structure SameShape (cell other : Cell) : Prop where
  kind_eq : cell.kind = other.kind
  isSome_eq : ∀ segment, (cell.get? segment).isSome = (other.get? segment).isSome

theorem SameShape.refl (cell : Cell) : cell.SameShape cell := ⟨rfl, fun _ => rfl⟩

theorem SameShape.symm (h : cell.SameShape other) : other.SameShape cell :=
  ⟨h.kind_eq.symm, fun segment => (h.isSome_eq segment).symm⟩

theorem SameShape.trans {last : Cell} (h : cell.SameShape other) (h' : other.SameShape last) :
    cell.SameShape last :=
  ⟨h.kind_eq.trans h'.kind_eq, fun segment => (h.isSome_eq segment).trans (h'.isSome_eq segment)⟩

theorem isSome_get?_array_iff (items : Array Value) (segment : Segment) :
    ((array items).get? segment).isSome = true ↔
      ∃ position, segment.position? = some position ∧ position < items.size := by
  simp [get?, Option.isSome_bind, Option.any_eq_true]

/-- Arrays have the same shape when they have the same length. An addressable length
is the first position without an entry. -/
theorem sameShape_array_iff {items others : Array Value} (hItems : (array items).Addressable)
    (hOthers : (array others).Addressable) :
    (array items).SameShape (array others) ↔ items.size = others.size := by
  constructor
  · intro h
    have hPositions : ∀ position, position < addressLimit →
        (position < items.size ↔ position < others.size) := by
      intro position hLimit
      have hPosition : (Segment.index position).position? = some position := if_pos hLimit
      have hSome := h.isSome_eq (.index position)
      rw [Bool.eq_iff_iff, isSome_get?_array_iff, isSome_get?_array_iff, hPosition] at hSome
      simpa using hSome
    have hLeft := hPositions items.size hItems
    have hRight := hPositions others.size hOthers
    omega
  · intro hSize
    refine ⟨rfl, fun segment => ?_⟩
    rw [Bool.eq_iff_iff, isSome_get?_array_iff, isSome_get?_array_iff, hSize]

/-- Objects have the same shape when they have the same keys, in any order. The
number of keys makes one inclusion enough. -/
theorem sameShape_object_iff {fields others : Fields Value} :
    (object fields).SameShape (object others) ↔
      fields.size = others.size ∧ ∀ key ∈ fields.keys, key ∈ others.keys := by
  have hIff : (object fields).SameShape (object others) ↔
      ∀ key, key ∈ fields.keys ↔ key ∈ others.keys := by
    constructor
    · intro h key
      have hSome := h.isSome_eq (.key key)
      rwa [Bool.eq_iff_iff, get?, get?, Fields.isSome_get?_iff, Fields.isSome_get?_iff] at hSome
    · intro h
      refine ⟨rfl, fun segment => ?_⟩
      rw [Bool.eq_iff_iff, get?, get?, Fields.isSome_get?_iff, Fields.isSome_get?_iff]
      exact h segment.toKey
  rw [hIff]
  constructor
  · intro h
    refine ⟨?_, fun key => (h key).mp⟩
    simpa [Fields.keys, Fields.size] using
      ((List.perm_ext_iff_of_nodup fields.nodup others.nodup).mpr h).length_eq
  · rintro ⟨hSize, hKeys⟩
    exact Fields.keys_iff_of_size_eq hSize hKeys

/-- Mapped values are found where the values were. -/
theorem get?_mapValues (f : Value → Value) (cell : Cell) (segment : Segment) :
    (cell.mapValues f).get? segment = (cell.get? segment).map f := by
  rw [mapValues_eq_mapEntries, get?_mapEntries]

/-- Changing values changes no shape. -/
theorem sameShape_mapValues (f : Value → Value) (cell : Cell) :
    (cell.mapValues f).SameShape cell where
  kind_eq := by rw [mapValues_eq_mapEntries, kind_mapEntries]
  isSome_eq segment := by rw [get?_mapValues, Option.isSome_map]

theorem SameShape.mapValues (h : cell.SameShape other) (f g : Value → Value) :
    (cell.mapValues f).SameShape (other.mapValues g) :=
  (sameShape_mapValues f cell).trans (h.trans (sameShape_mapValues g other).symm)

/-- Where an entry is listed is a question of the kind. -/
theorem canonical_congr (h : cell.kind = other.kind) : cell.canonical = other.canonical := by
  cases cell with
  | array items =>
      cases other with
      | array => rfl
      | object => cases h
  | object fields =>
      cases other with
      | array => cases h
      | object => rfl

/-- Whether cells of one kind have entries under the same segments, and the test
holds of every two of them. -/
def agree (test : Value → Value → Bool) : Cell → Cell → Bool
  | array items, array others =>
    items.size = others.size && (items.toList.zip others.toList).all fun pair =>
      test pair.1 pair.2
  | object fields, object others =>
    fields.size = others.size && fields.entries.all fun entry =>
      match others.get? entry.1 with
      | some other => test entry.2 other
      | none => false
  | _, _ => false

/-- Items at one position are read with one segment. -/
theorem exists_get?_of_mem_zip {items others : Array Value} {pair : Value × Value}
    (hAddressable : (array items).Addressable) (hPair : pair ∈ items.toList.zip others.toList) :
    ∃ segment, (array items).get? segment = some pair.1 ∧
      (array others).get? segment = some pair.2 := by
  obtain ⟨position, hPosition⟩ := List.mem_iff_getElem?.mp hPair
  obtain ⟨hItem, hOther⟩ := List.getElem?_zip_eq_some.mp hPosition
  rw [Array.getElem?_toList] at hItem hOther
  have hLt : position < items.size := (Array.getElem?_eq_some_iff.mp hItem).1
  have hSegment : (Segment.index position).position? = some position :=
    if_pos (Nat.lt_trans hLt hAddressable)
  exact ⟨.index position, by rw [get?, hSegment, Option.bind_some, hItem],
    by rw [get?, hSegment, Option.bind_some, hOther]⟩

/-- The check of two cells compares their shapes, and then the entries that stand
under the same segments. -/
theorem agree_iff {test : Value → Value → Bool} (hAddressable : cell.Addressable)
    (hAddressable' : other.Addressable) :
    cell.agree test other = true ↔ cell.SameShape other ∧ ∀ segment value value',
      cell.get? segment = some value → other.get? segment = some value' →
        test value value' = true := by
  rw [agree.eq_def]
  split
  next items others =>
    rw [sameShape_array_iff hAddressable hAddressable', Bool.and_eq_true, decide_eq_true_eq,
      List.all_eq_true]
    refine and_congr_right fun hSize => ⟨fun hAll segment value value' hValue hValue' => ?_,
      fun hValues pair hPair => ?_⟩
    · obtain ⟨position, hPosition, hItem⟩ := Option.bind_eq_some_iff.mp hValue
      obtain ⟨_, hPosition', hOther⟩ := Option.bind_eq_some_iff.mp hValue'
      obtain rfl := Option.some.inj (hPosition.symm.trans hPosition')
      refine hAll (value, value') (List.mem_iff_getElem?.mpr ⟨position, ?_⟩)
      exact List.getElem?_zip_eq_some.mpr ⟨by simpa using hItem, by simpa using hOther⟩
    · obtain ⟨segment, hItem, hOther⟩ := exists_get?_of_mem_zip hAddressable hPair
      exact hValues segment pair.1 pair.2 hItem hOther
  next fields others =>
    rw [sameShape_object_iff, Bool.and_eq_true, decide_eq_true_eq, List.all_eq_true, and_assoc]
    refine and_congr_right fun hSize => ⟨fun hAll => ⟨fun key hKey => ?_,
      fun segment value value' hValue hValue' => ?_⟩, fun hBoth entry hEntry => ?_⟩
    · obtain ⟨entry, hEntry, rfl⟩ := List.mem_map.mp hKey
      have hFound := hAll entry hEntry
      rw [← Fields.isSome_get?_iff, Option.isSome_iff_exists]
      cases hOther : others.get? entry.1 with
      | none => simp only [hOther, Bool.false_eq_true] at hFound
      | some other => exact ⟨other, rfl⟩
    · have hOther : others.get? segment.toKey = some value' := hValue'
      have hFound := hAll (segment.toKey, value) (Fields.get?_eq_some_iff.mp hValue)
      simpa only [hOther] using hFound
    · obtain ⟨hKeys, hValues⟩ := hBoth
      have hSome := (others.isSome_get?_iff entry.1).mpr
        (hKeys entry.1 (List.mem_map_of_mem hEntry))
      obtain ⟨other, hOther⟩ := Option.isSome_iff_exists.mp hSome
      simp only [hOther]
      exact hValues (.key entry.1) entry.2 other (Fields.get?_eq_some_iff.mpr hEntry) hOther
  next hArrays hObjects =>
    rw [iff_false_left Bool.false_ne_true]
    rintro ⟨hShape, -⟩
    have hKind := hShape.kind_eq
    cases cell <;> cases other
    · exact hArrays _ _ rfl rfl
    · cases hKind
    · cases hKind
    · exact hObjects _ _ rfl rfl

end Cell

namespace Heap

variable {heap other : Heap} {left right : Value} {handle handle' : Handle} {cell cell' : Cell}
  {comparing : List (Handle × Handle)} {region : Set Handle}

/-- Values that a finite derivation shows to be equal. -/
inductive Equals (heap : Heap) : Value → Value → Prop where
  | same (value : Value) : Equals heap value value
  | number {a b : Number} (hSame : a.sameValue b = true) : Equals heap (.number a) (.number b)
  | container {handle handle' : Handle} {cell cell' : Cell}
      (hCell : heap.cell? handle = some cell) (hCell' : heap.cell? handle' = some cell')
      (hShape : cell.SameShape cell')
      (hValues : ∀ segment value value', cell.get? segment = some value →
        cell'.get? segment = some value' → Equals heap value value') :
      Equals heap (.container handle) (.container handle')

/-- The comparison finds a value equal to itself, whether or not it has cycles. -/
theorem equalBelow_self (heap : Heap) (comparing : List (Handle × Handle)) (value : Value) :
    heap.equalBelow comparing value value = true := by
  cases value <;> simp [equalBelow, Number.sameValue_self]

/-- Unless two containers are compared, the comparison is over at once. -/
theorem equals_iff_equalBelow (comparing : List (Handle × Handle))
    (hScalar : (left.isContainer && right.isContainer) = false) :
    heap.Equals left right ↔ heap.equalBelow comparing left right = true := by
  constructor
  · intro h
    cases h with
    | same => exact equalBelow_self heap comparing left
    | number hSame => rw [equalBelow, hSame]
    | container => cases hScalar
  · intro h
    unfold equalBelow at h
    split at h
    next => exact .number h
    next => cases hScalar
    next => exact of_decide_eq_true h ▸ .same _

/-- The comparison of containers that are not being compared yet compares their
entries, even if they are the same. -/
theorem equalBelow_of_enter (hNew : (handle, handle') ∉ comparing)
    (hCell : heap.cell? handle = some cell) (hCell' : heap.cell? handle' = some cell')
    (hAddressable : cell.Addressable) :
    heap.equalBelow comparing (.container handle) (.container handle') =
      cell.agree (heap.equalBelow ((handle, handle') :: comparing)) cell' := by
  by_cases hSame : handle = handle'
  · subst hSame
    obtain rfl := Option.some.inj (hCell.symm.trans hCell')
    rw [equalBelow_self, eq_comm, Cell.agree_iff hAddressable hAddressable]
    refine ⟨.refl cell, fun segment value value' hValue hValue' => ?_⟩
    obtain rfl := Option.some.inj (hValue.symm.trans hValue')
    exact equalBelow_self _ _ value
  rw [equalBelow, if_neg hSame, dif_neg hNew]
  split
  next hItems hOthers =>
    cases hCell.symm.trans hItems
    cases hCell'.symm.trans hOthers
    rfl
  next hFields hOthers =>
    cases hCell.symm.trans hFields
    cases hCell'.symm.trans hOthers
    rfl
  next hArrays hObjects =>
    cases cell <;> cases cell'
    · exact absurd hCell' (hArrays _ _ hCell)
    · rfl
    · rfl
    · exact absurd hCell' (hObjects _ _ hCell)

namespace Equals

theorem symm (h : heap.Equals left right) : heap.Equals right left := by
  induction h with
  | same value => exact .same value
  | number hSame => exact .number (by rw [Number.sameValue_comm, hSame])
  | container hCell hCell' hShape _ ih =>
      exact .container hCell' hCell hShape.symm fun segment value value' hValue hValue' =>
        ih segment value' value hValue' hValue

/-- What equals a container is a container of the same shape that holds equal
values. -/
theorem exists_cell (h : heap.Equals (.container handle) right)
    (hCell : heap.cell? handle = some cell) :
    ∃ handle' cell', right = .container handle' ∧ heap.cell? handle' = some cell' ∧
      cell.SameShape cell' ∧ ∀ segment value value', cell.get? segment = some value →
        cell'.get? segment = some value' → heap.Equals value value' := by
  cases h with
  | same =>
      refine ⟨handle, cell, rfl, hCell, .refl cell, fun segment value value' hValue hValue' => ?_⟩
      obtain rfl := Option.some.inj (hValue.symm.trans hValue')
      exact .same value
  | @container _ handle' found cell' hFound hCell' hShape hValues =>
      obtain rfl := Option.some.inj (hFound.symm.trans hCell)
      exact ⟨handle', cell', rfl, hCell', hShape, hValues⟩

/-- The comparison finds values equal that a derivation shows to be so, whatever is
being compared already. -/
theorem equalBelow (h : heap.Equals left right) (hHeap : heap.WellFormed)
    (comparing : List (Handle × Handle)) : heap.equalBelow comparing left right = true := by
  induction h generalizing comparing with
  | same value => exact equalBelow_self heap comparing value
  | number hSame => rw [Heap.equalBelow, hSame]
  | @container handle handle' cell cell' hCell hCell' hShape _ ih =>
      by_cases hOpen : (handle, handle') ∈ comparing
      · rw [Heap.equalBelow, dif_pos hOpen, ite_self]
      have hAddressable := hHeap.addressable cell (Array.mem_of_getElem? hCell)
      rw [equalBelow_of_enter hOpen hCell hCell' hAddressable, Cell.agree_iff hAddressable
        (hHeap.addressable cell' (Array.mem_of_getElem? hCell'))]
      exact ⟨hShape, fun segment value value' hValue hValue' =>
        ih segment value value' hValue hValue' _⟩

/-- In particular, nothing is being compared to begin with. -/
theorem equal (h : heap.Equals left right) (hHeap : heap.WellFormed) :
    heap.equal left right = true :=
  h.equalBelow hHeap []

end Equals

/-- A comparison goes down in both values at once. If one of them has no cycles,
it never meets a pair again below itself, and this is the induction along it. One path
leads from each pair that is being compared to the two values. -/
theorem comparing_induction {motive : List (Handle × Handle) → Value → Value → Prop}
    (hRegion : heap.Region region)
    (scalar : ∀ comparing left right, (left.isContainer && right.isContainer) = false →
      motive comparing left right)
    (enter : ∀ comparing handle handle' cell cell', (handle, handle') ∉ comparing →
      heap.cell? handle = some cell → heap.cell? handle' = some cell' →
      cell.Addressable → cell'.Addressable →
      (∀ segment value value', cell.get? segment = some value → cell'.get? segment = some value' →
        motive ((handle, handle') :: comparing) value value') →
      motive comparing (.container handle) (.container handle'))
    (hLeft : left.Within region) (hRight : right.Within region)
    (hAcyclic : heap.Acyclic left ∨ heap.Acyclic right) : motive [] left right := by
  have hBelow : ∀ (comparing : List (Handle × Handle)) (left right : Value), left.Within region →
      right.Within region → heap.Acyclic left ∨ heap.Acyclic right →
      (∀ pair ∈ comparing, ∃ path, path ≠ [] ∧ heap.getPath (.container pair.1) path = left ∧
        heap.getPath (.container pair.2) path = right) → motive comparing left right := by
    intro comparing left right hLeft hRight hAcyclic hAbove
    induction hCount : Stencil.unvisited heap.pairs comparing using Nat.strong_induction_on
      generalizing comparing left right with
    | h count ih =>
        subst hCount
        cases hBoth : left.isContainer && right.isContainer with
        | false => exact scalar comparing left right hBoth
        | true =>
            rw [Bool.and_eq_true, Value.isContainer_iff, Value.isContainer_iff] at hBoth
            obtain ⟨⟨handle, rfl⟩, ⟨handle', rfl⟩⟩ := hBoth
            have hNew : (handle, handle') ∉ comparing := by
              intro hOpen
              obtain ⟨path, hPath, hBack, hBack'⟩ := hAbove _ hOpen
              exact hAcyclic.elim (fun h => h handle ⟨[], rfl⟩ path hPath hBack)
                fun h => h handle' ⟨[], rfl⟩ path hPath hBack'
            have hHandle := Value.within_container.mp hLeft
            have hHandle' := Value.within_container.mp hRight
            obtain ⟨cell, hCell⟩ := hRegion.exists_cell? hHandle
            obtain ⟨cell', hCell'⟩ := hRegion.exists_cell? hHandle'
            refine enter comparing handle handle' cell cell' hNew hCell hCell'
              (hRegion.addressable _ hHandle _ hCell) (hRegion.addressable _ hHandle' _ hCell') ?_
            intro segment value value' hValue hValue'
            have hGet : heap.get (.container handle) segment = value := by
              rw [get_of_cell? hCell, hValue, Option.getD_some]
            have hGet' : heap.get (.container handle') segment = value' := by
              rw [get_of_cell? hCell', hValue', Option.getD_some]
            refine ih _ (Stencil.unvisited_cons_lt (mem_pairs hCell hCell') hNew)
              ((handle, handle') :: comparing) value value'
              (hGet ▸ hRegion.get_within hLeft segment)
              (hGet' ▸ hRegion.get_within hRight segment)
              (hAcyclic.imp (fun h => hGet ▸ h.get segment) fun h => hGet' ▸ h.get segment) ?_ rfl
            rw [List.forall_mem_cons]
            refine ⟨⟨[segment], List.cons_ne_nil _ _, hGet, hGet'⟩, fun pair hOpen => ?_⟩
            obtain ⟨path, -, hPath, hPath'⟩ := hAbove pair hOpen
            exact ⟨path ++ [segment], by simp, by rw [getPath_concat, hPath, hGet],
              by rw [getPath_concat, hPath', hGet']⟩
  exact hBelow [] left right hLeft hRight hAcyclic fun _ hMem => absurd hMem List.not_mem_nil

/-- Values of which one has no cycles are equal just if the comparison finds them
to be. -/
theorem equal_iff (hHeap : heap.WellFormed) (hLeft : left.Within heap.handles)
    (hRight : right.Within heap.handles) (hAcyclic : heap.Acyclic left ∨ heap.Acyclic right) :
    heap.equal left right = true ↔ heap.Equals left right := by
  refine ⟨?_, fun h => h.equal hHeap⟩
  refine comparing_induction
    (motive := fun comparing left right =>
      heap.equalBelow comparing left right = true → heap.Equals left right)
    hHeap.region_handles ?_ ?_ hLeft hRight hAcyclic
  · exact fun comparing left right hScalar h => (equals_iff_equalBelow comparing hScalar).mpr h
  · intro comparing handle handle' cell cell' hNew hCell hCell' hAddressable hAddressable' ih h
    rw [equalBelow_of_enter hNew hCell hCell' hAddressable,
      Cell.agree_iff hAddressable hAddressable'] at h
    exact .container hCell hCell' h.1 fun segment value value' hValue hValue' =>
      ih segment value value' hValue hValue' (h.2 segment value value' hValue hValue')

/-- In a value without cycles no route passes a container twice. -/
theorem Route.nodup_of_acyclic {value target : Value} {passed : List Handle} {path : Path}
    (route : Route heap value passed path target) (hRegion : heap.Region region)
    (hValue : value.Within region) (hAcyclic : heap.Acyclic value) : passed.Nodup := by
  induction route with
  | nil => exact List.nodup_nil
  | @cons handle cell segment child target passed path hCell hEntry rest ih =>
      have hGet : heap.get (.container handle) segment = child :=
        hRegion.get_of_mem_entries (Value.within_container.mp hValue) hCell hEntry
      have hWithin : child.Within region := hGet ▸ hRegion.get_within hValue segment
      refine List.nodup_cons.mpr ⟨fun hMem => ?_, ih hWithin (hGet ▸ hAcyclic.get segment)⟩
      obtain ⟨before, after, rfl⟩ := List.append_of_mem hMem
      obtain ⟨back, route'⟩ := rest.exists_until
      refine hAcyclic handle ⟨[], rfl⟩ (segment :: back) (List.cons_ne_nil _ _) ?_
      change heap.getPath (heap.get (.container handle) segment) back = _
      rw [hGet, route'.getPath_eq hRegion hWithin]

/-- The placeholders of a template without cycles are at the ends of all routes. -/
theorem Acyclic.mem_discover_iff {template : Value} (h : heap.Acyclic template)
    (hRegion : heap.Region region) (hTemplate : template.Within region)
    {placeholder : Placeholder} :
    placeholder ∈ heap.discover template ↔ placeholder.value.isContainer = false ∧
      ∃ passed, Route heap template passed placeholder.path placeholder.value := by
  rw [discover, discoverWith_eq, mem_placeholdersBelow_iff]
  refine and_congr_right fun _ => exists_congr fun passed => ⟨And.left, fun route => ?_⟩
  exact ⟨route, route.nodup_of_acyclic hRegion hTemplate h, fun _ _ => List.not_mem_nil⟩

namespace Equals

/-- A container equals nothing but containers. -/
theorem isContainer_eq (h : heap.Equals left right) : left.isContainer = right.isContainer := by
  cases h <;> rfl

/-- Every route through a value can be taken through an equal value, and ends at
equal values. -/
theorem exists_route {passed : List Handle} {path : Path} {target : Value}
    (h : heap.Equals left right) (hRegion : heap.Region region) (hLeft : left.Within region)
    (route : Route heap left passed path target) :
    ∃ passed' target', Route heap right passed' path target' ∧ heap.Equals target target' := by
  induction route generalizing right with
  | nil => exact ⟨[], right, .nil right, h⟩
  | @cons handle cell segment child target passed path hCell hEntry _ ih =>
      have hHandle := Value.within_container.mp hLeft
      obtain ⟨handle', cell', rfl, hCell', hShape, hValues⟩ := h.exists_cell hCell
      obtain ⟨hGet, hCanonical⟩ :=
        Cell.get?_of_mem_entries (hRegion.addressable handle hHandle cell hCell) hEntry
      obtain ⟨child', hChild'⟩ : ∃ child', cell'.get? segment = some child' := by
        rw [← Option.isSome_iff_exists, ← hShape.isSome_eq, hGet, Option.isSome_some]
      have hEntry' := Cell.mem_entries_of_get? hChild'
      rw [← Cell.canonical_congr hShape.kind_eq, hCanonical] at hEntry'
      obtain ⟨passed', target', route', hTarget⟩ :=
        ih (hValues segment child child' hGet hChild')
          (hRegion.closed handle hHandle cell hCell child (Cell.mem_values_of_get? hGet))
      exact ⟨handle' :: passed', target', .cons hCell' hEntry' route', hTarget⟩

/-- Equal templates have equal placeholders at the same paths. -/
theorem exists_mem_discover {placeholder : Placeholder} (h : heap.Equals left right)
    (hRegion : heap.Region region) (hLeft : left.Within region) (hRight : right.Within region)
    (hAcyclic : heap.Acyclic left) (hAcyclic' : heap.Acyclic right)
    (hMem : placeholder ∈ heap.discover left) :
    ∃ value', heap.Equals placeholder.value value' ∧
      ⟨placeholder.path, value'⟩ ∈ heap.discover right := by
  obtain ⟨hScalar, passed, route⟩ := (hAcyclic.mem_discover_iff hRegion hLeft).mp hMem
  obtain ⟨passed', value', route', hValue⟩ := h.exists_route hRegion hLeft route
  exact ⟨value', hValue, (hAcyclic'.mem_discover_iff hRegion hRight).mpr
    ⟨hValue.isContainer_eq ▸ hScalar, passed', route'⟩⟩

end Equals

end Heap

end Stencil
