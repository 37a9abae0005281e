import Stencil.Extraction
import Stencil.Proofs.Confinement

/-!
What extraction binds. As long as callables are confined, nothing is bound that
cannot be reached from the source or from what callables have captured or added.
Extraction itself writes nothing.
-/

namespace Stencil

variable {Memory : Type} {region large : Set Handle}

namespace Contribution

/-- The contributed values. -/
def values : Contribution → List Value
  | keyed entries => entries.map Prod.snd
  | positional entries => entries.map Prod.snd

/-- The outcome of a callable contributes itself or its entries. -/
theorem within_ofOutcome {heap : Heap} (hRegion : heap.Region region) (placeholder : Placeholder)
    {outcome : Value} (hOutcome : outcome.Within region) :
    ∀ value ∈ (ofOutcome heap placeholder outcome).values, value.Within region := by
  intro value hValue
  unfold ofOutcome at hValue
  split at hValue
  next items hContent =>
    cases outcome with
    | container handle =>
        refine hRegion.closed handle (Value.within_container.mp hOutcome) _ hContent value ?_
        simpa [values, Cell.values, List.map_map, Function.comp_def, List.zipIdx_map_fst] using hValue
    | _ => cases hContent
  next fields hContent =>
    cases outcome with
    | container handle =>
        exact hRegion.closed handle (Value.within_container.mp hOutcome) _ hContent value hValue
    | _ => cases hContent
  next =>
    obtain rfl : value = outcome := List.mem_singleton.mp hValue
    exact hOutcome

end Contribution

namespace Bindings

/-- Bindings that hold nothing from outside a region, and that can be stored:
the sequence is no longer than any position. -/
def Within (region : Set Handle) : Bindings → Prop
  | sequence items named =>
    (items.size < addressLimit ∧ ∀ item ∈ items, item.Within region) ∧
      ∀ entry ∈ named.entries, entry.2.Within region
  | mapping fields => ∀ entry ∈ fields.entries, entry.2.Within region

/-- Bindings begin without any values. -/
theorem within_start (region : Set Handle) (contributions : List Contribution) :
    (start contributions).Within region := by
  rw [start]
  split
  · exact ⟨⟨by decide, by simp⟩, by simp [Fields.empty]⟩
  · simp [Within, Fields.empty]

/-- A position that is written is below the limit, so the sequence stays short
enough. -/
theorem within_place (config : Config) {items : Array Value} (position : Nat) {value : Value}
    (hItems : items.size < addressLimit ∧ ∀ item ∈ items, item.Within region)
    (hValue : value.Within region) :
    (place config items position value).size < addressLimit ∧
      ∀ item ∈ place config items position value, item.Within region := by
  rw [place]
  split
  next hAllowed =>
    have hFits : position + 1 < addressLimit := of_decide_eq_true (Bool.and_eq_true_iff.mp hAllowed).1
    refine ⟨?_, fun item hItem => ?_⟩
    · rw [size_placeAt]
      exact Nat.max_lt.mpr ⟨hItems.1, hFits⟩
    · rcases mem_placeAt hItem with hOld | rfl | rfl
      · exact hItems.2 item hOld
      · exact Value.within_null
      · exact hValue
  next => exact hItems

theorem within_insert {fields : Fields Value}
    (hFields : ∀ entry ∈ fields.entries, entry.2.Within region) (key : String) {value : Value}
    (hValue : value.Within region) :
    ∀ entry ∈ (fields.insert key value).entries, entry.2.Within region := by
  intro entry hEntry
  rcases Fields.mem_entries_insert hEntry with rfl | hOld
  · exact hValue
  · exact hFields entry hOld

/-- A keyed entry goes to a position or to a name, and comes from the same region. -/
theorem within_mergeKeyed (config : Config) {items : Array Value} {named : Fields Value}
    (h : (sequence items named).Within region) (key : String) {value : Value}
    (hValue : value.Within region) :
    (sequence (mergeKeyed config items named key value).1
      (mergeKeyed config items named key value).2).Within region := by
  rw [mergeKeyed]
  split
  next position _ => exact ⟨within_place config position h.1 hValue, h.2⟩
  next => exact ⟨h.1, within_insert h.2 key hValue⟩

theorem within_insertAll {fields : Fields Value}
    (hFields : ∀ entry ∈ fields.entries, entry.2.Within region) {entries : List (String × Value)}
    (hEntries : ∀ entry ∈ entries, entry.2.Within region) :
    ∀ entry ∈ (fields.insertAll entries).entries, entry.2.Within region := by
  induction entries generalizing fields with
  | nil => exact hFields
  | cons entry rest ih =>
      rw [List.forall_mem_cons] at hEntries
      exact ih (within_insert hFields entry.1 hEntries.1) hEntries.2

/-- Merging brings in the contributed values and nothing else. -/
theorem within_merge (config : Config) {bindings : Bindings} (h : bindings.Within region)
    {contribution : Contribution} (hValues : ∀ value ∈ contribution.values, value.Within region) :
    (merge config bindings contribution).Within region := by
  cases bindings with
  | mapping fields =>
      cases contribution with
      | keyed entries =>
          exact within_insertAll h fun entry hEntry =>
            hValues entry.2 (List.mem_map.mpr ⟨entry, hEntry, rfl⟩)
      | positional entries =>
          refine within_insertAll h fun entry hEntry => ?_
          obtain ⟨⟨position, value⟩, hMem, rfl⟩ := List.mem_map.mp hEntry
          exact hValues value (List.mem_map.mpr ⟨_, hMem, rfl⟩)
  | sequence items named =>
      cases contribution with
      | keyed entries =>
          let step := fun (state : Array Value × Fields Value) (entry : String × Value) =>
            mergeKeyed config state.1 state.2 entry.1 entry.2
          have hFold : (sequence (entries.foldl step (items, named)).1
              (entries.foldl step (items, named)).2).Within region :=
            List.foldlRecOn entries step
              (motive := fun state => (sequence state.1 state.2).Within region) h
              fun state hState entry hEntry => within_mergeKeyed config hState entry.1
                (hValues entry.2 (List.mem_map.mpr ⟨entry, hEntry, rfl⟩))
          exact hFold
      | positional entries =>
          let step := fun (items : Array Value) (entry : Nat × Value) =>
            place config items entry.1 entry.2
          have hFold : (entries.foldl step items).size < addressLimit ∧
              ∀ item ∈ entries.foldl step items, item.Within region :=
            List.foldlRecOn entries step
              (motive := fun items => items.size < addressLimit ∧ ∀ item ∈ items, item.Within region)
              h.1 fun items hItems entry hEntry => within_place config entry.1 hItems
                (hValues entry.2 (List.mem_map.mpr ⟨entry, hEntry, rfl⟩))
          exact ⟨hFold, h.2⟩

/-- Merging adds no values to those that are contributed, except null. -/
theorem within_ofContributions (config : Config) {contributions : List Contribution}
    (h : ∀ contribution ∈ contributions, ∀ value ∈ contribution.values, value.Within region) :
    (ofContributions config contributions).Within region :=
  List.foldlRecOn contributions _ (within_start region contributions)
    fun _ hBindings contribution hMem => within_merge config hBindings (h contribution hMem)

/-- What is read from bindings is one of their values, or null. -/
theorem within_get {bindings : Bindings} (h : bindings.Within region) (segment : Segment) :
    (bindings.get segment).Within region := by
  have hNamed : ∀ fields : Fields Value, (∀ entry ∈ fields.entries, entry.2.Within region) →
      ((fields.get? segment.toKey).getD .null).Within region := by
    intro fields hFields
    cases hFound : fields.get? segment.toKey with
    | none => exact Value.within_null
    | some value => exact hFields _ (Fields.get?_eq_some_iff.mp hFound)
  cases bindings with
  | mapping fields => exact hNamed fields h
  | sequence items named =>
      rw [get]
      split
      next position _ =>
        cases hFound : items[position]? with
        | none => exact Value.within_null
        | some value => exact h.1.2 value (Array.mem_of_getElem? hFound)
      next => exact hNamed named h.2

/-- The container that bindings are stored in keeps the heap well-formed. -/
theorem within_content {bindings : Bindings} (h : bindings.Within region) :
    (∀ value ∈ bindings.content.values, value.Within region) ∧ bindings.content.Addressable := by
  cases bindings with
  | sequence items named =>
      exact ⟨fun value hValue => h.1.2 value (Array.mem_toList_iff.mp hValue), h.1.1⟩
  | mapping fields =>
      refine ⟨fun value hValue => ?_, trivial⟩
      obtain ⟨entry, hEntry, rfl⟩ := List.mem_map.mp hValue
      exact h entry hEntry

theorem Within.mono {bindings : Bindings} (h : bindings.Within region) (hSubset : region ⊆ large) :
    bindings.Within large := by
  cases bindings with
  | sequence items named =>
      exact ⟨⟨h.1.1, fun item hItem => (h.1.2 item hItem).mono hSubset⟩,
        fun entry hEntry => (h.2 entry hEntry).mono hSubset⟩
  | mapping fields => exact fun entry hEntry => (h entry hEntry).mono hSubset

end Bindings

namespace Extraction

variable {behaviour other : Behaviour Memory} {roots : Memory → Set Handle} {source : Value}

theorem contributions_cons (behaviour : Behaviour Memory) (source : Value)
    (placeholder : Placeholder) (rest : List Placeholder) (world : World Memory) :
    contributions behaviour source (placeholder :: rest) world =
      ((contribute behaviour source placeholder world).1 ::
          (contributions behaviour source rest
            (contribute behaviour source placeholder world).2).1,
        (contributions behaviour source rest
          (contribute behaviour source placeholder world).2).2) :=
  rfl

/-- Only a callable does anything to the world when its turn comes. -/
theorem contribute_world {placeholder : Placeholder} (h : ∀ id, placeholder.request ≠ .function id)
    (world : World Memory) : (contribute behaviour source placeholder world).2 = world := by
  unfold contribute
  cases hRequest : placeholder.request with
  | function id => exact absurd hRequest (h id)
  | _ => rfl

/-- The turn of one placeholder is confined, and contributes what is in view when it
ends. -/
theorem confined_contribute (hBehaviour : behaviour.Confined roots) (placeholder : Placeholder)
    {world : World Memory} (hView : world.View roots region) (hSource : source.Within region) :
    World.Confined roots region world (contribute behaviour source placeholder world).2 ∧
      ∀ value ∈ (contribute behaviour source placeholder world).1.values,
        value.Within (Heap.grown region world.heap
          (contribute behaviour source placeholder world).2.heap) := by
  have hFound := hView.closed.getPath_within hSource placeholder.path
  unfold contribute
  cases placeholder.request with
  | name name =>
      refine ⟨.refl hView, fun value hValue => ?_⟩
      rw [Heap.grown_self, List.mem_singleton.mp hValue]
      exact hFound
  | position number =>
      refine ⟨.refl hView, fun value hValue => ?_⟩
      obtain ⟨entry, hEntry, rfl⟩ := List.mem_map.mp hValue
      obtain ⟨position, -, rfl⟩ := List.mem_map.mp hEntry
      rw [Heap.grown_self]
      exact hFound
  | function id =>
      obtain ⟨hConfined, hOutcome⟩ := hBehaviour id
        (.extraction (world.heap.getPath source placeholder.path) placeholder.path source)
        world region hView hFound hSource
      exact ⟨hConfined, Contribution.within_ofOutcome hConfined.heap.closed placeholder hOutcome⟩
  | inert => exact ⟨.refl hView, by simp [Contribution.values]⟩

/-- All turns together are confined. What the first has contributed is still in view
when the last one ends. -/
theorem confined_contributions (hBehaviour : behaviour.Confined roots)
    (placeholders : List Placeholder) {world : World Memory} (hView : world.View roots region)
    (hSource : source.Within region) :
    World.Confined roots region world (contributions behaviour source placeholders world).2 ∧
      ∀ contribution ∈ (contributions behaviour source placeholders world).1,
        ∀ value ∈ contribution.values,
          value.Within (Heap.grown region world.heap
            (contributions behaviour source placeholders world).2.heap) := by
  induction placeholders generalizing world region with
  | nil => exact ⟨.refl hView, by simp [contributions]⟩
  | cons placeholder rest ih =>
      obtain ⟨hFirst, hFirstValues⟩ := confined_contribute hBehaviour placeholder hView hSource
      obtain ⟨hRest, hRestValues⟩ := ih hFirst.view (hSource.mono (Heap.subset_grown _ _ _))
      rw [Heap.grown_grown hFirst.heap.size_le hRest.heap.size_le] at hRestValues
      refine ⟨hFirst.trans hRest, fun contribution hMem => ?_⟩
      rcases List.mem_cons.mp hMem with rfl | hMem
      · intro value hValue
        refine (hFirstValues value hValue).mono ?_
        rw [contributions_cons, ← Heap.grown_grown hFirst.heap.size_le hRest.heap.size_le]
        exact Heap.subset_grown _ _ _
      · exact hRestValues contribution hMem

/-- Bindings hold what is in view when all placeholders have had their turn. -/
theorem confined_bindings (hBehaviour : behaviour.Confined roots) (config : Config)
    (template : Value) {world : World Memory} (hView : world.View roots region)
    (hSource : source.Within region) :
    World.Confined roots region world (bindings behaviour config template source world).2 ∧
      (bindings behaviour config template source world).1.Within
        (Heap.grown region world.heap (bindings behaviour config template source world).2.heap) := by
  obtain ⟨hConfined, hValues⟩ :=
    confined_contributions hBehaviour (world.heap.discover template) hView hSource
  exact ⟨hConfined, Bindings.within_ofContributions config hValues⟩

end Extraction

end Stencil
