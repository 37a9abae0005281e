import Stencil.Proofs.Heap.Replacement
import Stencil.Proofs.Pipe.CallableFree
import Stencil.Proofs.Pipe.Uniformity

/-!
A text names what is found in its place, and so does a callable that puts its first
argument under the text. The first binds the value directly. The second returns a new
object, whose one entry is spread. Templates in which some texts have been replaced by
such callables extract the same, and pipes make the same with them, as long as nobody
can reach the containers that have been changed for it. The objects that the calls
leave behind are seen by nobody.
-/

namespace Stencil

variable {Memory : Type} {behaviour : Behaviour Memory} {captures : Captures Memory}
  {window window' : Heap.Window} {world other : World Memory} {value value' : Value}
  {source source' : Value} {placeholder placeholder' : Placeholder}

namespace Extraction

/-- A callable that names its first argument contributes what is found in its place as
one binding. The object that it returns is spread, and never the value in it. -/
theorem contribute_named {name : String} {id : CallableId}
    (hNamed : behaviour id = Procedure.identity.named name) (source : Value) (path : Path)
    (world : World Memory) :
    contribute behaviour source ⟨path, .callable id⟩ world =
      (.keyed [(name, world.heap.getPath source path)],
        { world with
          heap := (world.heap.allocObject [(name, world.heap.getPath source path)]).2 }) := by
  have hCall : behaviour id (.extraction (world.heap.getPath source path) path source) world =
      world.withHeap fun heap => heap.allocObject [(name, world.heap.getPath source path)] := by
    rw [hNamed]
    rfl
  have hContent : (world.heap.allocObject [(name, world.heap.getPath source path)]).2.content?
      (world.heap.allocObject [(name, world.heap.getPath source path)]).1 =
        some (.object (.ofList [(name, world.heap.getPath source path)])) :=
    Heap.cell?_alloc_self _ _
  simp only [contribute, Placeholder.request, hCall, World.withHeap]
  rw [Contribution.ofOutcome, hContent]
  rfl

/-- A replaced placeholder contributes the same as the text that it has replaced,
whatever is found in its place. The object that the call returns is in the second heap
alone, out of view. -/
theorem exists_contribute_paired (h : World.Shown captures window world other)
    (hSource : window.Pairs source source') (hRenamed : placeholder.Renamed behaviour placeholder')
    (hUniform : ∀ id, placeholder.request = .function id → (behaviour id).Uniform captures) :
    ∃ window', World.Leads captures window world other window'
        (contribute behaviour source placeholder world).2
        (contribute behaviour source' placeholder' other).2 ∧
      Contribution.Paired window' (contribute behaviour source placeholder world).1
        (contribute behaviour source' placeholder' other).1 := by
  obtain ⟨_, value⟩ := placeholder
  obtain ⟨path, value'⟩ := placeholder'
  obtain ⟨rfl, hNames⟩ := hRenamed
  have hFound := h.heap.getPath hSource path
  cases hNames with
  | named hNamed =>
      rw [contribute_named hNamed]
      exact ⟨window, h.leads_alloc _, .keyed (.cons ⟨rfl, hFound⟩ .nil)⟩
  | same =>
      simp only [contribute]
      cases hRequest : (⟨path, value⟩ : Placeholder).request with
      | name name => exact ⟨window, .refl h, .keyed (.cons ⟨rfl, hFound⟩ .nil)⟩
      | inert => exact ⟨window, .refl h, .keyed .nil⟩
      | position number =>
          refine ⟨window, .refl h, .positional ?_⟩
          rw [List.forall₂_map_left_iff, List.forall₂_map_right_iff, List.forall₂_same]
          exact fun _ _ => ⟨rfl, hFound⟩
      | function id =>
          obtain ⟨window', hLeads, hOutcome⟩ :=
            hUniform id hRequest window world other _ _ h (.extraction hFound hSource)
          exact ⟨window', hLeads,
            Contribution.paired_ofOutcome hLeads.heaps.shows hOutcome rfl⟩

theorem exists_contributions_paired {placeholders placeholders' : List Placeholder}
    (hPlaceholders : List.Forall₂ (Placeholder.Renamed behaviour) placeholders placeholders')
    (h : World.Shown captures window world other) (hSource : window.Pairs source source')
    (hUniform : ∀ placeholder ∈ placeholders, ∀ id, placeholder.request = .function id →
      (behaviour id).Uniform captures) :
    ∃ window', World.Leads captures window world other window'
        (contributions behaviour source placeholders world).2
        (contributions behaviour source' placeholders' other).2 ∧
      List.Forall₂ (Contribution.Paired window')
        (contributions behaviour source placeholders world).1
        (contributions behaviour source' placeholders' other).1 := by
  induction hPlaceholders generalizing window world other with
  | nil => exact ⟨window, .refl h, .nil⟩
  | cons hFirst _ ih =>
      rw [List.forall_mem_cons] at hUniform
      obtain ⟨middle, hLeads, hContribution⟩ :=
        exists_contribute_paired h hSource hFirst hUniform.1
      obtain ⟨window', hRest, hOthers⟩ := ih hLeads.shown (hSource.mono hLeads.heaps) hUniform.2
      rw [contributions_cons, contributions_cons]
      exact ⟨window', hLeads.trans hRest, .cons (hContribution.mono hRest.heaps) hOthers⟩

end Extraction

namespace Procedure

/-- To answer with the first argument is uniform. -/
theorem uniform_identity (captures : Captures Memory) : identity.Uniform captures := by
  intro window world other invocation invocation' h hPaired
  refine ⟨window, .refl h, ?_⟩
  cases hPaired with
  | extraction hValue _ => exact hValue
  | filling hBindings _ => exact hBindings

/-- What is named does the same in the same place, if it does so without the name. -/
theorem Uniform.named {procedure : Procedure Memory} (h : procedure.Uniform captures)
    (key : String) : (procedure.named key).Uniform captures := by
  intro window world other invocation invocation' hShown hPaired
  obtain ⟨middle, hLeads, hValue⟩ := h window world other invocation invocation' hShown hPaired
  have hValues : ∀ item ∈ (Cell.object (.ofList [(key, (procedure invocation world).1)])).values,
      item.Within middle.region := by
    intro item hItem
    rw [List.mem_singleton.mp hItem]
    exact hValue.within
  have hMoved : Cell.object (.ofList [(key, (procedure invocation' other).1)]) =
      (Cell.object (.ofList [(key, (procedure invocation world).1)])).mapValues
        (Value.moved middle.place) := by
    rw [hValue.moved]
    rfl
  have hAdded := hLeads.heaps.shows.alloc hMoved hValues trivial
  exact ⟨_, hLeads.trans (hLeads.shown.leads hAdded), middle.pairs_added _ _⟩

end Procedure

namespace Pipe

/-- Templates that are the same but for replaced texts prepare the same. -/
theorem exists_prepare_paired {pipe pipe' : Pipe} (hConfig : pipe'.config = pipe.config)
    (hPlaceholders : List.Forall₂ (Placeholder.Renamed behaviour)
      (world.heap.discover pipe.input) (other.heap.discover pipe'.input))
    (h : World.Shown captures window world other) (hSource : window.Pairs source source')
    (hUniform : ∀ placeholder ∈ world.heap.discover pipe.input, ∀ id,
      placeholder.request = .function id → (behaviour id).Uniform captures) :
    ∃ window', World.Leads captures window world other window'
        (pipe.prepare behaviour source world).world (pipe'.prepare behaviour source' other).world ∧
      Paired captures window' (pipe.prepare behaviour source world)
        (pipe'.prepare behaviour source' other) := by
  obtain ⟨input, output, _⟩ := pipe
  obtain ⟨input', output', config⟩ := pipe'
  obtain rfl := hConfig
  obtain ⟨middle, hLeads, hContributed⟩ :=
    Extraction.exists_contributions_paired hPlaceholders h hSource hUniform
  obtain ⟨hContent, hWithin⟩ := Bindings.content_paired config hContributed
  have hStored := hLeads.shown.leads (hLeads.heaps.shows.alloc hContent hWithin
    (Bindings.addressable_content config _))
  exact ⟨_, hLeads.trans hStored, hStored.shown,
    fun segment => (Bindings.pairs_get _ hContributed segment).mono hStored.heaps,
    middle.pairs_added _ _⟩

end Pipe

namespace Heap

variable {values : Set Value} {chosen : Slot → Option CallableId}

/-- The window on all that can be reached from some values, where it is. -/
def sight (heap : Heap) (values : Set Value) : Window where
  region := {handle | ∃ value ∈ values, heap.Reaches value handle}
  place := id

theorem pairs_sight (heap : Heap) (hValue : value ∈ values) : (heap.sight values).Pairs value value where
  within := fun _ hHandle => ⟨value, hValue, [], Value.mem_handle?_iff.mp hHandle⟩
  moved := value.moved_id.symm

/-- Whoever reaches no slot that has been given a callable sees the same heap. -/
theorem shows_sight {heap : Heap} (hHeap : heap.WellFormed)
    (hWithin : ∀ value ∈ values, value.Within heap.handles)
    (hApart : ∀ value ∈ values, ∀ slot id, chosen slot = some id → ¬ heap.Reaches value slot.handle) :
    (heap.sight values).Shows heap (heap.replaced chosen) := by
  refine AgreeOn.skeleton ?_ (region_exists fun value hValue =>
    hHeap.region_reaches (hWithin value hValue))
  rintro handle ⟨value, hValue, hReaches⟩
  refine cell?_replaced_of_unchosen fun segment => ?_
  cases hChosen : chosen ⟨handle, segment⟩ with
  | none => rfl
  | some id => exact absurd hReaches (hApart value hValue _ id hChosen)

end Heap

/-- Everything that the callables see: the source, and what they have captured. -/
def Captures.seen (captures : Captures Memory) (memory : Memory) (source : Value) : Set Value :=
  insert source (Value.container '' captures.roots memory)

/-- The world in which some slots have been given callables. -/
def World.replaced (world : World Memory) (chosen : Slot → Option CallableId) : World Memory :=
  { world with heap := world.heap.replaced chosen }

/-- Two outcomes with the same result, in heaps that have grown from the same number of
containers. -/
def World.Coincide (size : Nat) (outcome outcome' : Value × World Memory) : Prop :=
  ∃ place, Heap.Coincide size place outcome.2.heap outcome.1 outcome'.2.heap outcome'.1

/-- What it takes to replace texts of a template by callables that name by them. The
callables of the template are uniform, and neither they nor the source reach a container
that is changed. -/
structure Renaming (behaviour : Behaviour Memory) (captures : Captures Memory)
    (world : World Memory) (source template template' : Value)
    (chosen : Slot → Option CallableId) : Prop where
  wellFormed : world.heap.WellFormed
  within : ∀ value ∈ captures.seen world.memory source, value.Within world.heap.handles
  /-- The template is a text that is replaced, or holds texts that are. -/
  names : Names behaviour template template'
  slots : world.heap.Chosen behaviour chosen
  apart : ∀ value ∈ captures.seen world.memory source, ∀ slot id, chosen slot = some id →
    ¬ world.heap.Reaches value slot.handle
  uniform : ∀ placeholder ∈ world.heap.discover template, ∀ id,
    placeholder.request = .function id → (behaviour id).Uniform captures

namespace Renaming

variable {template template' output : Value} {chosen : Slot → Option CallableId}
  {values : Set Value}

/-- Both templates prepare the same for a pipe, in sight of whatever reaches no
container that is changed. -/
theorem exists_prepare (h : Renaming behaviour captures world source template template' chosen)
    (hSeen : captures.seen world.memory source ⊆ values)
    (hWithin : ∀ value ∈ values, value.Within world.heap.handles)
    (hApart : ∀ value ∈ values, ∀ slot id, chosen slot = some id →
      ¬ world.heap.Reaches value slot.handle) (output : Value) (config : Config) :
    ∃ window', World.Leads captures (world.heap.sight values) world (world.replaced chosen) window'
        (Pipe.prepare ⟨template, output, config⟩ behaviour source world).world
        (Pipe.prepare ⟨template', output, config⟩ behaviour source (world.replaced chosen)).world ∧
      Pipe.Paired captures window'
        (Pipe.prepare ⟨template, output, config⟩ behaviour source world)
        (Pipe.prepare ⟨template', output, config⟩ behaviour source (world.replaced chosen)) := by
  have hShown : World.Shown captures (world.heap.sight values) world (world.replaced chosen) :=
    { heap := Heap.shows_sight h.wellFormed hWithin hApart
      captured := fun _ hRoot => ⟨_, hSeen (.inr (Set.mem_image_of_mem _ hRoot)), [], rfl⟩
      memory := (captures.moved_id world.memory).symm }
  exact Pipe.exists_prepare_paired rfl (Heap.names_discover h.slots h.names) hShown
    (world.heap.pairs_sight (hSeen (.inl rfl))) h.uniform

/-- Both templates extract the same. -/
theorem coincide_extraction
    (h : Renaming behaviour captures world source template template' chosen) (config : Config) :
    World.Coincide world.heap.size (Extractor.apply ⟨template, config⟩ behaviour source world)
      (Extractor.apply ⟨template', config⟩ behaviour source (world.replaced chosen)) := by
  obtain ⟨window', hLeads, hPaired⟩ :=
    h.exists_prepare Set.Subset.rfl h.within h.apart .null config
  exact ⟨_, hLeads.heaps.coincide (Heap.shows_sight h.wellFormed h.within h.apart)
    (world.heap.size_replaced chosen) (fun _ _ => rfl) hPaired.extracted⟩

/-- Both templates make the same of an output template without callables. Such a
template does not reach the slots that were given some. -/
theorem coincide_apply (h : Renaming behaviour captures world source template template' chosen)
    (config : Config) (hOutput : output.Within world.heap.handles)
    (hFree : (world.heap.replaced chosen).CallableFree output)
    (hUniform : ∀ placeholder ∈ Pipe.slots ⟨template, output, config⟩
      (Pipe.prepare ⟨template, output, config⟩ behaviour source world), ∀ id,
        placeholder.request = .function id → (behaviour id).Uniform captures) :
    World.Coincide world.heap.size
      (Pipe.apply ⟨template, output, config⟩ behaviour source world)
      (Pipe.apply ⟨template', output, config⟩ behaviour source (world.replaced chosen)) := by
  have hWithin : ∀ value ∈ insert output (captures.seen world.memory source),
      value.Within world.heap.handles := by
    rintro value (rfl | hSeen)
    · exact hOutput
    · exact h.within value hSeen
  have hApart : ∀ value ∈ insert output (captures.seen world.memory source), ∀ slot id,
      chosen slot = some id → ¬ world.heap.Reaches value slot.handle := by
    rintro value (rfl | hSeen) slot id hChosen hReaches
    · obtain ⟨path, hPath⟩ := Heap.exists_callable_of_reaches h.slots h.wellFormed hChosen hReaches
      exact hFree path id hPath
    · exact h.apart value hSeen slot id hChosen hReaches
  obtain ⟨middle, hLeads, hPaired⟩ :=
    h.exists_prepare (Set.subset_insert _ _) hWithin hApart output config
  have hSight := fun {value} (hValue : value ∈ insert output (captures.seen world.memory source)) =>
    (world.heap.pairs_sight hValue).mono hLeads.heaps
  obtain ⟨window', hStaged, hResult⟩ :=
    hPaired.exists_stage (hSight (.inr (.inl rfl))) (hSight (.inl rfl)) hUniform
  exact ⟨_, (hLeads.trans hStaged).heaps.coincide (Heap.shows_sight h.wellFormed hWithin hApart)
    (world.heap.size_replaced chosen) (fun _ _ => rfl) hResult⟩

end Renaming

/-- Texts can be replaced by callables that name by them. The extraction is the same, and
so is what a pipe makes of it with an output template without callables. Callables that
others write into that template in the meantime are uniform too. -/
theorem coincide_replaced {template template' : Value} {chosen : Slot → Option CallableId}
    (h : Renaming behaviour captures world source template template' chosen) (config : Config) :
    World.Coincide world.heap.size (Extractor.apply ⟨template, config⟩ behaviour source world)
        (Extractor.apply ⟨template', config⟩ behaviour source (world.replaced chosen)) ∧
      ∀ output : Value, output.Within world.heap.handles →
        (world.heap.replaced chosen).CallableFree output →
        (∀ placeholder ∈ Pipe.slots ⟨template, output, config⟩
          (Pipe.prepare ⟨template, output, config⟩ behaviour source world), ∀ id,
            placeholder.request = .function id → (behaviour id).Uniform captures) →
        World.Coincide world.heap.size
          (Pipe.apply ⟨template, output, config⟩ behaviour source world)
          (Pipe.apply ⟨template', output, config⟩ behaviour source (world.replaced chosen)) :=
  ⟨h.coincide_extraction config,
    fun _ hOutput hFree hUniform => h.coincide_apply config hOutput hFree hUniform⟩

/-- A memory that holds one value. -/
def Captures.kept : Captures Value where
  roots := fun kept => {handle | handle ∈ kept.handle?}
  moved := Value.moved
  moved_id := Value.moved_id
  moved_congr := fun _ _ _ hSame => Value.moved_congr (fun _ hHandle => hHandle) hSame

/-- Answer with a new array of the first argument and the last answer. -/
def Procedure.linked : Procedure Value := fun invocation world =>
  let (value, heap) := world.heap.alloc (.array #[invocation.primary, world.memory])
  (value, ⟨heap, value⟩)

/-- Two callables that name their first argument, and others that link what they meet. -/
def naming : Behaviour Value
  | 0 => Procedure.identity.named "who"
  | 1 => Procedure.identity.named "0"
  | _ => .linked

/-- Linked values are paired in two runs when what they link is. -/
theorem Procedure.uniform_linked : linked.Uniform .kept := by
  intro window world other invocation invocation' h hPaired
  have hPrimary : window.Pairs invocation.primary invocation'.primary := by
    cases hPaired with
    | extraction hValue _ => exact hValue
    | filling hBindings _ => exact hBindings
  have hMemory : window.Pairs world.memory other.memory := ⟨h.captured, h.memory⟩
  have hValues : ∀ value ∈ (Cell.array #[invocation.primary, world.memory]).values,
      value.Within window.region := by
    intro value hValue
    rcases List.mem_pair.mp hValue with rfl | rfl
    · exact hPrimary.within
    · exact hMemory.within
  have hMoved : Cell.array #[invocation'.primary, other.memory] =
      (Cell.array #[invocation.primary, world.memory]).mapValues (Value.moved window.place) := by
    simp [Cell.mapValues, hPrimary.moved, hMemory.moved]
  have hAdded := h.heap.alloc hMoved hValues (by decide : 2 < addressLimit)
  have hLink := window.pairs_added world.heap.size other.heap.size
  exact ⟨_, ⟨hAdded, hLink.within, hLink.moved⟩, hLink⟩

theorem uniform_naming (id : CallableId) : (naming id).Uniform .kept :=
  match id with
  | 0 => (Procedure.uniform_identity _).named _
  | 1 => (Procedure.uniform_identity _).named _
  | _ + 2 => Procedure.uniform_linked

/-- A template with texts, a number and a callable, a source with a cycle, a container
that a callable has captured, and an output template with a cycle. -/
def titled : World Value where
  heap := ⟨#[
    .object (.ofList [("name", .text "who"), ("tags", .container 1), ("more", .callable 2)]),
    .array #[.text "0", .text "plain", .number (.ofNat 5)],
    .object (.ofList [("name", .container 3), ("tags", .container 4), ("more", .text "x")]),
    .array #[.text "Ada", .container 2],
    .array #[.text "first", .null],
    .object (.ofList [("kept", .bool true)]),
    .object (.ofList [("a", .text "who"), ("b", .container 7)]),
    .array #[.text "0", .text "plain", .container 6]]⟩
  memory := .container 5

/-- Two texts of the template are replaced. -/
def titles (slot : Slot) : Option CallableId :=
  if slot = ⟨0, .key "name"⟩ then some 0
  else if slot = ⟨1, .index 0⟩ then some 1
  else none

theorem titles_eq_some {slot : Slot} {id : CallableId} (h : titles slot = some id) :
    (slot = ⟨0, .key "name"⟩ ∧ id = 0) ∨ (slot = ⟨1, .index 0⟩ ∧ id = 1) := by
  unfold titles at h
  split at h
  · exact .inl ⟨‹_›, (Option.some.inj h).symm⟩
  · split at h
    · exact .inr ⟨‹_›, (Option.some.inj h).symm⟩
    · cases h

theorem region_titled : titled.heap.Region {handle | 2 ≤ handle ∧ handle < 6} :=
  (by decide : titled.heap.WellFormed).region_interval (by decide) (by decide)

theorem titled_seen {value : Value}
    (h : value ∈ Captures.kept.seen titled.memory (.container 2)) :
    value.Within {handle | 2 ≤ handle ∧ handle < 6} := by
  rcases h with rfl | ⟨root, hRoot, rfl⟩
  · exact Value.within_container.mpr (by decide : 2 ≤ 2 ∧ 2 < 6)
  · obtain rfl : (5 : Handle) = root := Option.some.inj hRoot
    exact Value.within_container.mpr (by decide : 2 ≤ 5 ∧ 5 < 6)

theorem renaming_titled :
    Renaming naming .kept titled (.container 2) (.container 0) (.container 0) titles where
  wellFormed := by decide
  within := fun _ hSeen => (titled_seen hSeen).mono region_titled.allocated
  names := .same _
  slots := by
    intro slot id hChosen
    rcases titles_eq_some hChosen with ⟨rfl, rfl⟩ | ⟨rfl, rfl⟩
    · exact ⟨"who", ⟨_, rfl, by decide⟩, rfl⟩
    · exact ⟨"0", ⟨_, rfl, by decide⟩, rfl⟩
  apart := by
    intro value hSeen slot id hChosen hReaches
    have hMem := region_titled.mem_of_reaches (titled_seen hSeen) hReaches
    rcases titles_eq_some hChosen with ⟨rfl, -⟩ | ⟨rfl, -⟩
    · exact absurd hMem.1 (by decide)
    · exact absurd hMem.1 (by decide)
  uniform := fun _ _ id _ => uniform_naming id

theorem callableFree_titled : (titled.heap.replaced titles).CallableFree (.container 6) := by
  have hRegion : (titled.heap.replaced titles).Region {handle | 6 ≤ handle ∧ handle < 8} :=
    (by decide : (titled.heap.replaced titles).WellFormed).region_interval (by decide) (by decide)
  exact hRegion.callableFree (fun handle hMem cell hCell =>
    (by decide : ∀ handle < 8, 6 ≤ handle → ∀ cell ∈ (titled.heap.replaced titles).cell? handle,
      ∀ value ∈ cell.values, (titled.heap.replaced titles).kind value ≠ .callable)
        handle hMem.2 hMem.1 cell hCell) (by decide : 6 ≤ 6 ∧ 6 < 8)

/-- Whether texts name what is found, or callables do, makes no difference to the
sequence that the other callable turns the bindings into. -/
theorem coincide_replaced_titled :
    Renaming naming .kept titled (.container 2) (.container 0) (.container 0) titles ∧
      (Value.container 6).Within titled.heap.handles ∧
      (titled.heap.replaced titles).CallableFree (.container 6) ∧
      World.Coincide titled.heap.size
        (Extractor.apply ⟨.container 0, .default⟩ naming (.container 2) titled)
        (Extractor.apply ⟨.container 0, .default⟩ naming (.container 2) (titled.replaced titles)) ∧
      World.Coincide titled.heap.size
        (Pipe.apply ⟨.container 0, .container 6, .default⟩ naming (.container 2) titled)
        (Pipe.apply ⟨.container 0, .container 6, .default⟩ naming (.container 2)
          (titled.replaced titles)) := by
  have hOutput : (Value.container 6).Within titled.heap.handles :=
    Value.within_container.mpr (by decide : 6 < titled.heap.size)
  obtain ⟨hExtraction, hApply⟩ := coincide_replaced renaming_titled .default
  exact ⟨renaming_titled, hOutput, callableFree_titled, hExtraction,
    hApply (.container 6) hOutput callableFree_titled fun _ _ id _ => uniform_naming id⟩

end Stencil
