import Stencil.Proofs.Extraction.Reading
import Stencil.Proofs.Pipe.Likeness

/-!
Composition of pipes. A template that names everything that the next pipe asks
for can stand between two pipes: what goes by way of it is what the direct pipe
makes. A name is bound by the second pipe to what the first one has filled in for
it, which is what the direct pipe binds it to.
-/

namespace Stencil

variable {Memory : Type}

theorem Placeholder.value_of_name {placeholder : Placeholder} {name : String}
    (h : placeholder.request = .name name) : placeholder.value = .text name := by
  unfold request at h
  split at h
  all_goals cases h
  assumption

namespace Pipe

/-- Run a pipe, and another over its result: from one shape to a third by way of
a second. -/
def applyThrough (input middle output : Value) (config rest : Config)
    (behaviour : Behaviour Memory) (source : Value) (world : World Memory) :
    Value × World Memory :=
  let (result, world) := apply ⟨input, middle, config⟩ behaviour source world
  apply ⟨middle, output, rest⟩ behaviour result world

/-- Heaps that agree on the templates of a pipe can both run it. -/
theorem CallableFree.of_agreeOn {heap other : Heap} {region : Set Handle} {pipe : Pipe}
    {source : Value} (hRegion : heap.Region region) (hSame : Heap.AgreeOn region heap other)
    (hOther : other.WellFormed) (hInput : pipe.input.Within region)
    (hOutput : pipe.output.Within region) (hInputFree : heap.CallableFree pipe.input)
    (hOutputFree : heap.CallableFree pipe.output) (hSource : source.Within other.handles) :
    pipe.CallableFree other source where
  wellFormed := hOther
  input_within := hInput.mono (hRegion.congr hSame).allocated
  output_within := hOutput.mono (hRegion.congr hSame).allocated
  source_within := hSource
  input_free := hInputFree.congr hSame hRegion hInput
  output_free := hOutputFree.congr hSame hRegion hOutput

/-- Templates of which the middle one can stand between the others. They and the
source are in a region of the heap, where they may share containers and hold one
another in cycles. -/
structure Composable (heap : Heap) (region : Set Handle) (input middle output source : Value) :
    Prop where
  closed : heap.Region region
  input_within : input.Within region
  middle_within : middle.Within region
  output_within : output.Within region
  source_within : source.Within region
  input_free : heap.CallableFree input
  middle_free : heap.CallableFree middle
  output_free : heap.CallableFree output
  /-- The placeholders in the middle are texts. -/
  numberless : ∀ path number, heap.getPath middle path ≠ .number number
  /-- A text of the output occurs in the middle. -/
  names : ∀ placeholder ∈ heap.discover output, ∀ name, placeholder.request = .name name →
    ∃ other ∈ heap.discover middle, other.request = .name name
  /-- The key of a number of the output occurs in the middle. -/
  positions : ∀ placeholder ∈ heap.discover output, ∀ number,
    placeholder.request = .position number →
      ∃ other ∈ heap.discover middle, other.request = .name (Segment.ofNumber number).toKey

namespace Composable

variable {world : World Memory} {region : Set Handle} {input middle output source : Value}

theorem request_middle {heap : Heap} (h : Composable heap region input middle output source) :
    ∀ placeholder ∈ heap.discover middle,
      placeholder.request = .inert ∨ ∃ name, placeholder.request = .name name := by
  intro placeholder hMem
  have hPath := Heap.getPath_of_mem_discover h.closed h.middle_within hMem
  unfold Placeholder.request
  cases hValue : placeholder.value with
  | number number => exact absurd (hPath.trans hValue) (h.numberless placeholder.path number)
  | callable id => exact absurd (hPath.trans hValue) (h.middle_free placeholder.path id)
  | text name => exact .inr ⟨name, rfl⟩
  | _ => exact .inl rfl

theorem callableFree_first (h : Composable world.heap region input middle output source)
    (hWorld : world.heap.WellFormed) (config : Config) :
    (⟨input, middle, config⟩ : Pipe).CallableFree world.heap source :=
  .of_agreeOn h.closed (fun _ _ => rfl) hWorld h.input_within h.middle_within h.input_free
    h.middle_free (h.source_within.mono h.closed.allocated)

/-- What the second pipe binds a name to is what the first has bound it to. -/
theorem get_bindings (h : Composable world.heap region input middle output source)
    (hWorld : world.heap.WellFormed) (behaviour : Behaviour Memory) (config rest : Config)
    {segment : Segment}
    (hSegment : ∃ placeholder ∈ world.heap.discover middle,
      placeholder.request = .name segment.toKey) :
    (Extraction.bindings behaviour rest middle
        (apply ⟨input, middle, config⟩ behaviour source world).1
        (apply ⟨input, middle, config⟩ behaviour source world).2).1.get segment =
      (Extraction.bindings behaviour config input source world).1.get segment := by
  have hFirst := h.callableFree_first hWorld config
  have hDiscover : (apply ⟨input, middle, config⟩ behaviour source world).2.heap.discover middle =
      world.heap.discover middle :=
    (hFirst.agreeOn_apply behaviour).discover hWorld.region_handles hFirst.output_within
  obtain ⟨place, -, hImage⟩ := hFirst.exists_image behaviour
  rw [Extraction.get_bindings_of_names behaviour rest fun name =>
    (Extraction.bindings behaviour config input source world).1.get (.key name)]
  · exact Bindings.get_key_toKey _ segment
  · rw [hDiscover]
    exact h.request_middle
  · rw [hDiscover]
    intro placeholder hMem name hName
    have hPath := Heap.getPath_of_mem_discover h.closed h.middle_within hMem
    rw [Placeholder.value_of_name hName] at hPath
    exact hImage.getPath hPath Value.noConfusion
  · rwa [hDiscover]

/-- What becomes of a scalar of the output template is the same by way of the
middle as directly. -/
theorem image_eq (h : Composable world.heap region input middle output source)
    (hWorld : world.heap.WellFormed) (behaviour : Behaviour Memory) (config rest : Config)
    (place place' : Handle → Handle) {path : Path} {value : Value}
    (hPath : world.heap.getPath output path = value) (hScalar : value.isContainer = false) :
    (Extraction.bindings behaviour rest middle
        (apply ⟨input, middle, config⟩ behaviour source world).1
        (apply ⟨input, middle, config⟩ behaviour source world).2).1.image place value =
      (Extraction.bindings behaviour config input source world).1.image place' value := by
  cases value with
  | text name =>
      obtain ⟨path', hMem⟩ := Heap.exists_mem_discover_of_getPath h.closed h.output_within hPath
        hScalar Value.noConfusion
      exact h.get_bindings hWorld behaviour config rest (h.names _ hMem name rfl)
  | number number =>
      obtain ⟨path', hMem⟩ := Heap.exists_mem_discover_of_getPath h.closed h.output_within hPath
        hScalar Value.noConfusion
      exact h.get_bindings hWorld behaviour config rest (h.positions _ hMem number rfl)
  | container => cases hScalar
  | _ => rfl

/-- A pipe by way of a template that names all that is asked for makes what the
direct pipe makes, whatever the configuration of the second stage. The direct
pipe may be run in any heap with the same templates and the same source. -/
theorem sameResult_applyThrough (world later : World Memory)
    (h : Composable world.heap region input middle output source)
    (hWorld : world.heap.WellFormed) (hLater : later.heap.WellFormed)
    (hSame : Heap.AgreeOn region world.heap later.heap) (behaviour : Behaviour Memory)
    (config rest : Config) :
    SameResult region world.heap output
      (applyThrough input middle output config rest behaviour source world).2.heap
      (applyThrough input middle output config rest behaviour source world).1
      (apply ⟨input, output, config⟩ behaviour source later).2.heap
      (apply ⟨input, output, config⟩ behaviour source later).1 := by
  have hFirst := h.callableFree_first hWorld config
  obtain ⟨hMiddle, hResult⟩ := hFirst.wellFormed_apply behaviour
  have hKept : Heap.AgreeOn region world.heap
      (apply ⟨input, middle, config⟩ behaviour source world).2.heap := fun handle hMem =>
    hFirst.agreeOn_apply behaviour handle (h.closed.allocated hMem)
  have hSecond : (⟨middle, output, rest⟩ : Pipe).CallableFree _ _ :=
    .of_agreeOn h.closed hKept hMiddle h.middle_within h.output_within h.middle_free h.output_free
      hResult
  have hThere := (h.closed.congr hSame).allocated
  have hDirect : (⟨input, output, config⟩ : Pipe).CallableFree later.heap source :=
    .of_agreeOn h.closed hSame hLater h.input_within h.output_within h.input_free h.output_free
      (h.source_within.mono hThere)
  obtain ⟨place, hNew, hImage⟩ := hSecond.exists_image behaviour
  obtain ⟨place', hNew', hImage'⟩ := hDirect.exists_image behaviour
  have hBindings : (Extraction.bindings behaviour config input source later).1 =
      (Extraction.bindings behaviour config input source world).1 :=
    Extraction.bindings_congr h.input_free h.closed h.input_within h.source_within hSame config
  rw [hBindings] at hImage'
  have hWithin := Extraction.bindings_within behaviour source h.input_free h.closed h.input_within
    config h.closed h.source_within
  have hTwins : Twins _ _ place place' region world.heap output
      (applyThrough input middle output config rest behaviour source world).2.heap
      (applyThrough input middle output config rest behaviour source world).1
      (apply ⟨input, output, config⟩ behaviour source later).2.heap
      (apply ⟨input, output, config⟩ behaviour source later).1 :=
    { image := hImage.congr h.closed h.output_within hKept
      image' := hImage'.congr h.closed h.output_within hSame
      region := h.closed
      agree := fun handle hMem =>
        (hSecond.agreeOn_apply behaviour handle ((h.closed.congr hKept).allocated hMem)).trans
          (hKept handle hMem)
      agree' := fun handle hMem =>
        (hDirect.agreeOn_apply behaviour handle (hThere hMem)).trans (hSame handle hMem)
      apart := fun handle hMem =>
        Nat.not_lt.mpr (hNew handle) ((h.closed.congr hKept).allocated hMem)
      apart' := fun handle hMem => Nat.not_lt.mpr (hNew' handle) (hThere hMem)
      scalar := fun path hScalar => by
        rw [h.image_eq hWorld behaviour config rest place place' rfl hScalar]
        exact ⟨rfl, Bindings.within_image hWithin place' hScalar⟩ }
  exact hTwins.sameResult

end Composable

/-- A source, an input template that binds a position, and two templates with
cycles. What the last one asks for, the one before names as texts. -/
def relayed : Heap where
  cells := #[
    .object (.ofList [("name", .text "Ada"), ("tags", .container 1)]),
    .array #[.text "first", .container 0],
    .object (.ofList [("name", .text "who"), ("tags", .number (.ofNat 0)), ("self", .container 2)]),
    .object (.ofList [("a", .text "who"), ("b", .container 4), ("again", .text "who")]),
    .array #[.text "0", .bool true, .container 3],
    .array #[.text "who", .container 6, .container 6, .null],
    .object (.ofList [("first", .number (.ofNat 0)), ("up", .container 5)])]

theorem discover_relayed_middle : relayed.discover (.container 3) =
    [⟨[.key "a"], .text "who"⟩, ⟨[.key "b", .index 0], .text "0"⟩,
      ⟨[.key "b", .index 1], .bool true⟩, ⟨[.key "again"], .text "who"⟩] := by
  rw [Heap.discover, Heap.discoverWith_eq]
  simp [Heap.placeholdersBelow, relayed, Heap.cell?, Cell.entries, Fields.ofList, Fields.insertAll,
    Fields.insert, Fields.insertEntry, Fields.empty, Value.isPlaceholder, Value.isContainer,
    Placeholder.under]

theorem discover_relayed_output : relayed.discover (.container 5) =
    [⟨[.index 0], .text "who"⟩, ⟨[.index 1, .key "first"], .number (.ofNat 0)⟩,
      ⟨[.index 2, .key "first"], .number (.ofNat 0)⟩, ⟨[.index 3], .null⟩] := by
  rw [Heap.discover, Heap.discoverWith_eq]
  simp [Heap.placeholdersBelow, relayed, Heap.cell?, Cell.entries, Fields.ofList, Fields.insertAll,
    Fields.insert, Fields.insertEntry, Fields.empty, Value.isPlaceholder, Value.isContainer,
    Placeholder.under]

theorem composable_relayed : Composable relayed relayed.handles (.container 2) (.container 3)
    (.container 5) (.container 0) where
  closed := (by decide : relayed.WellFormed).region_handles
  input_within := Value.within_container.mpr (by decide : 2 < relayed.size)
  middle_within := Value.within_container.mpr (by decide : 3 < relayed.size)
  output_within := Value.within_container.mpr (by decide : 5 < relayed.size)
  source_within := Value.within_container.mpr (by decide : 0 < relayed.size)
  input_free := Heap.callableFree_of_forall (by decide) (by decide)
  middle_free := Heap.callableFree_of_forall (by decide) (by decide)
  output_free := Heap.callableFree_of_forall (by decide) (by decide)
  numberless := by
    intro path number hPath
    obtain ⟨path', hMem⟩ := Heap.exists_mem_discover_of_getPath
      (by decide : relayed.WellFormed).region_handles
      (Value.within_container.mpr (by decide : 3 < relayed.size)) hPath rfl Value.noConfusion
    simp [discover_relayed_middle] at hMem
  names := by
    rw [discover_relayed_output, discover_relayed_middle]
    simp [Placeholder.request]
  positions := by
    have hKey : (Segment.ofNumber (.ofNat 0)).toKey = "0" := by decide
    rw [discover_relayed_output, discover_relayed_middle]
    simp [Placeholder.request, hKey]

/-- A position goes by way of its decimal text. -/
theorem sameResult_relayed :
    Composable relayed relayed.handles (.container 2) (.container 3) (.container 5)
        (.container 0) ∧
      relayed.WellFormed ∧ Heap.AgreeOn relayed.handles relayed relayed ∧
      SameResult relayed.handles relayed (.container 5)
        (applyThrough (.container 2) (.container 3) (.container 5) .default .default .silent
          (.container 0) ⟨relayed, ()⟩).2.heap
        (applyThrough (.container 2) (.container 3) (.container 5) .default .default .silent
          (.container 0) ⟨relayed, ()⟩).1
        (apply ⟨.container 2, .container 5, .default⟩ .silent (.container 0) ⟨relayed, ()⟩).2.heap
        (apply ⟨.container 2, .container 5, .default⟩ .silent (.container 0) ⟨relayed, ()⟩).1 :=
  ⟨composable_relayed, by decide, fun _ _ => rfl,
    Composable.sameResult_applyThrough ⟨relayed, ()⟩ ⟨relayed, ()⟩ composable_relayed (by decide)
      (by decide) (fun _ _ => rfl) .silent .default .default⟩

end Pipe

end Stencil
