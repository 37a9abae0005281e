import Stencil.Proofs.Pipe.Agreement

/-!
Raising the bound of positions. Every position up to the bound is written as
before, and beyond the bound nothing had been written. So an array can only gain
items behind those that it could have, and an object and the named entries
beside an array do not depend on the bound at all.
-/

namespace Stencil

variable {Memory : Type}

/-- A configuration with a bound, and one that has no lower bound. -/
structure Config.Raised (bound : Nat) (config raised : Config) : Prop where
  maxPosition_eq : config.maxPosition = some bound
  bound_le : ∀ limit, raised.maxPosition = some limit → bound ≤ limit

namespace Config.Raised

variable {bound position : Nat} {config raised : Config}

theorem allows_iff (h : Raised bound config raised) :
    config.allows position = true ↔ position ≤ bound := by
  rw [allows, h.maxPosition_eq]
  exact decide_eq_true_iff

theorem allows_of_le (h : Raised bound config raised) (hLe : position ≤ bound) :
    raised.allows position = true := by
  cases hMax : raised.maxPosition with
  | none => rw [allows, hMax]
  | some limit =>
      rw [allows, hMax]
      exact decide_eq_true (Nat.le_trans hLe (h.bound_le limit hMax))

end Config.Raised

namespace Bindings

/-- What bindings become when the bound is raised: an object stays the same, and
an array can only gain items beyond the bound. -/
inductive Raised (bound : Nat) : Bindings → Bindings → Prop where
  | mapping (fields : Fields Value) : Raised bound (mapping fields) (mapping fields)
  | sequence {items items' : Array Value} (named : Fields Value)
      (size_le_bound : items.size ≤ bound + 1) (size_le : items.size ≤ items'.size)
      (same : ∀ position, position ≤ bound →
        items'[position]?.getD .null = items[position]?.getD .null) :
      Raised bound (sequence items named) (sequence items' named)

variable {bound : Nat} {config raised : Config} {bindings bindings' : Bindings} {segment : Segment}

/-- The same contributions, merged under both configurations. Up to the bound both
arrays are read as the last entry of the position. -/
theorem raised_ofContributions (h : Config.Raised bound config raised)
    (contributions : List Contribution) :
    Raised bound (ofContributions config contributions) (ofContributions raised contributions) := by
  rcases exists_isPositional_or contributions with hSome | hKeyed
  · have hLow := reflects_foldl_write config (contributions.flatMap Contribution.entries)
    have hHigh := reflects_foldl_write raised (contributions.flatMap Contribution.entries)
    rw [ofContributions_sequence config hSome, ofContributions_sequence raised hSome]
    refine .sequence _ ?_ ?_ fun position hLe => ?_
    · by_contra hLong
      obtain ⟨-, hAllows⟩ := hLow.fits (Nat.not_le.mp hLong)
      exact absurd (h.allows_iff.mp hAllows) (Nat.not_succ_le_self bound)
    · refine le_of_forall_lt fun position hLt => ?_
      obtain ⟨filled, hFilled, hFits, hAllows, hEntry⟩ := (hLow.size position).mp hLt
      exact (hHigh.size position).mpr
        ⟨filled, hFilled, hFits, h.allows_of_le (h.allows_iff.mp hAllows), hEntry⟩
    · by_cases hFits : position + 1 < addressLimit
      · rw [hLow.getD_eq ⟨hFits, h.allows_iff.mpr hLe⟩, hHigh.getD_eq ⟨hFits, h.allows_of_le hLe⟩]
      · rw [Array.getElem?_eq_none (Nat.not_lt.mp fun hLt => hFits (hLow.fits hLt).1),
          Array.getElem?_eq_none (Nat.not_lt.mp fun hLt => hFits (hHigh.fits hLt).1)]
  · rw [ofContributions_mapping config hKeyed, ofContributions_mapping raised hKeyed]
    exact .mapping _

namespace Raised

theorem kind_eq (h : Raised bound bindings bindings') :
    bindings'.content.kind = bindings.content.kind := by
  cases h <;> rfl

theorem eq_of_object (h : Raised bound bindings bindings')
    (hObject : bindings.content.kind = .object) : bindings' = bindings := by
  cases h with
  | mapping => rfl
  | sequence => cases hObject

/-- A segment that is no position beyond the bound reads the same. -/
theorem get_eq (h : Raised bound bindings bindings')
    (hPosition : ∀ position, segment.position? = some position → position ≤ bound) :
    bindings'.get segment = bindings.get segment := by
  cases h with
  | mapping => rfl
  | sequence named _ _ same =>
      cases hFound : segment.position? with
      | none => simp only [get, hFound]
      | some position => simpa only [get, hFound] using same position (hPosition position hFound)

/-- And so it does in what the bindings are stored in. -/
theorem get_content_eq (h : Raised bound bindings bindings')
    (hPosition : ∀ position, segment.position? = some position → position ≤ bound) :
    (bindings'.content.get? segment).getD .null = (bindings.content.get? segment).getD .null := by
  cases h with
  | mapping => rfl
  | sequence named _ _ same =>
      simp only [content, Cell.get?]
      cases hFound : segment.position? with
      | none => rfl
      | some position => exact same position (hPosition position hFound)

/-- A position beyond the bound reads as null. -/
theorem get_eq_null (h : Raised bound bindings bindings') (hArray : bindings.content.kind = .array)
    {position : Nat} (hPosition : segment.position? = some position) (hBeyond : bound < position) :
    bindings.get segment = .null := by
  cases h with
  | mapping => cases hArray
  | sequence named size_le_bound =>
      simp only [get, hPosition]
      rw [Array.getElem?_eq_none (Nat.le_trans size_le_bound hBeyond)]
      rfl

theorem size_le (h : Raised bound bindings bindings') (hArray : bindings.content.kind = .array) :
    bindings.content.size ≤ bound + 1 := by
  cases h with
  | mapping => cases hArray
  | sequence named size_le_bound => exact size_le_bound

end Raised

end Bindings

namespace Pipe

/-- How an extraction and a pipe change when the bound is raised and nothing
else. Primes are for the higher bound. The merged bindings come with the world
that the callables of the input template have left, in which the placeholders of
the output template are found. -/
structure Raised (pipe : Pipe) (bound : Nat) (merged merged' : Bindings × World Memory)
    (extraction extraction' final final' : Value × World Memory) : Prop where
  /-- The callables have done the same. -/
  world_eq : merged'.2 = merged.2
  /-- In a sequence the same is bound to every key that is no position. -/
  bindings : Bindings.Raised bound merged.1 merged'.1
  kind_eq : extraction'.2.heap.kind extraction'.1 = extraction.2.heap.kind extraction.1
  object : extraction.2.heap.kind extraction.1 = .object → extraction' = extraction
  /-- Every segment reads the same that is no position beyond the bound. -/
  read : ∀ segment : Segment, (∀ position, segment.position? = some position → position ≤ bound) →
    extraction'.2.heap.get extraction'.1 segment = extraction.2.heap.get extraction.1 segment
  length_le : extraction.2.heap.kind extraction.1 = .array →
    extraction.2.heap.length extraction.1 ≤ bound + 1
  /-- A text or a number of the output reads the same, unless it is a position
  beyond the bound. -/
  filled : ∀ placeholder ∈ merged.2.heap.discover pipe.output, ∀ segment,
    placeholder.request.segment? = some segment →
      (∀ position, segment.position? = some position → position ≤ bound) →
        final'.2.heap.getPath final'.1 placeholder.path =
          final.2.heap.getPath final.1 placeholder.path
  /-- If it is, it reads as null under the lower bound. -/
  beyond : extraction.2.heap.kind extraction.1 = .array →
    ∀ placeholder ∈ merged.2.heap.discover pipe.output, ∀ segment,
      placeholder.request.segment? = some segment →
        ∀ position, segment.position? = some position → bound < position →
          final.2.heap.getPath final.1 placeholder.path = .null

variable {pipe : Pipe} {behaviour : Behaviour Memory} {source : Value} {world : World Memory}
  {roots : Memory → Set Handle}

/-- What a pipe fills in is read from its bindings, which are merged before it
looks at the output template. -/
theorem getPath_discover (pipe : Pipe) (hBehaviour : behaviour.Confined roots) (hHeap : world.heap.WellFormed)
    (hCaptured : roots world.memory ⊆ world.heap.handles)
    (hSource : source.Within world.heap.handles) (hOutput : pipe.output.Within world.heap.handles)
    {placeholder : Placeholder}
    (hMem : placeholder ∈ (Extraction.bindings behaviour pipe.config pipe.input source
      world).2.heap.discover pipe.output)
    {segment : Segment} (hSegment : placeholder.request.segment? = some segment) :
    (pipe.apply behaviour source world).2.heap.getPath (pipe.apply behaviour source world).1
        placeholder.path =
      (Extraction.bindings behaviour pipe.config pipe.input source world).1.get segment := by
  obtain ⟨hConfined, -⟩ := Extraction.confined_bindings hBehaviour pipe.config pipe.input
    ⟨hHeap.region_handles, hCaptured⟩ hSource
  have hSound := sound_prepare pipe hBehaviour hHeap hCaptured hSource
  have hHandles : world.heap.handles ⊆ (pipe.prepare behaviour source world).world.heap.handles :=
    fun _ hLt => Nat.lt_trans hLt hSound.size_lt
  have hSlots : pipe.slots (pipe.prepare behaviour source world) = (Extraction.bindings behaviour
      pipe.config pipe.input source world).2.heap.discover pipe.output :=
    slots_eq_discover hConfined.heap.wellFormed.region_handles
      (hOutput.mono fun _ hLt => Nat.lt_of_lt_of_le hLt hConfined.heap.size_le)
      fun _ hLt => Heap.cell?_alloc_of_lt hLt
  rw [← hSlots] at hMem
  exact getPath_slot hSound hBehaviour (hSource.mono hHandles) (hOutput.mono hHandles) hMem hSegment

/-- Raising the bound only adds positions. -/
theorem raised_apply (pipe : Pipe) {raised : Config} {bound : Nat}
    (hRaised : Config.Raised bound pipe.config raised) (hBehaviour : behaviour.Confined roots)
    (hHeap : world.heap.WellFormed) (hCaptured : roots world.memory ⊆ world.heap.handles)
    (hSource : source.Within world.heap.handles)
    (hOutput : pipe.output.Within world.heap.handles) :
    Raised pipe bound (Extraction.bindings behaviour pipe.config pipe.input source world)
      (Extraction.bindings behaviour raised pipe.input source world)
      (Extractor.apply ⟨pipe.input, pipe.config⟩ behaviour source world)
      (Extractor.apply ⟨pipe.input, raised⟩ behaviour source world)
      (pipe.apply behaviour source world)
      (Pipe.apply { pipe with config := raised } behaviour source world) := by
  have hBindings : Bindings.Raised bound
      (Extraction.bindings behaviour pipe.config pipe.input source world).1
      (Extraction.bindings behaviour raised pipe.input source world).1 :=
    Bindings.raised_ofContributions hRaised _
  have hContent : ∀ config,
      (Extractor.apply ⟨pipe.input, config⟩ behaviour source world).2.heap.content?
          (Extractor.apply ⟨pipe.input, config⟩ behaviour source world).1 =
        some (Extraction.bindings behaviour config pipe.input source world).1.content :=
    fun config => content?_extracted { pipe with config } behaviour source world
  have hKind : ∀ config,
      (Extractor.apply ⟨pipe.input, config⟩ behaviour source world).2.heap.kind
          (Extractor.apply ⟨pipe.input, config⟩ behaviour source world).1 =
        (Extraction.bindings behaviour config pipe.input source world).1.content.kind :=
    fun config => congrArg (fun cell => (cell.map Cell.kind).getD .null) (hContent config)
  have hFilled := fun placeholder => @getPath_discover _ _ _ _ _ pipe hBehaviour hHeap hCaptured
    hSource hOutput placeholder
  exact {
    world_eq := rfl
    bindings := hBindings
    kind_eq := by rw [hKind, hKind, hBindings.kind_eq]
    object := fun hObject => by
      rw [hKind] at hObject
      exact congrArg (fun bindings : Bindings =>
        (Extraction.bindings behaviour pipe.config pipe.input source world).2.withHeap bindings.store)
        (hBindings.eq_of_object hObject)
    read := fun segment hPosition => by
      rw [Heap.get, Heap.get, hContent, hContent, Option.bind_some, Option.bind_some,
        hBindings.get_content_eq hPosition]
    length_le := fun hArray => by
      rw [hKind] at hArray
      rw [Heap.length, hContent]
      exact hBindings.size_le hArray
    filled := fun placeholder hMem segment hSegment hPosition => by
      rw [hFilled placeholder hMem hSegment, ← hBindings.get_eq hPosition]
      exact getPath_discover { pipe with config := raised } hBehaviour hHeap hCaptured hSource
        hOutput hMem hSegment
    beyond := fun hArray placeholder hMem segment hSegment position hPosition hBeyond => by
      rw [hKind] at hArray
      rw [hFilled placeholder hMem hSegment, hBindings.get_eq_null hArray hPosition hBeyond] }

/-- A source, an input template that binds two positions, a name and whatever the
callable returns, and an output template that asks for all of it. -/
def numbered : World Registry where
  heap := ⟨#[
    .object (.ofList [("first", .text "a"), ("last", .text "z"), ("name", .text "Ada"),
      ("more", .container 1)]),
    .object (.ofList [("3", .text "y"), ("note", .text "met")]),
    .object (.ofList [("first", .number (.ofNat 0)), ("last", .number (.ofNat 5)),
      ("name", .text "who"), ("more", .callable 0)]),
    .array #[.number (.ofNat 0), .text "5", .text "who", .text "3", .text "note"]]⟩
  memory := .empty

/-- Where only two positions are filled, the last item is lost, and all else stays
as it is. -/
theorem raised_numbered :
    Config.Raised 1 ⟨some 1⟩ .default ∧ spoiling.Confined (fun _ => ∅) ∧
      numbered.heap.WellFormed ∧
      Raised ⟨.container 2, .container 3, ⟨some 1⟩⟩ 1
        (Extraction.bindings spoiling ⟨some 1⟩ (.container 2) (.container 0) numbered)
        (Extraction.bindings spoiling .default (.container 2) (.container 0) numbered)
        (Extractor.apply ⟨.container 2, ⟨some 1⟩⟩ spoiling (.container 0) numbered)
        (Extractor.apply ⟨.container 2, .default⟩ spoiling (.container 0) numbered)
        (apply ⟨.container 2, .container 3, ⟨some 1⟩⟩ spoiling (.container 0) numbered)
        (apply ⟨.container 2, .container 3, .default⟩ spoiling (.container 0) numbered) :=
  have hRaised : Config.Raised 1 ⟨some 1⟩ .default :=
    ⟨rfl, fun limit hLimit => Option.some.inj hLimit ▸ by decide⟩
  ⟨hRaised, spoiling_confined, by decide,
    raised_apply ⟨.container 2, .container 3, ⟨some 1⟩⟩ hRaised spoiling_confined (by decide)
      (Set.empty_subset _) (Value.within_container.mpr (by decide : 0 < numbered.heap.size))
      (Value.within_container.mpr (by decide : 3 < numbered.heap.size))⟩

end Pipe

end Stencil
