import Stencil.Proofs.Extraction.Lookup
import Stencil.Proofs.Pipe.Isolation

/-!
Pipes and extraction agree. What an output template asks for is read from the
bindings, and a caller who extracts instead of piping reads the container that
the bindings are stored in. The two give the same value, except where the
container is an array and the key is no position: an array has no such entry,
and the pipe falls back on what was contributed under the key itself.
-/

namespace Stencil

variable {Memory : Type}

/-- The segment that an output placeholder asks for. -/
def Request.segment? : Request → Option Segment
  | .name text => some (.key text)
  | .position number => some (.ofNumber number)
  | _ => none

namespace Bindings

variable {bindings : Bindings} {segment : Segment}

/-- Stored bindings read as the bindings themselves, unless they are a sequence
and the segment is no position. -/
theorem get_content (h : bindings.content.kind = .object ∨ segment.position? ≠ none) :
    (bindings.content.get? segment).getD .null = bindings.get segment := by
  cases bindings with
  | mapping fields => rfl
  | sequence items named =>
      rcases h with hObject | hPosition
      · cases hObject
      · obtain ⟨position, hPosition⟩ := Option.ne_none_iff_exists'.mp hPosition
        simp only [content, Cell.get?, get, hPosition, Option.bind_some]

/-- In a sequence a key that is no position reads as the last named entry. -/
theorem get_of_named {config : Config} {contributions : List Contribution}
    (hArray : (ofContributions config contributions).content.kind = .array)
    (hNone : segment.position? = none) :
    (ofContributions config contributions).get segment =
      ((contributions.flatMap Contribution.named).reverse.lookup segment.toKey).getD .null := by
  rcases exists_isPositional_or contributions with hSome | hKeyed
  · rw [get_ofContributions, candidates_of_named hSome hNone]
  · rw [ofContributions_mapping config hKeyed] at hArray
    cases hArray

end Bindings

namespace Pipe

variable {pipe : Pipe} {behaviour : Behaviour Memory} {source : Value} {world : World Memory}

/-- How what a pipe fills in is told by an extraction that has started from the
same state, with these contributions. -/
structure Agreed (pipe : Pipe) (world : World Memory) (slots : List Placeholder)
    (contributed : List Contribution) (extraction final : Value × World Memory) : Prop where
  /-- In an object every segment reads as what is filled in for it, and in an
  array every segment that is a position does. Nothing is null in both. -/
  addressed : ∀ placeholder ∈ slots, ∀ segment, placeholder.request.segment? = some segment →
    extraction.2.heap.kind extraction.1 = .object ∨ segment.position? ≠ none →
      final.2.heap.getPath final.1 placeholder.path = extraction.2.heap.get extraction.1 segment
  /-- Beside an array, what is filled in for any other key is the last value that
  a text, an object or a scalar outcome has contributed under the key. -/
  named : ∀ placeholder ∈ slots, ∀ segment, placeholder.request.segment? = some segment →
    extraction.2.heap.kind extraction.1 ≠ .object → segment.position? = none →
      final.2.heap.getPath final.1 placeholder.path =
        ((contributed.flatMap Contribution.named).reverse.lookup segment.toKey).getD .null
  /-- The placeholders are those that the output template had at the start, if
  the callables of the input template have left it as it was. -/
  untouched : ∀ region, world.heap.Region region → pipe.output.Within region →
    Heap.AgreeOn region world.heap extraction.2.heap → slots = world.heap.discover pipe.output

/-- The answer to a text or a number is its binding. -/
theorem answer_of_segment? {bindings : Bindings} {extracted : Value} {placeholder : Placeholder}
    {segment : Segment} (h : placeholder.request.segment? = some segment) (world : World Memory) :
    (answer behaviour bindings extracted source placeholder world).1 = some (bindings.get segment) := by
  unfold answer
  cases hRequest : placeholder.request with
  | name name =>
      rw [hRequest] at h
      cases h
      rfl
  | position number =>
      rw [hRequest] at h
      cases h
      rfl
  | _ =>
      rw [hRequest] at h
      cases h

/-- In the end a text or a number of the output reads as its binding. -/
theorem getPath_slot {prepared : Prepared Memory} {roots : Memory → Set Handle}
    (h : Sound roots world prepared) (hBehaviour : behaviour.Confined roots)
    (hSource : source.Within prepared.world.heap.handles)
    (hOutput : pipe.output.Within prepared.world.heap.handles) {placeholder : Placeholder}
    (hMem : placeholder ∈ pipe.slots prepared) {segment : Segment}
    (hSegment : placeholder.request.segment? = some segment) :
    (pipe.stage behaviour source prepared (pipe.slots prepared)).2.heap.getPath
        (pipe.stage behaviour source prepared (pipe.slots prepared)).1 placeholder.path =
      prepared.bindings.get segment := by
  have hAsks : placeholder.request ≠ .inert := fun hInert => by
    rw [hInert] at hSegment
    cases hSegment
  obtain ⟨before, last, rest, -, -, -, hSame, hAnswer⟩ :=
    exists_last_answer h hBehaviour hSource hOutput hMem hAsks
  rw [answer_of_segment? (hSame.symm ▸ hSegment)] at hAnswer
  exact (Option.some.inj hAnswer).symm

/-- What a pipe has extracted is a new container with its bindings. -/
theorem content?_extracted (pipe : Pipe) (behaviour : Behaviour Memory) (source : Value)
    (world : World Memory) :
    (pipe.prepare behaviour source world).world.heap.content?
        (pipe.prepare behaviour source world).extracted =
      some (pipe.prepare behaviour source world).bindings.content :=
  Heap.cell?_alloc_self _ _

/-- Copying what extraction has not touched shows the same placeholders. -/
theorem slots_eq_discover {prepared : Prepared Memory} {region : Set Handle}
    (hRegion : world.heap.Region region) (hOutput : pipe.output.Within region)
    (hSame : Heap.AgreeOn region world.heap prepared.world.heap) :
    pipe.slots prepared = world.heap.discover pipe.output := by
  refine Heap.AgreeOn.discover (fun handle hMem => ?_) hRegion hOutput
  exact (blank_frame pipe prepared handle ((hRegion.congr hSame).allocated hMem)).trans
    (hSame handle hMem)

/-- A pipe and an extraction that start from the same state agree on everything
that the output template asks for, whatever their callables do. All that is
asked of these is that they see no containers but those that they can reach. -/
theorem agreed_apply (pipe : Pipe) {behaviour : Behaviour Memory} {source : Value}
    {world : World Memory} {roots : Memory → Set Handle} (hBehaviour : behaviour.Confined roots)
    (hHeap : world.heap.WellFormed) (hCaptured : roots world.memory ⊆ world.heap.handles)
    (hSource : source.Within world.heap.handles) (hOutput : pipe.output.Within world.heap.handles) :
    ∃ contributed after,
      Extraction.Turns behaviour source (world.heap.discover pipe.input) world contributed after ∧
        Agreed pipe world (pipe.slots (pipe.prepare behaviour source world)) contributed
          (Extractor.apply ⟨pipe.input, pipe.config⟩ behaviour source world)
          (pipe.apply behaviour source world) := by
  have hSound := sound_prepare pipe hBehaviour hHeap hCaptured hSource
  have hHandles : world.heap.handles ⊆ (pipe.prepare behaviour source world).world.heap.handles :=
    fun _ hLt => Nat.lt_trans hLt hSound.size_lt
  have hFilled := fun placeholder => @getPath_slot _ _ _ _ _ _ _ hSound hBehaviour
    (hSource.mono hHandles) (hOutput.mono hHandles) placeholder
  have hContent := content?_extracted pipe behaviour source world
  have hExtraction : Extractor.apply ⟨pipe.input, pipe.config⟩ behaviour source world =
      ((pipe.prepare behaviour source world).extracted,
        (pipe.prepare behaviour source world).world) := rfl
  have hKind : (pipe.prepare behaviour source world).world.heap.kind
      (pipe.prepare behaviour source world).extracted =
        (pipe.prepare behaviour source world).bindings.content.kind :=
    congrArg (fun cell => (cell.map Cell.kind).getD .null) hContent
  refine ⟨_, _, (Extraction.turns_iff fun _ => Heap.isContainer_of_mem_discover).mpr rfl, ?_⟩
  rw [hExtraction, apply_eq]
  refine ⟨?_, ?_, fun region => slots_eq_discover⟩
  · intro placeholder hMem segment hSegment hAddressed
    rw [hKind] at hAddressed
    rw [hFilled placeholder hMem hSegment, ← Bindings.get_content hAddressed, Heap.get, hContent,
      Option.bind_some]
  · intro placeholder hMem segment hSegment hArray hNone
    rw [hKind] at hArray
    rw [hFilled placeholder hMem hSegment]
    refine Bindings.get_of_named ?_ hNone
    cases hBindings : (pipe.prepare behaviour source world).bindings with
    | mapping fields => exact absurd (congrArg (fun bindings => bindings.content.kind) hBindings) hArray
    | sequence items named => exact congrArg (fun bindings => bindings.content.kind) hBindings

/-- A source, an input template with a position, a text and a callable, and an
output template that asks for all of them and for a key that nothing is bound
to. -/
def annotated : World Registry where
  heap := ⟨#[
    .object (.ofList [("name", .text "Ada"), ("tags", .container 1), ("more", .container 2)]),
    .array #[.text "first"],
    .object (.ofList [("note", .text "met"), ("name", .null)]),
    .object (.ofList [("name", .text "who"), ("tags", .container 4), ("more", .callable 0)]),
    .array #[.number (.ofNat 0)],
    .object (.ofList [("who", .text "who"), ("tag", .number (.ofNat 0)), ("name", .text "name"),
      ("note", .container 6)]),
    .array #[.text "note", .text "0", .text "missing"]]⟩
  memory := .empty

/-- Texts and an object outcome are read beside an array. -/
theorem agreed_annotated :
    spoiling.Confined (fun _ => ∅) ∧ annotated.heap.WellFormed ∧
      ∃ contributed after,
        Extraction.Turns spoiling (.container 0) (annotated.heap.discover (.container 3)) annotated
            contributed after ∧
          Agreed ⟨.container 3, .container 5, .default⟩ annotated
            (slots ⟨.container 3, .container 5, .default⟩
              (prepare ⟨.container 3, .container 5, .default⟩ spoiling (.container 0) annotated))
            contributed
            (Extractor.apply ⟨.container 3, .default⟩ spoiling (.container 0) annotated)
            (apply ⟨.container 3, .container 5, .default⟩ spoiling (.container 0) annotated) :=
  ⟨spoiling_confined, by decide, agreed_apply ⟨.container 3, .container 5, .default⟩
    spoiling_confined (by decide) (Set.empty_subset _)
    (Value.within_container.mpr (by decide : 0 < annotated.heap.size))
    (Value.within_container.mpr (by decide : 5 < annotated.heap.size))⟩

end Pipe

end Stencil
