import Stencil.Proofs.Extraction.Reading
import Stencil.Proofs.Heap.Rebuilding
import Stencil.Proofs.Pipe.Frame
import Stencil.Proofs.Pipe.Image

/-!
Sharing cannot be observed. A pipe whose templates and source have the same
documents as those of another, in whatever heaps and however containers are
shared in them, makes a result with the same document. In particular it makes
what it would make of copies in which nothing is shared.
-/

namespace Stencil

variable {Memory : Type}

namespace Pipe

/-- An extraction that calls nothing adds a container with its bindings and
changes nothing else. -/
theorem CallableFree.apply_extractor {pipe : Pipe} {source : Value} {world : World Memory}
    (h : pipe.CallableFree world.heap source) (behaviour : Behaviour Memory) :
    Extractor.apply ⟨pipe.input, pipe.config⟩ behaviour source world =
      (.container world.heap.size, { world with heap := (world.heap.alloc
        (Extraction.bindings behaviour pipe.config pipe.input source world).1.content).2 }) := by
  have hWorld := Extraction.bindings_world behaviour source h.input_free
    h.wellFormed.region_handles h.input_within pipe.config
  simp only [Extractor.apply, World.withHeap, Bindings.store, hWorld, Heap.alloc]

/-- Two pipes that are run on templates and sources with the same documents. -/
structure SameDocuments (pipe : Pipe) (heap : Heap) (source : Value) (pipe' : Pipe) (other : Heap)
    (source' : Value) : Prop where
  callableFree : pipe.CallableFree heap source
  callableFree' : pipe'.CallableFree other source'
  input : heap.SameDocument pipe.input other pipe'.input
  output : heap.SameDocument pipe.output other pipe'.output
  source : heap.SameDocument source other source'
  config_eq : pipe.config = pipe'.config

namespace SameDocuments

variable {pipe pipe' : Pipe} {world other : World Memory} {source source' : Value}
  (behaviour : Behaviour Memory)

/-- Placeholder by placeholder, the same is bound. -/
theorem corresponds (h : SameDocuments pipe world.heap source pipe' other.heap source') :
    List.Forall₂ (Contribution.Corresponds fun _ value value' =>
        world.heap.SameDocument value other.heap value')
      ((world.heap.discover pipe.input).map fun placeholder =>
        placeholder.binding (world.heap.getPath source placeholder.path))
      ((other.heap.discover pipe'.input).map fun placeholder =>
        placeholder.binding (other.heap.getPath source' placeholder.path)) := by
  rw [h.input.discover_eq, List.forall₂_map_left_iff, List.forall₂_map_right_iff, List.forall₂_same]
  exact fun placeholder _ => Placeholder.binding_corresponds
    (fun _ _ => h.source.getPath placeholder.path) fun _ _ _ _ => h.source.getPath placeholder.path

theorem bindings_eq (h : SameDocuments pipe world.heap source pipe' other.heap source') :
    (Extraction.bindings behaviour pipe.config pipe.input source world).1 =
        .ofContributions pipe.config ((world.heap.discover pipe.input).map fun placeholder =>
          placeholder.binding (world.heap.getPath source placeholder.path)) ∧
      (Extraction.bindings behaviour pipe'.config pipe'.input source' other).1 =
        .ofContributions pipe.config ((other.heap.discover pipe'.input).map fun placeholder =>
          placeholder.binding (other.heap.getPath source' placeholder.path)) := by
  have hFirst := h.callableFree
  have hSecond := h.callableFree'
  refine ⟨Extraction.bindings_eq hFirst.input_free hFirst.wellFormed.region_handles
    hFirst.input_within pipe.config, ?_⟩
  rw [h.config_eq]
  exact Extraction.bindings_eq hSecond.input_free hSecond.wellFormed.region_handles
    hSecond.input_within pipe'.config

/-- Every segment reads as values with the same document. -/
theorem get (h : SameDocuments pipe world.heap source pipe' other.heap source') (segment : Segment) :
    world.heap.SameDocument
      ((Extraction.bindings behaviour pipe.config pipe.input source world).1.get segment) other.heap
      ((Extraction.bindings behaviour pipe'.config pipe'.input source' other).1.get segment) := by
  obtain ⟨hFirst, hSecond⟩ := h.bindings_eq behaviour
  rw [hFirst, hSecond]
  rcases Bindings.get_related pipe.config h.corresponds segment with ⟨hNull, hNull'⟩ | hSame
  · rw [hNull, hNull']
    exact .null
  · exact hSame

/-- What is extracted has the same document. -/
theorem sameDocument_extraction
    (h : SameDocuments pipe world.heap source pipe' other.heap source') :
    (Extractor.apply ⟨pipe.input, pipe.config⟩ behaviour source world).2.heap.SameDocument
      (Extractor.apply ⟨pipe.input, pipe.config⟩ behaviour source world).1
      (Extractor.apply ⟨pipe'.input, pipe'.config⟩ behaviour source' other).2.heap
      (Extractor.apply ⟨pipe'.input, pipe'.config⟩ behaviour source' other).1 := by
  obtain ⟨hFirst, hSecond⟩ := h.bindings_eq behaviour
  rw [h.callableFree.apply_extractor, h.callableFree'.apply_extractor, hFirst, hSecond]
  refine .container (Heap.cell?_alloc_self _ _) (Heap.cell?_alloc_self _ _)
    (Bindings.shape_related pipe.config h.corresponds).1 ?_
  refine (Bindings.content_related pipe.config h.corresponds).imp ?_
  rintro entry entry' ⟨hSegment, hNull | hSame⟩
  · rw [hNull.1, hNull.2]
    exact ⟨hSegment, .null⟩
  · exact ⟨hSegment, hSame.congr (fun _ hLt => Heap.cell?_alloc_of_lt hLt)
      fun _ hLt => Heap.cell?_alloc_of_lt hLt⟩

end SameDocuments

/-- In two images of templates with the same document, what has become of values
with the same document has the same document. -/
theorem Image.sameDocument {bindings bindings' : Bindings} {place place' : Handle → Handle}
    {before before' after after' : Heap} {template template' result result' : Value}
    (hImage : Image bindings place before template after result)
    (hImage' : Image bindings' place' before' template' after' result')
    (hBefore : before.WellFormed) (hBefore' : before'.WellFormed)
    (hGet : ∀ segment, after.SameDocument (bindings.get segment) after' (bindings'.get segment))
    {value value' : Value} {document : Json} (h : before.Unfolds value document)
    (h' : before'.Unfolds value' document) {path path' : Path}
    (hPath : before.getPath template path = value)
    (hPath' : before'.getPath template' path' = value') :
    after.SameDocument (bindings.image place value) after' (bindings'.image place' value') := by
  induction h generalizing value' path path' with
  | @container handle cell document hCell hValues ih =>
      obtain ⟨handle', cell', rfl, hCell', hKind, hEntries⟩ := h'.exists_cell
      have hCopy := hImage.copied handle ⟨path, hPath⟩
      have hCopy' := hImage'.copied handle' ⟨path', hPath'⟩
      rw [hCell, Option.map_some, Cell.mapValues_eq_mapEntries] at hCopy
      rw [hCell', Option.map_some, Cell.mapValues_eq_mapEntries] at hCopy'
      refine .container hCopy hCopy' ?_ ?_
      · rw [Cell.kind_mapEntries, Cell.kind_mapEntries, hKind]
      · rw [Cell.entries_mapEntries, Cell.entries_mapEntries, List.forall₂_map_left_iff,
          List.forall₂_map_right_iff]
        refine (forall₂_mem hEntries).imp ?_
        rintro entry entry' ⟨hEntry, hEntry', hSegment, hChild⟩
        have hEnd : before.getPath template (path ++ [entry.1]) = entry.2 := by
          rw [Heap.getPath_concat, hPath, hBefore.region_handles.get_of_mem_entries
            (Heap.lt_size_of_cell? hCell) hCell hEntry]
        have hEnd' : before'.getPath template' (path' ++ [entry'.1]) = entry'.2 := by
          rw [Heap.getPath_concat, hPath', hBefore'.region_handles.get_of_mem_entries
            (Heap.lt_size_of_cell? hCell') hCell' hEntry']
        exact ⟨hSegment, ih entry.2 (Cell.mem_values_of_mem_entries hEntry) hChild hEnd hEnd'⟩
  | text text =>
      obtain rfl := h'.eq_of_scalar? rfl
      exact hGet (.key text)
  | number number =>
      obtain rfl := h'.eq_of_scalar? rfl
      exact hGet (.ofNumber number)
  | null =>
      obtain rfl := h'.eq_of_scalar? rfl
      exact .null
  | bool flag =>
      obtain rfl := h'.eq_of_scalar? rfl
      exact ⟨_, .bool flag, .bool flag⟩

/-- What the pipes make has the same document. -/
theorem SameDocuments.sameDocument_apply {pipe pipe' : Pipe} {world other : World Memory}
    {source source' : Value} (behaviour : Behaviour Memory)
    (h : SameDocuments pipe world.heap source pipe' other.heap source') :
    (pipe.apply behaviour source world).2.heap.SameDocument
      (pipe.apply behaviour source world).1 (pipe'.apply behaviour source' other).2.heap
      (pipe'.apply behaviour source' other).1 := by
  obtain ⟨place, -, hImage⟩ := h.callableFree.exists_image behaviour
  obtain ⟨place', -, hImage'⟩ := h.callableFree'.exists_image behaviour
  obtain ⟨document, hOutput, hOutput'⟩ := h.output
  have hGet := fun segment => (h.get behaviour segment).congr
    (h.callableFree.agreeOn_apply behaviour) (h.callableFree'.agreeOn_apply behaviour)
  have hRoot : world.heap.getPath pipe.output [] = pipe.output := rfl
  have hRoot' : other.heap.getPath pipe'.output [] = pipe'.output := rfl
  rw [hImage.result_eq, hImage'.result_eq]
  exact hImage.sameDocument hImage' h.callableFree.wellFormed h.callableFree'.wellFormed hGet
    hOutput hOutput' hRoot hRoot'

/-- The documents that a pipe and the extraction of its input template give. -/
structure Written (pipe : Pipe) (behaviour : Behaviour Memory) (source : Value)
    (world : World Memory) (extracted result : Json) : Prop where
  extracted : (Extractor.apply ⟨pipe.input, pipe.config⟩ behaviour source world).2.heap.toJson
    (Extractor.apply ⟨pipe.input, pipe.config⟩ behaviour source world).1 = .ok extracted
  result : (pipe.apply behaviour source world).2.heap.toJson
    (pipe.apply behaviour source world).1 = .ok result

/-- Pipes on the same documents give the same documents. -/
theorem SameDocuments.exists_written {pipe pipe' : Pipe} {source source' : Value}
    (world other : World Memory) (behaviour : Behaviour Memory)
    (h : SameDocuments pipe world.heap source pipe' other.heap source') :
    ∃ extracted result, Written pipe behaviour source world extracted result ∧
      Written pipe' behaviour source' other extracted result := by
  obtain ⟨extracted, hExtracted, hExtracted'⟩ := h.sameDocument_extraction behaviour
  obtain ⟨result, hResult, hResult'⟩ := h.sameDocument_apply behaviour
  exact ⟨extracted, result, ⟨hExtracted.toJson, hResult.toJson⟩,
    ⟨hExtracted'.toJson, hResult'.toJson⟩⟩

/-- A heap with values for two templates and a source, built from documents. -/
structure Copies where
  heap : Heap
  input : Value
  output : Value
  source : Value

/-- Build the templates and the source from their documents, so that nothing is
shared in them or between them. -/
def copies (heap : Heap) (input output source : Json) : Copies :=
  let (input, heap) := heap.ofJson input
  let (output, heap) := heap.ofJson output
  let (source, heap) := heap.ofJson source
  ⟨heap, input, output, source⟩

/-- The pipe between the copied templates. -/
def Copies.pipe (copied : Copies) (config : Config) : Pipe := ⟨copied.input, copied.output, config⟩

/-- The copies have these documents. -/
structure Copies.Unfold (copied : Copies) (input output source : Json) : Prop where
  wellFormed : copied.heap.WellFormed
  input : copied.heap.Unfolds copied.input input
  output : copied.heap.Unfolds copied.output output
  source : copied.heap.Unfolds copied.source source

/-- Copies of values have the documents of the values. -/
theorem unfold_copies {heap other : Heap} {input output source : Value}
    {inputDocument outputDocument sourceDocument : Json} (hHeap : heap.WellFormed)
    (hOther : other.WellFormed) (hInput : heap.Unfolds input inputDocument)
    (hOutput : heap.Unfolds output outputDocument) (hSource : heap.Unfolds source sourceDocument) :
    (copies other inputDocument outputDocument sourceDocument).Unfold inputDocument outputDocument
      sourceDocument := by
  have hFirst := hInput.built hHeap other hOther
  have hSecond := hOutput.built hHeap _ hFirst.wellFormed
  have hThird := hSource.built hHeap _ hSecond.wellFormed
  exact {
    wellFormed := hThird.wellFormed
    input := hFirst.unfolds.congr (hSecond.kept.trans hThird.kept)
    output := hSecond.unfolds.congr hThird.kept
    source := hThird.unfolds }

/-- Documents have no callables, so copies of documents form callable-free pipes. -/
theorem Copies.Unfold.callableFree {copied : Copies} {input output source : Json}
    (h : copied.Unfold input output source) (config : Config) :
    (copied.pipe config).CallableFree copied.heap copied.source where
  wellFormed := h.wellFormed
  input_within := h.input.within
  output_within := h.output.within
  source_within := h.source.within
  input_free := h.input.callableFree
  output_free := h.output.callableFree

/-- Sharing is unobservable in acyclic data. However templates and source share
containers, a pipe and an extraction give documents, and they give the same
documents when they are run on copies that share nothing, in any heap. -/
theorem written_copies (pipe : Pipe) (behaviour : Behaviour Memory) (source : Value)
    (world other : World Memory) (h : pipe.CallableFree world.heap source)
    (hFree : world.heap.CallableFree source) (hInput : world.heap.Acyclic pipe.input)
    (hOutput : world.heap.Acyclic pipe.output) (hSource : world.heap.Acyclic source)
    (hOther : other.heap.WellFormed) :
    ∃ (inputDocument outputDocument sourceDocument extracted result : Json) (copied : Copies),
      world.heap.toJson pipe.input = .ok inputDocument ∧
      world.heap.toJson pipe.output = .ok outputDocument ∧
      world.heap.toJson source = .ok sourceDocument ∧
      copied = copies other.heap inputDocument outputDocument sourceDocument ∧
      Written pipe behaviour source world extracted result ∧
      Written (copied.pipe pipe.config) behaviour copied.source { other with heap := copied.heap }
        extracted result := by
  have hRegion := h.wellFormed.region_handles
  obtain ⟨inputDocument, hInputUnfolds⟩ :=
    Heap.exists_unfolds hRegion h.input_within h.input_free hInput
  obtain ⟨outputDocument, hOutputUnfolds⟩ :=
    Heap.exists_unfolds hRegion h.output_within h.output_free hOutput
  obtain ⟨sourceDocument, hSourceUnfolds⟩ :=
    Heap.exists_unfolds hRegion h.source_within hFree hSource
  have hCopies := unfold_copies h.wellFormed hOther hInputUnfolds hOutputUnfolds hSourceUnfolds
  have hSame : SameDocuments pipe world.heap source _ _ _ :=
    { callableFree := h
      callableFree' := hCopies.callableFree pipe.config
      input := ⟨inputDocument, hInputUnfolds, hCopies.input⟩
      output := ⟨outputDocument, hOutputUnfolds, hCopies.output⟩
      source := ⟨sourceDocument, hSourceUnfolds, hCopies.source⟩
      config_eq := rfl }
  obtain ⟨extracted, result, hWritten, hWritten'⟩ :=
    hSame.exists_written world { other with heap := _ } behaviour
  exact ⟨inputDocument, outputDocument, sourceDocument, extracted, result, _, hInputUnfolds.toJson,
    hOutputUnfolds.toJson, hSourceUnfolds.toJson, rfl, hWritten, hWritten'⟩

/-- Templates and a source that share containers within themselves and with one
another. -/
def braided : Heap where
  cells := #[
    .array #[.text "tag", .number (.ofNat 7)],
    .object (.ofList [("name", .text "Ada"), ("tags", .container 0), ("more", .container 0)]),
    .object (.ofList [("name", .text "who"), ("tags", .text "list")]),
    .object (.ofList [("left", .container 2), ("right", .container 2), ("own", .container 0)]),
    .object (.ofList [("left", .container 1), ("right", .container 1), ("own", .container 0)]),
    .array #[.text "who", .container 0, .text "list"],
    .object (.ofList [("first", .container 5), ("second", .container 5), ("third", .text "list")])]

theorem acyclic_braided (value : Value) : braided.Acyclic value :=
  Heap.acyclic_of_older (by decide) value

theorem braided_callableFree :
    CallableFree ⟨.container 3, .container 6, .default⟩ braided (.container 4) where
  wellFormed := by decide
  input_within := Value.within_container.mpr (by decide : 3 < braided.size)
  output_within := Value.within_container.mpr (by decide : 6 < braided.size)
  source_within := Value.within_container.mpr (by decide : 4 < braided.size)
  input_free := Heap.callableFree_of_forall (by decide) (by decide)
  output_free := Heap.callableFree_of_forall (by decide) (by decide)

/-- What shares containers with a template gives the document of what does not. -/
theorem written_braided :
    CallableFree ⟨.container 3, .container 6, .default⟩ braided (.container 4) ∧
      braided.CallableFree (.container 4) ∧ braided.Acyclic (.container 4) ∧
      ∃ (inputDocument outputDocument sourceDocument extracted result : Json) (copied : Copies),
        braided.toJson (.container 3) = .ok inputDocument ∧
        braided.toJson (.container 6) = .ok outputDocument ∧
        braided.toJson (.container 4) = .ok sourceDocument ∧
        copied = copies braided inputDocument outputDocument sourceDocument ∧
        Written ⟨.container 3, .container 6, .default⟩ .silent (.container 4)
          (⟨braided, ()⟩ : World Unit) extracted result ∧
        Written (copied.pipe .default) .silent copied.source (⟨copied.heap, ()⟩ : World Unit)
          extracted result :=
  have hFree : braided.CallableFree (.container 4) :=
    Heap.callableFree_of_forall (by decide) (by decide)
  ⟨braided_callableFree, hFree, acyclic_braided _,
    written_copies ⟨.container 3, .container 6, .default⟩ .silent (.container 4) ⟨braided, ()⟩
      ⟨braided, ()⟩ braided_callableFree hFree (acyclic_braided _) (acyclic_braided _)
      (acyclic_braided _) (by decide)⟩

end Pipe

end Stencil
