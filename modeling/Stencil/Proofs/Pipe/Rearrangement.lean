import Stencil.Proofs.Heap.Equality
import Stencil.Proofs.Pipe.Agreement
import Stencil.Proofs.Pipe.Composition
import Stencil.Proofs.Pipe.Unsharing

/-!
Rearranging templates. Equal templates may list their entries in different
orders, and then their placeholders are found in different orders. As long as no
two of them are for the same key, it makes no difference which comes first: each
key has one entry among those that are contributed, so the bindings read the
same, and what is made of equal templates is equal.
-/

namespace Stencil

variable {Memory : Type}

namespace Bindings

variable {contributions others : List Contribution} {entry : String × Value}

/-- No key is contributed with two values. -/
def Independent (contributions : List Contribution) : Prop :=
  ∀ entry ∈ contributions.flatMap Contribution.entries,
    ∀ other ∈ contributions.flatMap Contribution.entries, entry.1 = other.1 → entry.2 = other.2

/-- Lists of the same entries read alike where each key has one value. -/
theorem lookup_eq_of_mem_iff {entries others : List (String × Value)}
    (hMem : ∀ entry, entry ∈ entries ↔ entry ∈ others)
    (hOne : ∀ entry ∈ entries, ∀ other ∈ entries, entry.1 = other.1 → entry.2 = other.2)
    (key : String) : entries.lookup key = others.lookup key := by
  cases hFound : others.lookup key with
  | none =>
      rw [List.lookup_eq_none_iff] at hFound ⊢
      exact fun entry hEntry => hFound entry ((hMem entry).mp hEntry)
  | some value =>
      obtain ⟨front, back, rfl, -⟩ := List.lookup_eq_some_iff.mp hFound
      have hEntry := (hMem (key, value)).mpr (List.mem_append_right front List.mem_cons_self)
      exact lookup_eq_some_of_forall (fun other hOther hKey => hOne other hOther _ hEntry hKey)
        ⟨_, hEntry, rfl⟩

theorem mem_flatMap_iff {f : Contribution → List (String × Value)}
    (hMem : ∀ contribution, contribution ∈ contributions ↔ contribution ∈ others) :
    entry ∈ contributions.flatMap f ↔ entry ∈ others.flatMap f := by
  simp only [List.mem_flatMap, hMem]

/-- The same entries count when a segment is read. -/
theorem mem_candidates_iff
    (hMem : ∀ contribution, contribution ∈ contributions ↔ contribution ∈ others)
    (config : Config) (segment : Segment) :
    entry ∈ candidates config contributions segment ↔ entry ∈ candidates config others segment := by
  have hAny : contributions.any Contribution.isPositional = others.any Contribution.isPositional := by
    rw [Bool.eq_iff_iff, List.any_eq_true, List.any_eq_true]
    simp only [hMem]
  rw [candidates, candidates, hAny]
  split
  · split
    · split
      · exact mem_flatMap_iff hMem
      · rfl
    · exact mem_flatMap_iff hMem
  · exact mem_flatMap_iff hMem

/-- Only contributed entries count. -/
theorem mem_entries_of_mem_candidates {config : Config} {segment : Segment}
    (h : entry ∈ candidates config contributions segment) :
    entry ∈ contributions.flatMap Contribution.entries := by
  have hNamed : entry ∈ contributions.flatMap Contribution.named →
      entry ∈ contributions.flatMap Contribution.entries := by
    simp only [List.mem_flatMap]
    rintro ⟨contribution, hContribution, hEntry⟩
    refine ⟨contribution, hContribution, ?_⟩
    cases contribution with
    | keyed entries => exact List.mem_of_mem_filter hEntry
    | positional => cases hEntry
  rw [candidates] at h
  split at h
  · split at h
    · split at h
      · exact h
      · cases h
    · exact hNamed h
  · exact h

/-- Independent contributions read the same in every order. -/
theorem get_eq_of_mem_iff (hOne : Independent contributions)
    (hMem : ∀ contribution, contribution ∈ contributions ↔ contribution ∈ others)
    (config : Config) (segment : Segment) :
    (ofContributions config contributions).get segment =
      (ofContributions config others).get segment := by
  rw [get_ofContributions, get_ofContributions]
  refine congrArg (Option.getD · Value.null) (lookup_eq_of_mem_iff ?_ ?_ _)
  · intro entry
    rw [List.mem_reverse, List.mem_reverse, mem_candidates_iff hMem]
  · intro entry hEntry other hOther
    rw [List.mem_reverse] at hEntry hOther
    exact hOne entry (mem_entries_of_mem_candidates hEntry) other
      (mem_entries_of_mem_candidates hOther)

/-- Lists of the same entries make the same array, as far as they read alike. -/
theorem Reflects.eq_of_mem_iff {config : Config} {entries others : List (String × Value)}
    {items items' : Array Value} (h : Reflects config entries items)
    (h' : Reflects config others items') (hMem : ∀ entry, entry ∈ entries ↔ entry ∈ others)
    (hLookup : ∀ key, entries.reverse.lookup key = others.reverse.lookup key) : items = items' := by
  have hSize : items.size = items'.size := by
    refine eq_of_forall_lt_iff fun position => ?_
    simp only [h.size, h'.size, Fills, hMem]
  refine Array.ext_getElem? fun position => ?_
  rcases Nat.lt_or_ge position items.size with hLt | hGe
  · rw [h.item position hLt, h'.item position (hSize ▸ hLt), hLookup]
  · rw [Array.getElem?_eq_none hGe, Array.getElem?_eq_none (hSize ▸ hGe)]

/-- And they are stored in containers of one kind with the same values under the
same segments. -/
theorem content_eq_of_mem_iff (hOne : Independent contributions)
    (hMem : ∀ contribution, contribution ∈ contributions ↔ contribution ∈ others)
    (config : Config) :
    (ofContributions config contributions).content.kind =
        (ofContributions config others).content.kind ∧
      ∀ segment, (ofContributions config contributions).content.get? segment =
        (ofContributions config others).content.get? segment := by
  have hEntries := fun entry => @mem_flatMap_iff _ _ entry Contribution.entries hMem
  have hLookup : ∀ key, (contributions.flatMap Contribution.entries).reverse.lookup key =
      (others.flatMap Contribution.entries).reverse.lookup key :=
    lookup_eq_of_mem_iff (by simpa only [List.mem_reverse] using hEntries)
      (by simpa only [Independent, List.mem_reverse] using hOne)
  rcases exists_isPositional_or contributions with hSome | hKeyed
  · have hOthers : ∃ contribution ∈ others, contribution.isPositional = true := by
      simpa only [hMem] using hSome
    have hItems := (reflects_foldl_write config _).eq_of_mem_iff (reflects_foldl_write config _)
      hEntries hLookup
    rw [ofContributions_sequence config hSome, ofContributions_sequence config hOthers, hItems]
    exact ⟨rfl, fun _ => rfl⟩
  · have hOthers : ∀ contribution ∈ others, contribution.isPositional = false := by
      simpa only [hMem] using hKeyed
    rw [ofContributions_mapping config hKeyed, ofContributions_mapping config hOthers]
    refine ⟨rfl, fun segment => ?_⟩
    simp only [content, Cell.get?, Fields.get?_ofList, hLookup]

end Bindings

namespace Placeholder

/-- An entry that a placeholder contributes goes under the key that it asks for. -/
theorem exists_segment_of_mem_entries {placeholder : Placeholder} {found : Value}
    {entry : String × Value} (h : entry ∈ (placeholder.binding found).entries) :
    entry.2 = found ∧ ∃ segment, placeholder.request.segment? = some segment ∧
      segment.toKey = entry.1 := by
  unfold binding at h
  cases hRequest : placeholder.request with
  | name name =>
      rw [hRequest] at h
      obtain rfl := List.mem_singleton.mp h
      exact ⟨rfl, .key name, rfl, rfl⟩
  | position number =>
      rw [hRequest] at h
      cases hPosition : number.position? with
      | none => simp [hPosition, Contribution.entries] at h
      | some position =>
          simp only [hPosition, Option.toList_some, List.map_cons, List.map_nil,
            Contribution.entries, List.mem_singleton] at h
          subst h
          refine ⟨rfl, .index position, ?_, rfl⟩
          rw [Request.segment?, Segment.ofNumber, hPosition]
  | _ =>
      rw [hRequest] at h
      cases h

/-- Equal placeholders bind in the same way. -/
theorem binding_eq_of_equals {heap : Heap} {value value' : Value} (h : heap.Equals value value')
    (path : Path) (found : Value) :
    (⟨path, value⟩ : Placeholder).binding found = (⟨path, value'⟩ : Placeholder).binding found := by
  cases h with
  | same => rfl
  | number hSame => simp only [binding, request, Number.position?_eq_of_sameValue hSame]
  | container => rfl

end Placeholder

/-- Two programs return equal values when one is run after the other. -/
structure World.SameOutcome (world : World Memory)
    (first second : World Memory → Value × World Memory) : Prop where
  /-- A finite derivation shows it, even where the values lead to a cycle. -/
  equals : (second (first world).2).2.heap.Equals (first world).1 (second (first world).2).1
  /-- The comparison of the values finds it. -/
  equal : (second (first world).2).2.heap.equal (first world).1 (second (first world).2).1 = true

namespace Pipe

/-- In two images of equal templates without cycles, what has become of equal
values is equal, if both bindings read the same. -/
theorem Image.equals {bindings bindings' : Bindings} {place place' : Handle → Handle}
    {before after last : Heap} {template template' result result' : Value}
    (hImage : Image bindings place before template after result)
    (hImage' : Image bindings' place' before template' last result')
    (hKept : Heap.AgreeOn after.handles after last)
    (hGet : ∀ segment, bindings.get segment = bindings'.get segment)
    {value value' : Value} {document : Json} (hUnfolds : before.Unfolds value document)
    (hEquals : before.Equals value value') (path : Path)
    (hPath : before.getPath template path = value)
    (hPath' : before.getPath template' path = value') :
    last.Equals (bindings.image place value) (bindings'.image place' value') := by
  induction hUnfolds generalizing value' path with
  | @container handle cell document hCell hValues ih =>
      obtain ⟨handle', cell', rfl, hCell', hShape, hEqual⟩ := hEquals.exists_cell hCell
      have hCopy := hImage.copied handle ⟨path, hPath⟩
      have hCopy' := hImage'.copied handle' ⟨path, hPath'⟩
      rw [hCell, Option.map_some] at hCopy
      rw [hCell', Option.map_some] at hCopy'
      refine .container ((hKept _ (Heap.lt_size_of_cell? hCopy)).trans hCopy) hCopy'
        (hShape.mapValues _ _) fun segment found found' hFound hFound' => ?_
      rw [Cell.get?_mapValues, Option.map_eq_some_iff] at hFound hFound'
      obtain ⟨child, hChild, rfl⟩ := hFound
      obtain ⟨child', hChild', rfl⟩ := hFound'
      refine @ih child (Cell.mem_values_of_get? hChild) child'
        (hEqual segment child child' hChild hChild') (path ++ [segment]) ?_ ?_
      · rw [Heap.getPath_concat, hPath, Heap.get_of_cell? hCell, hChild, Option.getD_some]
      · rw [Heap.getPath_concat, hPath', Heap.get_of_cell? hCell', hChild', Option.getD_some]
  | text text =>
      cases hEquals
      rw [Bindings.image, Bindings.image, hGet]
      exact .same _
  | number number =>
      have hSegment : ∃ other, value' = .number other ∧
          Segment.ofNumber number = Segment.ofNumber other := by
        cases hEquals with
        | same => exact ⟨number, rfl, rfl⟩
        | number hSame => exact ⟨_, rfl, Number.ofNumber_eq_of_sameValue hSame⟩
      obtain ⟨other, rfl, hSegment⟩ := hSegment
      rw [Bindings.image, Bindings.image, hGet, hSegment]
      exact .same _
  | null =>
      cases hEquals
      exact .same _
  | bool flag =>
      cases hEquals
      exact .same _

theorem CallableFree.wellFormed_extractor {pipe : Pipe} {source : Value} {world : World Memory}
    (h : pipe.CallableFree world.heap source) (behaviour : Behaviour Memory) :
    (Extractor.apply ⟨pipe.input, pipe.config⟩ behaviour source world).2.heap.WellFormed := by
  change (pipe.prepare behaviour source world).world.heap.WellFormed
  rw [h.prepare_eq behaviour]
  exact h.sound.wellFormed

/-- Pipes between equal templates without callables and cycles. The entries of
equal objects may be listed in different orders. -/
structure Rearranged (pipe pipe' : Pipe) (heap : Heap) (source : Value) : Prop where
  callableFree : pipe.CallableFree heap source
  callableFree' : pipe'.CallableFree heap source
  input_acyclic : heap.Acyclic pipe.input
  input_acyclic' : heap.Acyclic pipe'.input
  output_acyclic : heap.Acyclic pipe.output
  output_acyclic' : heap.Acyclic pipe'.output
  input_equal : heap.equal pipe.input pipe'.input = true
  output_equal : heap.equal pipe.output pipe'.output = true
  config_eq : pipe.config = pipe'.config
  /-- No two placeholders of the input are for the same key. -/
  distinct : ∀ first ∈ heap.discover pipe.input, ∀ second ∈ heap.discover pipe.input,
    ∀ segment segment', first.request.segment? = some segment →
      second.request.segment? = some segment' → segment.toKey = segment'.toKey → first = second

/-- What the placeholders of a template contribute where nothing is called. -/
def contributed (heap : Heap) (template source : Value) : List Contribution :=
  (heap.discover template).map fun placeholder =>
    placeholder.binding (heap.getPath source placeholder.path)

/-- Equal templates contribute the same. -/
theorem mem_contributed {heap : Heap} {template template' source : Value}
    (hEquals : heap.Equals template template') (hHeap : heap.WellFormed)
    (hTemplate : template.Within heap.handles) (hTemplate' : template'.Within heap.handles)
    (hAcyclic : heap.Acyclic template) (hAcyclic' : heap.Acyclic template')
    {contribution : Contribution} (h : contribution ∈ contributed heap template source) :
    contribution ∈ contributed heap template' source := by
  obtain ⟨⟨path, value⟩, hMem, rfl⟩ := List.mem_map.mp h
  obtain ⟨value', hValue, hMem'⟩ := hEquals.exists_mem_discover hHeap.region_handles hTemplate
    hTemplate' hAcyclic hAcyclic' hMem
  exact List.mem_map.mpr ⟨_, hMem', (Placeholder.binding_eq_of_equals hValue path _).symm⟩

namespace Rearranged

variable {pipe pipe' : Pipe} {source : Value} {world later : World Memory}
  (behaviour : Behaviour Memory)

theorem input_equals {heap : Heap} (h : Rearranged pipe pipe' heap source) :
    heap.Equals pipe.input pipe'.input :=
  (Heap.equal_iff h.callableFree.wellFormed h.callableFree.input_within h.callableFree'.input_within
    (.inl h.input_acyclic)).mp h.input_equal

theorem output_equals {heap : Heap} (h : Rearranged pipe pipe' heap source) :
    heap.Equals pipe.output pipe'.output :=
  (Heap.equal_iff h.callableFree.wellFormed h.callableFree.output_within
    h.callableFree'.output_within (.inl h.output_acyclic)).mp h.output_equal

theorem mem_contributed_iff {heap : Heap} (h : Rearranged pipe pipe' heap source)
    (contribution : Contribution) :
    contribution ∈ contributed heap pipe.input source ↔
      contribution ∈ contributed heap pipe'.input source :=
  ⟨mem_contributed h.input_equals h.callableFree.wellFormed h.callableFree.input_within
      h.callableFree'.input_within h.input_acyclic h.input_acyclic',
    mem_contributed h.input_equals.symm h.callableFree.wellFormed h.callableFree'.input_within
      h.callableFree.input_within h.input_acyclic' h.input_acyclic⟩

theorem independent {heap : Heap} (h : Rearranged pipe pipe' heap source) :
    Bindings.Independent (contributed heap pipe.input source) := by
  intro entry hEntry other hOther hKey
  obtain ⟨_, hMem, hEntry⟩ := List.mem_flatMap.mp hEntry
  obtain ⟨_, hMem', hOther⟩ := List.mem_flatMap.mp hOther
  obtain ⟨first, hFirst, rfl⟩ := List.mem_map.mp hMem
  obtain ⟨second, hSecond, rfl⟩ := List.mem_map.mp hMem'
  obtain ⟨hFound, segment, hSegment, hToKey⟩ := Placeholder.exists_segment_of_mem_entries hEntry
  obtain ⟨hFound', segment', hSegment', hToKey'⟩ :=
    Placeholder.exists_segment_of_mem_entries hOther
  have hSame := h.distinct first hFirst second hSecond segment segment' hSegment hSegment'
    (by rw [hToKey, hToKey', hKey])
  rw [hFound, hFound', hSame]

/-- The second pipe can be run in every larger heap. -/
theorem callableFree_later (h : Rearranged pipe pipe' world.heap source)
    (hLater : later.heap.WellFormed)
    (hSame : Heap.AgreeOn world.heap.handles world.heap later.heap) :
    pipe'.CallableFree later.heap source :=
  have hFree := h.callableFree'
  .of_agreeOn hFree.wellFormed.region_handles hSame hLater hFree.input_within hFree.output_within
    hFree.input_free hFree.output_free
    (hFree.source_within.mono (hFree.wellFormed.region_handles.congr hSame).allocated)

/-- Wherever it is run, it merges the same contributions in some order. -/
theorem bindings_eq (h : Rearranged pipe pipe' world.heap source)
    (hSame : Heap.AgreeOn world.heap.handles world.heap later.heap) :
    (Extraction.bindings behaviour pipe.config pipe.input source world).1 =
        .ofContributions pipe.config (contributed world.heap pipe.input source) ∧
      (Extraction.bindings behaviour pipe'.config pipe'.input source later).1 =
        .ofContributions pipe.config (contributed world.heap pipe'.input source) := by
  have hFree := h.callableFree
  have hFree' := h.callableFree'
  refine ⟨Extraction.bindings_eq hFree.input_free hFree.wellFormed.region_handles hFree.input_within
    pipe.config, ?_⟩
  rw [Extraction.bindings_congr hFree'.input_free hFree'.wellFormed.region_handles
    hFree'.input_within hFree'.source_within hSame, h.config_eq]
  exact Extraction.bindings_eq hFree'.input_free hFree'.wellFormed.region_handles
    hFree'.input_within pipe'.config

/-- Every segment reads the same. -/
theorem get_eq (h : Rearranged pipe pipe' world.heap source)
    (hSame : Heap.AgreeOn world.heap.handles world.heap later.heap) (segment : Segment) :
    (Extraction.bindings behaviour pipe.config pipe.input source world).1.get segment =
      (Extraction.bindings behaviour pipe'.config pipe'.input source later).1.get segment := by
  obtain ⟨hFirst, hSecond⟩ := h.bindings_eq behaviour hSame
  rw [hFirst, hSecond]
  exact Bindings.get_eq_of_mem_iff h.independent h.mem_contributed_iff pipe.config segment

/-- What the bindings are stored in has one shape and the same values. -/
theorem content_eq (h : Rearranged pipe pipe' world.heap source)
    (hSame : Heap.AgreeOn world.heap.handles world.heap later.heap) :
    (Extraction.bindings behaviour pipe.config pipe.input source world).1.content.SameShape
        (Extraction.bindings behaviour pipe'.config pipe'.input source later).1.content ∧
      ∀ segment,
        (Extraction.bindings behaviour pipe.config pipe.input source world).1.content.get? segment =
          (Extraction.bindings behaviour pipe'.config pipe'.input source later).1.content.get?
            segment := by
  obtain ⟨hFirst, hSecond⟩ := h.bindings_eq behaviour hSame
  rw [hFirst, hSecond]
  obtain ⟨hKind, hGet⟩ :=
    Bindings.content_eq_of_mem_iff h.independent h.mem_contributed_iff pipe.config
  exact ⟨⟨hKind, fun segment => congrArg Option.isSome (hGet segment)⟩, hGet⟩

/-- Where the first bindings are stored, the second extraction stores equal
ones. -/
theorem equals_extraction (h : Rearranged pipe pipe' world.heap source)
    (hLater : later.heap.WellFormed)
    (hSame : Heap.AgreeOn world.heap.handles world.heap later.heap) {handle : Handle}
    (hThere : later.heap.cell? handle =
      some (Extraction.bindings behaviour pipe.config pipe.input source world).1.content) :
    (Extractor.apply ⟨pipe'.input, pipe'.config⟩ behaviour source later).2.heap.Equals
      (.container handle) (Extractor.apply ⟨pipe'.input, pipe'.config⟩ behaviour source later).1 := by
  obtain ⟨hShape, hGet⟩ := h.content_eq behaviour hSame
  rw [(h.callableFree_later hLater hSame).apply_extractor behaviour]
  refine .container ((Heap.cell?_alloc_of_lt (Heap.lt_size_of_cell? hThere)).trans hThere)
    (Heap.cell?_alloc_self _ _) hShape fun segment value value' hValue hValue' => ?_
  rw [hGet] at hValue
  exact Option.some.inj (hValue.symm.trans hValue') ▸ .same value

/-- What is extracted with equal templates is equal. -/
theorem sameOutcome_extraction (h : Rearranged pipe pipe' world.heap source) :
    world.SameOutcome (Extractor.apply ⟨pipe.input, pipe.config⟩ behaviour source)
      (Extractor.apply ⟨pipe'.input, pipe'.config⟩ behaviour source) := by
  have hFirst := h.callableFree.apply_extractor behaviour
  have hLater := h.callableFree.wellFormed_extractor behaviour
  have hSame : Heap.AgreeOn world.heap.handles world.heap
      (Extractor.apply ⟨pipe.input, pipe.config⟩ behaviour source world).2.heap := by
    rw [hFirst]
    exact fun _ hLt => Heap.cell?_alloc_of_lt hLt
  have hThere : (Extractor.apply ⟨pipe.input, pipe.config⟩ behaviour source world).2.heap.cell?
      world.heap.size =
        some (Extraction.bindings behaviour pipe.config pipe.input source world).1.content := by
    rw [hFirst]
    exact Heap.cell?_alloc_self _ _
  have hEquals := h.equals_extraction behaviour hLater hSame hThere
  have hLeft : (Extractor.apply ⟨pipe.input, pipe.config⟩ behaviour source world).1 =
      .container world.heap.size := congrArg Prod.fst hFirst
  rw [← hLeft] at hEquals
  exact ⟨hEquals,
    hEquals.equal ((h.callableFree_later hLater hSame).wellFormed_extractor behaviour)⟩

/-- What is made of equal templates is equal. -/
theorem sameOutcome_apply (h : Rearranged pipe pipe' world.heap source) :
    world.SameOutcome (pipe.apply behaviour source) (pipe'.apply behaviour source) := by
  have hLater := (h.callableFree.wellFormed_apply behaviour).1
  have hSame := h.callableFree.agreeOn_apply behaviour
  have hSecond := h.callableFree_later hLater hSame
  obtain ⟨place, -, hImage⟩ := h.callableFree.exists_image behaviour
  obtain ⟨place', -, hImage'⟩ := hSecond.exists_image behaviour
  obtain ⟨document, hUnfolds⟩ := Heap.exists_unfolds h.callableFree.wellFormed.region_handles
    h.callableFree.output_within h.callableFree.output_free h.output_acyclic
  have hEquals := hImage.equals
    (hImage'.congr h.callableFree.wellFormed.region_handles h.callableFree'.output_within hSame)
    (hSecond.agreeOn_apply behaviour) (h.get_eq behaviour hSame) hUnfolds h.output_equals
    [] rfl rfl
  rw [← hImage.result_eq, ← hImage'.result_eq] at hEquals
  exact ⟨hEquals, hEquals.equal (hSecond.wellFormed_apply behaviour).1⟩

end Rearranged

/-- The order of independent placeholders does not matter, neither to an
extraction nor to a pipe. -/
theorem order_independent (pipe pipe' : Pipe) (behaviour : Behaviour Memory) (source : Value)
    (world : World Memory) (h : Rearranged pipe pipe' world.heap source) :
    world.SameOutcome (Extractor.apply ⟨pipe.input, pipe.config⟩ behaviour source)
        (Extractor.apply ⟨pipe'.input, pipe'.config⟩ behaviour source) ∧
      world.SameOutcome (pipe.apply behaviour source) (pipe'.apply behaviour source) :=
  ⟨h.sameOutcome_extraction behaviour, h.sameOutcome_apply behaviour⟩

/-- A source, and two input and two output templates whose entries are listed in
different orders. The zeros in them have different signs. -/
def shuffled : Heap where
  cells := #[
    .array #[.text "first", .text "second"],
    .object (.ofList [("name", .text "Ada"), ("tags", .container 0)]),
    .array #[.number (.float (.zero false)), .text "tag"],
    .object (.ofList [("name", .text "who"), ("tags", .container 2)]),
    .array #[.number (.float (.zero true)), .text "tag"],
    .object (.ofList [("tags", .container 4), ("name", .text "who")]),
    .object (.ofList [("a", .text "who"), ("b", .number (.ofNat 0)), ("c", .text "tag")]),
    .object (.ofList [("c", .text "tag"), ("b", .number (.ofNat 0)), ("a", .text "who")])]

theorem discover_shuffled : shuffled.discover (.container 3) =
    [⟨[.key "name"], .text "who"⟩, ⟨[.key "tags", .index 0], .number (.float (.zero false))⟩,
      ⟨[.key "tags", .index 1], .text "tag"⟩] := by
  rw [Heap.discover, Heap.discoverWith_eq]
  simp [Heap.placeholdersBelow, shuffled, Heap.cell?, Cell.entries, Fields.ofList, Fields.insertAll,
    Fields.insert, Fields.insertEntry, Fields.empty, Value.isPlaceholder, Value.isContainer,
    Placeholder.under]

theorem callableFree_shuffled {input output : Handle} (hInput : input < shuffled.size)
    (hOutput : output < shuffled.size) :
    CallableFree ⟨.container input, .container output, .default⟩ shuffled (.container 1) where
  wellFormed := by decide
  input_within := Value.within_container.mpr hInput
  output_within := Value.within_container.mpr hOutput
  source_within := Value.within_container.mpr (by decide : 1 < shuffled.size)
  input_free := Heap.callableFree_of_forall (by decide)
    ((by decide : ∀ root < shuffled.size, shuffled.kind (.container root) ≠ .callable) input hInput)
  output_free := Heap.callableFree_of_forall (by decide)
    ((by decide : ∀ root < shuffled.size, shuffled.kind (.container root) ≠ .callable) output
      hOutput)

theorem rearranged_shuffled :
    Rearranged ⟨.container 3, .container 6, .default⟩ ⟨.container 5, .container 7, .default⟩
      shuffled (.container 1) where
  callableFree := callableFree_shuffled (by decide) (by decide)
  callableFree' := callableFree_shuffled (by decide) (by decide)
  input_acyclic := Heap.acyclic_of_older (by decide) _
  input_acyclic' := Heap.acyclic_of_older (by decide) _
  output_acyclic := Heap.acyclic_of_older (by decide) _
  output_acyclic' := Heap.acyclic_of_older (by decide) _
  input_equal := by decide +kernel
  output_equal := by decide +kernel
  config_eq := rfl
  distinct := by
    have hZero : Segment.ofNumber (.float (.zero false)) = .index 0 := by decide +kernel
    rw [discover_shuffled]
    simp [Placeholder.request, Request.segment?, hZero, Segment.toKey]

/-- Neither the order of entries nor the sign of a zero makes a difference. -/
theorem order_independent_shuffled :
    Rearranged ⟨.container 3, .container 6, .default⟩ ⟨.container 5, .container 7, .default⟩
        shuffled (.container 1) ∧
      World.SameOutcome (⟨shuffled, ()⟩ : World Unit)
        (Extractor.apply ⟨.container 3, .default⟩ .silent (.container 1))
        (Extractor.apply ⟨.container 5, .default⟩ .silent (.container 1)) ∧
      World.SameOutcome (⟨shuffled, ()⟩ : World Unit)
        (apply ⟨.container 3, .container 6, .default⟩ .silent (.container 1))
        (apply ⟨.container 5, .container 7, .default⟩ .silent (.container 1)) :=
  ⟨rearranged_shuffled, order_independent ⟨.container 3, .container 6, .default⟩
    ⟨.container 5, .container 7, .default⟩ .silent (.container 1) ⟨shuffled, ()⟩
    rearranged_shuffled⟩

end Pipe

end Stencil
