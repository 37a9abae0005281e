import Stencil.Proofs.Extraction.Lookup
import Stencil.Proofs.Pipe.CallableFree

/-!
Extraction that calls nothing. Every placeholder contributes as if it came
first, so bindings depend on nothing but what the template and the source reach.
A template that asks for names only binds each name to what it has found last,
and a template that finds what it has bound before binds it again.
-/

namespace Stencil

variable {Memory : Type}

namespace Bindings

/-- A segment reads as the key that it stands for. -/
theorem get_key_toKey (bindings : Bindings) (segment : Segment) :
    bindings.get (.key segment.toKey) = bindings.get segment := by
  have hPosition : (Segment.key segment.toKey).position? = segment.position? := by
    ext position
    rw [Segment.position?_eq_some_iff, Segment.position?_eq_some_iff]
    rfl
  cases bindings with
  | mapping fields => rfl
  | sequence items named =>
      rw [get, get, hPosition]
      rfl

end Bindings

/-- Whatever comes last, a key reads as its value if all of its entries have this
value. -/
theorem lookup_eq_some_of_forall {entries : List (String × Value)} {key : String} {value : Value}
    (hAll : ∀ entry ∈ entries, entry.1 = key → entry.2 = value)
    (hSome : ∃ entry ∈ entries, entry.1 = key) : entries.lookup key = some value := by
  obtain ⟨⟨head, given⟩, hMem, rfl⟩ := hSome
  cases hFound : entries.lookup head with
  | none =>
      have hNe := List.lookup_eq_none_iff.mp hFound _ hMem
      exact absurd rfl (bne_iff_ne.mp hNe)
  | some found =>
      obtain ⟨front, back, rfl, -⟩ := List.lookup_eq_some_iff.mp hFound
      exact congrArg some
        (hAll (head, found) (List.mem_append_right front List.mem_cons_self) rfl)

/-- What is read inside a region, and so what a template calls, depends on the
content of the region alone. -/
theorem Heap.CallableFree.congr {heap other : Heap} {template : Value} {region : Set Handle}
    (h : heap.CallableFree template) (hSame : AgreeOn region heap other)
    (hRegion : heap.Region region) (hTemplate : template.Within region) :
    other.CallableFree template := by
  intro path id
  rw [hSame.getPath hRegion hTemplate]
  exact h path id

/-- What a placeholder that calls nothing contributes when a value is found at its
path. -/
def Placeholder.binding (placeholder : Placeholder) (found : Value) : Contribution :=
  match placeholder.request with
  | .name name => .keyed [(name, found)]
  | .position number =>
    .positional (number.position?.toList.map fun position => (position, found))
  | _ => .keyed []

/-- A placeholder contributes related values under one key, whatever is found. -/
theorem Placeholder.binding_corresponds {related : String → Value → Value → Prop}
    {placeholder : Placeholder} {found other : Value}
    (hName : ∀ name, placeholder.request = .name name → related name found other)
    (hPosition : ∀ number position, placeholder.request = .position number →
      number.position? = some position → related (Segment.index position).toKey found other) :
    (placeholder.binding found).Corresponds related (placeholder.binding other) := by
  unfold binding
  cases hRequest : placeholder.request with
  | name name => exact .keyed (.cons ⟨rfl, hName name hRequest⟩ .nil)
  | position number =>
      refine .positional ?_
      cases hFound : number.position? with
      | none => exact .nil
      | some position => exact .cons ⟨rfl, hPosition number position hRequest hFound⟩ .nil
  | _ => exact .keyed .nil

/-- Values that have been bound once are bound again to the same segments, even
where several were bound to one and only the last has stayed. -/
theorem Bindings.get_rebound (config : Config) {placeholders : List Placeholder}
    {found again : Placeholder → Value} {bindings : Bindings}
    (hBindings : bindings = ofContributions config
      (placeholders.map fun placeholder => placeholder.binding (found placeholder)))
    (hName : ∀ placeholder ∈ placeholders, ∀ name, placeholder.request = .name name →
      again placeholder = bindings.get (.key name))
    (hPosition : ∀ placeholder ∈ placeholders, ∀ number, placeholder.request = .position number →
      again placeholder = bindings.get (.ofNumber number)) (segment : Segment) :
    (ofContributions config
        (placeholders.map fun placeholder => placeholder.binding (again placeholder))).get segment =
      bindings.get segment := by
  have hCorresponds : List.Forall₂
      (Contribution.Corresponds fun key _ value => value = bindings.get (.key key))
      (placeholders.map fun placeholder => placeholder.binding (found placeholder))
      (placeholders.map fun placeholder => placeholder.binding (again placeholder)) := by
    rw [List.forall₂_map_left_iff, List.forall₂_map_right_iff, List.forall₂_same]
    intro placeholder hMem
    refine Placeholder.binding_corresponds (hName placeholder hMem) ?_
    intro number position hRequest hFound
    rw [hPosition placeholder hMem number hRequest, Segment.ofNumber, hFound, get_key_toKey]
  rcases get_related config hCorresponds segment with ⟨hNull, hAgain⟩ | hSame
  · rw [hBindings, hNull, hAgain]
  · rw [hSame, get_key_toKey]

namespace Extraction

variable {behaviour : Behaviour Memory} {source template : Value} {world other : World Memory}
  {region : Set Handle}

/-- Where nothing is called, a contribution is what is found at a path. -/
theorem contribute_eq_binding {placeholder : Placeholder}
    (h : ∀ id, placeholder.request ≠ .function id) :
    (contribute behaviour source placeholder world).1 =
      placeholder.binding (world.heap.getPath source placeholder.path) := by
  unfold contribute Placeholder.binding
  cases hRequest : placeholder.request with
  | function id => exact absurd hRequest (h id)
  | _ => rfl

/-- Where nothing is called, the turns do not affect one another. -/
theorem contributions_eq_map {placeholders : List Placeholder}
    (h : ∀ placeholder ∈ placeholders, ∀ id, placeholder.request ≠ .function id)
    (world : World Memory) :
    (contributions behaviour source placeholders world).1 = placeholders.map fun placeholder =>
      placeholder.binding (world.heap.getPath source placeholder.path) := by
  induction placeholders with
  | nil => rfl
  | cons placeholder rest ih =>
      rw [List.forall_mem_cons] at h
      rw [contributions_cons, contribute_world h.1, List.map_cons, ih h.2,
        contribute_eq_binding h.1]

/-- A template without callables binds what is found at its paths. -/
theorem bindings_eq (hFree : world.heap.CallableFree template) (hRegion : world.heap.Region region)
    (hTemplate : template.Within region) (config : Config) :
    (bindings behaviour config template source world).1 =
      .ofContributions config ((world.heap.discover template).map fun placeholder =>
        placeholder.binding (world.heap.getPath source placeholder.path)) :=
  congrArg (Bindings.ofContributions config)
    (contributions_eq_map (hFree.request_ne hRegion hTemplate) world)

/-- Two heaps that agree on what the template and the source can reach give the
same bindings. -/
theorem bindings_congr (hFree : world.heap.CallableFree template)
    (hRegion : world.heap.Region region) (hTemplate : template.Within region)
    (hSource : source.Within region) (hSame : Heap.AgreeOn region world.heap other.heap)
    (config : Config) :
    (bindings behaviour config template source other).1 =
      (bindings behaviour config template source world).1 := by
  rw [bindings_eq hFree hRegion hTemplate,
    bindings_eq (hFree.congr hSame hRegion hTemplate) (hRegion.congr hSame) hTemplate,
    hSame.discover hRegion hTemplate]
  simp only [hSame.getPath hRegion hSource]

/-- A template that asks for names only, every one of them for the same value
wherever it occurs, binds them to these values. -/
theorem get_bindings_of_names (behaviour : Behaviour Memory) (config : Config)
    (given : String → Value)
    (hNames : ∀ placeholder ∈ world.heap.discover template,
      placeholder.request = .inert ∨ ∃ name, placeholder.request = .name name)
    (hGiven : ∀ placeholder ∈ world.heap.discover template, ∀ name,
      placeholder.request = .name name →
        world.heap.getPath source placeholder.path = given name)
    {segment : Segment} (hSegment : ∃ placeholder ∈ world.heap.discover template,
      placeholder.request = .name segment.toKey) :
    (bindings behaviour config template source world).1.get segment = given segment.toKey := by
  have hNone : ∀ placeholder ∈ world.heap.discover template, ∀ id,
      placeholder.request ≠ .function id := by
    intro placeholder hMem id hRequest
    rcases hNames placeholder hMem with hInert | ⟨name, hName⟩
    · cases hInert.symm.trans hRequest
    · cases hName.symm.trans hRequest
  have hKeyed : ∀ contribution ∈ (contributions behaviour source
      (world.heap.discover template) world).1, contribution.isPositional = false := by
    rw [contributions_eq_map hNone]
    intro contribution hContribution
    obtain ⟨placeholder, hMem, rfl⟩ := List.mem_map.mp hContribution
    rcases hNames placeholder hMem with hInert | ⟨name, hName⟩
    · simp only [Placeholder.binding, hInert, Contribution.isPositional]
    · simp only [Placeholder.binding, hName, Contribution.isPositional]
  simp only [bindings]
  rw [Bindings.get_ofContributions, Bindings.candidates_of_mapping hKeyed,
    lookup_eq_some_of_forall, Option.getD_some]
  · intro entry hEntry hKey
    rw [List.mem_reverse, contributions_eq_map hNone, List.mem_flatMap] at hEntry
    obtain ⟨contribution, hContribution, hEntry⟩ := hEntry
    obtain ⟨placeholder, hMem, rfl⟩ := List.mem_map.mp hContribution
    rcases hNames placeholder hMem with hInert | ⟨name, hName⟩
    · simp [Placeholder.binding, hInert, Contribution.entries] at hEntry
    · simp only [Placeholder.binding, hName, Contribution.entries, List.mem_singleton] at hEntry
      subst hEntry
      rw [hGiven placeholder hMem name hName, ← hKey]
  · obtain ⟨placeholder, hMem, hName⟩ := hSegment
    refine ⟨(segment.toKey, world.heap.getPath source placeholder.path), ?_, rfl⟩
    rw [List.mem_reverse, contributions_eq_map hNone, List.mem_flatMap]
    refine ⟨_, List.mem_map.mpr ⟨placeholder, hMem, rfl⟩, ?_⟩
    simp [Placeholder.binding, hName, Contribution.entries]

end Extraction

end Stencil
