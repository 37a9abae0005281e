import Stencil.Proofs.Extraction.Lookup
import Stencil.Proofs.Heap.Window
import Stencil.Proofs.Pipe.Preparation

/-!
Uniform callables. A callable has no other access to containers than by the handles
that it is called with or has captured, and it cannot tell where they are. So it does
the same in two worlds that a window shows to be the same, and leaves them the same
for a wider window. What extraction and filling do is uniform as well.
-/

namespace Stencil

variable {Memory : Type}

/-- The handles that callables have captured, and how their memory looks when the
containers have been moved. -/
structure Captures (Memory : Type) where
  roots : Memory → Set Handle
  moved : (Handle → Handle) → Memory → Memory
  moved_id : ∀ memory, moved id memory = memory
  /-- Moving depends on the captured handles alone. -/
  moved_congr : ∀ place place' memory, (∀ handle ∈ roots memory, place' handle = place handle) →
    moved place' memory = moved place memory

variable {captures : Captures Memory} {window window' window'' : Heap.Window}
  {world other after other' last last' : World Memory}

namespace World

/-- The window shows that the worlds are the same, as far as callables can see. -/
structure Shown (captures : Captures Memory) (window : Heap.Window) (world other : World Memory) :
    Prop where
  heap : window.Shows world.heap other.heap
  captured : captures.roots world.memory ⊆ window.region
  memory : other.memory = captures.moved window.place world.memory

/-- The worlds have come to where a wider window shows that they are the same. -/
structure Leads (captures : Captures Memory) (window : Heap.Window) (world other : World Memory)
    (window' : Heap.Window) (after other' : World Memory) : Prop where
  heaps : window.Leads world.heap other.heap window' after.heap other'.heap
  captured : captures.roots after.memory ⊆ window'.region
  memory : other'.memory = captures.moved window'.place after.memory

theorem Leads.shown (h : Leads captures window world other window' after other') :
    Shown captures window' after other' :=
  ⟨h.heaps.shows, h.captured, h.memory⟩

theorem Leads.refl (h : Shown captures window world other) :
    Leads captures window world other window world other :=
  ⟨.refl h.heap, h.captured, h.memory⟩

theorem Leads.trans (first : Leads captures window world other window' after other')
    (second : Leads captures window' after other' window'' last last') :
    Leads captures window world other window'' last last' :=
  ⟨first.heaps.trans second.heaps, second.captured, second.memory⟩

/-- What happens to the heaps alone leaves the memories the same. -/
theorem Shown.leads (h : Shown captures window world other) {heap heap' : Heap}
    (hLeads : window.Leads world.heap other.heap window' heap heap') :
    Leads captures window world other window' { world with heap } { other with heap := heap' } where
  heaps := hLeads
  captured := h.captured.trans hLeads.subset
  memory := by
    rw [h.memory]
    exact (captures.moved_congr _ _ _ fun handle hRoot =>
      hLeads.place_eq handle (h.captured hRoot)).symm

/-- What is added to the second world alone makes no difference. -/
theorem Shown.leads_alloc (h : Shown captures window world other) (cell : Cell) :
    Leads captures window world other window world
      { other with heap := (other.heap.alloc cell).2 } :=
  h.leads { Heap.Window.Leads.refl h.heap with
    shows := h.heap.alloc_right cell
    size_le' := (other.heap.size_alloc cell).symm ▸ Nat.le_succ _ }

end World

/-- Two calls that a window shows to be the same. -/
inductive Invocation.Paired (window : Heap.Window) : Invocation → Invocation → Prop where
  | extraction {value value' source source' : Value} {path : Path}
      (hValue : window.Pairs value value') (hSource : window.Pairs source source') :
      Paired window (.extraction value path source) (.extraction value' path source')
  | filling {bindings bindings' source source' : Value}
      (hBindings : window.Pairs bindings bindings') (hSource : window.Pairs source source') :
      Paired window (.filling bindings source) (.filling bindings' source')

/-- In worlds that are the same for a callable, the same call does the same. -/
def Procedure.Uniform (captures : Captures Memory) (procedure : Procedure Memory) : Prop :=
  ∀ window world other invocation invocation',
    World.Shown captures window world other → Invocation.Paired window invocation invocation' →
      ∃ window', World.Leads captures window world other window' (procedure invocation world).2
          (procedure invocation' other).2 ∧
        window'.Pairs (procedure invocation world).1 (procedure invocation' other).1

namespace Contribution

theorem Corresponds.imp {related related' : String → Value → Value → Prop}
    {contribution contribution' : Contribution}
    (h : Corresponds related contribution contribution')
    (hRelated : ∀ key value value', related key value value' → related' key value value') :
    Corresponds related' contribution contribution' := by
  cases h with
  | keyed h => exact .keyed (h.imp fun _ _ hEntry => ⟨hEntry.1, hRelated _ _ _ hEntry.2⟩)
  | positional h => exact .positional (h.imp fun _ _ hEntry => ⟨hEntry.1, hRelated _ _ _ hEntry.2⟩)

/-- Contributions that a window shows to be the same. -/
abbrev Paired (window : Heap.Window) : Contribution → Contribution → Prop :=
  Corresponds fun _ => window.Pairs

theorem Paired.mono {contribution contribution' : Contribution}
    (h : Paired window contribution contribution') {heap heap' later later' : Heap}
    (hLeads : window.Leads heap heap' window' later later') :
    Paired window' contribution contribution' :=
  h.imp fun _ _ _ hPairs => hPairs.mono hLeads

/-- What is in a container in view is in view. -/
theorem pairs_of_mem {heap heap' : Heap} (h : window.Shows heap heap') {value value' item : Value}
    {cell : Cell} (hValue : window.Pairs value value') (hContent : heap.content? value = some cell)
    (hItem : item ∈ cell.values) : window.Pairs item (item.moved window.place) := by
  refine ⟨?_, rfl⟩
  cases value with
  | container handle =>
      exact h.closed.closed handle (Value.within_container.mp hValue.within) cell hContent item hItem
  | _ => cases hContent

/-- The same outcome contributes the same. -/
theorem paired_ofOutcome {heap heap' : Heap} (h : window.Shows heap heap') {outcome outcome' : Value}
    (hOutcome : window.Pairs outcome outcome') {placeholder placeholder' : Placeholder}
    (hPath : placeholder'.path = placeholder.path) :
    Paired window (ofOutcome heap placeholder outcome) (ofOutcome heap' placeholder' outcome') := by
  have hMoved := h.content?_eq hOutcome
  rw [ofOutcome, ofOutcome, hMoved]
  cases hContent : heap.content? outcome with
  | none =>
      have hKey : placeholder'.lastKey = placeholder.lastKey := congrArg Path.lastKey hPath
      rw [Option.map_none, hKey]
      exact .keyed (.cons ⟨rfl, hOutcome⟩ .nil)
  | some cell =>
      have hItems := fun item => @pairs_of_mem _ _ _ h _ _ item _ hOutcome hContent
      cases cell with
      | array items =>
          simp only [Option.map_some, Cell.mapValues]
          refine .positional ?_
          rw [Array.toList_map, List.zipIdx_map, List.map_map, List.forall₂_map_left_iff,
            List.forall₂_map_right_iff, List.forall₂_same]
          exact fun entry hEntry => ⟨rfl, hItems _ (List.fst_mem_of_mem_zipIdx hEntry)⟩
      | object fields =>
          simp only [Option.map_some, Cell.mapValues]
          refine .keyed ?_
          rw [Fields.map, List.forall₂_map_right_iff, List.forall₂_same]
          exact fun entry hEntry => ⟨rfl, hItems _ (List.mem_map_of_mem hEntry)⟩

end Contribution

namespace Bindings

variable {contributions contributions' : List Contribution}

/-- Bindings that are merged from the same contributions read the same. -/
theorem pairs_get (config : Config)
    (h : List.Forall₂ (Contribution.Paired window) contributions contributions')
    (segment : Segment) :
    window.Pairs ((ofContributions config contributions).get segment)
      ((ofContributions config contributions').get segment) := by
  rcases get_related config h segment with ⟨hNull, hNull'⟩ | hPairs
  · rw [hNull, hNull']
    exact window.pairs_scalar rfl
  · exact hPairs

/-- They are stored in the same container. -/
theorem content_paired (config : Config)
    (h : List.Forall₂ (Contribution.Paired window) contributions contributions') :
    (ofContributions config contributions').content =
        (ofContributions config contributions).content.mapValues (Value.moved window.place) ∧
      ∀ value ∈ (ofContributions config contributions).content.values,
        value.Within window.region := by
  have hEntries : List.Forall₂ (fun entry entry' => entry.1 = entry'.1 ∧
      window.Pairs entry.2 entry'.2) (ofContributions config contributions).content.entries
        (ofContributions config contributions').content.entries := by
    refine (content_related config h).imp fun entry entry' hEntry => ⟨hEntry.1, ?_⟩
    rcases hEntry.2 with ⟨hNull, hNull'⟩ | hPairs
    · rw [hNull, hNull']
      exact window.pairs_scalar rfl
    · exact hPairs
  constructor
  · refine Cell.eq_of_entries ?_ ?_
    · rw [Cell.mapValues_eq_mapEntries, Cell.kind_mapEntries, (shape_related config h).1]
    · rw [Cell.entries_mapValues, ← List.forall₂_eq_eq_eq, List.forall₂_map_right_iff]
      exact hEntries.flip.imp fun entry' entry hEntry => Prod.ext hEntry.1.symm hEntry.2.moved
  · intro value hValue
    rw [Cell.values_eq_map_entries] at hValue
    obtain ⟨entry, hEntry, rfl⟩ := List.mem_map.mp hValue
    obtain ⟨i, hi, rfl⟩ := List.getElem_of_mem hEntry
    exact (hEntries.get hi (hEntries.length_eq ▸ hi)).2.within

end Bindings

namespace Pipe

variable {behaviour : Behaviour Memory} {bindings bindings' : Bindings}
  {extracted extracted' source source' result result' : Value} {placeholder : Placeholder}

/-- The same question has the same answer. -/
theorem exists_answer_paired (h : World.Shown captures window world other)
    (hBindings : ∀ segment, window.Pairs (bindings.get segment) (bindings'.get segment))
    (hExtracted : window.Pairs extracted extracted') (hSource : window.Pairs source source')
    (hUniform : ∀ id, placeholder.request = .function id → (behaviour id).Uniform captures) :
    ∃ window', World.Leads captures window world other window'
        (answer behaviour bindings extracted source placeholder world).2
        (answer behaviour bindings' extracted' source' placeholder other).2 ∧
      Option.Rel window'.Pairs (answer behaviour bindings extracted source placeholder world).1
        (answer behaviour bindings' extracted' source' placeholder other).1 := by
  unfold answer
  cases hRequest : placeholder.request with
  | name name => exact ⟨window, .refl h, .some (hBindings _)⟩
  | position number => exact ⟨window, .refl h, .some (hBindings _)⟩
  | inert => exact ⟨window, .refl h, .none⟩
  | function id =>
      obtain ⟨window', hLeads, hOutcome⟩ :=
        hUniform id hRequest window world other _ _ h (.filling hExtracted hSource)
      exact ⟨window', hLeads, .some hOutcome⟩

/-- A turn: an answer, which is written unless there is none. -/
theorem fill_cons (behaviour : Behaviour Memory) (bindings : Bindings)
    (extracted source result : Value) (placeholder : Placeholder) (rest : List Placeholder)
    (world : World Memory) :
    fill behaviour bindings extracted source (placeholder :: rest) result world =
      match (answer behaviour bindings extracted source placeholder world).1 with
      | none => fill behaviour bindings extracted source rest result
          (answer behaviour bindings extracted source placeholder world).2
      | some value => fill behaviour bindings extracted source rest
          ((answer behaviour bindings extracted source placeholder world).2.heap.setPath result
            placeholder.path value).1
          { (answer behaviour bindings extracted source placeholder world).2 with
            heap := ((answer behaviour bindings extracted source placeholder world).2.heap.setPath
              result placeholder.path value).2 } := by
  rw [fill]
  rcases answer behaviour bindings extracted source placeholder world with ⟨_ | value, after⟩
  · rfl
  · rfl

/-- The same copy is filled in the same way. Each turn goes on in the window that the
turns before it have led to. -/
theorem exists_fill_paired (placeholders : List Placeholder)
    (h : World.Shown captures window world other)
    (hBindings : ∀ segment, window.Pairs (bindings.get segment) (bindings'.get segment))
    (hExtracted : window.Pairs extracted extracted') (hSource : window.Pairs source source')
    (hResult : window.Pairs result result')
    (hUniform : ∀ placeholder ∈ placeholders, ∀ id, placeholder.request = .function id →
      (behaviour id).Uniform captures) :
    ∃ window', World.Leads captures window world other window'
        (fill behaviour bindings extracted source placeholders result world).2
        (fill behaviour bindings' extracted' source' placeholders result' other).2 ∧
      window'.Pairs (fill behaviour bindings extracted source placeholders result world).1
        (fill behaviour bindings' extracted' source' placeholders result' other).1 := by
  induction placeholders generalizing window world other result result' with
  | nil => exact ⟨window, .refl h, hResult⟩
  | cons placeholder rest ih =>
      rw [List.forall_mem_cons] at hUniform
      obtain ⟨middle, hLeads, hAnswer⟩ :=
        exists_answer_paired h hBindings hExtracted hSource hUniform.1
      have hHeaps := hLeads.heaps
      have hRest := fun {window' world' other' result result'}
          (hNext : World.Leads captures window world other window' world' other')
          (hResult : window'.Pairs result result') =>
        ih hNext.shown (fun segment => (hBindings segment).mono hNext.heaps)
          (hExtracted.mono hNext.heaps) (hSource.mono hNext.heaps) hResult hUniform.2
      rw [fill_cons, fill_cons]
      generalize (answer behaviour bindings extracted source placeholder world).1 = found,
        (answer behaviour bindings' extracted' source' placeholder other).1 = found' at hAnswer ⊢
      cases hAnswer with
      | none =>
          obtain ⟨last, hLast, hEnd⟩ := hRest hLeads (hResult.mono hHeaps)
          exact ⟨last, hLeads.trans hLast, hEnd⟩
      | some hValue =>
          obtain ⟨written, hWrite, hRoot⟩ :=
            hHeaps.shows.setPath (hResult.mono hHeaps) placeholder.path hValue
          have hNext := hLeads.trans (hLeads.shown.leads hWrite)
          obtain ⟨last, hLast, hEnd⟩ := hRest hNext hRoot
          exact ⟨last, hNext.trans hLast, hEnd⟩

/-- What is prepared for filling, in two worlds that are the same as far as it is
concerned. -/
structure Paired (captures : Captures Memory) (window : Heap.Window)
    (prepared prepared' : Prepared Memory) : Prop where
  shown : World.Shown captures window prepared.world prepared'.world
  bindings : ∀ segment, window.Pairs (prepared.bindings.get segment)
    (prepared'.bindings.get segment)
  extracted : window.Pairs prepared.extracted prepared'.extracted

/-- Where the same has been prepared, a pipe goes on in the same way. -/
theorem Paired.exists_stage {pipe pipe' : Pipe} {prepared prepared' : Prepared Memory}
    (h : Paired captures window prepared prepared') (hSource : window.Pairs source source')
    (hOutput : window.Pairs pipe.output pipe'.output)
    (hUniform : ∀ placeholder ∈ pipe.slots prepared, ∀ id, placeholder.request = .function id →
      (behaviour id).Uniform captures) :
    ∃ window', World.Leads captures window prepared.world prepared'.world window'
        (pipe.stage behaviour source prepared (pipe.slots prepared)).2
        (pipe'.stage behaviour source' prepared' (pipe'.slots prepared')).2 ∧
      window'.Pairs (pipe.stage behaviour source prepared (pipe.slots prepared)).1
        (pipe'.stage behaviour source' prepared' (pipe'.slots prepared')).1 := by
  obtain ⟨hCopied, hResult⟩ := Heap.Window.leads_copied h.shown.heap hOutput
  have hBlank := h.shown.leads hCopied
  have hSlots : pipe'.slots prepared' = pipe.slots prepared :=
    hCopied.shows.discover_eq (hOutput.mono hCopied)
  obtain ⟨window', hLeads, hEnd⟩ := exists_fill_paired (pipe.slots prepared) hBlank.shown
    (fun segment => (h.bindings segment).mono hCopied) (h.extracted.mono hCopied)
    (hSource.mono hCopied) hResult hUniform
  rw [stage, stage, hSlots]
  exact ⟨window', hBlank.trans hLeads, hEnd⟩

end Pipe

end Stencil
