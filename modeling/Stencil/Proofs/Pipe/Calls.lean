import Stencil.Proofs.Extraction.MergeLaw
import Stencil.Proofs.Pipe.Preparation

/-!
How callables are called. Callables that log every call show which calls a run
makes, in which order and on what. They may write to anything meanwhile: the
source, the templates, what other callables have returned. Nothing is assumed
about what they do.
-/

namespace Stencil

variable {Memory : Type}

/-- One call of a callable: what it is called with and in which state, and what
it returns and leaves behind. -/
structure Call (Memory : Type) where
  id : CallableId
  invocation : Invocation
  before : World Memory
  outcome : Value
  after : World Memory

namespace World

/-- A world whose memory has a log of calls beside it. -/
def logged (world : World Memory) (log : List (Call Memory)) : World (Memory × List (Call Memory)) :=
  ⟨world.heap, world.memory, log⟩

/-- The world without its log. -/
def plain (world : World (Memory × List (Call Memory))) : World Memory :=
  ⟨world.heap, world.memory.1⟩

end World

namespace Behaviour

/-- The call that is made in this state. -/
def call (behaviour : Behaviour Memory) (id : CallableId) (invocation : Invocation)
    (world : World Memory) : Call Memory :=
  ⟨id, invocation, world, (behaviour id invocation world).1, (behaviour id invocation world).2⟩

/-- Callables that do the same, and put every call at the end of the log. -/
def recorded (behaviour : Behaviour Memory) : Behaviour (Memory × List (Call Memory)) :=
  fun id invocation world =>
    let call := behaviour.call id invocation world.plain
    (call.outcome, call.after.logged (world.memory.2 ++ [call]))

end Behaviour

/-- The callable that a placeholder calls. -/
def Placeholder.callable? (placeholder : Placeholder) : Option CallableId :=
  match placeholder.request with
  | .function id => some id
  | _ => none

theorem Placeholder.callable?_eq_none_iff {placeholder : Placeholder} :
    placeholder.callable? = none ↔ ∀ id, placeholder.request ≠ .function id := by
  unfold callable?
  cases placeholder.request <;> simp

theorem Placeholder.callable?_eq_some_iff {placeholder : Placeholder} {id : CallableId} :
    placeholder.callable? = some id ↔ placeholder.request = .function id := by
  unfold callable?
  cases placeholder.request <;> simp

namespace Extraction

/-- The turn of a placeholder: the call that it makes, if any, and what it
contributes. -/
structure Step (Memory : Type) where
  placeholder : Placeholder
  call? : Option (Call Memory)
  contribution : Contribution

/-- Nothing changes from one call to the next. -/
inductive Chained : World Memory → List (Call Memory) → World Memory → Prop where
  | nil (world : World Memory) : Chained world [] world
  | cons {world after : World Memory} {call : Call Memory} {calls : List (Call Memory)}
      (hBefore : call.before = world) (h : Chained call.after calls after) :
      Chained world (call :: calls) after

/-- Placeholders that have had their turns one after the other, from a world to
another. -/
structure Orderly (behaviour : Behaviour Memory) (source : Value) (placeholders : List Placeholder)
    (before : World Memory) (steps : List (Step Memory)) (after : World Memory) : Prop where
  /-- Every placeholder has one turn, and no other has one. -/
  placeholders_eq : steps.map Step.placeholder = placeholders
  /-- One callable is called in the turn of a callable, and none in any other. -/
  called : ∀ step ∈ steps, step.call?.map Call.id = step.placeholder.callable?
  /-- It is called with the path of the placeholder, the source, and what is
  found at the path at that time. -/
  given : ∀ step ∈ steps, ∀ call ∈ step.call?, call.invocation =
    .extraction (call.before.heap.getPath source step.placeholder.path) step.placeholder.path source
  /-- What is logged as a call is what the callable does. -/
  genuine : ∀ step ∈ steps, ∀ call ∈ step.call?,
    behaviour call.id call.invocation call.before = (call.outcome, call.after)
  /-- Every call starts from what the calls before it have left. -/
  chained : Chained before (steps.filterMap Step.call?) after
  /-- An array that a callable returns contributes the items that it has when the
  call returns, each at its position. -/
  array : ∀ step ∈ steps, ∀ call ∈ step.call?, ∀ items,
    call.after.heap.content? call.outcome = some (.array items) →
      step.contribution =
        .positional (items.toList.zipIdx.map fun (item, position) => (position, item))
  /-- An object that a callable returns contributes the entries that it has when the
  call returns. -/
  object : ∀ step ∈ steps, ∀ call ∈ step.call?, ∀ fields,
    call.after.heap.content? call.outcome = some (.object fields) →
      step.contribution = .keyed fields.entries

variable {behaviour : Behaviour Memory} {source : Value}

/-- The turn of a placeholder in a world. -/
def step (behaviour : Behaviour Memory) (source : Value) (placeholder : Placeholder)
    (world : World Memory) : Step Memory where
  placeholder := placeholder
  call? := placeholder.callable?.map fun id => behaviour.call id
    (.extraction (world.heap.getPath source placeholder.path) placeholder.path source) world
  contribution := (contribute behaviour source placeholder world).1

/-- A callable contributes what its outcome is when the call returns. -/
theorem contribution_of_callable {placeholder : Placeholder} {id : CallableId} {world : World Memory}
    (h : placeholder.callable? = some id) :
    (contribute behaviour source placeholder world).1 =
      .ofOutcome (behaviour.call id (.extraction (world.heap.getPath source placeholder.path)
          placeholder.path source) world).after.heap placeholder
        (behaviour.call id (.extraction (world.heap.getPath source placeholder.path)
          placeholder.path source) world).outcome := by
  rw [contribute, Placeholder.callable?_eq_some_iff.mp h]
  rfl

/-- A turn changes what its call changes. -/
theorem chained_step (behaviour : Behaviour Memory) (source : Value) (placeholder : Placeholder)
    {world after : World Memory} {steps : List (Step Memory)}
    (h : Chained (contribute behaviour source placeholder world).2 (steps.filterMap Step.call?)
      after) :
    Chained world ((step behaviour source placeholder world :: steps).filterMap Step.call?)
      after := by
  cases hCallable : placeholder.callable? with
  | none =>
      rw [contribute_world (Placeholder.callable?_eq_none_iff.mp hCallable)] at h
      rwa [List.filterMap_cons_none (by rw [step, hCallable, Option.map_none])]
  | some id =>
      rw [contribute, Placeholder.callable?_eq_some_iff.mp hCallable] at h
      rw [List.filterMap_cons_some (by rw [step, hCallable, Option.map_some])]
      exact .cons rfl h

/-- One turn, and then the turns of others. -/
theorem Orderly.cons {placeholder : Placeholder} {rest : List Placeholder}
    {world after : World Memory} {steps : List (Step Memory)}
    (h : Orderly behaviour source rest (contribute behaviour source placeholder world).2 steps
      after) :
    Orderly behaviour source (placeholder :: rest) world
      (step behaviour source placeholder world :: steps) after where
  placeholders_eq := by
    rw [List.map_cons, h.placeholders_eq]
    rfl
  called := by
    rw [List.forall_mem_cons]
    refine ⟨?_, h.called⟩
    simp only [step]
    cases placeholder.callable? <;> rfl
  given := by
    rw [List.forall_mem_cons]
    refine ⟨fun call hCall => ?_, h.given⟩
    obtain ⟨id, -, rfl⟩ := Option.map_eq_some_iff.mp hCall
    rfl
  genuine := by
    rw [List.forall_mem_cons]
    refine ⟨fun call hCall => ?_, h.genuine⟩
    obtain ⟨id, -, rfl⟩ := Option.map_eq_some_iff.mp hCall
    rfl
  chained := chained_step behaviour source placeholder h.chained
  array := by
    rw [List.forall_mem_cons]
    refine ⟨fun call hCall items hItems => ?_, h.array⟩
    obtain ⟨id, hCallable, rfl⟩ := Option.map_eq_some_iff.mp hCall
    rw [step, contribution_of_callable hCallable, Contribution.ofOutcome, hItems]
  object := by
    rw [List.forall_mem_cons]
    refine ⟨fun call hCall fields hFields => ?_, h.object⟩
    obtain ⟨id, hCallable, rfl⟩ := Option.map_eq_some_iff.mp hCall
    rw [step, contribution_of_callable hCallable, Contribution.ofOutcome, hFields]

/-- Callables that log their calls contribute the same, and have logged one call
more if it was the turn of one. -/
theorem contribute_recorded (placeholder : Placeholder) (world : World Memory)
    (log : List (Call Memory)) :
    contribute behaviour.recorded source placeholder (world.logged log) =
      ((contribute behaviour source placeholder world).1,
        (contribute behaviour source placeholder world).2.logged
          (log ++ (step behaviour source placeholder world).call?.toList)) := by
  unfold contribute step Placeholder.callable?
  cases placeholder.request with
  | function id => rfl
  | _ => exact congrArg (fun log => (_, world.logged log)) (List.append_nil log).symm

/-- Whatever callables do, placeholders have their turns in order, and what is
logged is the calls that were made in these turns. -/
theorem exists_orderly (behaviour : Behaviour Memory) (source : Value)
    (placeholders : List Placeholder) (world : World Memory) :
    ∃ steps after, Orderly behaviour source placeholders world steps after ∧
      contributions behaviour source placeholders world =
        (steps.map Step.contribution, after) ∧
      ∀ log, contributions behaviour.recorded source placeholders (world.logged log) =
        (steps.map Step.contribution, after.logged (log ++ steps.filterMap Step.call?)) := by
  induction placeholders generalizing world with
  | nil =>
      refine ⟨[], world, ?_, rfl, fun log => ?_⟩
      · exact ⟨rfl, by simp, by simp, by simp, .nil world, by simp, by simp⟩
      · rw [List.filterMap_nil, List.append_nil]
        rfl
  | cons placeholder rest ih =>
      obtain ⟨steps, after, hOrderly, hPlain, hRecorded⟩ :=
        ih (contribute behaviour source placeholder world).2
      refine ⟨_, after, hOrderly.cons, ?_, fun log => ?_⟩
      · rw [contributions_cons, hPlain]
        rfl
      · rw [contributions_cons, contribute_recorded, hRecorded, List.filterMap_cons,
          List.append_assoc]
        cases (step behaviour source placeholder world).call? <;> rfl

end Extraction

namespace Pipe

variable {behaviour : Behaviour Memory} {bindings : Bindings} {extracted source : Value}

/-- Callables that log their calls give the same answer, and have logged one call
more if one of them was asked. -/
theorem answer_recorded (placeholder : Placeholder) (world : World Memory)
    (log : List (Call Memory)) :
    answer behaviour.recorded bindings extracted source placeholder (world.logged log) =
      ((answer behaviour bindings extracted source placeholder world).1,
        (answer behaviour bindings extracted source placeholder world).2.logged
          (log ++ (placeholder.callable?.map fun id =>
            behaviour.call id (.filling extracted source) world).toList)) := by
  unfold answer Placeholder.callable?
  cases placeholder.request with
  | function id => rfl
  | _ => exact congrArg (fun log => (_, world.logged log)) (List.append_nil log).symm

theorem fill_singleton_recorded (placeholder : Placeholder) (result : Value)
    (world : World Memory) (log : List (Call Memory)) :
    fill behaviour.recorded bindings extracted source [placeholder] result (world.logged log) =
      ((fill behaviour bindings extracted source [placeholder] result world).1,
        (fill behaviour bindings extracted source [placeholder] result world).2.logged
          (log ++ (placeholder.callable?.map fun id =>
            behaviour.call id (.filling extracted source) world).toList)) := by
  rw [fill, fill, answer_recorded]
  rcases answer behaviour bindings extracted source placeholder world with ⟨_ | value, after⟩
  · rfl
  · rfl

/-- What is logged while placeholders are filled: one call for each callable, in
order, and every call is given the extracted value and the source. -/
theorem exists_fillings (behaviour : Behaviour Memory) (bindings : Bindings)
    (extracted source : Value) (placeholders : List Placeholder) (result : Value)
    (world : World Memory) :
    ∃ fillings : List (Call Memory),
      fillings.map Call.id = placeholders.filterMap Placeholder.callable? ∧
      (∀ call ∈ fillings, call.invocation = .filling extracted source) ∧
      ∀ log, fill behaviour.recorded bindings extracted source placeholders result
          (world.logged log) =
        ((fill behaviour bindings extracted source placeholders result world).1,
          (fill behaviour bindings extracted source placeholders result world).2.logged
            (log ++ fillings)) := by
  induction placeholders generalizing result world with
  | nil =>
      refine ⟨[], rfl, by simp, fun log => ?_⟩
      rw [List.append_nil]
      rfl
  | cons placeholder rest ih =>
      obtain ⟨fillings, hIds, hInvocation, hRest⟩ :=
        ih (fill behaviour bindings extracted source [placeholder] result world).1
          (fill behaviour bindings extracted source [placeholder] result world).2
      refine ⟨(placeholder.callable?.map fun id =>
        behaviour.call id (.filling extracted source) world).toList ++ fillings, ?_, ?_, ?_⟩
      · rw [List.map_append, hIds, List.filterMap_cons]
        cases placeholder.callable? <;> rfl
      · rw [List.forall_mem_append]
        refine ⟨fun call hCall => ?_, hInvocation⟩
        obtain ⟨id, -, rfl⟩ := Option.map_eq_some_iff.mp (Option.mem_toList.mp hCall)
        rfl
      · intro log
        rw [← List.singleton_append, fill_append, fill_append, fill_singleton_recorded, hRest,
          List.append_assoc]

end Pipe

/-- An account of the calls that a template makes of a source, by itself and as
the input template of pipes. It does not depend on the configuration. -/
structure Accounted (behaviour : Behaviour Memory) (template source : Value) (world : World Memory)
    (steps : List (Extraction.Step Memory)) (after : World Memory) : Prop where
  /-- The placeholders that are there before the first call have their turns. -/
  orderly : Extraction.Orderly behaviour source (world.heap.discover template) world steps after
  /-- In these turns all placeholders contribute what they are to contribute. -/
  turns : Extraction.Turns behaviour source (world.heap.discover template) world
    (steps.map Extraction.Step.contribution) after
  /-- What has been contributed is merged after the last call, into a new container. -/
  merged : ∀ config, ∃ cell,
    Bindings.Merged config (steps.map Extraction.Step.contribution) cell ∧
      Extractor.apply ⟨template, config⟩ behaviour source world =
        (.container after.heap.size, { after with heap := (after.heap.alloc cell).2 })
  /-- An extraction makes the calls of these turns and no other. -/
  extraction : ∀ config, Extractor.apply ⟨template, config⟩ behaviour.recorded source
      (world.logged []) =
    ((Extractor.apply ⟨template, config⟩ behaviour source world).1,
      (Extractor.apply ⟨template, config⟩ behaviour source world).2.logged
        (steps.filterMap Extraction.Step.call?))
  /-- A pipe first makes the calls of these turns, and then those of the output
  template. -/
  pipe : ∀ pipe : Pipe, pipe.input = template → ∃ fillings : List (Call Memory),
    fillings.map Call.id = (pipe.slots (pipe.prepare behaviour source world)).filterMap
        Placeholder.callable? ∧
      (∀ call ∈ fillings, call.invocation =
        .filling (pipe.prepare behaviour source world).extracted source) ∧
      pipe.apply behaviour.recorded source (world.logged []) =
        ((pipe.apply behaviour source world).1,
          (pipe.apply behaviour source world).2.logged
            (steps.filterMap Extraction.Step.call? ++ fillings))

/-- Whatever callables do, there is one account of the calls that a template
makes, and it holds under every configuration and for every output template. -/
theorem exists_accounted (behaviour : Behaviour Memory) (template source : Value)
    (world : World Memory) :
    ∃ steps after, Accounted behaviour template source world steps after := by
  obtain ⟨steps, after, hOrderly, hPlain, hRecorded⟩ :=
    Extraction.exists_orderly behaviour source (world.heap.discover template) world
  have hBindings : ∀ config, Extraction.bindings behaviour config template source world =
      (.ofContributions config (steps.map Extraction.Step.contribution), after) := fun config =>
    congrArg (fun contributed => (Bindings.ofContributions config contributed.1, contributed.2)) hPlain
  have hLogged : ∀ config,
      Extraction.bindings behaviour.recorded config template source (world.logged []) =
        (.ofContributions config (steps.map Extraction.Step.contribution),
          after.logged (steps.filterMap Extraction.Step.call?)) := fun config =>
    congrArg (fun contributed => (Bindings.ofContributions config contributed.1, contributed.2))
      (hRecorded [])
  refine ⟨steps, after, hOrderly, ?_, fun config => ?_, fun config => ?_, ?_⟩
  · exact (Extraction.turns_iff fun _ => Heap.isContainer_of_mem_discover).mpr hPlain
  · refine ⟨_, Bindings.merged_content config (steps.map Extraction.Step.contribution), ?_⟩
    rw [Extractor.apply, hBindings]
    rfl
  · rw [Extractor.apply, Extractor.apply, hBindings, hLogged]
    rfl
  · rintro pipe rfl
    obtain ⟨fillings, hIds, hInvocation, hFill⟩ := Pipe.exists_fillings behaviour
      (pipe.prepare behaviour source world).bindings (pipe.prepare behaviour source world).extracted
      source (pipe.slots (pipe.prepare behaviour source world))
      (pipe.blank (pipe.prepare behaviour source world)).1
      (pipe.blank (pipe.prepare behaviour source world)).2
    refine ⟨fillings, hIds, hInvocation, ?_⟩
    have hPrepare : pipe.prepare behaviour.recorded source (world.logged []) =
        ⟨(pipe.prepare behaviour source world).bindings,
          (pipe.prepare behaviour source world).extracted,
          (pipe.prepare behaviour source world).world.logged
            (steps.filterMap Extraction.Step.call?)⟩ := by
      rw [Pipe.prepare, Pipe.prepare, hBindings, hLogged]
      rfl
    rw [Pipe.apply_eq, Pipe.apply_eq, hPrepare]
    exact hFill _

end Stencil
