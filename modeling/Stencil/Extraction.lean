import Stencil.Bindings
import Stencil.Placeholder
import Stencil.Procedure

/-!
Extraction. A template has the shape of the source, and each of its placeholders
says where the value at the same path of the source goes: a text binds it under
that name, a number at that position, and a callable computes what is bound.
Placeholders are found before the first callable is called, and take their turns
in the order they were found.
-/

namespace Stencil

variable {Memory : Type}

namespace Contribution

/-- What the outcome of a callable contributes. A container contributes the
entries it holds when the call returns. Anything else goes under the last key of
the path. -/
def ofOutcome (heap : Heap) (placeholder : Placeholder) (outcome : Value) : Contribution :=
  match heap.content? outcome with
  | some (.array items) =>
    positional (items.toList.zipIdx.map fun (item, position) => (position, item))
  | some (.object fields) => keyed fields.entries
  | none => keyed [(placeholder.lastKey, outcome)]

end Contribution

namespace Extraction

/-- What one placeholder contributes when its turn comes. -/
def contribute (behaviour : Behaviour Memory) (source : Value) (placeholder : Placeholder)
    (world : World Memory) : Contribution × World Memory :=
  let found := world.heap.getPath source placeholder.path
  match placeholder.request with
  | .name name => (.keyed [(name, found)], world)
  | .position number =>
    (.positional (number.position?.toList.map fun position => (position, found)), world)
  | .function id =>
    let (outcome, world) := behaviour id (.extraction found placeholder.path source) world
    (.ofOutcome world.heap placeholder outcome, world)
  | .inert => (.keyed [], world)

def contributions (behaviour : Behaviour Memory) (source : Value) :
    List Placeholder → World Memory → List Contribution × World Memory
  | [], world => ([], world)
  | placeholder :: rest, world =>
    let (first, world) := contribute behaviour source placeholder world
    let (others, world) := contributions behaviour source rest world
    (first :: others, world)

/-- The bindings that a template extracts from a source. -/
def bindings (behaviour : Behaviour Memory) (config : Config) (template source : Value)
    (world : World Memory) : Bindings × World Memory :=
  let placeholders := world.heap.discover template
  let (contributed, world) := contributions behaviour source placeholders world
  (.ofContributions config contributed, world)

end Extraction

/-- An extraction template with its configuration. -/
structure Extractor where
  template : Value
  config : Config := .default

namespace Extractor

/-- Extract from a source. The result is a new container. Data that the source
lacks is null. -/
def apply (extractor : Extractor) (behaviour : Behaviour Memory) (source : Value)
    (world : World Memory) : Value × World Memory :=
  let (bindings, world) :=
    Extraction.bindings behaviour extractor.config extractor.template source world
  world.withHeap bindings.store

end Extractor

end Stencil
