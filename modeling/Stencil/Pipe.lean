import Stencil.Extraction
import Stencil.Heap.Copy

/-!
Pipes from one shape to another. Bindings are extracted from the source with an
input template, and a copy of the output template is filled with them. Neither
template is changed, and what callables write into the extracted value does not
change the bindings.
-/

namespace Stencil

variable {Memory : Type}

/-- An input template and an output template, with the configuration of the
extraction. -/
structure Pipe where
  input : Value
  output : Value
  config : Config := .default

namespace Pipe

/-- What goes in the place of a placeholder, nothing when it is to stay. -/
def answer (behaviour : Behaviour Memory) (bindings : Bindings) (extracted source : Value)
    (placeholder : Placeholder) (world : World Memory) : Option Value × World Memory :=
  match placeholder.request with
  | .name name => (some (bindings.get (.key name)), world)
  | .position number => (some (bindings.get (.ofNumber number)), world)
  | .function id =>
    let (outcome, world) := behaviour id (.filling extracted source) world
    (some outcome, world)
  | .inert => (none, world)

/-- Fill the places of these placeholders in a copy of the output template. -/
def fill (behaviour : Behaviour Memory) (bindings : Bindings) (extracted source : Value) :
    List Placeholder → Value → World Memory → Value × World Memory
  | [], result, world => (result, world)
  | placeholder :: rest, result, world =>
    match answer behaviour bindings extracted source placeholder world with
    | (none, world) => fill behaviour bindings extracted source rest result world
    | (some value, world) =>
      let (result, heap) := world.heap.setPath result placeholder.path value
      fill behaviour bindings extracted source rest result { world with heap := heap }

/-- Run the pipe over a source. A placeholder at the root of the output template
replaces the whole result. -/
def apply (pipe : Pipe) (behaviour : Behaviour Memory) (source : Value)
    (world : World Memory) : Value × World Memory :=
  let (bindings, world) := Extraction.bindings behaviour pipe.config pipe.input source world
  let (extracted, world) := world.withHeap bindings.store
  let (result, world) := world.withHeap fun heap => heap.deepCopy pipe.output
  let placeholders := world.heap.discover pipe.output
  fill behaviour bindings extracted source placeholders result world

end Pipe

end Stencil
