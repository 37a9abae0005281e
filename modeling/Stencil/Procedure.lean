import Stencil.Heap

/-!
Procedures behind callables. A callable in a template is only an identity. What
it does is given from outside, as a function that may read and write the heap
and a memory of its own.
-/

namespace Stencil

/-- What a callable is called with. -/
inductive Invocation where
  /-- Reached while extracting: the value found in the source, the path of the
  placeholder, and the source. -/
  | extraction (value : Value) (path : Path) (source : Value)
  /-- Reached while filling an output template: the extracted value and the
  source. -/
  | filling (bindings : Value) (source : Value)

namespace Invocation

/-- The first argument: the value found, or the extracted value. -/
def primary : Invocation → Value
  | extraction value _ _ => value
  | filling bindings _ => bindings

def source : Invocation → Value
  | extraction _ _ source => source
  | filling _ source => source

/-- The path of the placeholder, empty while filling. -/
def path : Invocation → Path
  | extraction _ path _ => path
  | filling _ _ => []

end Invocation

/-- Everything that a procedure can change. -/
structure World (Memory : Type) where
  heap : Heap
  memory : Memory

namespace World

variable {Memory : Type}

def withHeap (world : World Memory) (operation : Heap → Value × Heap) : Value × World Memory :=
  let (value, heap) := operation world.heap
  (value, { world with heap := heap })

end World

/-- What a callable does when it is called. -/
abbrev Procedure (Memory : Type) := Invocation → World Memory → Value × World Memory

abbrev Behaviour (Memory : Type) := CallableId → Procedure Memory

namespace Procedure

variable {Memory : Type}

/-- Call a procedure and put its result under a key of a new object, so that it
is merged under this key and not under the last key of the path. -/
def named (procedure : Procedure Memory) (key : String) : Procedure Memory :=
  fun invocation world =>
    let (value, world) := procedure invocation world
    world.withHeap fun heap => heap.allocObject [(key, value)]

end Procedure

end Stencil
