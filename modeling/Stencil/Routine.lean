import Stencil.Heap.Copy
import Stencil.Procedure

/-!
Routines: a small language of callables. A registry keeps the routine of every
callable, and a counter that routines may advance.
-/

namespace Stencil

/-- What a callable of the registry does. -/
inductive Routine where
  /-- The first argument itself. -/
  | primary
  | source
  | segments
  /-- The path as it is displayed. -/
  | display
  | mode
  | arguments
  /-- The next count. -/
  | tick
  | double
  /-- The first argument with its ASCII letters in upper case. -/
  | upper
  | length
  | kind
  /-- The sum of the integers in the first argument. -/
  | sum
  | copy
  /-- Always the same value. -/
  | const (value : Value)
  /-- What stands at a path of the first argument. -/
  | get (path : Path)
  /-- What stands at a path of the source. -/
  | getSource (path : Path)
  /-- A new array of several outcomes. -/
  | array (parts : List Routine)
  /-- A new object of several outcomes. -/
  | object (parts : List (String × Routine))
  /-- A new object with an outcome under a key. -/
  | named (routine : Routine) (key : String)
  /-- Write an entry of the first argument, then go on. -/
  | setPrimary (segment : Segment) (value : Value) (next : Routine)
  /-- Write an entry of the source, then go on. -/
  | setSource (segment : Segment) (value : Value) (next : Routine)
  /-- Write an entry of a given container, then go on. -/
  | setOn (target : Value) (segment : Segment) (value : Value) (next : Routine)

/-- The routines of all callables, and how often the counter was advanced. -/
structure Registry where
  routines : Array Routine
  ticks : Nat

namespace Registry

def empty : Registry := ⟨#[], 0⟩

def register (registry : Registry) (routine : Routine) : CallableId × Registry :=
  (registry.routines.size, { registry with routines := registry.routines.push routine })

def tick (registry : Registry) : Nat × Registry :=
  (registry.ticks + 1, { registry with ticks := registry.ticks + 1 })

end Registry

namespace Invocation

def mode : Invocation → String
  | extraction _ _ _ => "extract"
  | filling _ _ => "pipe"

end Invocation

namespace Routine

/-- A signed integer, zero for any other value. -/
def signedOrZero (value : Value) : Int := (value.number?.bind Number.toSigned?).getD 0

def entrySum (heap : Heap) (value : Value) : Int :=
  (heap.entries value).foldl (fun total entry => total + signedOrZero entry.2) 0

def storePath (path : Path) (heap : Heap) : Value × Heap :=
  heap.allocArray (path.map Value.ofSegment)

def storeArguments (invocation : Invocation) (heap : Heap) : Value × Heap :=
  let (path, heap) := storePath invocation.path heap
  heap.allocObject
    [("mode", .text invocation.mode), ("primary", invocation.primary), ("path", path),
      ("source", invocation.source)]

mutual

def run (routine : Routine) (invocation : Invocation) (world : World Registry) :
    Value × World Registry :=
  match routine with
  | primary => (invocation.primary, world)
  | source => (invocation.source, world)
  | segments => world.withHeap (storePath invocation.path)
  | display => (.text (Path.display invocation.path), world)
  | mode => (.text invocation.mode, world)
  | arguments => world.withHeap (storeArguments invocation)
  | tick =>
    let (count, memory) := world.memory.tick
    (.number (.ofNat count), { world with memory := memory })
  | double => (.number (.wrapping (2 * signedOrZero invocation.primary)), world)
  | upper => (.text ((invocation.primary.text?.getD "").map Char.toUpper), world)
  | length => (.number (.ofNat (world.heap.length invocation.primary)), world)
  | kind => (.text (world.heap.kind invocation.primary).name, world)
  | sum => (.number (.wrapping (entrySum world.heap invocation.primary)), world)
  | copy => world.withHeap fun heap => heap.deepCopy invocation.primary
  | const value => (value, world)
  | get path => (world.heap.getPath invocation.primary path, world)
  | getSource path => (world.heap.getPath invocation.source path, world)
  | array parts =>
    let (values, world) := runAll parts invocation world
    world.withHeap fun heap => heap.allocArray values
  | object parts =>
    let (entries, world) := runEntries parts invocation world
    world.withHeap fun heap => heap.allocObject entries
  | named routine key => Procedure.named (run routine) key invocation world
  | setPrimary segment value next =>
    run next invocation { world with heap := world.heap.set invocation.primary segment value }
  | setSource segment value next =>
    run next invocation { world with heap := world.heap.set invocation.source segment value }
  | setOn target segment value next =>
    run next invocation { world with heap := world.heap.set target segment value }

def runAll (parts : List Routine) (invocation : Invocation) (world : World Registry) :
    List Value × World Registry :=
  match parts with
  | [] => ([], world)
  | routine :: rest =>
    let (value, world) := run routine invocation world
    let (values, world) := runAll rest invocation world
    (value :: values, world)

def runEntries (parts : List (String × Routine)) (invocation : Invocation)
    (world : World Registry) : List (String × Value) × World Registry :=
  match parts with
  | [] => ([], world)
  | (key, routine) :: rest =>
    let (value, world) := run routine invocation world
    let (entries, world) := runEntries rest invocation world
    ((key, value) :: entries, world)

end

end Routine

namespace Registry

/-- Every callable runs its routine. An unknown callable answers null. -/
def behaviour : Behaviour Registry := fun id invocation world =>
  match world.memory.routines[id]? with
  | some routine => routine.run invocation world
  | none => (.null, world)

end Registry

end Stencil
