import Stencil.Failure
import Stencil.Heap
import Stencil.Json

/-!
Values and documents. Every document has a value, with a container of its own
for every array and object in it. A value has a document unless a callable or a
cycle can be reached from it. Sharing is lost on the way. A conversion keeps a
trail of where it is, which it leaves as it has found it, whether it fails or
not.
-/

namespace Stencil

/-- The document of a container whose entries have these documents. -/
def Cell.assemble : Cell → List Json → Json
  | array _, documents => .array documents
  | object fields, documents => .object (fields.keys.zip documents)

/-- Where a conversion is: the segments that lead there, and the containers that
they lead through. Both are stacks, with the last on top. -/
structure Trail where
  route : Path
  ancestors : List Handle

namespace Trail

def push (trail : Trail) (segment : Segment) : Trail :=
  { trail with route := segment :: trail.route }

def pop (trail : Trail) : Trail := { trail with route := trail.route.tail }

def enter (trail : Trail) (handle : Handle) : Trail :=
  { trail with ancestors := handle :: trail.ancestors }

def leave (trail : Trail) : Trail := { trail with ancestors := trail.ancestors.tail }

end Trail

/-- What a conversion that starts on a trail comes to, and the trail that it
leaves. -/
structure Conversion (trail : Trail) (α : Type) where
  result : Except Failure α
  left : Trail
  restored : left = trail

namespace Heap

mutual

/-- The value of a document, in new containers. -/
def ofJson (heap : Heap) : Json → Value × Heap
  | .null => (.null, heap)
  | .bool flag => (.bool flag, heap)
  | .number value => (.number value, heap)
  | .text value => (.text value, heap)
  | .array items =>
    let (values, heap) := ofItems heap items
    heap.allocArray values
  | .object entries =>
    let (values, heap) := ofEntries heap entries
    heap.allocObject values

def ofItems (heap : Heap) : List Json → List Value × Heap
  | [] => ([], heap)
  | item :: items =>
    let (value, heap) := ofJson heap item
    let (values, heap) := ofItems heap items
    (value :: values, heap)

def ofEntries (heap : Heap) : List (String × Json) → List (String × Value) × Heap
  | [] => ([], heap)
  | (key, item) :: entries =>
    let (value, heap) := ofJson heap item
    let (values, heap) := ofEntries heap entries
    ((key, value) :: values, heap)

end

mutual

/-- Convert the value at the end of a trail. -/
def convert (heap : Heap) (trail : Trail) (value : Value) : Conversion trail Json :=
  match value with
  | .null => ⟨.ok .null, trail, rfl⟩
  | .bool flag => ⟨.ok (.bool flag), trail, rfl⟩
  | .number value => ⟨.ok (.number value), trail, rfl⟩
  | .text value => ⟨.ok (.text value), trail, rfl⟩
  | .callable _ => ⟨.error (.unrepresentable trail.route.reverse .callable), trail, rfl⟩
  | .container handle =>
    if _hOpen : handle ∈ trail.ancestors then
      ⟨.error (.cycle trail.route.reverse), trail, rfl⟩
    else
      match _hCell : heap.cell? handle with
      | none => ⟨.ok .null, trail, rfl⟩
      | some cell =>
        let ⟨result, left, hLeft⟩ := convertEntries heap (trail.enter handle) cell.entries
        ⟨result.map cell.assemble, left.leave, by rw [hLeft]; rfl⟩
termination_by (heap.unvisited trail.ancestors, 0)
decreasing_by exact .left _ _ (unvisited_cons_lt ‹_› ‹_›)

/-- Convert entries in order. The first failure is the answer. -/
def convertEntries (heap : Heap) (trail : Trail) (entries : List (Segment × Value)) :
    Conversion trail (List Json) :=
  match entries with
  | [] => ⟨.ok [], trail, rfl⟩
  | (segment, value) :: rest =>
    match convert heap (trail.push segment) value with
    | ⟨.error failure, left, hLeft⟩ => ⟨.error failure, left.pop, by rw [hLeft]; rfl⟩
    | ⟨.ok document, left, hLeft⟩ =>
      let ⟨result, left, hLast⟩ := convertEntries heap left.pop rest
      ⟨result.map (document :: ·), left, by rw [hLast, hLeft]; rfl⟩
termination_by (heap.unvisited trail.ancestors, entries.length)
decreasing_by
  · exact .right _ (Nat.succ_pos _)
  · subst hLeft
    exact .right _ (Nat.lt_succ_self _)

end

def toJson (heap : Heap) (value : Value) : Except Failure Json :=
  (heap.convert ⟨[], []⟩ value).result

end Heap

end Stencil
