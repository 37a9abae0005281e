import Stencil.Heap
import Stencil.Loop

/-!
Placeholders of a template: the values that a classifier accepts, with the
paths that lead to them. Containers are scaffolding and are descended into,
unless the classifier accepts them. A container that is already open on the way
down is not entered again, so templates may be cyclic. A container that is
merely shared is entered on every route.
-/

namespace Stencil

/-- A placeholder and the path that leads to it from the root. -/
structure Placeholder where
  path : Path
  value : Value
deriving DecidableEq

/-- What a placeholder asks for. -/
inductive Request where
  | name (text : String)
  | position (number : Number)
  | function (id : CallableId)
  | inert
deriving DecidableEq

namespace Placeholder

/-- What the placeholder asks for. Nulls, booleans and containers are inert. -/
def request (p : Placeholder) : Request :=
  match p.value with
  | .text name => .name name
  | .number number => .position number
  | .callable id => .function id
  | _ => .inert

def lastKey (p : Placeholder) : String := p.path.lastKey

end Placeholder

namespace Value

/-- The usual classifier: every value that is no container. -/
def isPlaceholder (value : Value) : Bool := !value.isContainer

end Value

/-! Discovery keeps an explicit stack of the containers that are open. -/
namespace Discovery

/-- A container that is open, and its entries that are still to be looked at. -/
structure Frame where
  handle : Handle
  rest : List (Segment × Value)

/-- How far a search is: the open containers, the segments that lead from each of
them to the next, the set of the open containers, and what has been found. All
four are listed with the last first. The set is kept beside the stack, so that
it can be asked for a container without going through the stack. -/
structure Search where
  frames : List Frame
  route : Path
  ancestors : List Handle
  found : List Placeholder
  inStep : ancestors = frames.map Frame.handle

variable (heap : Heap) (accepts : Value → Bool)

namespace Search

/-- Open a container that is not open, at the end of a route. -/
def enter (search : Search) (handle : Handle) (route : Path)
    (hNew : handle ∉ search.ancestors) : Search where
  frames := ⟨handle, heap.entries (.container handle)⟩ :: search.frames
  route := route
  ancestors := search.ancestors.insert handle
  found := search.found
  inStep := by rw [List.insert_of_not_mem hNew, search.inStep, List.map_cons]

/-- The search that has only opened the root. -/
def start (root : Handle) : Search := enter heap ⟨[], [], [], [], rfl⟩ root [] List.not_mem_nil

def record (search : Search) (segment : Segment) (value : Value) : Search :=
  { search with found := ⟨(segment :: search.route).reverse, value⟩ :: search.found }

/-- Look at an entry of the innermost open container. A placeholder is recorded,
and a container is opened unless it is open already. -/
def look (search : Search) (segment : Segment) : Value → Search
  | .container inner =>
    if hOpen : inner ∈ search.ancestors then search
    else if accepts (.container inner) then search.record segment (.container inner)
    else search.enter heap inner (segment :: search.route) hOpen
  | scalar => if accepts scalar then search.record segment scalar else search

/-- Look at the next entry of the innermost open container, or close it once all
of its entries have been looked at. -/
def step : Search → Option Search
  | ⟨[], _, _, _, _⟩ => none
  | ⟨⟨handle, []⟩ :: frames, route, ancestors, found, inStep⟩ =>
    some ⟨frames, route.tail, ancestors.erase handle, found, by
      rw [inStep, List.map_cons, List.erase_cons_head]⟩
  | ⟨⟨handle, (segment, child) :: rest⟩ :: frames, route, ancestors, found, inStep⟩ =>
    some (look heap accepts ⟨⟨handle, rest⟩ :: frames, route, ancestors, found, inStep⟩ segment
      child)

end Search

/-- How many steps the visit of a value takes below some open containers, beside
the step that looks at the value. -/
def visits (ancestors : List Handle) (value : Value) : Nat :=
  match value with
  | .container handle =>
    if _hOpen : handle ∈ ancestors then 0
    else if accepts (.container handle) then 0
    else
      match _hCell : heap.cell? handle with
      | none => 1
      | some cell =>
        1 + cell.entries.foldr
          (fun entry total => 1 + visits (handle :: ancestors) entry.2 + total) 0
  | _ => 0
termination_by heap.unvisited ancestors
decreasing_by exact Heap.unvisited_cons_lt ‹_› ‹_›

/-- How many steps these entries take below the open containers. -/
def entrySteps (ancestors : List Handle) (entries : List (Segment × Value)) : Nat :=
  entries.foldr (fun entry total => 1 + visits heap accepts ancestors entry.2 + total) 0

/-- How many steps a stack of frames takes. -/
def steps : List Frame → Nat
  | [] => 0
  | frame :: frames =>
    1 + entrySteps heap accepts (frame.handle :: frames.map Frame.handle) frame.rest + steps frames

/-- Entering a container counts as one visit, beside those of its entries. -/
theorem visits_of_enter {ancestors : List Handle} {handle : Handle}
    (hOpen : handle ∉ ancestors) (hAccepts : ¬ accepts (.container handle)) :
    visits heap accepts ancestors (.container handle) =
      1 + entrySteps heap accepts (handle :: ancestors) (heap.entries (.container handle)) := by
  rw [visits, dif_neg hOpen, if_neg hAccepts]
  unfold Heap.entries Heap.content?
  split
  · rename_i hCell
    simp [hCell, entrySteps]
  · rename_i cell hCell
    simp [hCell, entrySteps]

/-- What an entry adds to the stack takes as many steps as the visit of the
entry. -/
theorem steps_look_le (search : Search) (segment : Segment) (child : Value) :
    steps heap accepts (search.look heap accepts segment child).frames ≤
      visits heap accepts search.ancestors child + steps heap accepts search.frames := by
  unfold Search.look
  split
  next inner =>
    split
    next => exact Nat.le_add_left _ _
    next hOpen =>
      split
      next => exact Nat.le_add_left _ _
      next hAccepts =>
        rw [visits_of_enter heap accepts hOpen hAccepts, search.inStep]
        exact Nat.le_refl _
  next =>
    split
    next => exact Nat.le_add_left _ _
    next => exact Nat.le_add_left _ _

/-- Every step leaves fewer steps to be taken. -/
theorem steps_lt {search next : Search} (hStep : search.step heap accepts = some next) :
    steps heap accepts next.frames < steps heap accepts search.frames := by
  rcases search with ⟨_ | ⟨⟨handle, _ | ⟨⟨segment, child⟩, rest⟩⟩, frames⟩, route, ancestors, found,
    inStep⟩
  · cases hStep
  · cases hStep
    simp only [steps]
    omega
  · cases hStep
    refine Nat.lt_of_le_of_lt (steps_look_le heap accepts _ segment child) ?_
    simp only [inStep, steps, entrySteps, List.foldr_cons, List.map_cons]
    omega

/-- Search until no container is open any more. -/
def Search.run (search : Search) : Search :=
  Loop.run (Search.step heap accepts) (fun search => steps heap accepts search.frames)
    (fun _ _ hStep => steps_lt heap accepts hStep) search

end Discovery

namespace Heap

/-- The placeholders of a template that a classifier accepts, depth first and
in entry order. An accepted container is reported whole. -/
def discoverWith (heap : Heap) (accepts : Value → Bool) (template : Value) : List Placeholder :=
  if accepts template then [⟨[], template⟩]
  else
    match template with
    | .container handle => (Discovery.Search.run heap accepts (.start heap handle)).found.reverse
    | _ => []

/-- The placeholders of a template under the usual classifier. -/
def discover (heap : Heap) (template : Value) : List Placeholder :=
  heap.discoverWith Value.isPlaceholder template

end Heap

end Stencil
