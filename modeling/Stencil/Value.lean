import Stencil.Fields
import Stencil.Segment

/-!
Values and the cells of containers. A value is a scalar, a callable or a handle
to a container. It holds no container itself, so containers can be shared and
can hold one another in a cycle. Memory is taken to be unlimited: an array can be
written at every position below the address limit, however many nulls this adds.
-/

namespace Stencil

abbrev Handle := Nat

abbrev CallableId := Nat

inductive Value where
  | null
  | bool (flag : Bool)
  | number (value : Number)
  | text (value : String)
  | callable (id : CallableId)
  | container (handle : Handle)
deriving DecidableEq, Inhabited

inductive Kind where
  | null
  | boolean
  | number
  | string
  | callable
  | array
  | object
deriving DecidableEq

namespace Kind

def name : Kind → String
  | null => "null"
  | boolean => "boolean"
  | number => "number"
  | string => "string"
  | callable => "callable"
  | array => "array"
  | object => "object"

end Kind

namespace Value

def isContainer : Value → Bool
  | container _ => true
  | _ => false

def handle? : Value → Option Handle
  | container handle => some handle
  | _ => none

def text? : Value → Option String
  | text value => some value
  | _ => none

def number? : Value → Option Number
  | number value => some value
  | _ => none

/-- Whether two values are handles to one container. Scalars have no identity. -/
def sameContainer : Value → Value → Bool
  | container a, container b => a = b
  | _, _ => false

/-- A position as a number, a key as a text. -/
def ofSegment : Segment → Value
  | .index position => number (Number.ofNat position)
  | .key key => text key

end Value

/-- The content of one container. -/
inductive Cell where
  | array (items : Array Value)
  | object (fields : Fields Value)
deriving DecidableEq

instance : Inhabited Cell := ⟨.object .empty⟩

/-- Write one array position. Positions past the end are first filled with
nulls, so the caller decides how far an array may grow. -/
def placeAt (items : Array Value) (position : Nat) (value : Value) : Array Value :=
  (items ++ Array.replicate (position + 1 - items.size) Value.null).setIfInBounds position value

namespace Cell

def kind : Cell → Kind
  | array _ => .array
  | object _ => .object

def size : Cell → Nat
  | array items => items.size
  | object fields => fields.size

/-- The entries, by position or in insertion order. -/
def entries : Cell → List (Segment × Value)
  | array items => items.toList.zipIdx.map fun (item, position) => (.index position, item)
  | object fields => fields.entries.map fun (key, item) => (.key key, item)

def values : Cell → List Value
  | array items => items.toList
  | object fields => fields.entries.map Prod.snd

def get? : Cell → Segment → Option Value
  | array items, segment => segment.position?.bind fun position => items[position]?
  | object fields, segment => fields.get? segment.toKey

/-- The content after writing one entry. An array refuses a segment without a
position, and the last position, whose length would be no position. -/
def set? : Cell → Segment → Value → Option Cell
  | array items, segment, value =>
    match segment.position? with
    | some position =>
      if position + 1 < addressLimit then some (array (placeAt items position value)) else none
    | none => none
  | object fields, segment, value => some (object (fields.insert segment.toKey value))

/-- Change every value and no segment. -/
def mapValues (f : Value → Value) : Cell → Cell
  | array items => array (items.map f)
  | object fields => object (fields.map f)

end Cell

end Stencil
