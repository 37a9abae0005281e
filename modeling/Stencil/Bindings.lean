import Stencil.Config
import Stencil.Heap

/-!
Bindings: what the placeholders of an extraction template contribute, merged in
order. As soon as one contribution is positional the result is a sequence. Its
named entries are no part of the extracted value, but they stay addressable.
-/

namespace Stencil

/-- What one placeholder contributes. Positions that are absent are never
overwritten. -/
inductive Contribution where
  | keyed (entries : List (String × Value))
  | positional (entries : List (Nat × Value))
deriving DecidableEq

namespace Contribution

def isPositional : Contribution → Bool
  | positional _ => true
  | keyed _ => false

end Contribution

/-- The bindings merged so far. -/
inductive Bindings where
  | sequence (items : Array Value) (named : Fields Value)
  | mapping (fields : Fields Value)
deriving DecidableEq

namespace Bindings

def start (contributions : List Contribution) : Bindings :=
  if contributions.any Contribution.isPositional then sequence #[] .empty else mapping .empty

/-- Write a position, unless it is beyond the configured bound or its sequence
would be longer than any position. -/
def place (config : Config) (items : Array Value) (position : Nat) (value : Value) : Array Value :=
  if position + 1 < addressLimit && config.allows position then placeAt items position value
  else items

/-- Merge one keyed entry into a sequence. The decimal text of a position
addresses that position, and any other key a named entry. -/
def mergeKeyed (config : Config) (items : Array Value) (named : Fields Value)
    (key : String) (value : Value) : Array Value × Fields Value :=
  match (Segment.key key).position? with
  | some position => (place config items position value, named)
  | none => (items, named.insert key value)

/-- Merge a contribution, its entries winning over earlier ones. No positional
contribution meets a mapping when merging begins with `start`. If one did, its
positions would become keys. -/
def merge (config : Config) : Bindings → Contribution → Bindings
  | mapping fields, .keyed entries => mapping (fields.insertAll entries)
  | mapping fields, .positional entries =>
    mapping (fields.insertAll (entries.map fun (position, value) =>
      ((Segment.index position).toKey, value)))
  | sequence items named, .positional entries =>
    let items := entries.foldl
      (fun items (position, value) => place config items position value) items
    sequence items named
  | sequence items named, .keyed entries =>
    let (items, named) := entries.foldl
      (fun (items, named) (key, value) => mergeKeyed config items named key value) (items, named)
    sequence items named

/-- The bindings that result from these contributions. -/
def ofContributions (config : Config) (contributions : List Contribution) : Bindings :=
  contributions.foldl (merge config) (start contributions)

def get (bindings : Bindings) (segment : Segment) : Value :=
  match bindings with
  | mapping fields => (fields.get? segment.toKey).getD .null
  | sequence items named =>
    match segment.position? with
    | some position => items[position]?.getD .null
    | none => (named.get? segment.toKey).getD .null

/-- The content of the extracted value. -/
def content : Bindings → Cell
  | sequence items _ => .array items
  | mapping fields => .object fields

/-- The extracted value as a new container. -/
def store (bindings : Bindings) (heap : Heap) : Value × Heap := heap.alloc bindings.content

end Bindings

end Stencil
