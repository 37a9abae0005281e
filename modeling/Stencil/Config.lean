import Stencil.Json
import Stencil.Text.Escaped

/-!
The configuration of extraction: the highest position that it fills. A
configuration is read from an object with that one optional field, or from an
array with that one optional item. Whatever comes first in the document decides
what is reported.
-/

namespace Stencil

/-- The options of extraction. Without a bound every position is filled. -/
structure Config where
  maxPosition : Option Nat
deriving DecidableEq

namespace Config

/-- What stands in the place of something else. -/
inductive Found where
  | null
  | boolean (flag : Bool)
  | integer (value : Int)
  | float (value : Binary64)
  | string (text : String)
  | sequence
  | map
deriving DecidableEq

/-- What should stand in a place. -/
inductive Wanted where
  | position
  | configuration
deriving DecidableEq

/-- Why a document is no configuration. -/
inductive Fault where
  | unknownField (name : String)
  | wrongType (found : Found) (wanted : Wanted)
  | negative (value : Int)
  | tooLong (length : Nat)
deriving DecidableEq

def fieldName : String := "max_position"

/-- A text between back quotes. -/
def marked (text : String) : String := "\x60" ++ text ++ "\x60"

def Found.describe : Found → String
  | null => "null"
  | boolean flag => "boolean " ++ marked (if flag then "true" else "false")
  | integer value => "integer " ++ marked (toString value)
  | float value => "floating point " ++ marked (Number.float value).text
  | string text => "string " ++ Text.escaped text
  | sequence => "sequence"
  | map => "map"

def Wanted.describe : Wanted → String
  | position => "usize"
  | configuration => "struct MapperConfig"

def Fault.message : Fault → String
  | unknownField name => "unknown field " ++ marked name ++ ", expected " ++ marked fieldName
  | wrongType found wanted =>
    "invalid type: " ++ found.describe ++ ", expected " ++ wanted.describe
  | negative value =>
    "invalid value: " ++ (Found.integer value).describe ++ ", expected "
      ++ Wanted.position.describe
  | tooLong length =>
    "invalid length " ++ toString length ++ ", expected fewer elements in array"

/-- The highest position that is filled when nothing else is said. -/
def defaultMaxPosition : Nat := 65536

def default : Config := ⟨some defaultMaxPosition⟩

def unbounded : Config := ⟨none⟩

def withMaxPosition (config : Config) (bound : Nat) : Config :=
  { config with maxPosition := some bound }

def allows (config : Config) (position : Nat) : Bool :=
  match config.maxPosition with
  | some bound => position ≤ bound
  | none => true

def Found.ofJson : Json → Found
  | .null => null
  | .bool flag => boolean flag
  | .number (.integer value _ _) => integer value
  | .number (.float value) => float value
  | .text value => string value
  | .array _ => sequence
  | .object _ => map

/-- A bound: null for none, otherwise a position. -/
def readBound : Json → Except Fault (Option Nat)
  | .null => .ok none
  | .number (.integer value _ _) =>
    if 0 ≤ value then .ok (some value.toNat) else .error (.negative value)
  | document => .error (.wrongType (.ofJson document) .position)

/-- The configuration after these entries, starting from `config`. -/
def readEntries (config : Config) : List (String × Json) → Except Fault Config
  | [] => .ok config
  | (name, document) :: entries =>
    if name = fieldName then
      match readBound document with
      | .ok bound => readEntries ⟨bound⟩ entries
      | .error fault => .error fault
    else .error (.unknownField name)

/-- The configuration given by position. The bound is read before the number of
items is looked at. -/
def readItems : List Json → Except Fault Config
  | [] => .ok default
  | document :: rest =>
    match readBound document with
    | .error fault => .error fault
    | .ok bound => if rest.isEmpty then .ok ⟨bound⟩ else .error (.tooLong (rest.length + 1))

def ofJson : Json → Except Fault Config
  | .object entries => readEntries default entries
  | .array items => readItems items
  | document => .error (.wrongType (.ofJson document) .configuration)

def toJson (config : Config) : Json :=
  .object [(fieldName,
    match config.maxPosition with
    | some bound => .number (.ofNat bound)
    | none => .null)]

end Config

end Stencil
