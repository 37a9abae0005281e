import Stencil.Fields
import Stencil.Number

/-!
JSON documents. Objects keep the order of their entries. A document is proper
when no object in it repeats a key.
-/

namespace Stencil

/-- A JSON document. -/
inductive Json where
  | null
  | bool (flag : Bool)
  | number (value : Number)
  | text (value : String)
  | array (items : List Json)
  | object (entries : List (String × Json))

namespace Json

instance : Inhabited Json := ⟨null⟩

def get? : Json → String → Option Json
  | object entries, key => entries.lookup key
  | _, _ => none

def text? : Json → Option String
  | text value => some value
  | _ => none

def items? : Json → Option (List Json)
  | array items => some items
  | _ => none

def entries? : Json → Option (List (String × Json))
  | object entries => some entries
  | _ => none

mutual

/-- Whether no object of the document repeats a key. -/
def Proper : Json → Prop
  | array items => ProperItems items
  | object entries => (entries.map Prod.fst).Nodup ∧ ProperEntries entries
  | _ => True

/-- Whether all of these documents are proper. -/
def ProperItems : List Json → Prop
  | [] => True
  | item :: items => Proper item ∧ ProperItems items

/-- Whether the documents of all these entries are proper. -/
def ProperEntries : List (String × Json) → Prop
  | [] => True
  | (_, item) :: entries => Proper item ∧ ProperEntries entries

end

end Json

end Stencil
