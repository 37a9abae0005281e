import Stencil.Json
import Stencil.Json.Text

/-!
The strict reader of documents. A text is cut into tokens, and a stack machine
reads the tokens one by one. Containers may be nested down to a given depth.
When a key is repeated, it keeps its first place and its last value.
-/

namespace Stencil.Json

/-- A token. Scalars are tokens with a document of their own. -/
inductive Token where
  | scalar (document : Json)
  | openArray
  | closeArray
  | openObject
  | closeObject
  | colon
  | comma

def isBlank (c : Char) : Bool := c = ' ' || c = '\t' || c = '\n' || c = '\r'

/-- The tokens that are single characters. -/
def punctuation? : Char → Option Token
  | '[' => some .openArray
  | ']' => some .closeArray
  | '\x7b' => some .openObject
  | '\x7d' => some .closeObject
  | ':' => some .colon
  | ',' => some .comma
  | _ => none

def readLiteral? : List Char → Option (Json × List Char)
  | 'n' :: 'u' :: 'l' :: 'l' :: rest => some (null, rest)
  | 't' :: 'r' :: 'u' :: 'e' :: rest => some (bool true, rest)
  | 'f' :: 'a' :: 'l' :: 's' :: 'e' :: rest => some (bool false, rest)
  | _ => none

def readNumber? (text : List Char) : Option (Number × List Char) := do
  let (numeral, rest) ← Numeral.read? text
  let number ← Number.ofNumeral? numeral
  return (number, rest)

def readScalar? (text : List Char) : Option (Json × List Char) :=
  match text with
  | '"' :: text => (readText? [] text).map fun (value, rest) => (.text (String.ofList value), rest)
  | text =>
    (readLiteral? text).or
      ((readNumber? text).map fun (value, rest) => (number value, rest))

theorem length_of_readLiteral? {text rest : List Char} {document : Json}
    (h : readLiteral? text = some (document, rest)) : rest.length < text.length := by
  unfold readLiteral? at h
  split at h <;> cases h
  all_goals
    simp only [List.length_cons]
    omega

theorem length_of_readNumber? {text rest : List Char} {value : Number}
    (h : readNumber? text = some (value, rest)) : rest.length < text.length := by
  simp only [readNumber?, Option.bind_eq_bind, Option.bind_eq_some_iff, Prod.exists,
    Option.pure_def, Option.some.injEq, Prod.mk.injEq] at h
  obtain ⟨_, _, hNumeral, _, _, _, hRest⟩ := h
  subst hRest
  exact Numeral.length_of_read? hNumeral

theorem length_of_readScalar? {text rest : List Char} {document : Json}
    (h : readScalar? text = some (document, rest)) : rest.length < text.length := by
  unfold readScalar? at h
  split at h
  · simp only [Option.map_eq_some_iff, Prod.exists, Prod.mk.injEq] at h
    obtain ⟨_, _, hText, _, hRest⟩ := h
    subst hRest
    exact Nat.lt_succ_of_lt (length_of_readText? hText)
  · rcases Option.or_eq_some_iff.mp h with hLiteral | ⟨_, hNumber⟩
    · exact length_of_readLiteral? hLiteral
    · simp only [Option.map_eq_some_iff, Prod.exists, Prod.mk.injEq] at hNumber
      obtain ⟨_, _, hNumber, _, hRest⟩ := hNumber
      subst hRest
      exact length_of_readNumber? hNumber

/-- The tokens of a text, none if some part of it is no token. -/
def tokens? (text : List Char) : Option (List Token) :=
  match text with
  | [] => some []
  | c :: rest =>
    if isBlank c then tokens? rest
    else
      match punctuation? c with
      | some token => (tokens? rest).map (token :: ·)
      | none =>
        match _hScalar : readScalar? (c :: rest) with
        | some (document, after) => (tokens? after).map (.scalar document :: ·)
        | none => none
termination_by text.length
decreasing_by
  · exact Nat.lt_succ_self _
  · exact Nat.lt_succ_self _
  · exact length_of_readScalar? _hScalar

/-- A container that is still open, with what has been read of it. The items of
an array come last first. -/
inductive Frame where
  | array (items : List Json)
  | object (entries : List (String × Json))
  | field (entries : List (String × Json)) (key : String)

/-- What the next token has to be. -/
inductive Expected where
  | value
  | valueOrEnd
  | key
  | keyOrEnd
  | colon
  | separator

/-- The state between two tokens: an unfinished document, or a finished one. -/
inductive State where
  | unfinished (expected : Expected) (frames : List Frame)
  | finished (document : Json)

/-- Hand a completed document to the innermost open container. -/
def complete? (document : Json) : List Frame → Option State
  | [] => some (.finished document)
  | .array items :: frames => some (.unfinished .separator (.array (document :: items) :: frames))
  | .field entries key :: frames =>
    some (.unfinished .separator (.object (Fields.insertEntry key document entries) :: frames))
  | .object _ :: _ => none

/-- Read the first token of a value, with at most `depth` containers open. -/
def startValue? (depth : Nat) (frames : List Frame) : Token → Option State
  | .scalar document => complete? document frames
  | .openArray =>
    if frames.length < depth then some (.unfinished .valueOrEnd (.array [] :: frames)) else none
  | .openObject =>
    if frames.length < depth then some (.unfinished .keyOrEnd (.object [] :: frames)) else none
  | _ => none

def startKey? : List Frame → Token → Option State
  | .object entries :: frames, .scalar (text key) =>
    some (.unfinished .colon (.field entries key :: frames))
  | _, _ => none

def close? : List Frame → Token → Option State
  | .array items :: frames, .closeArray => complete? (array items.reverse) frames
  | .object entries :: frames, .closeObject => complete? (object entries) frames
  | _, _ => none

/-- Read one token. -/
def step? (depth : Nat) : State → Token → Option State
  | .finished _, _ => none
  | .unfinished .value frames, token => startValue? depth frames token
  | .unfinished .valueOrEnd frames, .closeArray => close? frames .closeArray
  | .unfinished .valueOrEnd frames, token => startValue? depth frames token
  | .unfinished .key frames, token => startKey? frames token
  | .unfinished .keyOrEnd frames, .closeObject => close? frames .closeObject
  | .unfinished .keyOrEnd frames, token => startKey? frames token
  | .unfinished .colon frames, .colon => some (.unfinished .value frames)
  | .unfinished .colon _, _ => none
  | .unfinished .separator (.array items :: frames), .comma =>
    some (.unfinished .value (.array items :: frames))
  | .unfinished .separator (.object entries :: frames), .comma =>
    some (.unfinished .key (.object entries :: frames))
  | .unfinished .separator frames, token => close? frames token

/-- The document that these tokens spell. -/
def ofTokens? (depth : Nat) (tokens : List Token) : Option Json :=
  match tokens.foldlM (step? depth) (.unfinished .value []) with
  | some (.finished document) => some document
  | _ => none

/-- The document that a text spells, nested at most `depth` deep. -/
def parse? (depth : Nat) (text : String) : Option Json :=
  (tokens? text.toList).bind (ofTokens? depth)

end Stencil.Json
