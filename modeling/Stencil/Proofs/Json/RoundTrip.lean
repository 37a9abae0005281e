import Stencil.Json.Parser
import Stencil.Proofs.Fields
import Stencil.Proofs.Json.Tokens

/-!
Documents read back from their own texts. The tokens of a document bring the
reader from a state that expects a value to the state where this document is
complete, whatever containers are open around it.
-/

namespace Stencil.Json

mutual

/-- How many containers are nested in a document, itself counted. -/
def depth : Json → Nat
  | array items => depthOfItems items + 1
  | object entries => depthOfEntries entries + 1
  | _ => 0

def depthOfItems : List Json → Nat
  | [] => 0
  | item :: items => max (depth item) (depthOfItems items)

def depthOfEntries : List (String × Json) → Nat
  | [] => 0
  | (_, item) :: entries => max (depth item) (depthOfEntries entries)

end

variable {limit : Nat} {state : State} {token : Token} {frames : List Frame} {document : Json}

theorem foldlM_step {next : State} (h : step? limit state token = some next)
    (rest : List Token) :
    (token :: rest).foldlM (step? limit) state = rest.foldlM (step? limit) next := by
  rw [List.foldlM_cons, h]
  rfl

theorem step?_openArray (h : frames.length < limit) :
    step? limit (.unfinished .value frames) .openArray =
      some (.unfinished .valueOrEnd (.array [] :: frames)) := by
  rw [step?, startValue?, if_pos h]

theorem step?_openObject (h : frames.length < limit) :
    step? limit (.unfinished .value frames) .openObject =
      some (.unfinished .keyOrEnd (.object [] :: frames)) := by
  rw [step?, startValue?, if_pos h]

/-- No document starts with the end of an array. -/
theorem foldlM_valueOrEnd (document : Json) (frames : List Frame) (rest : List Token) :
    (document.tokens rest).foldlM (step? limit) (.unfinished .valueOrEnd frames) =
      (document.tokens rest).foldlM (step? limit) (.unfinished .value frames) := by
  match document with
  | null | bool _ | number _ | text _ => rfl
  | array [] | array (_ :: _) => rfl
  | object [] | object (_ :: _) => rfl

mutual

/-- Reading the tokens of a document completes this document. -/
theorem foldlM_tokens (document : Json) (hProper : document.Proper) {frames : List Frame}
    (hDepth : frames.length + document.depth ≤ limit) (rest : List Token) :
    (document.tokens rest).foldlM (step? limit) (.unfinished .value frames) =
      (complete? document frames).bind (rest.foldlM (step? limit)) := by
  match document with
  | null | bool _ | number _ | text _ => rfl
  | array [] =>
      have hOpen : frames.length < limit := by
        rw [depth] at hDepth
        omega
      rw [tokens, foldlM_step (step?_openArray hOpen)]
      rfl
  | array (item :: items) =>
      rw [depth, depthOfItems] at hDepth
      have hOpen : frames.length < limit := by omega
      have hFirst : (Frame.array [] :: frames).length + item.depth ≤ limit := by
        rw [List.length_cons]
        omega
      rw [tokens, foldlM_step (step?_openArray hOpen), foldlM_valueOrEnd,
        foldlM_tokens item hProper.1 hFirst]
      exact foldlM_tokensOfItems items hProper.2 (by omega) [item] rest
  | object [] =>
      have hOpen : frames.length < limit := by
        rw [depth] at hDepth
        omega
      rw [tokens, foldlM_step (step?_openObject hOpen)]
      rfl
  | object ((key, item) :: entries) =>
      rw [depth, depthOfEntries] at hDepth
      have hOpen : frames.length < limit := by omega
      have hFirst : (Frame.field [] key :: frames).length + item.depth ≤ limit := by
        rw [List.length_cons]
        omega
      rw [tokens, foldlM_step (step?_openObject hOpen), foldlM_step rfl, foldlM_step rfl,
        foldlM_tokens item hProper.2.1 hFirst]
      exact foldlM_tokensOfEntries entries hProper.2.2 (by omega) [(key, item)] hProper.1 rest

/-- The tokens of the items complete the array that has been opened, behind the
items that are done. -/
theorem foldlM_tokensOfItems (items : List Json) (hProper : ProperItems items)
    {frames : List Frame} (hDepth : frames.length + 1 + depthOfItems items ≤ limit)
    (done : List Json) (rest : List Token) :
    (tokensOfItems items rest).foldlM (step? limit)
        (.unfinished .separator (.array done :: frames)) =
      (complete? (array (done.reverse ++ items)) frames).bind (rest.foldlM (step? limit)) := by
  match items with
  | [] =>
      rw [List.append_nil]
      rfl
  | item :: items =>
      rw [depthOfItems] at hDepth
      have hItem : (Frame.array done :: frames).length + item.depth ≤ limit := by
        rw [List.length_cons]
        omega
      have hItems : frames.length + 1 + depthOfItems items ≤ limit := by omega
      have hRest := foldlM_tokensOfItems items hProper.2 hItems (item :: done) rest
      rw [List.reverse_cons, List.append_assoc] at hRest
      rw [tokensOfItems, foldlM_step rfl, foldlM_tokens item hProper.1 hItem]
      exact hRest

/-- The same for entries, whose keys have to be new to the object. -/
theorem foldlM_tokensOfEntries (entries : List (String × Json)) (hProper : ProperEntries entries)
    {frames : List Frame} (hDepth : frames.length + 1 + depthOfEntries entries ≤ limit)
    (done : List (String × Json)) (hNodup : ((done ++ entries).map Prod.fst).Nodup)
    (rest : List Token) :
    (tokensOfEntries entries rest).foldlM (step? limit)
        (.unfinished .separator (.object done :: frames)) =
      (complete? (object (done ++ entries)) frames).bind (rest.foldlM (step? limit)) := by
  match entries with
  | [] =>
      rw [List.append_nil]
      rfl
  | (key, item) :: entries =>
      rw [depthOfEntries] at hDepth
      have hItem : (Frame.field done key :: frames).length + item.depth ≤ limit := by
        rw [List.length_cons]
        omega
      have hFresh : key ∉ done.map Prod.fst := by
        rw [List.map_append, List.map_cons, List.nodup_append] at hNodup
        exact fun hMem => hNodup.2.2 key hMem key List.mem_cons_self rfl
      have hAppend : done ++ (key, item) :: entries = done ++ [(key, item)] ++ entries := by
        rw [List.append_assoc, List.singleton_append]
      rw [tokensOfEntries, foldlM_step rfl, foldlM_step rfl, foldlM_step rfl,
        foldlM_tokens item hProper.1 hItem, complete?, Fields.insertEntry_of_not_mem item hFresh,
        hAppend]
      exact foldlM_tokensOfEntries entries hProper.2 (by omega) (done ++ [(key, item)])
        (hAppend ▸ hNodup) rest

end

/-- The tokens of a document spell this document. -/
theorem ofTokens?_tokens (hProper : document.Proper) (hDepth : document.depth ≤ limit) :
    ofTokens? limit (document.tokens []) = some document := by
  have hFrames : ([] : List Frame).length + document.depth ≤ limit := by
    rwa [List.length_nil, Nat.zero_add]
  rw [ofTokens?, foldlM_tokens document hProper hFrames]
  rfl

theorem tokens?_of_blanks {blanks : List Char} (h : ∀ c ∈ blanks, isBlank c = true)
    (rest : List Char) : tokens? (blanks ++ rest) = tokens? rest := by
  induction blanks with
  | nil => rfl
  | cons c blanks ih =>
      rw [List.forall_mem_cons] at h
      rw [List.cons_append, tokens?_blank h.1, ih h.2]

theorem delimits_of_blanks {blanks : List Char} (h : ∀ c ∈ blanks, isBlank c = true) :
    Numeral.Delimits blanks := by
  cases blanks with
  | nil => exact delimits_nil
  | cons c blanks => exact delimits_of_blank (h c List.mem_cons_self) blanks

/-- A document is read back from its text, with blanks before and after it. -/
theorem parse?_write (hProper : document.Proper) (hDepth : document.depth ≤ limit)
    (hLegible : Legible document.numbers) {before after : List Char}
    (hBefore : ∀ c ∈ before, isBlank c = true) (hAfter : ∀ c ∈ after, isBlank c = true) :
    parse? limit (String.ofList (before ++ document.write after)) = some document := by
  have hEnd : tokens? after = some [] := by
    simpa [tokens?] using tokens?_of_blanks hAfter []
  rw [parse?, String.toList_ofList, tokens?_of_blanks hBefore,
    tokens?_write document hLegible (delimits_of_blanks hAfter), hEnd]
  exact ofTokens?_tokens hProper hDepth

/-- A container is open, or the document that has been read is not this string. -/
def State.NotText (value : String) : State → Prop
  | .unfinished _ frames => frames ≠ []
  | .finished document => document ≠ text value

variable {value : String} {next : State}

theorem notText_cons (expected : Expected) (frame : Frame) (frames : List Frame) :
    State.NotText value (.unfinished expected (frame :: frames)) := List.cons_ne_nil _ _

theorem notText_complete? (hDocument : frames = [] → document ≠ text value)
    (h : complete? document frames = some next) : next.NotText value := by
  unfold complete? at h
  split at h <;> cases h
  · exact hDocument rfl
  · exact notText_cons _ _ _
  · exact notText_cons _ _ _

theorem notText_startValue? (hToken : frames = [] → token ≠ .scalar (text value))
    (h : startValue? limit frames token = some next) : next.NotText value := by
  cases token with
  | scalar document =>
      have hDocument : frames = [] → document ≠ text value := fun hNil hText =>
        hToken hNil (congrArg Token.scalar hText)
      exact notText_complete? hDocument h
  | openArray | openObject =>
      rw [startValue?, Option.ite_none_right_eq_some, Option.some.injEq] at h
      obtain ⟨-, rfl⟩ := h
      exact notText_cons _ _ _
  | closeArray | closeObject | colon | comma => cases h

theorem notText_startKey? (h : startKey? frames token = some next) : next.NotText value := by
  unfold startKey? at h
  split at h <;> cases h
  exact notText_cons _ _ _

theorem notText_close? (h : close? frames token = some next) : next.NotText value := by
  unfold close? at h
  split at h
  · exact notText_complete? (fun _ => Json.noConfusion) h
  · exact notText_complete? (fun _ => Json.noConfusion) h
  · cases h

/-- What stands inside of a container does not become the document. -/
theorem notText_step? (hState : state.NotText value) (h : step? limit state token = some next) :
    next.NotText value := by
  unfold step? at h
  split at h
  case h_1 | h_9 => cases h
  case h_2 | h_4 => exact notText_startValue? (fun hNil => absurd hNil hState) h
  case h_3 | h_6 | h_12 => exact notText_close? h
  case h_5 | h_7 => exact notText_startKey? h
  case h_8 | h_10 | h_11 =>
    cases h
    exact hState

theorem notText_foldlM {tokens : List Token} {last : State} (hState : state.NotText value)
    (h : tokens.foldlM (step? limit) state = some last) : last.NotText value := by
  induction tokens generalizing state with
  | nil =>
      cases h
      exact hState
  | cons token tokens ih =>
      rw [List.foldlM_cons, Option.bind_eq_bind, Option.bind_eq_some_iff] at h
      obtain ⟨next, hStep, hRest⟩ := h
      exact ih (notText_step? hState hStep) hRest

/-- Tokens make a document when they leave it finished, and nothing else open. -/
theorem ofTokens?_eq_some_iff {tokens : List Token} : ofTokens? limit tokens = some document ↔
    tokens.foldlM (step? limit) (.unfinished .value []) = some (.finished document) := by
  unfold ofTokens?
  split
  next hRead => simp [hRead]
  next hOther => simpa using hOther document

/-- Tokens that spell a string start with this string. -/
theorem head?_eq_text {tokens : List Token}
    (h : ofTokens? limit tokens = some (text value)) :
    tokens.head? = some (.scalar (text value)) := by
  rw [ofTokens?_eq_some_iff] at h
  cases tokens with
  | nil => cases h
  | cons token tokens =>
      by_contra hHead
      have hToken : token ≠ .scalar (text value) := fun hSame => hHead (congrArg some hSame)
      rw [List.foldlM_cons, Option.bind_eq_bind, Option.bind_eq_some_iff] at h
      obtain ⟨next, hStep, hRest⟩ := h
      have hLast := notText_foldlM (notText_startValue? (fun _ => hToken) hStep) hRest
      exact hLast rfl

/-- Only a quote starts a string. -/
theorem readScalar?_ne_text {c : Char} (hQuote : c ≠ '"') {rest after : List Char}
    (h : readScalar? (c :: rest) = some (document, after)) :
    document ≠ text value := by
  unfold readScalar? at h
  split at h
  next hText => exact absurd (List.cons.inj hText).1 hQuote
  next =>
    rcases Option.or_eq_some_iff.mp h with hLiteral | ⟨-, hNumber⟩
    · unfold readLiteral? at hLiteral
      split at hLiteral <;> cases hLiteral <;> exact Json.noConfusion
    · rw [Option.map_eq_some_iff] at hNumber
      obtain ⟨_, -, hSame⟩ := hNumber
      cases hSame
      exact Json.noConfusion

theorem head?_ne_text {c : Char} (hQuote : c ≠ '"') (hBlank : isBlank c = false)
    {rest : List Char} {tokens : List Token} (h : tokens? (c :: rest) = some tokens) :
    tokens.head? ≠ some (.scalar (text value)) := by
  rw [tokens?, hBlank, if_neg Bool.false_ne_true] at h
  split at h
  next token hToken =>
    obtain ⟨others, -, rfl⟩ := Option.map_eq_some_iff.mp h
    unfold punctuation? at hToken
    split at hToken <;> cases hToken <;> simp
  next =>
    split at h
    next document after hRead =>
      obtain ⟨others, -, rfl⟩ := Option.map_eq_some_iff.mp h
      simpa using readScalar?_ne_text hQuote hRead
    next => cases h

/-- No string starts in what has been written for the characters of a string. -/
theorem head?_ne_text_flatMap {characters : List Char} {tokens : List Token}
    (h : tokens? (characters.flatMap escapeChar) = some tokens) :
    tokens.head? ≠ some (.scalar (text value)) := by
  induction characters with
  | nil =>
      rw [List.flatMap_nil, tokens?, Option.some.injEq] at h
      simp [← h]
  | cons c characters ih =>
      rw [List.flatMap_cons] at h
      rcases escapeChar_cases c with ⟨code, hEscape, -⟩ | ⟨hSelf, hQuote, -⟩
      · rw [hEscape] at h
        exact head?_ne_text (by decide) rfl h
      · rw [hSelf, List.singleton_append] at h
        cases hBlank : isBlank c with
        | true =>
            rw [tokens?_blank hBlank] at h
            exact ih h
        | false => exact head?_ne_text hQuote hBlank h

/-- The text of a string without its quotes is not read as a string. -/
theorem parse?_flatMap_escapeChar (characters : List Char) (value : String) :
    parse? limit (String.ofList (characters.flatMap escapeChar)) ≠ some (text value) := by
  rw [parse?, String.toList_ofList, ne_eq, Option.bind_eq_some_iff]
  rintro ⟨tokens, hTokens, hRead⟩
  exact head?_ne_text_flatMap hTokens (head?_eq_text hRead)

end Stencil.Json
