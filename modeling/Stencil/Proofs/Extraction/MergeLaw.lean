import Stencil.Proofs.Discovery.Coverage
import Stencil.Proofs.Extraction.Confinement

/-!
The merge law. What a template extracts is determined by the list of all
contributed entries alone: whether one contribution was positional, which keys
the entries have, and which of them came last. A position counts as its decimal
text. The accumulator that merging keeps does not appear in the law.
-/

namespace Stencil

variable {Memory : Type}

namespace Contribution

/-- The test for positional contributions looks at the constructor alone. -/
theorem isPositional_iff {contribution : Contribution} :
    contribution.isPositional = true ↔ ∃ entries, contribution = positional entries := by
  cases contribution <;> simp [isPositional]

/-- The contributed entries, positions as their decimal texts. -/
def entries : Contribution → List (String × Value)
  | keyed entries => entries
  | positional entries =>
    entries.map fun (position, value) => ((Segment.index position).toKey, value)

/-- The entries that a sequence keeps beside its positions: those under a key
that is the text of no position. -/
def named : Contribution → List (String × Value)
  | keyed entries => entries.filter fun entry => (Segment.key entry.1).position?.isNone
  | positional _ => []

end Contribution

namespace Bindings

/-- Whether some entry writes this position: its key is the decimal text, and the
position is neither beyond the bound nor the last one, whose length would be no
position. -/
def Fills (config : Config) (entries : List (String × Value)) (position : Nat) : Prop :=
  position + 1 < addressLimit ∧ config.allows position = true ∧
    ∃ entry ∈ entries, entry.1 = (Segment.index position).toKey

/-- What contributions are merged to. Without a positional one it is an object
with the distinct keys in the order of their first entries, each with the value
of its last entry. Otherwise it is an array that ends with the highest position
that is filled, with the value of the last entry at every position that is
filled, and null in between. -/
def Merged (config : Config) (contributions : List Contribution) : Cell → Prop
  | .object fields =>
    (∀ entries, Contribution.positional entries ∉ contributions) ∧
      fields.keys = ((contributions.flatMap Contribution.entries).map Prod.fst).eraseDups ∧
      ∀ key, fields.get? key = (contributions.flatMap Contribution.entries).reverse.lookup key
  | .array items =>
    (∃ entries, Contribution.positional entries ∈ contributions) ∧
      (∀ position, position < items.size ↔ ∃ filled, position ≤ filled ∧
        Fills config (contributions.flatMap Contribution.entries) filled) ∧
      ∀ position, position < items.size → items[position]? =
        some (((contributions.flatMap Contribution.entries).reverse.lookup
          (Segment.index position).toKey).getD .null)

/-- One more entry wins over those before it. -/
theorem lookup_reverse_concat (entries : List (String × Value)) (entry : String × Value)
    (key : String) :
    (entries ++ [entry]).reverse.lookup key =
      if key = entry.1 then some entry.2 else entries.reverse.lookup key := by
  rw [List.reverse_append, List.reverse_singleton, List.singleton_append, List.lookup_cons]
  by_cases hSame : key = entry.1
  · rw [if_pos hSame, beq_iff_eq.mpr hSame]
  · rw [if_neg hSame, beq_eq_false_iff_ne.mpr hSame]

/-- One more entry fills the position that its key is the text of, if it may be
filled. -/
theorem fills_concat {config : Config} {entries : List (String × Value)}
    {entry : String × Value} {position : Nat} :
    Fills config (entries ++ [entry]) position ↔
      Fills config entries position ∨ (position + 1 < addressLimit ∧
        config.allows position = true ∧ entry.1 = (Segment.index position).toKey) := by
  simp only [Fills, List.mem_append, List.mem_singleton]
  constructor
  · rintro ⟨hFits, hAllows, found, hOld | rfl, hKey⟩
    · exact .inl ⟨hFits, hAllows, found, hOld, hKey⟩
    · exact .inr ⟨hFits, hAllows, hKey⟩
  · rintro (⟨hFits, hAllows, found, hOld, hKey⟩ | ⟨hFits, hAllows, hKey⟩)
    · exact ⟨hFits, hAllows, found, .inl hOld, hKey⟩
    · exact ⟨hFits, hAllows, entry, .inr rfl, hKey⟩

/-- Below a position that is allowed, all positions are. -/
theorem allows_mono {config : Config} {position higher : Nat} (h : config.allows higher = true)
    (hLe : position ≤ higher) : config.allows position = true := by
  unfold Config.allows at h ⊢
  cases hBound : config.maxPosition with
  | none => rfl
  | some bound =>
      rw [hBound] at h
      exact decide_eq_true (Nat.le_trans hLe (of_decide_eq_true h))

/-- Placing is guarded by the limit of addresses and by the bound. -/
theorem place_eq (config : Config) (items : Array Value) (position : Nat) (value : Value) :
    place config items position value =
      if position + 1 < addressLimit ∧ config.allows position = true then
        placeAt items position value
      else items := by
  rw [place]
  congr 1
  simp

/-- Write an entry to an array, if its key is the text of a position that may be
filled. -/
def write (config : Config) (items : Array Value) (entry : String × Value) : Array Value :=
  match (Segment.key entry.1).position? with
  | some position => place config items position entry.2
  | none => items

/-- A position is written under its decimal text, or could not be filled anyway. -/
theorem write_index (config : Config) (items : Array Value) (position : Nat) (value : Value) :
    write config items ((Segment.index position).toKey, value) =
      place config items position value := by
  rw [write]
  cases hPosition : (Segment.key (Segment.index position).toKey).position? with
  | some found =>
      obtain ⟨-, hKey⟩ := Segment.position?_key_eq_some_iff.mp hPosition
      rw [Segment.toKey_index_inj.mp hKey]
  | none =>
      have hFits : ¬ (position + 1 < addressLimit ∧ config.allows position = true) := by
        rintro ⟨hLt, -⟩
        rw [Segment.position?_key_eq_some_iff.mpr ⟨Nat.lt_of_succ_lt hLt, rfl⟩] at hPosition
        cases hPosition
      rw [place_eq, if_neg hFits]

/-- The array that these entries make: it ends with the highest position that is
filled, and holds the last entry of every position. -/
structure Reflects (config : Config) (entries : List (String × Value)) (items : Array Value) :
    Prop where
  size : ∀ position, position < items.size ↔
    ∃ filled, position ≤ filled ∧ Fills config entries filled
  item : ∀ position, position < items.size → items[position]? =
    some ((entries.reverse.lookup (Segment.index position).toKey).getD .null)

namespace Reflects

variable {config : Config} {entries : List (String × Value)} {items : Array Value}
  {entry : String × Value} {target : Nat}

/-- Without entries there are no items. -/
theorem nil (config : Config) : Reflects config [] #[] where
  size := by simp [Fills]
  item := by simp

/-- Whatever is inside the array could be filled. -/
theorem fits (h : Reflects config entries items) {position : Nat} (hLt : position < items.size) :
    position + 1 < addressLimit ∧ config.allows position = true := by
  obtain ⟨filled, hLe, hBelow, hAllows, -⟩ := (h.size position).mp hLt
  exact ⟨Nat.lt_of_le_of_lt (Nat.succ_le_succ hLe) hBelow, allows_mono hAllows hLe⟩

/-- No entry has the text of a position behind the array that could have been
filled. -/
theorem lookup_eq_none (h : Reflects config entries items) {position : Nat}
    (hLe : items.size ≤ position) (hFits : position + 1 < addressLimit)
    (hAllows : config.allows position = true) :
    entries.reverse.lookup (Segment.index position).toKey = none := by
  rw [List.lookup_eq_none_iff]
  intro found hFound
  rw [bne_iff_ne]
  intro hKey
  exact absurd ((h.size position).mpr ⟨position, Nat.le_refl _, hFits, hAllows, found,
    List.mem_reverse.mp hFound, hKey.symm⟩) (Nat.not_lt.mpr hLe)

/-- An entry that fills no position makes no difference to the items. -/
theorem skip (h : Reflects config entries items)
    (hSkip : ∀ position, entry.1 = (Segment.index position).toKey →
      ¬ (position + 1 < addressLimit ∧ config.allows position = true)) :
    Reflects config (entries ++ [entry]) items where
  size := by
    intro position
    rw [h.size]
    constructor
    · rintro ⟨filled, hLe, hFilled⟩
      exact ⟨filled, hLe, fills_concat.mpr (.inl hFilled)⟩
    · rintro ⟨filled, hLe, hFilled⟩
      rcases fills_concat.mp hFilled with hOld | ⟨hBelow, hAllows, hKey⟩
      · exact ⟨filled, hLe, hOld⟩
      · exact absurd ⟨hBelow, hAllows⟩ (hSkip filled hKey)
  item := by
    intro position hLt
    have hOther : (Segment.index position).toKey ≠ entry.1 := fun hKey =>
      hSkip position hKey.symm (h.fits hLt)
    rw [lookup_reverse_concat, if_neg hOther, h.item position hLt]

/-- An entry that fills a position is written there, behind as many nulls as it
takes. Nothing has been written between the old end and the new entry. -/
theorem place (h : Reflects config entries items)
    (hKey : entry.1 = (Segment.index target).toKey) (hFits : target + 1 < addressLimit)
    (hAllows : config.allows target = true) :
    Reflects config (entries ++ [entry]) (placeAt items target entry.2) where
  size := by
    intro position
    have hMax : position < max items.size (target + 1) ↔
        position < items.size ∨ position ≤ target := by omega
    rw [size_placeAt, hMax, h.size]
    constructor
    · rintro (⟨filled, hLe, hFilled⟩ | hLe)
      · exact ⟨filled, hLe, fills_concat.mpr (.inl hFilled)⟩
      · exact ⟨target, hLe, fills_concat.mpr (.inr ⟨hFits, hAllows, hKey⟩)⟩
    · rintro ⟨filled, hLe, hFilled⟩
      rcases fills_concat.mp hFilled with hOld | ⟨-, -, hSame⟩
      · exact .inl ⟨filled, hLe, hOld⟩
      · rw [hKey, Segment.toKey_index_inj] at hSame
        exact .inr (hSame ▸ hLe)
  item := by
    intro position hLt
    rw [size_placeAt] at hLt
    rw [getElem?_placeAt, lookup_reverse_concat, hKey]
    by_cases hSame : position = target
    · rw [if_pos hSame, if_pos (Segment.toKey_index_inj.mpr hSame), Option.getD_some]
    · rw [if_neg hSame, if_neg fun hOther => hSame (Segment.toKey_index_inj.mp hOther)]
      by_cases hOld : position < items.size
      · rw [if_pos hOld, h.item position hOld]
      · have hGap : position < target := by omega
        have hNone := h.lookup_eq_none (Nat.not_lt.mp hOld)
          (Nat.lt_trans (Nat.succ_lt_succ hGap) hFits) (allows_mono hAllows (Nat.le_of_lt hGap))
        rw [if_neg hOld, if_pos hGap, hNone, Option.getD_none]

end Reflects

/-- Entries written one after the other make the array that they describe. -/
theorem reflects_foldl_write (config : Config) (entries : List (String × Value)) :
    Reflects config entries (entries.foldl (write config) #[]) := by
  induction entries using List.reverseRecOn with
  | nil => exact .nil config
  | append_singleton entries entry ih =>
      rw [List.foldl_append, List.foldl_cons, List.foldl_nil, write]
      cases hPosition : (Segment.key entry.1).position? with
      | none =>
          refine ih.skip fun position hKey hFits => ?_
          rw [Segment.position?_key_eq_some_iff.mpr ⟨Nat.lt_of_succ_lt hFits.1, hKey⟩] at hPosition
          cases hPosition
      | some target =>
          obtain ⟨-, hKey⟩ := Segment.position?_key_eq_some_iff.mp hPosition
          simp only [place_eq]
          by_cases hFits : target + 1 < addressLimit ∧ config.allows target = true
          · rw [if_pos hFits]
            exact ih.place hKey hFits.1 hFits.2
          · rw [if_neg hFits]
            refine ih.skip fun position hOther => ?_
            rw [Segment.toKey_index_inj.mp (hOther.symm.trans hKey)]
            exact hFits

/-- Merging into a sequence writes the entries one after the other, and keeps
the others under their keys. -/
theorem merge_sequence (config : Config) (items : Array Value) (named : Fields Value)
    (contribution : Contribution) :
    merge config (.sequence items named) contribution =
      .sequence (contribution.entries.foldl (write config) items)
        (named.insertAll contribution.named) := by
  cases contribution with
  | positional entries =>
      rw [merge, Contribution.entries, List.foldl_map]
      simp only [write_index]
      rfl
  | keyed entries =>
      simp only [merge, Contribution.entries, Contribution.named]
      induction entries generalizing items named with
      | nil => rfl
      | cons entry rest ih =>
          obtain ⟨key, value⟩ := entry
          rw [List.foldl_cons, List.foldl_cons, mergeKeyed, write, List.filter_cons]
          cases (Segment.key key).position? with
          | some position => exact ih (place config items position value) named
          | none => exact ih items (named.insert key value)

/-- In a sequence, entries of both kinds are written one after the other, and those
that are no positions are kept by name. -/
theorem foldl_merge_sequence (config : Config) (contributions : List Contribution)
    (items : Array Value) (named : Fields Value) :
    contributions.foldl (merge config) (.sequence items named) =
      .sequence ((contributions.flatMap Contribution.entries).foldl (write config) items)
        (named.insertAll (contributions.flatMap Contribution.named)) := by
  induction contributions generalizing items named with
  | nil => rfl
  | cons contribution rest ih =>
      rw [List.foldl_cons, merge_sequence, ih, List.flatMap_cons, List.foldl_append,
        List.flatMap_cons, Fields.insertAll, Fields.insertAll, Fields.insertAll, List.foldl_append]

/-- In a mapping, entries are inserted one after the other. -/
theorem foldl_merge_mapping (config : Config) {contributions : List Contribution}
    (h : ∀ contribution ∈ contributions, contribution.isPositional = false)
    (fields : Fields Value) :
    contributions.foldl (merge config) (.mapping fields) =
      .mapping (fields.insertAll (contributions.flatMap Contribution.entries)) := by
  induction contributions generalizing fields with
  | nil => rfl
  | cons contribution rest ih =>
      rw [List.forall_mem_cons] at h
      cases contribution with
      | positional entries => cases h.1
      | keyed entries =>
          rw [List.foldl_cons, merge, ih h.2, List.flatMap_cons, Contribution.entries,
            Fields.insertAll, Fields.insertAll, Fields.insertAll, List.foldl_append]

/-- With a positional contribution, entries are merged into a sequence. -/
theorem ofContributions_sequence (config : Config) {contributions : List Contribution}
    (h : ∃ contribution ∈ contributions, contribution.isPositional = true) :
    ofContributions config contributions =
      .sequence ((contributions.flatMap Contribution.entries).foldl (write config) #[])
        (.ofList (contributions.flatMap Contribution.named)) := by
  rw [ofContributions, start, if_pos (List.any_eq_true.mpr h), foldl_merge_sequence]
  rfl

/-- Without a positional contribution, entries are merged into a mapping. -/
theorem ofContributions_mapping (config : Config) {contributions : List Contribution}
    (h : ∀ contribution ∈ contributions, contribution.isPositional = false) :
    ofContributions config contributions =
      .mapping (.ofList (contributions.flatMap Contribution.entries)) := by
  have hNone : ¬ contributions.any Contribution.isPositional := by
    rw [List.any_eq_true]
    rintro ⟨contribution, hMem, hPositional⟩
    rw [h contribution hMem] at hPositional
    cases hPositional
  rw [ofContributions, start, if_neg hNone, foldl_merge_mapping config h]
  rfl

/-- Either some contribution is positional or none is. This decides what is merged. -/
theorem exists_isPositional_or (contributions : List Contribution) :
    (∃ contribution ∈ contributions, contribution.isPositional = true) ∨
      ∀ contribution ∈ contributions, contribution.isPositional = false := by
  by_cases h : ∃ contribution ∈ contributions, contribution.isPositional = true
  · exact .inl h
  · exact .inr fun contribution hMem =>
      Bool.eq_false_iff.mpr fun hPositional => h ⟨contribution, hMem, hPositional⟩

/-- Contributions are merged to what the law says. -/
theorem merged_content (config : Config) (contributions : List Contribution) :
    Merged config contributions (ofContributions config contributions).content := by
  rcases exists_isPositional_or contributions with hSome | hKeyed
  · have hReflects := reflects_foldl_write config (contributions.flatMap Contribution.entries)
    rw [ofContributions_sequence config hSome]
    obtain ⟨contribution, hMem, hPositional⟩ := hSome
    obtain ⟨entries, rfl⟩ := Contribution.isPositional_iff.mp hPositional
    exact ⟨⟨entries, hMem⟩, hReflects.size, hReflects.item⟩
  · rw [ofContributions_mapping config hKeyed]
    refine ⟨fun entries hMem => ?_, Fields.keys_ofList _, Fields.get?_ofList _⟩
    cases hKeyed (.positional entries) hMem

end Bindings

namespace Extraction

/-- What one placeholder contributes when its turn comes. Values are looked up in
the heap of that turn, and a container that a callable returns contributes what
it holds when the callable is done. -/
inductive Turn (behaviour : Behaviour Memory) (source : Value) :
    Placeholder → World Memory → Contribution → World Memory → Prop where
  | name {path : Path} {name : String} {world : World Memory} :
      Turn behaviour source ⟨path, .text name⟩ world
        (.keyed [(name, world.heap.getPath source path)]) world
  | position {path : Path} {number : Number} {position : Nat} {world : World Memory}
      (hPosition : number.position? = some position) :
      Turn behaviour source ⟨path, .number number⟩ world
        (.positional [(position, world.heap.getPath source path)]) world
  | noPosition {path : Path} {number : Number} {world : World Memory}
      (hNone : number.position? = none) :
      Turn behaviour source ⟨path, .number number⟩ world (.positional []) world
  | array {path : Path} {id : CallableId} {outcome : Value} {items : Array Value}
      {world after : World Memory}
      (hCall : behaviour id (.extraction (world.heap.getPath source path) path source) world =
        (outcome, after))
      (hOutcome : after.heap.content? outcome = some (.array items)) :
      Turn behaviour source ⟨path, .callable id⟩ world
        (.positional (items.toList.zipIdx.map fun (item, position) => (position, item))) after
  | object {path : Path} {id : CallableId} {outcome : Value} {fields : Fields Value}
      {world after : World Memory}
      (hCall : behaviour id (.extraction (world.heap.getPath source path) path source) world =
        (outcome, after))
      (hOutcome : after.heap.content? outcome = some (.object fields)) :
      Turn behaviour source ⟨path, .callable id⟩ world (.keyed fields.entries) after
  | scalar {path : Path} {id : CallableId} {outcome : Value} {world after : World Memory}
      (hCall : behaviour id (.extraction (world.heap.getPath source path) path source) world =
        (outcome, after))
      (hOutcome : after.heap.content? outcome = none) :
      Turn behaviour source ⟨path, .callable id⟩ world (.keyed [(path.lastKey, outcome)]) after
  | null {path : Path} {world : World Memory} :
      Turn behaviour source ⟨path, .null⟩ world (.keyed []) world
  | bool {path : Path} {flag : Bool} {world : World Memory} :
      Turn behaviour source ⟨path, .bool flag⟩ world (.keyed []) world

/-- What several placeholders contribute. A turn starts from what the turns
before have left. -/
inductive Turns (behaviour : Behaviour Memory) (source : Value) :
    List Placeholder → World Memory → List Contribution → World Memory → Prop where
  | nil {world : World Memory} : Turns behaviour source [] world [] world
  | cons {placeholder : Placeholder} {rest : List Placeholder} {world middle after : World Memory}
      {contribution : Contribution} {others : List Contribution}
      (turn : Turn behaviour source placeholder world contribution middle)
      (turns : Turns behaviour source rest middle others after) :
      Turns behaviour source (placeholder :: rest) world (contribution :: others) after

variable {behaviour : Behaviour Memory} {source : Value} {world after : World Memory}

/-- A turn is what the program computes for it. -/
theorem turn_iff {placeholder : Placeholder} (hScalar : placeholder.value.isContainer = false)
    {contribution : Contribution} :
    Turn behaviour source placeholder world contribution after ↔
      contribute behaviour source placeholder world = (contribution, after) := by
  constructor
  · intro turn
    cases turn with
    | name => rfl
    | position hPosition => simp [contribute, Placeholder.request, hPosition]
    | noPosition hNone => simp [contribute, Placeholder.request, hNone]
    | array hCall hOutcome =>
        simp only [contribute, Placeholder.request, hCall, Contribution.ofOutcome, hOutcome]
    | object hCall hOutcome =>
        simp only [contribute, Placeholder.request, hCall, Contribution.ofOutcome, hOutcome]
    | scalar hCall hOutcome =>
        simp only [contribute, Placeholder.request, hCall, Contribution.ofOutcome, hOutcome,
          Placeholder.lastKey]
    | null => rfl
    | bool => rfl
  · intro h
    obtain ⟨path, value⟩ := placeholder
    cases value with
    | null =>
        obtain ⟨rfl, rfl⟩ := Prod.mk.inj h
        exact .null
    | bool flag =>
        obtain ⟨rfl, rfl⟩ := Prod.mk.inj h
        exact .bool
    | number number =>
        cases hPosition : number.position? with
        | none =>
            simp only [contribute, Placeholder.request, hPosition, Option.toList_none,
              List.map_nil] at h
            obtain ⟨rfl, rfl⟩ := Prod.mk.inj h
            exact .noPosition hPosition
        | some position =>
            simp only [contribute, Placeholder.request, hPosition, Option.toList_some,
              List.map_cons, List.map_nil] at h
            obtain ⟨rfl, rfl⟩ := Prod.mk.inj h
            exact .position hPosition
    | text name =>
        obtain ⟨rfl, rfl⟩ := Prod.mk.inj h
        exact .name
    | callable id =>
        rcases hCall : behaviour id (.extraction (world.heap.getPath source path) path source) world
          with ⟨outcome, middle⟩
        simp only [contribute, Placeholder.request, hCall, Contribution.ofOutcome] at h
        cases hOutcome : middle.heap.content? outcome with
        | none =>
            rw [hOutcome] at h
            obtain ⟨rfl, rfl⟩ := Prod.mk.inj h
            exact .scalar hCall hOutcome
        | some cell =>
            rw [hOutcome] at h
            cases cell with
            | array items =>
                obtain ⟨rfl, rfl⟩ := Prod.mk.inj h
                exact .array hCall hOutcome
            | object fields =>
                obtain ⟨rfl, rfl⟩ := Prod.mk.inj h
                exact .object hCall hOutcome
    | container handle => cases hScalar

/-- The turns are what the program computes for them, so there is one way for
them to go. -/
theorem turns_iff {placeholders : List Placeholder}
    (hScalar : ∀ placeholder ∈ placeholders, placeholder.value.isContainer = false)
    {contributed : List Contribution} :
    Turns behaviour source placeholders world contributed after ↔
      contributions behaviour source placeholders world = (contributed, after) := by
  induction placeholders generalizing world contributed with
  | nil =>
      constructor
      · intro turns
        cases turns
        rfl
      · intro h
        obtain ⟨rfl, rfl⟩ := Prod.mk.inj h
        exact .nil
  | cons placeholder rest ih =>
      rw [List.forall_mem_cons] at hScalar
      rw [contributions_cons]
      constructor
      · intro turns
        cases turns with
        | cons turn turns =>
            rw [(turn_iff hScalar.1).mp turn, (ih hScalar.2).mp turns]
      · intro h
        obtain ⟨rfl, hAfter⟩ := Prod.mk.inj h
        exact .cons ((turn_iff hScalar.1).mpr rfl) ((ih hScalar.2).mpr (Prod.ext rfl hAfter))

end Extraction

/-- Extraction is the merge law. Its placeholders take their turns in the order
of discovery, and the result is a new container with what their contributions
are merged to. -/
theorem Extractor.apply_merged (extractor : Extractor) (behaviour : Behaviour Memory)
    (source : Value) (world : World Memory) :
    ∃ contributions after,
      (∀ others other, Extraction.Turns behaviour source (world.heap.discover extractor.template)
          world others other ↔ others = contributions ∧ other = after) ∧
      ∃ cell, Bindings.Merged extractor.config contributions cell ∧
        extractor.apply behaviour source world =
          (.container after.heap.size, { after with heap := (after.heap.alloc cell).2 }) := by
  refine ⟨_, _, fun others other => ?_, _, Bindings.merged_content extractor.config
    (Extraction.contributions behaviour source (world.heap.discover extractor.template) world).1, rfl⟩
  rw [Extraction.turns_iff fun placeholder => Heap.isContainer_of_mem_discover, Prod.ext_iff]
  exact and_congr eq_comm eq_comm

end Stencil
