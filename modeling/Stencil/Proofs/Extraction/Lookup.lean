import Mathlib.Data.List.Forall2
import Stencil.Proofs.Extraction.MergeLaw

/-!
What bindings read as. A segment reads as the last of the entries that count for
it. In a mapping all entries count. In a sequence they count for the positions
that may be filled, and for any other key only the named ones do. Bindings that
are merged from entries under the same keys therefore read alike, as far as the
values of the entries are alike.
-/

namespace Stencil

namespace Bindings

/-- The entries that count when a segment is read. -/
def candidates (config : Config) (contributions : List Contribution) (segment : Segment) :
    List (String × Value) :=
  if contributions.any Contribution.isPositional then
    match segment.position? with
    | some position =>
      if position + 1 < addressLimit ∧ config.allows position = true then
        contributions.flatMap Contribution.entries
      else []
    | none => contributions.flatMap Contribution.named
  else contributions.flatMap Contribution.entries

variable {config : Config} {contributions others : List Contribution} {segment : Segment}

/-- In a mapping all contributed entries count, whatever the segment. -/
theorem candidates_of_mapping
    (h : ∀ contribution ∈ contributions, contribution.isPositional = false) :
    candidates config contributions segment = contributions.flatMap Contribution.entries := by
  refine if_neg fun hAny => ?_
  obtain ⟨contribution, hMem, hPositional⟩ := List.any_eq_true.mp hAny
  rw [h contribution hMem] at hPositional
  cases hPositional

/-- In a sequence only named entries count for a segment that is no position. -/
theorem candidates_of_named
    (h : ∃ contribution ∈ contributions, contribution.isPositional = true)
    (hNone : segment.position? = none) :
    candidates config contributions segment = contributions.flatMap Contribution.named := by
  rw [candidates, if_pos (List.any_eq_true.mpr h), hNone]

/-- Items that reflect entries are read as the last entry of a position. -/
theorem Reflects.getD_eq {entries : List (String × Value)} {items : Array Value} {position : Nat}
    (h : Reflects config entries items)
    (hFits : position + 1 < addressLimit ∧ config.allows position = true) :
    items[position]?.getD .null =
      (entries.reverse.lookup (Segment.index position).toKey).getD .null := by
  by_cases hLt : position < items.size
  · rw [h.item position hLt, Option.getD_some]
  · rw [h.lookup_eq_none (Nat.not_lt.mp hLt) hFits.1 hFits.2,
      Array.getElem?_eq_none (Nat.not_lt.mp hLt)]

/-- A segment reads as the last of the entries that count for it. A position that may
not be filled reads as null, since no item stands there. -/
theorem get_ofContributions (config : Config) (contributions : List Contribution)
    (segment : Segment) :
    (ofContributions config contributions).get segment =
      ((candidates config contributions segment).reverse.lookup segment.toKey).getD .null := by
  rcases exists_isPositional_or contributions with hSome | hKeyed
  · have hReflects := reflects_foldl_write config (contributions.flatMap Contribution.entries)
    rw [ofContributions_sequence config hSome]
    cases hPosition : segment.position? with
    | none =>
        rw [candidates_of_named hSome hPosition, ← Fields.get?_ofList]
        simp only [get, hPosition]
    | some position =>
        obtain ⟨-, hKey⟩ := Segment.position?_eq_some_iff.mp hPosition
        simp only [get, candidates, if_pos (List.any_eq_true.mpr hSome), hPosition]
        by_cases hFits : position + 1 < addressLimit ∧ config.allows position = true
        · rw [if_pos hFits, hKey, hReflects.getD_eq hFits]
        · rw [if_neg hFits, Array.getElem?_eq_none (Nat.not_lt.mp fun hLt => hFits (hReflects.fits hLt))]
          rfl
  · rw [ofContributions_mapping config hKeyed, candidates_of_mapping hKeyed, ← Fields.get?_ofList]
    rfl

end Bindings

/-- Entries under one key, with related values. -/
def EntriesRelated (related : String → Value → Value → Prop) (entry other : String × Value) : Prop :=
  entry.1 = other.1 ∧ related entry.1 entry.2 other.2

/-- Among related entries, a key is found in both or in neither. -/
theorem lookup_related {related : String → Value → Value → Prop}
    {entries others : List (String × Value)}
    (h : List.Forall₂ (EntriesRelated related) entries others) (key : String) :
    entries.lookup key = none ∧ others.lookup key = none ∨
      ∃ value other, entries.lookup key = some value ∧ others.lookup key = some other ∧
        related key value other := by
  induction h with
  | nil => exact .inl ⟨rfl, rfl⟩
  | @cons entry other _ _ hEntry _ ih =>
      obtain ⟨head, value⟩ := entry
      obtain ⟨_, value'⟩ := other
      obtain ⟨rfl, hRelated⟩ := hEntry
      by_cases hKey : key = head
      · subst hKey
        exact .inr ⟨value, value', List.lookup_cons_self, List.lookup_cons_self, hRelated⟩
      · simpa only [List.lookup_cons, beq_eq_false_iff_ne.mpr hKey] using ih

namespace Contribution

/-- Contributions of one kind, entry by entry under the same keys, with related
values. A position counts as its decimal text. -/
inductive Corresponds (related : String → Value → Value → Prop) :
    Contribution → Contribution → Prop where
  | keyed {entries others : List (String × Value)}
      (h : List.Forall₂ (EntriesRelated related) entries others) :
      Corresponds related (keyed entries) (keyed others)
  | positional {entries others : List (Nat × Value)}
      (h : List.Forall₂ (fun entry other => entry.1 = other.1 ∧
        related (Segment.index entry.1).toKey entry.2 other.2) entries others) :
      Corresponds related (positional entries) (positional others)

variable {related : String → Value → Value → Prop} {contribution other : Contribution}

/-- Corresponding contributions are of the same kind. -/
theorem Corresponds.isPositional_eq (h : Corresponds related contribution other) :
    contribution.isPositional = other.isPositional := by
  cases h <;> rfl

/-- Their entries have the same keys in the same order, and related values. -/
theorem Corresponds.entries (h : Corresponds related contribution other) :
    List.Forall₂ (EntriesRelated related) contribution.entries other.entries := by
  cases h with
  | keyed h => exact h
  | positional h =>
      rw [Contribution.entries, Contribution.entries, List.forall₂_map_left_iff,
        List.forall₂_map_right_iff]
      refine h.imp fun entry other hEntry => ⟨?_, hEntry.2⟩
      exact congrArg (fun position => (Segment.index position).toKey) hEntry.1

/-- So have the entries that a sequence keeps by name, as the keys decide which
these are. -/
theorem Corresponds.named (h : Corresponds related contribution other) :
    List.Forall₂ (EntriesRelated related) contribution.named other.named := by
  cases h with
  | keyed h =>
      refine List.rel_filter (fun entry other hEntry => ?_) h
      simp only [hEntry.1]
  | positional h => exact .nil

end Contribution

namespace Bindings

variable {config : Config} {contributions others : List Contribution}
  {related : String → Value → Value → Prop}

/-- Whether some contribution is positional is the same on both sides. -/
theorem any_isPositional_eq
    (h : List.Forall₂ (Contribution.Corresponds related) contributions others) :
    contributions.any Contribution.isPositional = others.any Contribution.isPositional := by
  induction h with
  | nil => rfl
  | cons hFirst _ ih => rw [List.any_cons, List.any_cons, hFirst.isPositional_eq, ih]

theorem entries_related
    (h : List.Forall₂ (Contribution.Corresponds related) contributions others) :
    List.Forall₂ (EntriesRelated related) (contributions.flatMap Contribution.entries)
      (others.flatMap Contribution.entries) :=
  List.rel_flatMap h fun _ _ hFirst => hFirst.entries

/-- The same entries count on both sides. -/
theorem candidates_related (config : Config)
    (h : List.Forall₂ (Contribution.Corresponds related) contributions others)
    (segment : Segment) :
    List.Forall₂ (EntriesRelated related) (candidates config contributions segment)
      (candidates config others segment) := by
  rw [candidates, candidates, any_isPositional_eq h]
  split
  · split
    · split
      · exact entries_related h
      · exact .nil
    · exact List.rel_flatMap h fun _ _ hFirst => hFirst.named
  · exact entries_related h

/-- Bindings merged from corresponding contributions read as related values, or
both as null because nothing counts for the segment. -/
theorem get_related (config : Config)
    (h : List.Forall₂ (Contribution.Corresponds related) contributions others)
    (segment : Segment) :
    (ofContributions config contributions).get segment = .null ∧
        (ofContributions config others).get segment = .null ∨
      related segment.toKey ((ofContributions config contributions).get segment)
        ((ofContributions config others).get segment) := by
  have hCandidates := candidates_related config h segment
  rw [get_ofContributions, get_ofContributions]
  rcases lookup_related (List.rel_reverse hCandidates) segment.toKey with
    ⟨hNone, hOther⟩ | ⟨value, other, hValue, hOther, hRelated⟩
  · rw [hNone, hOther]
    exact .inl ⟨rfl, rfl⟩
  · rw [hValue, hOther]
    exact .inr hRelated

/-- What is stored under a segment is what the segment reads as. -/
theorem get_of_content {bindings : Bindings} {segment : Segment} {value : Value}
    (h : bindings.content.get? segment = some value) : bindings.get segment = value := by
  cases bindings with
  | mapping fields =>
      have hField : fields.get? segment.toKey = some value := h
      rw [get, hField, Option.getD_some]
  | sequence items named =>
      obtain ⟨position, hPosition, hItem⟩ := Option.bind_eq_some_iff.mp h
      simp only [get, hPosition, hItem, Option.getD_some]

/-- A sequence of bindings is short enough to be stored, whatever was contributed. -/
theorem addressable_content (config : Config) (contributions : List Contribution) :
    (ofContributions config contributions).content.Addressable := by
  have hWithin : (ofContributions config contributions).Within Set.univ :=
    within_ofContributions config fun _ _ _ _ _ _ => trivial
  exact (within_content hWithin).2

/-- Whether a position is filled depends on the keys of the entries alone. -/
theorem fills_congr {entries others : List (String × Value)}
    (h : entries.map Prod.fst = others.map Prod.fst) (position : Nat) :
    Fills config entries position ↔ Fills config others position := by
  have hKeys : ∀ entries : List (String × Value), ∀ key,
      (∃ entry ∈ entries, entry.1 = key) ↔ key ∈ entries.map Prod.fst :=
    fun entries key => List.mem_map.symm
  rw [Fills, Fills, hKeys, hKeys, h]

/-- Bindings merged from corresponding contributions are stored in containers of
one kind, with entries under the same segments in the same order. -/
theorem shape_related (config : Config)
    (h : List.Forall₂ (Contribution.Corresponds related) contributions others) :
    (ofContributions config contributions).content.kind =
        (ofContributions config others).content.kind ∧
      (ofContributions config contributions).content.entries.map Prod.fst =
        (ofContributions config others).content.entries.map Prod.fst := by
  have hKeys : (contributions.flatMap Contribution.entries).map Prod.fst =
      (others.flatMap Contribution.entries).map Prod.fst := by
    rw [← List.forall₂_eq_eq_eq, List.forall₂_map_left_iff, List.forall₂_map_right_iff]
    exact (entries_related h).imp fun _ _ hEntry => hEntry.1
  rcases exists_isPositional_or contributions with hSome | hKeyed
  · have hOthers := List.any_eq_true.mp (any_isPositional_eq h ▸ List.any_eq_true.mpr hSome)
    rw [ofContributions_sequence config hSome, ofContributions_sequence config hOthers]
    refine ⟨rfl, ?_⟩
    rw [content, content, Cell.segments_array, Cell.segments_array]
    refine congrArg (fun size => (List.range size).map Segment.index) ?_
    refine eq_of_forall_lt_iff fun position => ?_
    rw [(reflects_foldl_write config _).size, (reflects_foldl_write config _).size]
    simp only [fills_congr hKeys]
  · have hOthers : ∀ contribution ∈ others, contribution.isPositional = false := by
      rcases exists_isPositional_or others with hSome | hOthers
      · obtain ⟨contribution, hMem, hPositional⟩ :=
          List.any_eq_true.mp ((any_isPositional_eq h).trans (List.any_eq_true.mpr hSome))
        rw [hKeyed contribution hMem] at hPositional
        cases hPositional
      · exact hOthers
    rw [ofContributions_mapping config hKeyed, ofContributions_mapping config hOthers]
    refine ⟨rfl, ?_⟩
    rw [content, content, Cell.segments_object, Cell.segments_object, Fields.keys_ofList,
      Fields.keys_ofList, hKeys]

/-- Stored bindings hold under every segment what it reads as. -/
theorem entries_content (config : Config) (contributions : List Contribution) :
    (ofContributions config contributions).content.entries =
      ((ofContributions config contributions).content.entries.map Prod.fst).map fun segment =>
        (segment, (ofContributions config contributions).get segment) := by
  rw [List.map_map]
  refine (List.map_id _).symm.trans (List.map_congr_left fun entry hEntry => ?_)
  obtain ⟨hGet, -⟩ := Cell.get?_of_mem_entries (addressable_content config contributions) hEntry
  exact Prod.ext rfl (get_of_content hGet).symm

/-- Bindings merged from corresponding contributions are stored entry by entry
under the same segments, with related values, or null in both. -/
theorem content_related (config : Config)
    (h : List.Forall₂ (Contribution.Corresponds related) contributions others) :
    List.Forall₂ (fun entry other => entry.1 = other.1 ∧
        (entry.2 = .null ∧ other.2 = .null ∨ related entry.1.toKey entry.2 other.2))
      (ofContributions config contributions).content.entries
      (ofContributions config others).content.entries := by
  rw [entries_content config contributions, entries_content config others,
    ← (shape_related config h).2, List.forall₂_map_left_iff, List.forall₂_map_right_iff,
    List.forall₂_same]
  exact fun segment _ => ⟨rfl, get_related config h segment⟩

end Bindings

end Stencil
