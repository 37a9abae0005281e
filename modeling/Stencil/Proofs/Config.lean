import Stencil.Config

/-!
Documents as configurations. A document describes a configuration, or something in
it offends. It is read as the configuration that it describes, and otherwise the
first offence in it is reported.
-/

namespace Stencil

theorem Number.ofNat_of_lt {position : Nat} (h : position < addressLimit) :
    ∃ lower upper, ofNat position = integer position lower upper := by
  have hUpper : (position : Int) < 18446744073709551616 := Int.ofNat_lt.mpr h
  have hLower : -9223372036854775808 ≤ (position : Int) := by omega
  refine ⟨hLower, hUpper, ?_⟩
  rw [ofNat, ofInt?, dif_pos ⟨hLower, hUpper⟩, Option.getD_some]

namespace Config

/-- The bound that a document gives: none, or a position. -/
inductive Gives : Json → Option Nat → Prop where
  | none : Gives .null none
  | position {position : Nat} (hLt : position < addressLimit) :
      Gives (.number (.ofNat position)) (some position)

/-- What is wrong with a document in the place of a bound. -/
inductive Misplaced : Json → Fault → Prop where
  | negative {value : Int} {lower upper} (hNegative : value < 0) :
      Misplaced (.number (.integer value lower upper)) (.negative value)
  | wrongType {document : Json} (hNull : document ≠ .null)
      (hInteger : ∀ value lower upper, document ≠ .number (.integer value lower upper)) :
      Misplaced document (.wrongType (.ofJson document) .position)

/-- What is wrong with an entry of an object. -/
inductive Wrong : String × Json → Fault → Prop where
  | unknown {name : String} {document : Json} (hName : name ≠ fieldName) :
      Wrong (name, document) (.unknownField name)
  | misplaced {document : Json} {fault : Fault} (hFault : Misplaced document fault) :
      Wrong (fieldName, document) fault

/-- The configuration that a document describes, by field or by position. Where
nothing is given, it is the default. -/
inductive Describes : Json → Config → Prop where
  | emptyObject : Describes (.object []) default
  | emptyArray : Describes (.array []) default
  | field {document : Json} {bound : Option Nat} (hBound : Gives document bound) :
      Describes (.object [(fieldName, document)]) ⟨bound⟩
  | item {document : Json} {bound : Option Nat} (hBound : Gives document bound) :
      Describes (.array [document]) ⟨bound⟩

/-- What offends first in a document. The items after the first of an array are too
many, whatever they are. -/
inductive Offends : Json → Fault → Prop where
  | entry {before after : List (String × Json)} {entry : String × Json} {fault : Fault}
      (hBefore : ∀ earlier ∈ before, ∀ fault, ¬ Wrong earlier fault) (hEntry : Wrong entry fault) :
      Offends (.object (before ++ entry :: after)) fault
  | item {document : Json} {rest : List Json} {fault : Fault} (hItem : Misplaced document fault) :
      Offends (.array (document :: rest)) fault
  | tooLong {document : Json} {rest : List Json} (hItem : ∀ fault, ¬ Misplaced document fault)
      (hRest : rest ≠ []) : Offends (.array (document :: rest)) (.tooLong (rest.length + 1))
  | wrongType {document : Json} (hArray : document.items? = none)
      (hObject : document.entries? = none) :
      Offends document (.wrongType (.ofJson document) .configuration)

variable {document : Json} {bound : Option Nat} {config : Config} {fault : Fault}
  {entry : String × Json} {entries : List (String × Json)} {items : List Json}

/-- A bound that a document gives is the one that is read off it. -/
theorem Gives.readBound_eq (h : Gives document bound) : readBound document = .ok bound := by
  cases h with
  | none => rfl
  | @position position hLt =>
      obtain ⟨lower, upper, hNumber⟩ := Number.ofNat_of_lt hLt
      rw [hNumber, readBound, if_pos (Int.natCast_nonneg position), Int.toNat_natCast]

/-- A document that gives no bound is refused with its fault. -/
theorem Misplaced.readBound_eq (h : Misplaced document fault) :
    readBound document = .error fault := by
  cases h with
  | negative hNegative => rw [readBound, if_neg (Int.not_le.mpr hNegative)]
  | wrongType hNull hInteger =>
      match document with
      | .null => exact absurd rfl hNull
      | .number (.integer value lower upper) => exact absurd rfl (hInteger value lower upper)
      | .number (.float _) => rfl
      | .bool _ => rfl
      | .text _ => rfl
      | .array _ => rfl
      | .object _ => rfl

/-- A document gives a bound or is misplaced. -/
theorem exists_gives_or_misplaced (document : Json) :
    (∃ bound, Gives document bound) ∨ ∃ fault, Misplaced document fault := by
  match document with
  | .null => exact .inl ⟨_, .none⟩
  | .number (.integer value lower upper) =>
      rcases Int.lt_or_le value 0 with hNegative | hPosition
      · exact .inr ⟨_, .negative hNegative⟩
      · obtain ⟨position, rfl⟩ := Int.eq_ofNat_of_zero_le hPosition
        have hLt : position < addressLimit := Int.ofNat_lt.mp upper
        obtain ⟨_, _, hNumber⟩ := Number.ofNat_of_lt hLt
        exact .inl ⟨some position, hNumber ▸ .position hLt⟩
  | .number (.float _) => exact .inr ⟨_, .wrongType (by simp) (by simp)⟩
  | .bool _ => exact .inr ⟨_, .wrongType (by simp) (by simp)⟩
  | .text _ => exact .inr ⟨_, .wrongType (by simp) (by simp)⟩
  | .array _ => exact .inr ⟨_, .wrongType (by simp) (by simp)⟩
  | .object _ => exact .inr ⟨_, .wrongType (by simp) (by simp)⟩

/-- No document both gives a bound and is at fault. -/
theorem Gives.not_misplaced (h : Gives document bound) : ¬ Misplaced document fault := by
  intro hFault
  have hSame := h.readBound_eq.symm.trans hFault.readBound_eq
  cases hSame

theorem Gives.not_wrong (h : Gives document bound) : ¬ Wrong (fieldName, document) fault := by
  intro hWrong
  cases hWrong with
  | unknown hName => exact hName rfl
  | misplaced hFault => exact h.not_misplaced hFault

/-- An entry gives the bound, or something is wrong with it. -/
theorem exists_gives_or_wrong (entry : String × Json) :
    (∃ document bound, entry = (fieldName, document) ∧ Gives document bound) ∨
      ∃ fault, Wrong entry fault := by
  obtain ⟨name, document⟩ := entry
  by_cases hName : name = fieldName
  · subst hName
    rcases exists_gives_or_misplaced document with ⟨bound, hGives⟩ | ⟨fault, hFault⟩
    · exact .inl ⟨document, bound, rfl, hGives⟩
    · exact .inr ⟨fault, .misplaced hFault⟩
  · exact .inr ⟨_, .unknown hName⟩

/-- A valid bound replaces the one read before, and reading goes on. -/
theorem Gives.readEntries_cons (h : Gives document bound) (config : Config)
    (entries : List (String × Json)) :
    readEntries config ((fieldName, document) :: entries) = readEntries ⟨bound⟩ entries := by
  rw [readEntries, if_pos rfl, h.readBound_eq]

/-- The first entry at fault ends the reading, whatever comes after it. -/
theorem Wrong.readEntries_cons (h : Wrong entry fault) (config : Config)
    (entries : List (String × Json)) : readEntries config (entry :: entries) = .error fault := by
  cases h with
  | unknown hName => rw [readEntries, if_neg hName]
  | misplaced hFault => rw [readEntries, if_pos rfl, hFault.readBound_eq]

/-- Entries are read up to the first that something is wrong with. -/
theorem Wrong.readEntries_append {before : List (String × Json)} (h : Wrong entry fault)
    (hBefore : ∀ earlier ∈ before, ∀ fault, ¬ Wrong earlier fault) (config : Config)
    (after : List (String × Json)) :
    readEntries config (before ++ entry :: after) = .error fault := by
  induction before generalizing config with
  | nil => exact h.readEntries_cons config after
  | cons first rest ih =>
      rw [List.forall_mem_cons] at hBefore
      rcases exists_gives_or_wrong first with ⟨document, bound, rfl, hGives⟩ | ⟨other, hWrong⟩
      · rw [List.cons_append, hGives.readEntries_cons]
        exact ih hBefore.2 ⟨bound⟩
      · exact absurd hWrong (hBefore.1 other)

/-- A document that describes a configuration is read as this configuration. -/
theorem Describes.ofJson_eq (h : Describes document config) : ofJson document = .ok config := by
  cases h with
  | emptyObject => rfl
  | emptyArray => rfl
  | field hBound =>
      rw [ofJson, hBound.readEntries_cons]
      rfl
  | item hBound => simp [ofJson, readItems, hBound.readBound_eq]

/-- A document with an offence is refused with the first one. -/
theorem Offends.ofJson_eq (h : Offends document fault) : ofJson document = .error fault := by
  cases h with
  | entry hBefore hEntry => exact hEntry.readEntries_append hBefore default _
  | item hItem => simp [ofJson, readItems, hItem.readBound_eq]
  | @tooLong first rest hItem hRest =>
      rcases exists_gives_or_misplaced first with ⟨bound, hGives⟩ | ⟨fault, hFault⟩
      · simp [ofJson, readItems, hGives.readBound_eq, hRest]
      · exact absurd hFault (hItem fault)
  | wrongType hArray hObject =>
      cases document with
      | array => cases hArray
      | object => cases hObject
      | _ => rfl

/-- The keys of an object being distinct, its second entry is wrong if its first is
not. -/
theorem exists_describes_or_offends_object (hNodup : (entries.map Prod.fst).Nodup) :
    (∃ config, Describes (.object entries) config) ∨ ∃ fault, Offends (.object entries) fault := by
  match entries with
  | [] => exact .inl ⟨_, .emptyObject⟩
  | first :: rest =>
      rcases exists_gives_or_wrong first with ⟨document, bound, rfl, hGives⟩ | ⟨fault, hWrong⟩
      · cases rest with
        | nil => exact .inl ⟨_, .field hGives⟩
        | cons second rest =>
            have hName : second.1 ≠ fieldName := by
              intro hSame
              simp [hSame] at hNodup
            have hBefore : ∀ earlier ∈ [(fieldName, document)], ∀ fault, ¬ Wrong earlier fault :=
              List.forall_mem_singleton.mpr fun _ => hGives.not_wrong
            exact .inr ⟨_, .entry hBefore (.unknown hName)⟩
      · exact .inr ⟨fault, @Offends.entry [] rest first fault nofun hWrong⟩

/-- An array either has just one item, which gives a bound, or an offence. -/
theorem exists_describes_or_offends_array (items : List Json) :
    (∃ config, Describes (.array items) config) ∨ ∃ fault, Offends (.array items) fault := by
  match items with
  | [] => exact .inl ⟨_, .emptyArray⟩
  | first :: rest =>
      rcases exists_gives_or_misplaced first with ⟨bound, hGives⟩ | ⟨fault, hFault⟩
      · by_cases hRest : rest = []
        · subst hRest
          exact .inl ⟨_, .item hGives⟩
        · exact .inr ⟨_, .tooLong (fun _ => hGives.not_misplaced) hRest⟩
      · exact .inr ⟨fault, .item hFault⟩

/-- A document describes a configuration or has a first offence. -/
theorem exists_describes_or_offends (hProper : document.Proper) :
    (∃ config, Describes document config) ∨ ∃ fault, Offends document fault := by
  cases document with
  | array items => exact exists_describes_or_offends_array items
  | object entries => exact exists_describes_or_offends_object hProper.1
  | _ => exact .inr ⟨_, .wrongType rfl rfl⟩

/-- How a document is read. -/
structure Interpreted (document : Json) : Prop where
  /-- Read are the documents that describe a configuration, as this configuration. -/
  accepts : ∀ config, ofJson document = .ok config ↔ Describes document config
  /-- Of all others the first offence is reported. -/
  refuses : ∀ fault, ofJson document = .error fault ↔ Offends document fault
  /-- What has been read allows the positions up to its bound, and without a bound
  all of them. -/
  allows : ∀ config, ofJson document = .ok config → ∀ position,
    config.allows position = true ↔
      config.maxPosition = none ∨ ∃ bound, config.maxPosition = some bound ∧ position ≤ bound

/-- The bound can be written as a number. -/
def Addressable (config : Config) : Prop :=
  ∀ bound, config.maxPosition = some bound → bound < addressLimit

/-- What is written for a configuration describes it. -/
theorem Addressable.describes_toJson (h : config.Addressable) : Describes config.toJson config := by
  obtain ⟨maxPosition⟩ := config
  cases maxPosition with
  | none => exact .field .none
  | some bound => exact .field (.position (h bound rfl))

/-- Without a bound every position is allowed, and with one those up to the bound. -/
theorem allows_eq_true_iff {position : Nat} : config.allows position = true ↔
    config.maxPosition = none ∨ ∃ bound, config.maxPosition = some bound ∧ position ≤ bound := by
  unfold allows
  cases config.maxPosition <;> simp

/-- Documents are read as the configurations that they describe, and configurations
are read back from the documents that are written for them. -/
theorem interpreted_ofJson (hProper : document.Proper) :
    Interpreted document ∧ ∀ config : Config, config.Addressable →
      ofJson config.toJson = .ok config := by
  refine ⟨⟨fun config => ⟨fun hOk => ?_, Describes.ofJson_eq⟩,
    fun fault => ⟨fun hError => ?_, Offends.ofJson_eq⟩, fun config _ position => ?_⟩,
    fun config hAddressable => hAddressable.describes_toJson.ofJson_eq⟩
  · rcases exists_describes_or_offends hProper with ⟨other, hDescribes⟩ | ⟨fault, hOffends⟩
    · rw [hDescribes.ofJson_eq, Except.ok.injEq] at hOk
      exact hOk ▸ hDescribes
    · rw [hOffends.ofJson_eq] at hOk
      cases hOk
  · rcases exists_describes_or_offends hProper with ⟨config, hDescribes⟩ | ⟨other, hOffends⟩
    · rw [hDescribes.ofJson_eq] at hError
      cases hError
    · rw [hOffends.ofJson_eq, Except.error.injEq] at hError
      exact hError ▸ hOffends
  · exact allows_eq_true_iff

/-- A document with a bound, an unknown field, and a second one. -/
def overfull : Json :=
  .object [(fieldName, .number (.ofNat 64)), ("depth", .null), ("limit", .bool true)]

theorem interpreted_overfull : overfull.Proper ∧ Interpreted overfull ∧
    ∀ config : Config, config.Addressable → ofJson config.toJson = .ok config :=
  have hProper : overfull.Proper := ⟨by decide, trivial, trivial, trivial, trivial⟩
  ⟨hProper, interpreted_ofJson hProper⟩

example : ofJson overfull = .error (.unknownField "depth") := rfl

end Config

end Stencil
