import Mathlib.Data.List.Nodup
import Stencil.Heap.Copy
import Stencil.Proofs.Heap.Region

/-!
Copying step by step. While a copy is made, the containers met so far have been
given consecutive new containers. Those that wait still have shells, and the
others have the relocated entries of their originals, which refer to nothing
that has not been met. No container from before is written.
-/

namespace Stencil.Heap

/-- A value in which the containers listed in `order` are replaced by those
added from `base` on, in the same order. -/
def relocate (base : Nat) (order : List Handle) : Value → Value
  | .container handle =>
    if handle ∈ order then .container (base + order.idxOf handle) else .container handle
  | value => value

/-- Only references to containers are relocated. -/
theorem relocate_of_not_isContainer (base : Nat) (order : List Handle) {value : Value}
    (h : value.isContainer = false) : relocate base order value = value := by
  cases value with
  | container => cases h
  | _ => rfl

namespace Copying

/-- The containers met so far, in the order in which they were met. -/
def met (copying : Copying) : List Handle := (copying.memo.map Prod.fst).reverse

/-- A container that has been met, or no container of the original heap. -/
def Settled (origin : Heap) (copying : Copying) (value : Value) : Prop :=
  ∀ handle ∈ value.handle?, handle < origin.size → handle ∈ copying.met

/-- What holds whenever shells have been given out. -/
structure Tidy (origin : Heap) (copying : Copying) : Prop where
  size_eq : copying.heap.size = origin.size + copying.met.length
  memo_eq : ∀ entry ∈ copying.memo, entry.2 = origin.size + copying.met.idxOf entry.1
  nodup : copying.met.Nodup
  met_lt : ∀ handle ∈ copying.met, handle < origin.size
  frame : ∀ handle, handle < origin.size → copying.heap.cell? handle = origin.cell? handle
  waiting : copying.pending.Sublist copying.memo
  shell : ∀ entry ∈ copying.pending, copying.heap.cell? entry.2 =
    (origin.cell? entry.1).map fun cell => Cell.shell cell.kind

/-- Later in the same copy: more containers may have been met, and then they
wait. Nothing that was there has been written. -/
structure Grows (before after : Copying) : Prop where
  added : ∃ added, after.memo = added ++ before.memo ∧ after.pending = added ++ before.pending
  size_le : before.heap.size ≤ after.heap.size
  frame : ∀ handle, handle < before.heap.size → after.heap.cell? handle = before.heap.cell? handle

variable {origin : Heap} {copying before middle after : Copying} {value : Value} {handle : Handle}

/-- A container is met when the memo has an entry for it. -/
theorem mem_met_iff : handle ∈ copying.met ↔ ∃ entry ∈ copying.memo, entry.1 = handle := by
  rw [met, List.mem_reverse, List.mem_map]

theorem Grows.refl (copying : Copying) : Grows copying copying :=
  ⟨⟨[], rfl, rfl⟩, Nat.le_refl _, fun _ _ => rfl⟩

theorem Grows.trans (first : Grows before middle) (second : Grows middle after) :
    Grows before after := by
  obtain ⟨early, hEarlyMemo, hEarlyPending⟩ := first.added
  obtain ⟨late, hLateMemo, hLatePending⟩ := second.added
  refine ⟨⟨late ++ early, ?_, ?_⟩, Nat.le_trans first.size_le second.size_le, ?_⟩
  · rw [hLateMemo, hEarlyMemo, List.append_assoc]
  · rw [hLatePending, hEarlyPending, List.append_assoc]
  · intro handle hLt
    rw [second.frame handle (Nat.lt_of_lt_of_le hLt first.size_le), first.frame handle hLt]

/-- The list of met containers is only extended at its end. -/
theorem Grows.exists_met (h : Grows before after) : ∃ added, after.met = before.met ++ added := by
  obtain ⟨added, hMemo, -⟩ := h.added
  refine ⟨(added.map Prod.fst).reverse, ?_⟩
  rw [met, hMemo, List.map_append, List.reverse_append]
  rfl

/-- So a met container keeps its position, and with it the address of its copy. -/
theorem Grows.idxOf_eq (h : Grows before after) (hMem : handle ∈ before.met) :
    after.met.idxOf handle = before.met.idxOf handle := by
  obtain ⟨added, hMet⟩ := h.exists_met
  rw [hMet, List.idxOf_append_of_mem hMem]

/-- What has been settled stays settled. -/
theorem Grows.settled (h : Grows before after) (hSettled : before.Settled origin value) :
    after.Settled origin value := by
  obtain ⟨added, hMet⟩ := h.exists_met
  intro handle hHandle hLt
  rw [hMet]
  exact List.mem_append_left _ (hSettled handle hHandle hLt)

/-- What does not wait later has been met before, and has not waited then. -/
theorem Grows.met_of_ready (h : Grows before after) (hMem : handle ∈ after.met)
    (hReady : handle ∉ after.pending.map Prod.fst) :
    handle ∈ before.met ∧ handle ∉ before.pending.map Prod.fst := by
  obtain ⟨added, hMemo, hPending⟩ := h.added
  rw [hPending, List.map_append, List.mem_append, not_or] at hReady
  refine ⟨?_, hReady.2⟩
  obtain ⟨entry, hEntry, rfl⟩ := mem_met_iff.mp hMem
  rw [hMemo] at hEntry
  rcases List.mem_append.mp hEntry with hAdded | hOld
  · exact absurd (List.mem_map.mpr ⟨entry, hAdded, rfl⟩) hReady.1
  · exact mem_met_iff.mpr ⟨entry, hOld, rfl⟩

/-- What has been relocated stays where it is. -/
theorem Grows.relocate_eq (h : Grows before after) (hTidy : after.Tidy origin)
    (hSettled : before.Settled origin value) :
    relocate origin.size after.met value = relocate origin.size before.met value := by
  cases value with
  | container handle =>
      obtain ⟨added, hMet⟩ := h.exists_met
      by_cases hLt : handle < origin.size
      · have hBefore := hSettled handle rfl hLt
        have hAfter := h.settled hSettled handle rfl hLt
        rw [relocate, relocate, if_pos hAfter, if_pos hBefore, h.idxOf_eq hBefore]
      · have hAfter : handle ∉ after.met := fun hMem => hLt (hTidy.met_lt handle hMem)
        have hBefore : handle ∉ before.met := fun hMem => by
          rw [hMet] at hAfter
          exact hAfter (List.mem_append_left _ hMem)
        rw [relocate, relocate, if_neg hAfter, if_neg hBefore]
  | _ => rfl

/-- The shells of several values: their containers have been met, and nothing
else has. -/
structure Shelled (origin : Heap) (before : Copying) (values copies : List Value)
    (after : Copying) : Prop where
  tidy : after.Tidy origin
  grows : Grows before after
  copies_eq : copies = values.map (relocate origin.size after.met)
  settled : ∀ value ∈ values, after.Settled origin value
  met : ∀ handle ∈ after.met, handle ∈ before.met ∨ .container handle ∈ values

/-- Meeting a container adds it at the end of the list. -/
theorem met_meet (copying : Copying) (handle : Handle) :
    (copying.meet handle).met = copying.met ++ [handle] := by
  rw [met, meet, List.map_cons, List.reverse_cons]
  rfl

/-- Every shell recorded in the memo has been allocated. -/
theorem Tidy.copy_lt (h : copying.Tidy origin) {entry : Handle × Handle}
    (hEntry : entry ∈ copying.memo) : entry.2 < copying.heap.size := by
  rw [h.memo_eq entry hEntry, h.size_eq]
  exact Nat.add_lt_add_left (List.idxOf_lt_length_of_mem (mem_met_iff.mpr ⟨entry, hEntry, rfl⟩)) _

/-- A container that is met for the first time gets the next new container. -/
theorem Tidy.meet (h : copying.Tidy origin) (hNew : handle ∉ copying.met)
    (hLt : handle < origin.size) : (copying.meet handle).Tidy origin where
  size_eq := by
    rw [met_meet, List.length_append, Copying.meet, size_alloc, h.size_eq]
    rfl
  memo_eq := by
    rw [Copying.meet, List.forall_mem_cons, ← Copying.meet, met_meet]
    refine ⟨?_, fun entry hEntry => ?_⟩
    · rw [List.idxOf_append_of_notMem hNew, List.idxOf_cons_self, Nat.add_zero, h.size_eq]
    · rw [h.memo_eq entry hEntry, List.idxOf_append_of_mem (mem_met_iff.mpr ⟨entry, hEntry, rfl⟩)]
  nodup := by
    rw [met_meet]
    exact List.nodup_append.mpr ⟨h.nodup, List.nodup_singleton _, fun other hOther last hLast hSame =>
      hNew (List.mem_singleton.mp hLast ▸ hSame ▸ hOther)⟩
  met_lt := by
    rw [met_meet, List.forall_mem_append, List.forall_mem_singleton]
    exact ⟨h.met_lt, hLt⟩
  frame := by
    intro other hOther
    have hOld : origin.size ≤ copying.heap.size := by
      rw [h.size_eq]
      exact Nat.le_add_right _ _
    rw [Copying.meet, cell?_alloc_of_lt (Nat.lt_of_lt_of_le hOther hOld), h.frame other hOther]
  waiting := h.waiting.cons_cons _
  shell := by
    rw [Copying.meet, List.forall_mem_cons]
    refine ⟨?_, fun entry hEntry => ?_⟩
    · obtain ⟨cell, hCell⟩ := exists_cell?_of_lt hLt
      rw [cell?_alloc_self, kind, h.frame handle hLt, hCell]
      rfl
    · rw [cell?_alloc_of_lt (h.copy_lt (h.waiting.subset hEntry)), h.shell entry hEntry]

/-- A value gets the copy that stands in for it. -/
theorem Tidy.shelled_shellFor (h : copying.Tidy origin) (value : Value) :
    Shelled origin copying [value] [(copying.shellFor origin.size value).1]
      (copying.shellFor origin.size value).2 := by
  have hSame : copying.Settled origin value → ∀ copy, copy = relocate origin.size copying.met value →
      Shelled origin copying [value] [copy] copying := fun hSettled copy hCopy =>
    ⟨h, .refl copying, by rw [hCopy]; rfl, List.forall_mem_singleton.mpr hSettled,
      fun _ hMem => .inl hMem⟩
  cases hKind : value.isContainer with
  | false =>
      have hShell : copying.shellFor origin.size value = (value, copying) := by
        cases value with
        | container => cases hKind
        | _ => rfl
      rw [hShell]
      refine hSame (fun handle hHandle => ?_) _ (relocate_of_not_isContainer _ _ hKind).symm
      rw [Value.mem_handle?_iff.mp hHandle] at hKind
      cases hKind
  | true =>
      obtain ⟨handle, rfl⟩ := Value.isContainer_iff.mp hKind
      rw [shellFor]
      split
      next copy hFound =>
        obtain ⟨front, back, hMemo, -⟩ := List.lookup_eq_some_iff.mp hFound
        have hEntry : (handle, copy) ∈ copying.memo := by
          rw [hMemo]
          exact List.mem_append_right _ List.mem_cons_self
        have hMem : handle ∈ copying.met := mem_met_iff.mpr ⟨_, hEntry, rfl⟩
        refine hSame (fun other hOther _ => Option.some.inj hOther ▸ hMem) _ ?_
        rw [relocate, if_pos hMem, ← h.memo_eq _ hEntry]
      next hNone =>
        have hNew : handle ∉ copying.met := by
          intro hMem
          obtain ⟨entry, hEntry, rfl⟩ := mem_met_iff.mp hMem
          exact bne_iff_ne.mp (List.lookup_eq_none_iff.mp hNone entry hEntry) rfl
        split
        next hLt =>
          have hTidy := h.meet hNew hLt
          have hMem : handle ∈ (copying.meet handle).met :=
            mem_met_iff.mpr ⟨_, List.mem_cons_self, rfl⟩
          refine ⟨hTidy, ⟨⟨[(handle, copying.heap.size)], rfl, rfl⟩, ?_, ?_⟩, ?_, ?_, ?_⟩
          · rw [Copying.meet, size_alloc]
            exact Nat.le_succ _
          · exact fun other hOther => cell?_alloc_of_lt hOther
          · rw [List.map_singleton, relocate, if_pos hMem, ← hTidy.memo_eq _ List.mem_cons_self]
          · rw [List.forall_mem_singleton]
            exact fun other hOther _ => Option.some.inj hOther ▸ hMem
          · intro other hOther
            rw [met_meet] at hOther
            refine (List.mem_append.mp hOther).imp_right fun hLast => ?_
            rw [List.mem_singleton.mp hLast]
            exact List.mem_singleton_self _
        next hGe =>
          refine hSame (fun other hOther hLt => ?_) _ ?_
          · rw [← Option.some.inj hOther] at hLt
            exact absurd hLt hGe
          · rw [relocate, if_neg hNew]

/-- Shells for a list are found for its head and then for its tail, in the state the
head left. -/
theorem Shelled.cons {copy : Value} {values copies : List Value}
    (first : Shelled origin before [value] [copy] middle)
    (rest : Shelled origin middle values copies after) :
    Shelled origin before (value :: values) (copy :: copies) after where
  tidy := rest.tidy
  grows := first.grows.trans rest.grows
  copies_eq := by
    have hSettled := first.settled value (List.mem_singleton_self value)
    rw [List.map_cons, rest.grows.relocate_eq rest.tidy hSettled, ← rest.copies_eq, List.cons.injEq]
    exact ⟨List.singleton_inj.mp first.copies_eq, rfl⟩
  settled := by
    rw [List.forall_mem_cons]
    exact ⟨rest.grows.settled (first.settled value (List.mem_singleton_self value)), rest.settled⟩
  met := by
    intro handle hHandle
    rcases rest.met handle hHandle with hMiddle | hValue
    · rcases first.met handle hMiddle with hOld | hFirst
      · exact .inl hOld
      · exact .inr (List.mem_singleton.mp hFirst ▸ List.mem_cons_self)
    · exact .inr (List.mem_cons_of_mem _ hValue)

/-- Each value of a cell gets a shell before the cell is written. Values that occur
twice get the same one. -/
theorem Tidy.shelled_shellsFor (h : copying.Tidy origin) (values : List Value) :
    Shelled origin copying values (copying.shellsFor origin.size values).1
      (copying.shellsFor origin.size values).2 := by
  induction values generalizing copying with
  | nil => exact ⟨h, .refl copying, rfl, List.forall_mem_nil _, fun _ hMem => .inl hMem⟩
  | cons value rest ih =>
      have hFirst := h.shelled_shellFor value
      exact hFirst.cons (ih hFirst.tidy)

/-- The entries of a container have been copied, and hold nothing that has not
been met. -/
def Copied (origin : Heap) (copying : Copying) (handle : Handle) : Prop :=
  ∃ cell, origin.cell? handle = some cell ∧
    copying.heap.cell? (origin.size + copying.met.idxOf handle) =
      some (cell.mapValues (relocate origin.size copying.met)) ∧
    ∀ value ∈ cell.values, copying.Settled origin value

/-- What holds while a value is being copied: whatever has been met can be
reached, and has been copied unless it waits. -/
structure Progress (origin : Heap) (value root : Value) (copying : Copying) : Prop where
  tidy : copying.Tidy origin
  root_eq : root = relocate origin.size copying.met value
  settled : copying.Settled origin value
  copied : ∀ handle ∈ copying.met, handle ∉ copying.pending.map Prod.fst →
    copying.Copied origin handle
  within : ∀ region, origin.Region region → value.Within region →
    ∀ handle ∈ copying.met, handle ∈ region

/-- To begin with, all that has been met is the root, and it waits. -/
theorem progress_start (origin : Heap) (value : Value) :
    Progress origin value (start origin value).1 (start origin value).2 := by
  have hEmpty : Tidy origin ⟨origin, [], []⟩ :=
    ⟨rfl, List.forall_mem_nil _, List.nodup_nil, List.forall_mem_nil _, fun _ _ => rfl,
      .refl _, List.forall_mem_nil _⟩
  have hShelled : Shelled origin ⟨origin, [], []⟩ [value] [(start origin value).1]
      (start origin value).2 := hEmpty.shelled_shellFor value
  refine ⟨hShelled.tidy, List.singleton_inj.mp hShelled.copies_eq,
    hShelled.settled value (List.mem_singleton_self value), ?_, ?_⟩
  · intro handle hMem hDone
    cases (hShelled.grows.met_of_ready hMem hDone).1
  · intro region _ hWithin handle hMem
    rcases hShelled.met handle hMem with hOld | hRoot
    · cases hOld
    · exact hWithin handle (Value.mem_handle?_iff.mpr (List.mem_singleton.mp hRoot).symm)

/-- The turn of a container that waits, behind a shell of its kind. -/
theorem step_waiting {base original copy : Handle} {rest : List (Handle × Handle)} {cell : Cell}
    {f : Value → Value} (hPending : copying.pending = (original, copy) :: rest)
    (hOriginal : copying.heap.cell? original = some cell)
    (hCopy : copying.heap.cell? copy = some (.shell cell.kind))
    (hCopies : ({ copying with pending := rest }.shellsFor base cell.values).1 =
      cell.values.map f) :
    copying.step base = some
      { ({ copying with pending := rest }.shellsFor base cell.values).2 with
        heap := ({ copying with pending := rest }.shellsFor base cell.values).2.heap.write copy
          (cell.mapValues f) } := by
  cases cell with
  | array items =>
      have hItems : (items.toList.map f).toArray = items.map f := by
        rw [← Array.toList_map, Array.toArray_toList]
      simp only [step, hPending, hOriginal, hCopy, Cell.kind, Cell.shell]
      rw [show items.toList = (Cell.array items).values from rfl, hCopies, Cell.values, hItems]
      rfl
  | object fields =>
      have hZip : fields.keys.zip ((Cell.object fields).values.map f) = (fields.map f).entries := by
        simp [Cell.values, Fields.keys, Fields.map, List.zip_map', List.map_map]
      simp only [step, hPending, hOriginal, hCopy, Cell.kind, Cell.shell]
      rw [show fields.entries.map Prod.snd = (Cell.object fields).values from rfl, hCopies, hZip,
        Fields.ofList_entries]
      rfl

/-- Distinct met containers have shells at distinct addresses. -/
theorem Tidy.copy_ne {other : Handle} (hMem : handle ∈ copying.met) (hNe : handle ≠ other) :
    origin.size + copying.met.idxOf handle ≠ origin.size + copying.met.idxOf other :=
  fun hSame => hNe ((List.idxOf_inj hMem).mp (Nat.add_left_cancel hSame))

/-- The copy of a container that does not wait can be written. -/
theorem Tidy.write (h : copying.Tidy origin) (hMem : handle ∈ copying.met)
    (hDone : handle ∉ copying.pending.map Prod.fst) (cell : Cell) :
    Tidy origin { copying with
      heap := copying.heap.write (origin.size + copying.met.idxOf handle) cell } where
  size_eq := by
    rw [size_write]
    exact h.size_eq
  memo_eq := h.memo_eq
  nodup := h.nodup
  met_lt := h.met_lt
  frame := by
    intro other hOther
    rw [cell?_write_of_ne (Nat.ne_of_gt (Nat.lt_add_right _ hOther)), h.frame other hOther]
  waiting := h.waiting
  shell := by
    intro entry hEntry
    have hNe : handle ≠ entry.1 := fun hSame =>
      hDone (List.mem_map.mpr ⟨entry, hEntry, hSame.symm⟩)
    rw [← h.shell entry hEntry, h.memo_eq entry (h.waiting.subset hEntry)]
    exact cell?_write_of_ne (Tidy.copy_ne hMem hNe)

/-- What has been copied stays copied. -/
theorem Grows.copied (h : Grows before after) (hBefore : before.Tidy origin)
    (hAfter : after.Tidy origin) (hMem : handle ∈ before.met)
    (hCopied : before.Copied origin handle) : after.Copied origin handle := by
  obtain ⟨cell, hCell, hCopy, hSettled⟩ := hCopied
  obtain ⟨entry, hEntry, rfl⟩ := mem_met_iff.mp hMem
  have hLt := hBefore.copy_lt hEntry
  rw [hBefore.memo_eq entry hEntry] at hLt
  refine ⟨cell, hCell, ?_, fun value hValue => h.settled (hSettled value hValue)⟩
  rw [h.idxOf_eq hMem, h.frame _ hLt, hCopy]
  refine congrArg some (Cell.mapValues_congr fun value hValue => ?_)
  exact (h.relocate_eq hAfter (hSettled value hValue)).symm

/-- Taking the first waiting container off the list keeps the invariant, which says
nothing about the cell that is due. -/
theorem Tidy.popped {waiting : Handle × Handle} {rest : List (Handle × Handle)}
    (h : copying.Tidy origin) (hPending : copying.pending = waiting :: rest) :
    Tidy origin { copying with pending := rest } :=
  { h with
    waiting := (List.sublist_cons_self _ _).trans (hPending ▸ h.waiting)
    shell := fun entry hRest => h.shell entry (hPending ▸ List.mem_cons_of_mem _ hRest) }

/-- A container that has been taken off the list does not wait any more, since
no container is met twice. -/
theorem Grows.not_pending {waiting : Handle × Handle} {rest : List (Handle × Handle)}
    (h : Grows { copying with pending := rest } after) (hAfter : after.Tidy origin)
    (hWaiting : (waiting :: rest).Sublist copying.memo) :
    waiting.1 ∉ after.pending.map Prod.fst := by
  obtain ⟨added, hMemo, hPending⟩ := h.added
  have hSublist : (added ++ waiting :: rest).Sublist after.memo :=
    hMemo ▸ hWaiting.append_left added
  have hNodup := (List.nodup_reverse.mp hAfter.nodup).sublist (hSublist.map Prod.fst)
  rw [List.map_append, List.map_cons, List.nodup_middle, List.nodup_cons] at hNodup
  rw [hPending, List.map_append]
  exact hNodup.1

/-- A turn meets the containers that the turned one holds, and copies its
entries. -/
theorem Progress.step {root : Value} {next : Copying} (h : Progress origin value root copying)
    (hStep : copying.step origin.size = some next) : Progress origin value root next := by
  cases hPending : copying.pending with
  | nil =>
      rw [Copying.step, hPending] at hStep
      cases hStep
  | cons waiting rest =>
      obtain ⟨original, copy⟩ := waiting
      have hWaits : (original, copy) ∈ copying.pending := hPending ▸ List.mem_cons_self
      have hEntry := h.tidy.waiting.subset hWaits
      have hMet : original ∈ copying.met := mem_met_iff.mpr ⟨_, hEntry, rfl⟩
      obtain ⟨cell, hCell⟩ := exists_cell?_of_lt (h.tidy.met_lt original hMet)
      have hPopped := h.tidy.popped hPending
      have hShelled := hPopped.shelled_shellsFor cell.values
      have hNext := step_waiting hPending
        ((h.tidy.frame original (h.tidy.met_lt original hMet)).trans hCell)
        (by rw [h.tidy.shell _ hWaits, hCell]; rfl) hShelled.copies_eq
      generalize shellsFor origin.size { copying with pending := rest } cell.values = shelled
        at hShelled hNext
      obtain ⟨copies, after⟩ := shelled
      obtain rfl := Option.some.inj (hStep.symm.trans hNext)
      have hGrows := hShelled.grows
      have hMetAfter : original ∈ after.met := by
        obtain ⟨added, hAdded⟩ := hGrows.exists_met
        exact hAdded ▸ List.mem_append_left _ hMet
      obtain rfl : copy = origin.size + after.met.idxOf original := by
        rw [hGrows.idxOf_eq hMet]
        exact h.tidy.memo_eq _ hEntry
      have hDone := hGrows.not_pending hShelled.tidy (hPending ▸ h.tidy.waiting)
      refine ⟨hShelled.tidy.write hMetAfter hDone _, ?_, ?_, ?_, ?_⟩
      · rw [h.root_eq]
        exact (hGrows.relocate_eq hShelled.tidy h.settled).symm
      · exact hGrows.settled h.settled
      · intro handle hHandle hReady
        by_cases hTurn : handle = original
        · subst hTurn
          refine ⟨cell, hCell, cell?_write_self ?_, hShelled.settled⟩
          obtain ⟨entry, hMemo, rfl⟩ := mem_met_iff.mp hMetAfter
          rw [← hShelled.tidy.memo_eq entry hMemo]
          exact hShelled.tidy.copy_lt hMemo
        · obtain ⟨hBefore, hRest⟩ := hGrows.met_of_ready hHandle hReady
          have hOld : handle ∉ copying.pending.map Prod.fst := by
            rw [hPending, List.map_cons, List.mem_cons, not_or]
            exact ⟨hTurn, hRest⟩
          have hCopied := hGrows.copied hPopped hShelled.tidy hBefore (h.copied handle hBefore hOld)
          obtain ⟨own, hOwn, hCopy, hSettled⟩ := hCopied
          refine ⟨own, hOwn, ?_, hSettled⟩
          exact (cell?_write_of_ne (Tidy.copy_ne hMetAfter (Ne.symm hTurn))).trans hCopy
      · intro region hRegion hWithin handle hHandle
        have hOld := h.within region hRegion hWithin
        rcases hShelled.met handle hHandle with hBefore | hValue
        · exact hOld handle hBefore
        · exact Value.within_container.mp
            (hRegion.closed original (hOld original hMet) cell hCell _ hValue)

/-- In the end nothing waits, so all that has been met has been copied. -/
theorem progress_run (origin : Heap) (value : Value) :
    Progress origin value (start origin value).1 ((start origin value).2.run origin.size) :=
  Loop.run_keeps (progress_start origin value) fun _ _ h hStep => h.step hStep

/-- The copy only stops when no container waits. -/
theorem pending_run (base : Nat) (copying : Copying) : (copying.run base).pending = [] := by
  have hStep : (copying.run base).step base = none := Loop.step_run
  cases hPending : (copying.run base).pending with
  | nil => rfl
  | cons waiting rest =>
      simp only [Copying.step, hPending] at hStep
      split at hStep <;> cases hStep

end Copying

end Stencil.Heap
