import Stencil.Heap
import Stencil.Loop

/-!
Deep copies. Every container that can be reached from a value is copied once
into a new container, so the copy has the same sharing and the same cycles, and
no container in common with the value. Scalars and callables are shared. The
copy is made with a list of the containers that wait for their entries to be
copied. The copy of each of them exists already, so that others can hold it.
-/

namespace Stencil

/-- The content of a new container of a kind before its entries are copied. -/
def Cell.shell : Kind → Cell
  | .array => .array #[]
  | _ => .object .empty

namespace Heap

/-- How far a copy is: the heap, the copies that stand in for the containers met
so far, and the containers that wait for their entries to be copied, with their
copies. Both are listed with the last first. -/
structure Copying where
  heap : Heap
  memo : List (Handle × Handle)
  pending : List (Handle × Handle)

namespace Copying

/-- Give a shell of its kind to a container that is met for the first time. The
container waits for its entries to be copied. -/
def meet (copying : Copying) (handle : Handle) : Copying where
  heap := (copying.heap.alloc (.shell (copying.heap.kind (.container handle)))).2
  memo := (handle, copying.heap.size) :: copying.memo
  pending := (handle, copying.heap.size) :: copying.pending

variable (base : Nat)

/-- The copy that stands in for a value. Containers are those from before the
copy, below `base`, and any other handle stays as it is. -/
def shellFor (copying : Copying) : Value → Value × Copying
  | .container handle =>
    match copying.memo.lookup handle with
    | some copy => (.container copy, copying)
    | none =>
      if handle < base then (.container copying.heap.size, copying.meet handle)
      else (.container handle, copying)
  | value => (value, copying)

def shellsFor (copying : Copying) : List Value → List Value × Copying
  | [] => ([], copying)
  | value :: rest =>
    let (copy, copying) := copying.shellFor base value
    let (copies, copying) := copying.shellsFor rest
    (copy :: copies, copying)

/-- Copy the entries of the container that has come last to the list of those
that wait. Its copy is of the same kind, or is left alone. -/
def step (copying : Copying) : Option Copying :=
  match copying.pending with
  | [] => none
  | (original, copy) :: rest =>
    let popped := { copying with pending := rest }
    match copying.heap.cell? original, copying.heap.cell? copy with
    | some (.array items), some (.array _) =>
      let (copies, after) := popped.shellsFor base items.toList
      some { after with heap := after.heap.write copy (.array copies.toArray) }
    | some (.object fields), some (.object _) =>
      let (copies, after) := popped.shellsFor base (fields.entries.map Prod.snd)
      some { after with heap := after.heap.write copy (.object (.ofList (fields.keys.zip copies))) }
    | _, _ => some popped

/-- How many containers have not been met. -/
def unmet (copying : Copying) : Nat :=
  Stencil.unvisited (List.range base) (copying.memo.map Prod.fst)

/-- Where a shell is given out, a container has been met. -/
theorem shellFor_eq_or_lt (copying : Copying) (value : Value) :
    (copying.shellFor base value).2 = copying ∨
      (copying.shellFor base value).2.unmet base < copying.unmet base := by
  unfold shellFor
  split
  next handle =>
    split
    next => exact .inl rfl
    next hNew =>
      split
      next hLt =>
        refine .inr (Stencil.unvisited_cons_lt (List.mem_range.mpr hLt) ?_)
        intro hMem
        obtain ⟨entry, hEntry, rfl⟩ := List.mem_map.mp hMem
        exact bne_iff_ne.mp (List.lookup_eq_none_iff.mp hNew entry hEntry) rfl
      next => exact .inl rfl
  next => exact .inl rfl

/-- Shells are made from left to right, each with the memo that the ones before it
have left. -/
theorem shellsFor_cons (copying : Copying) (value : Value) (rest : List Value) :
    copying.shellsFor base (value :: rest) =
      ((copying.shellFor base value).1 :: ((copying.shellFor base value).2.shellsFor base rest).1,
        ((copying.shellFor base value).2.shellsFor base rest).2) :=
  rfl

/-- Making shells for several values meets something new, or changes nothing. -/
theorem shellsFor_eq_or_lt (copying : Copying) (values : List Value) :
    (copying.shellsFor base values).2 = copying ∨
      (copying.shellsFor base values).2.unmet base < copying.unmet base := by
  induction values generalizing copying with
  | nil => exact .inl rfl
  | cons value rest ih =>
    rw [shellsFor_cons]
    rcases copying.shellFor_eq_or_lt base value with hFirst | hFirst
    · rw [hFirst]
      exact ih copying
    · rcases ih (copying.shellFor base value).2 with hRest | hRest
      · rw [hRest]
        exact .inr hFirst
      · exact .inr (Nat.lt_trans hRest hFirst)

/-- A step meets containers, or leaves fewer that wait. Writing a copy changes neither
the memo nor those that wait. -/
theorem step_lowers {copying next : Copying} (hStep : copying.step base = some next) :
    Prod.Lex (· < ·) (· < ·) (next.unmet base, next.pending.length)
      (copying.unmet base, copying.pending.length) := by
  obtain ⟨heap, memo, pending⟩ := copying
  cases pending with
  | nil => cases hStep
  | cons waiting rest =>
    have hFill : ∀ values : List Value, ∀ after : Copying,
        after.memo = (shellsFor base ⟨heap, memo, rest⟩ values).2.memo →
        after.pending = (shellsFor base ⟨heap, memo, rest⟩ values).2.pending →
        Prod.Lex (· < ·) (· < ·) (after.unmet base, after.pending.length)
          (unmet base ⟨heap, memo, waiting :: rest⟩, (waiting :: rest).length) := by
      intro values after hMemo hPending
      rw [unmet, hMemo, hPending]
      rcases shellsFor_eq_or_lt base ⟨heap, memo, rest⟩ values with hSame | hLess
      · rw [hSame]
        exact .right _ (Nat.lt_succ_self _)
      · exact .left _ _ hLess
    simp only [step] at hStep
    split at hStep
    next => exact Option.some.inj hStep ▸ hFill _ _ rfl rfl
    next => exact Option.some.inj hStep ▸ hFill _ _ rfl rfl
    next => exact Option.some.inj hStep ▸ hFill [] _ rfl rfl

/-- Copy entries until no container waits any more. -/
def run (copying : Copying) : Copying :=
  Loop.run (step base) (fun copying => (copying.unmet base, copying.pending.length))
    (fun _ _ hStep => step_lowers base hStep) copying

/-- The copy of a value that has only just begun. -/
def start (heap : Heap) (value : Value) : Value × Copying :=
  shellFor heap.size ⟨heap, [], []⟩ value

end Copying

/-- A copy of a value in new containers. -/
def deepCopy (heap : Heap) (value : Value) : Value × Heap :=
  let (root, copying) := Copying.start heap value
  (root, (copying.run heap.size).heap)

end Heap

end Stencil
