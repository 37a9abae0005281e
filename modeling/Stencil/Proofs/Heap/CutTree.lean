import Stencil.Proofs.Heap.Observation
import Stencil.Proofs.Heap.Offence
import Stencil.Proofs.Heap.Tree

/-!
The finite trees that stand for values in diagnostics. A value is unfolded from
route to route, so a shared container is unfolded wherever it occurs. A route ends
at a container that it has passed already, and at a container that is being
changed. Nothing is unfolded below either of them. The text of such a tree is the
text of the value.
-/

namespace Stencil

/-- What stands for a value that is no container. -/
def Value.leaf? : Value → Option Tree
  | null => some .null
  | bool flag => some (.bool flag)
  | number value => some (.number value)
  | text value => some (.text value)
  | callable _ => some .callable
  | container _ => none

/-- Leaves of the rendering list no entries. -/
theorem Value.listed_of_leaf? {value : Value} {leaf : Tree} (h : value.leaf? = some leaf) :
    leaf.listed = [] := by
  cases value with
  | container => cases h
  | _ =>
      obtain rfl := Option.some.inj h
      rfl

namespace Cell

/-- What stands for a container if these trees stand for its values. -/
def tree (part : Value → Tree) : Cell → Tree
  | array items => .array (items.toList.map part)
  | object fields => .object (fields.entries.map fun entry => (entry.1, part entry.2))

/-- What stands for a container that is being changed. -/
def mark : Cell → Tree
  | array _ => .borrowedArray
  | object _ => .borrowedObject

variable {part part' : Value → Tree}

/-- The tree of a cell only depends on the parts drawn for its own values. -/
theorem tree_congr {cell : Cell} (h : ∀ value ∈ cell.values, part value = part' value) :
    cell.tree part = cell.tree part' := by
  cases cell with
  | array items => exact congrArg Tree.array (List.map_congr_left h)
  | object fields =>
      refine congrArg Tree.object (List.map_congr_left fun entry hEntry => ?_)
      rw [h entry.2 (List.mem_map_of_mem hEntry)]

/-- The program's layout of a cell is the layout of its tree, at every level of
indentation. -/
theorem shown_tree (layout : Layout) (part : Value → Tree) (cell : Cell) :
    (cell.tree part).shown Text.escaped layout =
      cell.render layout fun value => (part value).shown Text.escaped layout.deeper := by
  cases cell with
  | array items =>
      rw [tree, Tree.shown_array, List.map_map]
      rfl
  | object fields =>
      rw [tree, Tree.shown_object, List.map_map]
      rfl

/-- The tree lists the entries of the cell under the same segments and in the same
order. -/
theorem listed_tree (part : Value → Tree) (cell : Cell) :
    (cell.tree part).listed = cell.entries.map fun entry => (entry.1, part entry.2) := by
  cases cell with
  | array items => simp [tree, Tree.listed, entries, List.zipIdx_map, Function.comp_def]
  | object fields => simp [tree, Tree.listed, entries, Function.comp_def]

/-- A borrowed container is drawn as a mark, with none of its entries. -/
theorem listed_mark (cell : Cell) : cell.mark.listed = [] := by
  cases cell <;> rfl

end Cell

namespace Heap

variable {heap : Heap} {region : Set Handle} {borrowed ancestors : List Handle} {value : Value}
  {tree part : Tree} {handle : Handle} {cell : Cell} {path : Path}

/-- The tree stands for the value below these containers, while some are being
changed. -/
inductive Cuts (heap : Heap) (borrowed : List Handle) : List Handle → Value → Tree → Prop where
  | leaf {ancestors : List Handle} {value : Value} {leaf : Tree} (hLeaf : value.leaf? = some leaf) :
      Cuts heap borrowed ancestors value leaf
  /-- A container that is one of those above it. -/
  | cycle {ancestors : List Handle} {handle : Handle} (hOpen : handle ∈ ancestors) :
      Cuts heap borrowed ancestors (.container handle) .cycle
  /-- Any other container that is being changed. -/
  | mark {ancestors : List Handle} {handle : Handle} {cell : Cell} (hNew : handle ∉ ancestors)
      (hBorrowed : handle ∈ borrowed) (hCell : heap.cell? handle = some cell) :
      Cuts heap borrowed ancestors (.container handle) cell.mark
  /-- Any other container, which is unfolded. -/
  | enter {ancestors : List Handle} {handle : Handle} {cell : Cell} {part : Value → Tree}
      (hNew : handle ∉ ancestors) (hFree : handle ∉ borrowed)
      (hCell : heap.cell? handle = some cell)
      (hValues : ∀ value ∈ cell.values,
        Cuts heap borrowed (handle :: ancestors) value (part value)) :
      Cuts heap borrowed ancestors (.container handle) (cell.tree part)

/-- Values without storage are cut to their leaf, whatever is open or borrowed. -/
theorem cuts_scalar_iff (hScalar : value.isContainer = false) :
    Cuts heap borrowed ancestors value tree ↔ value.leaf? = some tree := by
  constructor
  · intro h
    cases h with
    | leaf hLeaf => exact hLeaf
    | _ => cases hScalar
  · exact .leaf

/-- An open container is cut to the mark of a cycle. That it may be borrowed as well
makes no difference. -/
theorem cuts_cycle_iff (hOpen : handle ∈ ancestors) :
    Cuts heap borrowed ancestors (.container handle) tree ↔ tree = .cycle := by
  constructor
  · intro h
    cases h with
    | leaf hLeaf => cases hLeaf
    | cycle => rfl
    | mark hNew => exact absurd hOpen hNew
    | enter hNew => exact absurd hOpen hNew
  · rintro rfl
    exact .cycle hOpen

/-- A borrowed container that is not open is cut to the mark of its kind. -/
theorem cuts_mark_iff (hNew : handle ∉ ancestors) (hBorrowed : handle ∈ borrowed)
    (hCell : heap.cell? handle = some cell) :
    Cuts heap borrowed ancestors (.container handle) tree ↔ tree = cell.mark := by
  constructor
  · intro h
    cases h with
    | leaf hLeaf => cases hLeaf
    | cycle hOpen => exact absurd hOpen hNew
    | mark _ _ hSome => rw [Option.some.inj (hCell.symm.trans hSome)]
    | enter _ hFree => exact absurd hBorrowed hFree
  · rintro rfl
    exact .mark hNew hBorrowed hCell

/-- Any other container is drawn entry by entry, with itself open below. -/
theorem cuts_enter_iff (hNew : handle ∉ ancestors) (hFree : handle ∉ borrowed)
    (hCell : heap.cell? handle = some cell) :
    Cuts heap borrowed ancestors (.container handle) tree ↔ ∃ part, tree = cell.tree part ∧
      ∀ value ∈ cell.values, Cuts heap borrowed (handle :: ancestors) value (part value) := by
  constructor
  · intro h
    cases h with
    | leaf hLeaf => cases hLeaf
    | cycle hOpen => exact absurd hOpen hNew
    | mark _ hBorrowed => exact absurd hBorrowed hFree
    | enter _ _ hSome hValues =>
        obtain rfl := Option.some.inj (hCell.symm.trans hSome)
        exact ⟨_, rfl, hValues⟩
  · rintro ⟨part, rfl, hValues⟩
    exact .enter hNew hFree hCell hValues

/-- At most one tree stands for a value. -/
theorem Cuts.unique (h : Cuts heap borrowed ancestors value tree) {tree' : Tree}
    (h' : Cuts heap borrowed ancestors value tree') : tree' = tree := by
  induction h generalizing tree' with
  | @leaf _ value _ hLeaf =>
      have hScalar : value.isContainer = false := by
        cases value with
        | container => cases hLeaf
        | _ => rfl
      rw [cuts_scalar_iff hScalar, hLeaf] at h'
      exact (Option.some.inj h').symm
  | cycle hOpen => exact (cuts_cycle_iff hOpen).mp h'
  | mark hNew hBorrowed hCell => exact (cuts_mark_iff hNew hBorrowed hCell).mp h'
  | enter hNew hFree hCell _ ih =>
      obtain ⟨part', rfl, hValues⟩ := (cuts_enter_iff hNew hFree hCell).mp h'
      exact Cell.tree_congr fun value hMem => ih value hMem (hValues value hMem)

/-- For every value there is a tree, whatever is shared or holds itself, and
whatever is being changed. -/
theorem Region.exists_cuts (h : heap.Region region) (hValue : value.Within region)
    (borrowed ancestors : List Handle) : ∃ tree, Cuts heap borrowed ancestors value tree := by
  induction ancestors, value using descent_induction heap with
  | scalar ancestors value hScalar =>
      cases value with
      | container => cases hScalar
      | _ => exact ⟨_, .leaf rfl⟩
  | opened ancestors handle hOpen => exact ⟨_, .cycle hOpen⟩
  | missing ancestors handle hNew hCell =>
      obtain ⟨cell, hSome⟩ := h.exists_cell? (Value.within_container.mp hValue)
      cases hCell.symm.trans hSome
  | enter ancestors handle cell hNew hCell ih =>
      by_cases hBorrowed : handle ∈ borrowed
      · exact ⟨_, .mark hNew hBorrowed hCell⟩
      · have hClosed := h.closed handle (Value.within_container.mp hValue) cell hCell
        choose! part hPart using fun value hMem => ih value (hClosed value hMem)
        exact ⟨_, .enter hNew hBorrowed hCell hPart⟩

/-- A container that is being changed is not looked into. -/
theorem renderBelow_of_borrowed (layout : Layout) (hNew : handle ∉ ancestors)
    (hBorrowed : handle ∈ borrowed) (hCell : heap.cell? handle = some cell) :
    heap.renderBelow borrowed layout ancestors (.container handle) =
      cell.mark.shown Text.escaped layout := by
  rw [renderBelow, dif_neg hNew]
  split
  next hNone => cases hCell.symm.trans hNone
  next hItems =>
    cases hCell.symm.trans hItems
    rw [if_pos hBorrowed, Cell.mark, Tree.shown_leaf (by simp) (by simp), Tree.word]
  next hFields =>
    cases hCell.symm.trans hFields
    rw [if_pos hBorrowed, Cell.mark, Tree.shown_leaf (by simp) (by simp), Tree.word]

/-- A value that is no container is rendered as what stands for it. -/
theorem renderBelow_of_leaf? (layout : Layout) (h : value.leaf? = some tree) :
    heap.renderBelow borrowed layout ancestors value = tree.shown Text.escaped layout := by
  cases value with
  | container => cases h
  | bool flag =>
      obtain rfl := Option.some.inj h
      rw [Tree.shown_leaf (by simp) (by simp)]
      cases flag <;> rw [renderBelow, Tree.word]
  | _ =>
      obtain rfl := Option.some.inj h
      rw [Tree.shown_leaf (by simp) (by simp)]
      simp [renderBelow, Tree.word]

/-- A value is rendered as the tree that stands for it. -/
theorem Cuts.renderBelow_eq (h : Cuts heap borrowed ancestors value tree) (layout : Layout) :
    heap.renderBelow borrowed layout ancestors value = tree.shown Text.escaped layout := by
  induction h generalizing layout with
  | leaf hLeaf => exact renderBelow_of_leaf? layout hLeaf
  | cycle hOpen =>
      rw [renderBelow_of_mem hOpen, Tree.shown_leaf (by simp) (by simp), Tree.word]
  | mark hNew hBorrowed hCell => exact renderBelow_of_borrowed layout hNew hBorrowed hCell
  | enter hNew hFree hCell _ ih =>
      rw [renderBelow_of_enter hNew hFree hCell, Cell.shown_tree]
      exact Cell.render_congr layout fun value hMem => ih value hMem layout.deeper

/-- What is in a tree is at the routes from the value that pass no container twice
and none that is being changed, and stands there for what the route leads to. -/
theorem Cuts.at_iff (h : Cuts heap borrowed ancestors value tree) :
    tree.At path part ↔ ∃ passed target, SimpleRoute heap ancestors value passed path target ∧
      (∀ handle ∈ passed, handle ∉ borrowed) ∧
      Cuts heap borrowed (passed.reverse ++ ancestors) target part := by
  induction path generalizing ancestors value tree with
  | nil =>
      rw [Tree.at_nil_iff]
      constructor
      · rintro rfl
        exact ⟨[], value, .nil _ _, List.forall_mem_nil _, h⟩
      · rintro ⟨passed, target, route, -, hPart⟩
        cases route
        exact h.unique hPart
  | cons segment path ih =>
      rw [Tree.at_cons_iff]
      constructor
      · rintro ⟨child, hChild, hRest⟩
        cases h with
        | leaf hLeaf => simp [Value.listed_of_leaf? hLeaf] at hChild
        | cycle => cases hChild
        | mark _ _ _ => simp [Cell.listed_mark] at hChild
        | @enter _ handle cell below hNew hFree hCell hValues =>
            rw [Cell.listed_tree] at hChild
            obtain ⟨⟨segment, value⟩, hEntry, hSame⟩ := List.mem_map.mp hChild
            obtain ⟨rfl, rfl⟩ := Prod.mk.inj hSame
            have hValue := hValues value (Cell.mem_values_of_mem_entries hEntry)
            obtain ⟨passed, target, route, hPassed, hPart⟩ := (ih hValue).mp hRest
            refine ⟨handle :: passed, target, .cons hNew hCell hEntry route,
              List.forall_mem_cons.mpr ⟨hFree, hPassed⟩, ?_⟩
            rwa [List.reverse_cons, List.append_assoc, List.singleton_append]
      · rintro ⟨passed, target, route, hPassed, hPart⟩
        cases route with
        | @cons _ passed handle cell _ child _ _ hNew hCell hEntry rest =>
            rw [List.forall_mem_cons] at hPassed
            obtain ⟨below, rfl, hValues⟩ := (cuts_enter_iff hNew hPassed.1 hCell).mp h
            have hValue := hValues child (Cell.mem_values_of_mem_entries hEntry)
            rw [List.reverse_cons, List.append_assoc, List.singleton_append] at hPart
            refine ⟨below child, ?_, (ih hValue).mpr ⟨passed, target, rest, hPassed.2, hPart⟩⟩
            rw [Cell.listed_tree]
            exact List.mem_map_of_mem (f := fun entry => (entry.1, below entry.2)) hEntry

/-- The marks of callables and cycles are what a document cannot hold. -/
theorem Cuts.offends_iff (h : Cuts heap borrowed ancestors value tree) :
    value.Offends ancestors ↔ tree = .cycle ∨ tree = .callable := by
  cases h with
  | leaf hLeaf =>
      cases value with
      | container => cases hLeaf
      | _ =>
          obtain rfl := Option.some.inj hLeaf
          simp [Value.Offends]
  | cycle hOpen => simp [Value.Offends, hOpen]
  | @mark _ handle cell hNew => cases cell <;> simp [Value.Offends, hNew, Cell.mark]
  | @enter _ handle cell part hNew => cases cell <;> simp [Value.Offends, hNew, Cell.tree]

/-- A value converts to a document exactly when nothing below it offends. -/
theorem exists_toJson_iff : (∃ document, heap.toJson value = .ok document) ↔
    ∀ offence, offence ∉ heap.offencesBelow [] value := by
  rw [← List.eq_nil_iff_forall_not_mem]
  constructor
  · rintro ⟨document, hDocument⟩
    cases hOffences : heap.offencesBelow [] value with
    | nil => rfl
    | cons offence rest =>
        have hFailure : heap.toJson value = .error offence.failure := by
          rw [toJson_eq, toJsonBelow_eq_error_iff, hOffences]
          rfl
        cases hDocument.symm.trans hFailure
  · intro hNone
    cases hResult : heap.toJson value with
    | ok document => exact ⟨document, rfl⟩
    | error failure =>
        rw [toJson_eq, toJsonBelow_eq_error_iff, hNone] at hResult
        cases hResult

/-- A value has a document just if there are no such marks in its tree. -/
theorem Cuts.exists_toJson_iff (h : Cuts heap [] [] value tree) (hRegion : heap.Region region)
    (hValue : value.Within region) : (∃ document, heap.toJson value = .ok document) ↔
      ¬ tree.Has .cycle ∧ ¬ tree.Has .callable := by
  have hReversed : ∀ (target : Value) (passed : List Handle),
      target.Offends (passed.reverse ++ []) ↔ target.Offends (passed ++ []) := by
    intro target passed
    cases target <;> simp [Value.Offends]
  have hMarks : (∃ offence, offence ∈ heap.offencesBelow [] value) ↔
      tree.Has .cycle ∨ tree.Has .callable := by
    simp only [mem_offencesBelow_iff, Tree.Has, h.at_iff, ← exists_or]
    constructor
    · rintro ⟨⟨path, target⟩, passed, route, hOffends⟩
      have hEnd : heap.getPath value path = target :=
        (simpleRoute_iff.mp route).1.getPath_eq hRegion hValue
      have hTarget : target.Within region := hEnd ▸ hRegion.getPath_within hValue path
      obtain ⟨part, hPart⟩ := hRegion.exists_cuts hTarget [] (passed.reverse ++ [])
      refine ⟨path, passed, target, ?_⟩
      rcases hPart.offends_iff.mp ((hReversed target passed).mpr hOffends) with rfl | rfl
      · exact .inl ⟨route, fun _ _ => List.not_mem_nil, hPart⟩
      · exact .inr ⟨route, fun _ _ => List.not_mem_nil, hPart⟩
    · rintro ⟨path, passed, target, ⟨route, -, hPart⟩ | ⟨route, -, hPart⟩⟩
      · exact ⟨⟨path, target⟩, passed, route,
          (hReversed target passed).mp (hPart.offends_iff.mpr (.inl rfl))⟩
      · exact ⟨⟨path, target⟩, passed, route,
          (hReversed target passed).mp (hPart.offends_iff.mpr (.inr rfl))⟩
  rw [Heap.exists_toJson_iff, ← not_or, ← hMarks, not_exists]

/-- A tree that stands for a value in diagnostics, while some containers are being
changed. -/
structure Pictured (heap : Heap) (borrowed : List Handle) (value : Value) (tree : Tree) : Prop where
  /-- It is the one tree that the value unfolds to. -/
  unique : ∀ other, Cuts heap borrowed [] value other ↔ other = tree
  /-- In it is, at every route, what stands for the value there, unless the route
  has been cut before. That is a cycle if the value is a container on the route. -/
  at_iff : ∀ path part, tree.At path part ↔ ∃ passed target,
    Route heap value passed path target ∧ passed.Nodup ∧
      (∀ handle ∈ passed, handle ∉ borrowed) ∧ Cuts heap borrowed passed.reverse target part
  /-- The value is rendered as the tree, on one line or with a line for each entry,
  with the texts in it in quotes. Nothing in the tree breaks a line. -/
  rendered : ∃ quote : String → String, (∀ text, Text.Quoted text (quote text).toList) ∧
    heap.render borrowed .oneLine value = tree.plain quote ∧
    (∀ level, heap.render borrowed (.indented level) value =
      (String.ofList ('\n' :: List.replicate (4 * level) ' ')).intercalate (tree.lines quote)) ∧
    ∀ line ∈ tree.lines quote, '\n' ∉ line.toList
  /-- If nothing is being changed, the tree says whether there is a document. -/
  toJson_iff : borrowed = [] → ((∃ document, heap.toJson value = .ok document) ↔
    ¬ tree.Has .cycle ∧ ¬ tree.Has .callable)

/-- Every value is rendered, as a finite tree that is cut just at cycles and at
containers that are being changed. -/
theorem exists_pictured (hHeap : heap.WellFormed) (hValue : value.Within heap.handles)
    (borrowed : List Handle) : ∃ tree, heap.Pictured borrowed value tree := by
  obtain ⟨tree, hTree⟩ := hHeap.region_handles.exists_cuts hValue borrowed []
  refine ⟨tree, ?_, ?_, ?_, ?_⟩
  · intro other
    constructor
    · exact hTree.unique
    · rintro rfl
      exact hTree
  · intro path part
    simp [hTree.at_iff, simpleRoute_iff, and_assoc]
  · have hQuoted : ∀ text, Text.Quoted text (Text.escaped text).toList :=
      fun text => Text.quoted_iff.mpr rfl
    refine ⟨Text.escaped, hQuoted, ?_, fun level => ?_, ?_⟩
    · rw [render, hTree.renderBelow_eq, Tree.shown, String.ofList_toList]
    · rw [render, hTree.renderBelow_eq, ← String.toList_inj, String.toList_intercalate,
        String.toList_ofList, String.toList_ofList]
      rfl
    · exact tree.lineFeed_not_mem_lines fun text => (hQuoted text).lineFeed_not_mem
  · rintro rfl
    exact hTree.exists_toJson_iff hHeap.region_handles hValue

/-- An instance with a cycle, shared containers and one container that is borrowed. -/
theorem exists_pictured_entangled : entangled.WellFormed ∧
    (Value.container 0).Within entangled.handles ∧
      ∃ tree, entangled.Pictured [2] (.container 0) tree :=
  have hHeap : entangled.WellFormed := by decide
  have hValue : (Value.container 0).Within entangled.handles :=
    Value.within_container.mpr (by decide : 0 < entangled.size)
  ⟨hHeap, hValue, exists_pictured hHeap hValue [2]⟩

end Heap

end Stencil
