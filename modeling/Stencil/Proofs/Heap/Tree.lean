import Stencil.Heap.Rendering
import Stencil.Proofs.Number.Numeral
import Stencil.Proofs.Text.Escaping

/-!
Finite trees in diagnostics. The text of a tree is laid out here in two ways: on
one line, and as a list of lines, where the lines of an entry are moved to the right
together. The layouts of the program come to the same texts.
-/

namespace Stencil

/-- What a value unfolds to. A container that is not unfolded has left a mark. -/
inductive Tree where
  | null
  | bool (flag : Bool)
  | number (value : Number)
  | text (value : String)
  | callable
  | array (items : List Tree)
  | object (entries : List (String × Tree))
  | cycle
  | borrowedArray
  | borrowedObject

namespace Tree

instance : Inhabited Tree := ⟨null⟩

/-- The parts right below the top, with the segments that they are listed under. -/
def listed : Tree → List (Segment × Tree)
  | array items => items.zipIdx.map fun (item, position) => (.index position, item)
  | object entries => entries.map fun (key, item) => (.key key, item)
  | _ => []

/-- The path leads to this part of the tree. -/
inductive At : Tree → Path → Tree → Prop where
  | top (tree : Tree) : At tree [] tree
  | inside {tree child part : Tree} {segment : Segment} {path : Path}
      (hChild : (segment, child) ∈ tree.listed) (rest : At child path part) :
      At tree (segment :: path) part

theorem at_nil_iff {tree part : Tree} : tree.At [] part ↔ part = tree := by
  constructor
  · intro h
    cases h
    rfl
  · rintro rfl
    exact .top part

theorem at_cons_iff {tree part : Tree} {segment : Segment} {path : Path} :
    tree.At (segment :: path) part ↔ ∃ child, (segment, child) ∈ tree.listed ∧ child.At path part := by
  constructor
  · intro h
    cases h with
    | inside hChild rest => exact ⟨_, hChild, rest⟩
  · rintro ⟨child, hChild, rest⟩
    exact .inside hChild rest

/-- Somewhere in the tree is this part. -/
def Has (tree part : Tree) : Prop := ∃ path, tree.At path part

variable {quote : String → String}

theorem sizeOf_entry_lt {entries : List (String × Tree)} {entry : String × Tree}
    (h : entry ∈ entries) : sizeOf entry.2 < sizeOf (object entries) := by
  have hSmaller := List.sizeOf_lt_of_mem h
  rw [Prod.mk.sizeOf_spec] at hSmaller
  rw [object.sizeOf_spec]
  omega

/-- The text of a tree that has no entries, with the texts in it quoted in this way. -/
def word (quote : String → String) : Tree → String
  | null => "Null"
  | bool true => "Bool(true)"
  | bool false => "Bool(false)"
  | number value => "Number(" ++ String.ofList value.write ++ ")"
  | text value => "String(" ++ quote value ++ ")"
  | callable => "Callable(<fn>)"
  | array _ => "Array []"
  | object _ => "Object \x7b\x7d"
  | cycle => "<cycle>"
  | borrowedArray => "Array <borrowed>"
  | borrowedObject => "Object <borrowed>"

/-- The text of a tree on one line. -/
def plain (quote : String → String) : Tree → String
  | array items => "Array [" ++ ", ".intercalate (items.map fun item => item.plain quote) ++ "]"
  | object entries =>
    "Object \x7b" ++ ", ".intercalate (entries.map fun entry =>
      quote entry.1 ++ ": " ++ entry.2.plain quote) ++ "\x7d"
  | leaf => leaf.word quote
termination_by tree => sizeOf tree
decreasing_by
  · decreasing_tactic
  · exact sizeOf_entry_lt ‹_›

/-- A comma at the end of the last line. -/
def closed : List String → List String
  | [] => []
  | [last] => [last ++ ","]
  | line :: rest => line :: closed rest

/-- Blocks of lines between an opening and a closing line. Each block is moved to
the right by four blanks and ends in a comma. Without blocks there is one line. -/
def framed (opening closing : String) (blocks : List (List String)) : List String :=
  if blocks.isEmpty then [opening ++ closing]
  else opening :: (blocks.flatMap fun block => (closed block).map ("    " ++ ·)) ++ [closing]

/-- The lines of a tree that has a line for each of its entries. -/
def lines (quote : String → String) : Tree → List String
  | array items => framed "Array [" "]" (items.map fun item => item.lines quote)
  | object entries =>
    framed "Object \x7b" "\x7d" (entries.map fun entry =>
      (entry.2.lines quote).modifyHead (quote entry.1 ++ ": " ++ ·))
  | leaf => [leaf.word quote]
termination_by tree => sizeOf tree
decreasing_by
  · decreasing_tactic
  · exact sizeOf_entry_lt ‹_›

theorem framed_ne_nil (opening closing : String) (blocks : List (List String)) :
    framed opening closing blocks ≠ [] := by
  rw [framed]
  split <;> simp

/-- Every tree has a first line. -/
theorem lines_ne_nil (quote : String → String) (tree : Tree) : tree.lines quote ≠ [] := by
  cases tree with
  | array | object =>
      rw [lines]
      exact framed_ne_nil _ _ _
  | _ => simp [lines]

/-- The characters of some lines with this between them. -/
def joined (glue : List Char) (lines : List String) : List Char :=
  glue.intercalate (lines.map String.toList)

theorem joined_cons (glue : List Char) (first : String) (rest : List String) :
    joined glue (first :: rest) = first.toList ++ rest.flatMap (glue ++ ·.toList) := by
  induction rest generalizing first with
  | nil => simp [joined]
  | cons next rest ih =>
      have hRest := ih next
      rw [joined, List.map_cons] at hRest
      rw [joined, List.map_cons, List.map_cons, List.intercalate_cons_cons, hRest,
        List.flatMap_cons]
      simp only [List.append_assoc]

/-- Closing a block adds a comma to its last line, and so behind all of it. -/
theorem flatMap_closed (glue : List Char) {block : List String} (h : block ≠ []) :
    (closed block).flatMap (glue ++ ·.toList) = glue ++ joined glue block ++ [','] := by
  induction block with
  | nil => contradiction
  | cons line rest ih =>
      cases rest with
      | nil => simp [closed, joined_cons]
      | cons next rest =>
          rw [closed, List.flatMap_cons, ih (List.cons_ne_nil next rest), joined_cons,
            joined_cons, List.flatMap_cons]
          · simp only [List.append_assoc]
          · rintro ⟨⟩

theorem joined_modifyHead (glue : List Char) (front : String) {block : List String}
    (h : block ≠ []) : joined glue (block.modifyHead (front ++ ·)) =
      front.toList ++ joined glue block := by
  cases block with
  | nil => contradiction
  | cons first rest =>
      rw [List.modifyHead_cons, joined_cons, joined_cons, String.toList_append, List.append_assoc]

/-- Lines that are moved to the right are lines one level deeper. -/
theorem joined_framed (opening closing : String) {front : List Char} {first last : Char}
    (hOpening : opening.toList = front ++ [first]) (hClosing : closing.toList = [last])
    (level : Nat) {blocks : List (List String)} (h : ∀ block ∈ blocks, block ≠ []) :
    joined (Layout.newLine level) (framed opening closing blocks) =
      front ++ (Layout.indented level).enclose first last
        (blocks.map (joined (Layout.newLine (level + 1)))) := by
  have hDeeper : Layout.newLine level ++ "    ".toList = Layout.newLine (level + 1) := by
    rw [Layout.newLine, Layout.newLine, Nat.mul_succ, List.replicate_add]
    rfl
  have hBlock : ∀ block ∈ blocks,
      ((closed block).map ("    " ++ ·)).flatMap (Layout.newLine level ++ ·.toList) =
        Layout.newLine (level + 1) ++ joined (Layout.newLine (level + 1)) block ++ [','] := by
    intro block hMem
    rw [List.flatMap_map, ← flatMap_closed _ (h block hMem), ← hDeeper]
    simp only [String.toList_append, List.append_assoc]
  cases blocks with
  | nil => simp [framed, Layout.enclose, joined_cons, hOpening, hClosing]
  | cons block rest =>
      rw [framed, if_neg (by simp), List.cons_append, joined_cons, List.flatMap_append,
        List.flatMap_assoc, List.flatMap_congr hBlock]
      simp [Layout.enclose, List.flatMap_map, hOpening, hClosing]

/-- The text of a tree in a layout of the program. -/
def shown (quote : String → String) (tree : Tree) : Layout → List Char
  | .oneLine => (tree.plain quote).toList
  | .indented level => joined (Layout.newLine level) (tree.lines quote)

/-- On one line the entries are separated by a comma and a space. -/
theorem enclose_oneLine (opening closing : Char) (entries : List (List Char)) :
    Layout.oneLine.enclose opening closing entries =
      opening :: [',', ' '].intercalate entries ++ [closing] := by
  cases entries <;> simp [Layout.enclose]

/-- An array is enclosed item by item. -/
theorem shown_array (items : List Tree) (layout : Layout) :
    (array items).shown quote layout = "Array ".toList ++ layout.enclose '[' ']'
      (items.map fun item => item.shown quote layout.deeper) := by
  cases layout with
  | oneLine =>
      simp only [shown, plain, Layout.deeper, enclose_oneLine, String.toList_append,
        String.toList_intercalate, List.map_map]
      simp [Function.comp_def]
  | indented level =>
      have hOpening : "Array [".toList = "Array ".toList ++ ['['] := by decide
      have hClosing : "]".toList = [']'] := by decide
      have hLines := joined_framed "Array [" "]" hOpening hClosing level
        (List.forall_mem_map.mpr fun item (_ : item ∈ items) => lines_ne_nil quote item)
      rw [List.map_map] at hLines
      rw [shown, lines]
      exact hLines

/-- An object is enclosed entry by entry, with the key in front of each. -/
theorem shown_object (entries : List (String × Tree)) (layout : Layout) :
    (object entries).shown quote layout = "Object ".toList ++ layout.enclose '\x7b' '\x7d'
      (entries.map fun entry =>
        (quote entry.1).toList ++ [':', ' '] ++ entry.2.shown quote layout.deeper) := by
  cases layout with
  | oneLine =>
      simp only [shown, plain, Layout.deeper, enclose_oneLine, String.toList_append,
        String.toList_intercalate, List.map_map]
      simp [Function.comp_def]
  | indented level =>
      have hOpening : "Object \x7b".toList = "Object ".toList ++ ['\x7b'] := by decide
      have hClosing : "\x7d".toList = ['\x7d'] := by decide
      have hBlocks : ∀ block ∈ entries.map (fun entry =>
          (entry.2.lines quote).modifyHead (quote entry.1 ++ ": " ++ ·)), block ≠ [] := by
        simp only [List.forall_mem_map, ne_eq, List.modifyHead_eq_nil_iff]
        exact fun entry _ => lines_ne_nil quote entry.2
      have hLines := joined_framed "Object \x7b" "\x7d" hOpening hClosing level hBlocks
      rw [List.map_map] at hLines
      rw [shown, lines, hLines]
      refine congrArg (_ ++ Layout.enclose _ _ _ ·) (List.map_congr_left fun entry _ => ?_)
      have hHead := joined_modifyHead (Layout.newLine (level + 1)) (quote entry.1 ++ ": ")
        (lines_ne_nil quote entry.2)
      rw [String.toList_append] at hHead
      exact hHead

theorem shown_leaf {tree : Tree} (hArray : ∀ items, tree ≠ array items)
    (hObject : ∀ entries, tree ≠ object entries) (layout : Layout) :
    tree.shown quote layout = (tree.word quote).toList := by
  cases layout with
  | oneLine =>
      rw [shown, plain]
      · exact hArray
      · exact hObject
  | indented level =>
      rw [shown, lines]
      · simp [joined]
      · exact hArray
      · exact hObject

/-- Words are lines of their own, as far as quoted texts are. -/
theorem lineFeed_not_mem_word (hQuote : ∀ text, '\n' ∉ (quote text).toList) (tree : Tree) :
    '\n' ∉ (tree.word quote).toList := by
  cases tree with
  | number value =>
      have hNumber : '\n' ∉ value.write := fun hMem =>
        absurd (Number.write_subset_glyphs value hMem) (by decide)
      simp [word, hNumber]
  | text value => simp [word, hQuote]
  | bool flag => cases flag <;> simp [word]
  | _ => simp [word]

theorem lineFeed_not_mem_closed {block : List String} (h : ∀ line ∈ block, '\n' ∉ line.toList) :
    ∀ line ∈ closed block, '\n' ∉ line.toList := by
  induction block with
  | nil => exact h
  | cons line rest ih =>
      rw [List.forall_mem_cons] at h
      cases rest with
      | nil => simpa [closed] using h.1
      | cons next rest =>
          rw [closed, List.forall_mem_cons]
          · exact ⟨h.1, ih h.2⟩
          · rintro ⟨⟩

theorem lineFeed_not_mem_framed {opening closing : String} (hOpening : '\n' ∉ opening.toList)
    (hClosing : '\n' ∉ closing.toList) {blocks : List (List String)}
    (h : ∀ block ∈ blocks, ∀ line ∈ block, '\n' ∉ line.toList) :
    ∀ line ∈ framed opening closing blocks, '\n' ∉ line.toList := by
  intro line hLine
  rw [framed] at hLine
  split at hLine
  · simp_all
  · simp only [List.cons_append, List.mem_cons, List.mem_append, List.mem_flatMap, List.mem_map,
      List.not_mem_nil, or_false] at hLine
    rcases hLine with rfl | ⟨block, hBlock, inner, hInner, rfl⟩ | rfl
    · exact hOpening
    · simpa using lineFeed_not_mem_closed (h block hBlock) inner hInner
    · exact hClosing

/-- The lines of a tree are lines: the texts in it do not break them. -/
theorem lineFeed_not_mem_lines (hQuote : ∀ text, '\n' ∉ (quote text).toList) (tree : Tree) :
    ∀ line ∈ tree.lines quote, '\n' ∉ line.toList := by
  induction tree using lines.induct with
  | case1 items ih =>
      rw [lines]
      exact lineFeed_not_mem_framed (by decide) (by decide) (List.forall_mem_map.mpr ih)
  | case2 entries ih =>
      rw [lines]
      refine lineFeed_not_mem_framed (by decide) (by decide)
        (List.forall_mem_map.mpr fun entry hEntry => ?_)
      have hLines := ih entry hEntry
      cases hFirst : entry.2.lines quote with
      | nil => simp
      | cons first rest =>
          rw [hFirst, List.forall_mem_cons] at hLines
          simpa [hQuote] using hLines
  | case3 leaf hArray hObject =>
      rw [lines]
      · exact List.forall_mem_singleton.mpr (lineFeed_not_mem_word hQuote leaf)
      · exact hArray
      · exact hObject

end Tree

end Stencil
