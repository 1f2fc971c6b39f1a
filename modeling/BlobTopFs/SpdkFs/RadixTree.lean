import BlobTopFs.Lib.Machine
import BlobTopFs.Lib.Trie
import BlobTopFs.SpdkFs.IoMm
import Mathlib.Data.Set.Finite.Basic

/-!
# `radix_tree.c`: the tree behind the memory table

The tree that `io_mm.c` keeps its table in, as the code has it: nodes in a heap that `calloc` and
`free` serve, a root that is raised when a key does not fit below it, slots that are walked down
to by their address, and the table of largest keys that `radix_tree_init` fills in. A dangling
pointer, an index outside of an array and a shift by 64 or more have no result.

`IoMm` takes the tree for a finite map; the functions there have the names of those here.
-/

namespace BlobTopFs.Radix

open Machine

/-! ## Constants and data -/

/-- `RADIX_TREE_MAP_SHIFT` -/
def radixTreeMapShift : Nat := 6

/-- `RADIX_TREE_MAP_SIZE` -/
def radixTreeMapSize : Nat := 1 <<< radixTreeMapShift

/-- `RADIX_TREE_MAP_MASK` -/
def radixTreeMapMask : Nat := radixTreeMapSize - 1

/-- `RADIX_TREE_INDEX_BITS` -/
def radixTreeIndexBits : Nat := 8 * 8

/-- `RADIX_TREE_MAX_PATH` -/
def radixTreeMaxPath : Nat := radixTreeIndexBits / radixTreeMapShift + 2

def EEXIST : Int := 17

/-- `struct radix_tree_node` -/
abbrev RadixTreeNode := Trie.Node

/-- `struct radix_tree_root` -/
structure RadixTreeRoot where
  height : Nat
  rnode : Addr

/-- A tree, the nodes that are allocated, and the static data of the file. -/
structure RadixMem where
  root : RadixTreeRoot
  nodes : Addr → Option RadixTreeNode
  heightToMaxindex : Nat → Nat

/-- `RADIX_TREE_INIT()`, with static data that is all zero. -/
def RadixMem.zero : RadixMem := ⟨⟨0, 0⟩, fun _ => none, fun _ => 0⟩

/-- What `calloc` answers when the nodes are what they are: NULL, or an address no node is at. -/
structure Calloc where
  answer : (Addr → Option RadixTreeNode) → Addr
  fresh : ∀ nodes, answer nodes ≠ 0 → nodes (answer nodes) = none

/-- It has memory for one node more, however many there are. -/
def Calloc.Succeeds (calloc : Calloc) : Prop :=
  ∀ nodes, {q | (nodes q).isSome = true}.Finite → calloc.answer nodes ≠ 0

/-! ## Nodes and slots -/

/-- `radix_tree_node_alloc`: without memory the process stops. -/
def radixTreeNodeAlloc (calloc : Calloc) (m : RadixMem) : Option (Addr × RadixMem) :=
  let ret := calloc.answer m.nodes
  if ret = 0 then none
  else some (ret, { m with nodes := Function.update m.nodes ret (some ⟨0, fun _ => 0⟩) })

/-- `radix_tree_node_free` -/
def radixTreeNodeFree (node : Addr) (m : RadixMem) : RadixMem :=
  { m with nodes := Function.update m.nodes node none }

/-- The address of a slot: that of `root->rnode`, or of `node->slots[i]`. -/
inductive Slot where
  | root
  | node (node : Addr) (i : Nat)

/-- `*slot` -/
def readSlot (m : RadixMem) : Slot → Option Addr
  | .root => some m.root.rnode
  | .node node i => (m.nodes node).map fun nd => nd.slots i

/-- `*slot = word` -/
def writeSlot (m : RadixMem) (word : Addr) : Slot → Option RadixMem
  | .root => some { m with root := { m.root with rnode := word } }
  | .node node i => (m.nodes node).map fun nd =>
      { m with
        nodes := Function.update m.nodes node
          (some { nd with slots := Function.update nd.slots i word }) }

/-- `if (node) node->count++;` -/
def countUp (node : Addr) (m : RadixMem) : Option RadixMem :=
  if node = 0 then some m
  else (m.nodes node).map fun nd =>
    { m with nodes := Function.update m.nodes node (some { nd with count := u32 (nd.count + 1) }) }

/-! ## Keys -/

/-- `__maxindex`. The source shifts first and tests then. From 64 bits on its shift is by more than
a word has, which C leaves undefined, but what it yields is overwritten; here the test is first. -/
def maxindex (height : Nat) : Nat :=
  let tmp := u32 (height * radixTreeMapShift)
  if tmp ≥ radixTreeIndexBits then 2 ^ 64 - 1
  else ((2 ^ 64 - 1) >>> (radixTreeIndexBits - tmp - 1)) >>> 1

/-- `radix_tree_init_maxindex` -/
def radixTreeInitMaxindex (m : RadixMem) : RadixMem :=
  { m with
    heightToMaxindex := fun i => if i < radixTreeMaxPath then maxindex i else m.heightToMaxindex i }

/-- `radix_tree_init` -/
def radixTreeInit (m : RadixMem) : RadixMem := radixTreeInitMaxindex m

/-- `radix_tree_maxindex` -/
def radixTreeMaxindex (m : RadixMem) (height : Nat) : Option Nat :=
  if height < radixTreeMaxPath then some (m.heightToMaxindex height) else none

/-- `(height - 1) * RADIX_TREE_MAP_SHIFT`, an `unsigned int` -/
def radixShift (height : Nat) : Nat := u32 ((height - 1) * radixTreeMapShift)

/-- `(index >> shift) & RADIX_TREE_MAP_MASK` -/
def slotIndex (index shift : Nat) : Option Nat :=
  if shift < radixTreeIndexBits then some ((index >>> shift) &&& radixTreeMapMask) else none

/-! ## Inserting -/

/-- The `while` loop of `radix_tree_extend` that figures out the height. -/
def extendHeight (m : RadixMem) (index : Nat) : (fuel height : Nat) → Option Nat
  | 0, _ => none
  | fuel + 1, height =>
      (radixTreeMaxindex m height).bind fun max =>
        if index > max then extendHeight m index fuel (height + 1) else some height

/-- The body of the `do` loop of `radix_tree_extend`: a node above the others. -/
def extendOnce (calloc : Calloc) (m : RadixMem) : Option RadixMem :=
  (radixTreeNodeAlloc calloc m).bind fun r =>
    (writeSlot r.2 r.2.root.rnode (.node r.1 0)).bind fun m =>
      (m.nodes r.1).map fun nd =>
        { m with
          nodes := Function.update m.nodes r.1 (some { nd with count := 1 })
          root := ⟨u32 (m.root.height + 1), r.1⟩ }

/-- The `do` loop, which goes on while the height is too small. -/
def extendLoop (calloc : Calloc) (height : Nat) : (fuel : Nat) → RadixMem → Option RadixMem
  | 0, _ => none
  | fuel + 1, m =>
      (extendOnce calloc m).bind fun m =>
        if height > m.root.height then extendLoop calloc height fuel m else some m

/-- `radix_tree_extend`, which returns 0 if it returns: `radix_tree_node_alloc` never returns
NULL. -/
def radixTreeExtend (calloc : Calloc) (index : Nat) (m : RadixMem) : Option RadixMem :=
  (extendHeight m index (radixTreeMaxPath + 1) (u32 (m.root.height + 1))).bind fun height =>
    if m.root.rnode ≠ 0 then extendLoop calloc height radixTreeMaxPath m
    else some { m with root := { m.root with height := height } }

/-- The `while` loop of `radix_tree_insert`: it ends at the slot of the key, with the node that
the slot is in. -/
def insertWalk (calloc : Calloc) (index : Nat) :
    (height shift : Nat) → (node : Addr) → Slot → RadixMem → Option (RadixMem × Addr × Slot)
  | 0, _, node, slot, m => some (m, node, slot)
  | height + 1, shift, node, slot, m =>
      (readSlot m slot).bind fun word =>
        (if word = 0 then
          -- a child node is added
          (radixTreeNodeAlloc calloc m).bind fun r =>
            (writeSlot r.2 r.1 slot).bind fun m => countUp node m
        else some m).bind fun m =>
          (readSlot m slot).bind fun node =>
            (slotIndex index shift).bind fun i =>
              insertWalk calloc index height (u32 (shift - radixTreeMapShift)) node (.node node i) m

/-- The rest of `radix_tree_insert` -/
def insertItem (item : Addr) (r : RadixMem × Addr × Slot) : Option (RadixMem × Int) :=
  (readSlot r.1 r.2.2).bind fun word =>
    if word ≠ 0 then some (r.1, -EEXIST)
    else
      ((countUp r.2.1 r.1).bind fun m => writeSlot m item r.2.2).map fun m => (m, 0)

/-- `radix_tree_insert` -/
def radixTreeInsert (calloc : Calloc) (index : Nat) (item : Addr) (m : RadixMem) :
    Option (RadixMem × Int) :=
  (radixTreeMaxindex m m.root.height).bind fun max =>
    (if index > max then radixTreeExtend calloc index m else some m).bind fun m =>
      (insertWalk calloc index m.root.height (radixShift m.root.height) 0 .root m).bind
        (insertItem item)

/-! ## Looking up -/

/-- The `while` loop of `radix_tree_lookup`, and what it returns -/
def lookupWalk (m : RadixMem) (index : Nat) : (height shift : Nat) → Slot → Option Addr
  | 0, _, slot => readSlot m slot
  | height + 1, shift, slot =>
      (readSlot m slot).bind fun word =>
        if word = 0 then some 0
        else
          (slotIndex index shift).bind fun i =>
            lookupWalk m index height (u32 (shift - radixTreeMapShift)) (.node word i)

/-- `radix_tree_lookup` -/
def radixTreeLookup (m : RadixMem) (index : Nat) : Option Addr :=
  (radixTreeMaxindex m m.root.height).bind fun max =>
    if index > max then some 0
    else lookupWalk m index m.root.height (radixShift m.root.height) .root

/-! ## Deleting -/

/-- `struct radix_tree_path` -/
structure RadixTreePath where
  node : Addr
  slot : Slot

/-- The first loop of `radix_tree_delete`: the path to the slot of the key, the deepest entry
first, or `none` if there is no such slot. `above` are the entries before `*pathp`. -/
def deleteWalk (m : RadixMem) (index : Nat) :
    (height shift : Nat) → (pathp : RadixTreePath) → (above : List RadixTreePath) →
      Option (Option (RadixTreePath × List RadixTreePath))
  | 0, _, pathp, above => some (some (pathp, above))
  | height + 1, shift, pathp, above =>
      (readSlot m pathp.slot).bind fun word =>
        if word = 0 then some none
        -- the array `path` has an entry `pathp[1]`
        else if above.length + 1 ≥ radixTreeMaxPath then none
        else
          (slotIndex index shift).bind fun i =>
            deleteWalk m index height (u32 (shift - radixTreeMapShift)) ⟨word, .node word i⟩
              (pathp :: above)

/-- The second loop of `radix_tree_delete`, which frees the nodes that have become empty. -/
def deleteUnwind (node : Addr) : (above : List RadixTreePath) → RadixMem → Option RadixMem
  | above, m =>
    if node = 0 then some m
    else
      (m.nodes node).bind fun nd =>
        let count := u32 (nd.count - 1)
        let m := { m with nodes := Function.update m.nodes node (some { nd with count := count }) }
        if count ≠ 0 then some m
        else match above with
          | [] => none
          | pathp :: above =>
              (writeSlot m 0 pathp.slot).bind fun m =>
                deleteUnwind pathp.node above (radixTreeNodeFree node m)

/-- The rest of `radix_tree_delete` behind the first loop: the tree, and what was stored. -/
def deleteItem (m : RadixMem) (path : Option (RadixTreePath × List RadixTreePath)) :
    Option (RadixMem × Addr) :=
  match path with
  | none => some (m, 0)
  | some (pathp, above) =>
      (readSlot m pathp.slot).bind fun ret =>
        if ret = 0 then some (m, 0)
        else
          (writeSlot m 0 pathp.slot).bind fun m =>
            (deleteUnwind pathp.node above m).map fun m =>
              (if m.root.rnode = 0 then { m with root := { m.root with height := 0 } } else m, ret)

/-- `radix_tree_delete` -/
def radixTreeDelete (index : Nat) (m : RadixMem) : Option (RadixMem × Addr) :=
  (radixTreeMaxindex m m.root.height).bind fun max =>
    if index > max then some (m, 0)
    else
      (deleteWalk m index m.root.height (radixShift m.root.height) ⟨0, .root⟩ []).bind
        (deleteItem m)

/-! ## Listing -/

/-- `1 << shift`, an `int`, which has no meaning from 31 on -/
def intBit (shift : Nat) : Option Nat := if shift < 31 then some (1 <<< shift) else none

/-- `index &= ~((1 << shift) - 1); index += 1 << shift;`. The complement is a negative `int`
before it is an `unsigned long`. -/
def skipSlot (index shift : Nat) : Option Nat :=
  (intBit shift).map fun bit : Nat => u64 ((index &&& u64 (-(bit : Int)) : Nat) + bit)

/-- The `for` loop of `__lookup`, with `left` slots to go from slot `i` on: the slot it stops at,
if it does, and the index. -/
def scanSlots (nd : RadixTreeNode) (shift : Nat) : (left i index : Nat) → Option (Option Nat × Nat)
  | 0, _, index => some (none, index)
  | left + 1, i, index =>
      if nd.slots i ≠ 0 then some (some i, index)
      else
        (skipSlot index shift).bind fun index =>
          -- wraparound
          if index = 0 then some (none, index) else scanSlots nd shift left (i + 1) index

/-- The loop of `__lookup` at the bottom level: the index, and the items found so far. -/
def grabItems (nd : RadixTreeNode) (maxItems : Nat) :
    (left j index : Nat) → (results : List Addr) → Nat × List Addr
  | 0, _, index, results => (index, results)
  | left + 1, j, index, results =>
      let index := u64 (index + 1)
      if nd.slots j ≠ 0 then
        let results := results ++ [nd.slots j]
        if results.length = maxItems then (index, results)
        else grabItems nd maxItems left (j + 1) index results
      else grabItems nd maxItems left (j + 1) index results

/-- The `while` loop of `__lookup`: the index of the next search, and the items found. -/
def lookup (m : RadixMem) (maxItems : Nat) :
    (height shift index : Nat) → (slot : Addr) → Option (Nat × List Addr)
  | 0, _, index, _ => some (index, [])
  | height + 1, shift, index, slot =>
      (m.nodes slot).bind fun nd =>
        (slotIndex index shift).bind fun i =>
          (scanSlots nd shift (radixTreeMapSize - i) i index).bind fun r =>
            match r.1 with
            | none => some (r.2, [])
            | some i =>
                if height = 0 then
                  let j := r.2 &&& radixTreeMapMask
                  some (grabItems nd maxItems (radixTreeMapSize - j) j r.2 [])
                else
                  lookup m maxItems height (u32 (shift - radixTreeMapShift)) r.2 (nd.slots i)

/-- The `while` loop of `radix_tree_gang_lookup`; `results` are the items placed so far. -/
def gangLoop (m : RadixMem) (maxIndex maxItems : Nat) :
    (fuel curIndex : Nat) → (results : List Addr) → Option (List Addr)
  | 0, _, _ => none
  | fuel + 1, curIndex, results =>
      if results.length < maxItems then
        if curIndex > maxIndex then some results
        else
          (lookup m (maxItems - results.length) m.root.height (radixShift m.root.height) curIndex
            m.root.rnode).bind fun r =>
              if r.1 = 0 then some (results ++ r.2)
              else gangLoop m maxIndex maxItems fuel r.1 (results ++ r.2)
      else some results

/-- `radix_tree_gang_lookup`: the items it places at `*results`, whose number it returns -/
def radixTreeGangLookup (firstIndex maxItems : Nat) (m : RadixMem) : Option (List Addr) :=
  (radixTreeMaxindex m m.root.height).bind fun maxIndex =>
    if m.root.rnode = 0 then some []
    else if maxIndex = 0 then
      -- the special case of a tree that is a single item
      if firstIndex = 0 ∧ maxItems > 0 then some [m.root.rnode] else some []
    else gangLoop m maxIndex maxItems (2 ^ 64 + 1) firstIndex []

end BlobTopFs.Radix
