import BlobTopFs.SpdkFs.RadixTree

/-!
# `malloc`, `realloc` and `free` as an application has them

`interface.c` puts itself before the three functions of the C library. Until `spdkfs_mm_init` it
passes every call on; from then on the calls go through `io_mm.c`, which is here on top of the
tree of `radix_tree.c` itself.
-/

namespace BlobTopFs.Radix

open Machine

/-- The static data of `io_mm.c`, with the tree. -/
structure MmTree where
  initialized : Bool
  tree : RadixMem
  mmTable : Nat → MmEntry
  mmTableCount : Nat

/-- As a process has it when it starts. -/
def MmTree.zero : MmTree := ⟨false, .zero, fun _ => ⟨0, false⟩, 0⟩

/-- `spdkfs_mm_init` -/
def spdkfsMmInit (m : MmTree) : MmTree :=
  if m.initialized then m else { m with initialized := true, tree := radixTreeInit m.tree }

/-- `spdkfs_mm_find` -/
def spdkfsMmFind (m : MmTree) (ptr : Addr) : Option Bool :=
  (radixTreeLookup m.tree ptr).map fun item : Addr => item != 0

/-- `find_next_entry` -/
def findNextEntry (m : MmTree) : Option (Option Nat) := nextEntry m.mmTable m.mmTableCount

/-- `spdkfs_malloc` -/
def spdkfsMalloc (calloc : Calloc) (ans : MallocAnswer) (size : Nat) (m : MmTree) :
    Option (MmTree × Owner × Addr) :=
  if size % 4096 ≠ 0 then
    if ans.usr = 0 then none else some (m, .usr, ans.usr)
  else if ans.spdk = 0 then some (m, .usr, ans.usr)
  else
    (findNextEntry m).bind fun nextEnt =>
      nextEnt.bind fun ent =>
        (radixTreeInsert calloc ans.spdk (ent + spdkMmEntOffset) m.tree).map fun r =>
          ({ m with
              mmTable := Function.update m.mmTable ent ⟨ans.spdk, true⟩
              tree := r.1 }, .spdk, ans.spdk)

/-- `spdkfs_realloc`: the allocator that is asked -/
def spdkfsRealloc (ptr : Addr) (m : MmTree) : Option (MmTree × Owner) :=
  (spdkfsMmFind m ptr).map fun found => (m, if found then .spdk else .usr)

/-- `spdkfs_free`. What was stored for the block goes through an `int`, and an entry outside of
the table has no result. -/
def spdkfsFree (ptr : Addr) (m : MmTree) : Option (MmTree × Owner) :=
  (spdkfsMmFind m ptr).bind fun found =>
    if found then
      (radixTreeDelete ptr m.tree).bind fun r =>
        let ent := s32 r.2 - spdkMmEntOffset
        if 0 ≤ ent ∧ ent < maxIoPtrNum then
          some ({ m with
            tree := r.1
            mmTable := Function.update m.mmTable ent.toNat
              { m.mmTable ent.toNat with used := false } }, .spdk)
        else none
    else some (m, .usr)

/-! ## `interface.c` -/

/-- `__spdk_malloc` -/
def spdkMalloc (calloc : Calloc) (ans : MallocAnswer) (size : Nat) (m : MmTree) :
    Option (MmTree × Owner × Addr) :=
  if !m.initialized then some (m, .usr, ans.usr) else spdkfsMalloc calloc ans size m

/-- `__spdk_free` -/
def spdkFree (ptr : Addr) (m : MmTree) : Option (MmTree × Owner) :=
  if !m.initialized then some (m, .usr) else spdkfsFree ptr m

/-- `__spdk_realloc` -/
def spdkRealloc (ptr : Addr) (m : MmTree) : Option (MmTree × Owner) :=
  if !m.initialized then some (m, .usr) else spdkfsRealloc ptr m

end BlobTopFs.Radix
