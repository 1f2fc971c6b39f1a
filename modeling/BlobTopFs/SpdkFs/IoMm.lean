import BlobTopFs.Lib.Holders
import Mathlib.Logic.Function.Basic

/-!
# `io_mm.c`: the memory table

Blocks of whole pages are taken from SPDK's allocator and entered in a table and in a radix
tree from their address to the table entry; all others are left to the allocator of the
application. Whether a block is SPDK's is later read off the tree alone.

The vendored radix tree is a finite map from addresses to the words stored for them, 0 where
there is none; `radix_tree_insert` refuses a key that is there.
-/

namespace BlobTopFs

/-- An address; 0 is NULL. -/
abbrev Addr := Nat

/-- `SPDK_MM_ENT_OFFSET` -/
def spdkMmEntOffset : Nat := 996

/-- `MAX_IO_PTR_NUM` -/
def maxIoPtrNum : Nat := 4096

/-- `struct mm_entry` -/
structure MmEntry where
  ptr : Addr
  used : Bool

/-- The static data of the file. -/
structure Mm where
  initialized : Bool
  spdkMemRoot : Addr → Nat
  mmTable : Nat → MmEntry
  mmTableCount : Nat

/-- As it starts: all zero. -/
def Mm.zero : Mm := ⟨false, fun _ => 0, fun _ => ⟨0, false⟩, 0⟩

/-- `spdkfs_mm_init` -/
def spdkfsMmInit (m : Mm) : Mm := if m.initialized then m else { m with initialized := true }

/-! ## The radix tree -/

/-- `radix_tree_insert`. What it returns for a key that is there is not looked at. -/
def radixTreeInsert (root : Addr → Nat) (key : Addr) (item : Nat) : Addr → Nat :=
  if root key ≠ 0 then root else Function.update root key item

/-- `radix_tree_delete`: the tree, and what was stored. -/
def radixTreeDelete (root : Addr → Nat) (key : Addr) : (Addr → Nat) × Nat :=
  (Function.update root key 0, root key)

/-- `spdkfs_mm_find` -/
def spdkfsMmFind (m : Mm) (ptr : Addr) : Bool := m.spdkMemRoot ptr != 0

/-! ## The table -/

/-- The `for` loop of `find_next_entry` from index `i` on: `none` if it is still running after
`fuel` rounds, `some none` if it left at its end test. -/
def entryScan (table : Nat → MmEntry) (last : Nat) : (fuel i : Nat) → Option (Option Nat)
  | 0, _ => none
  | fuel + 1, i =>
      if i = last then some none
      else if !(table i).used then some (some i)
      -- the entry `last` itself is never looked at
      else entryScan table last fuel ((i + 1) % maxIoPtrNum)

/-- The body of `find_next_entry`, on the two static variables that it reads. -/
def nextEntry (table : Nat → MmEntry) (count : Nat) : Option (Option Nat) :=
  if count ≥ maxIoPtrNum then some none
  else entryScan table ((count + maxIoPtrNum - 1) % maxIoPtrNum) maxIoPtrNum count

/-- `find_next_entry` -/
def findNextEntry (m : Mm) : Option (Option Nat) := nextEntry m.mmTable m.mmTableCount

/-- The entry is taken for the block, and the block is entered in the tree. -/
def Mm.register (m : Mm) (ent : Nat) (ptr : Addr) : Mm :=
  { m with
    mmTable := Function.update m.mmTable ent ⟨ptr, true⟩
    spdkMemRoot := radixTreeInsert m.spdkMemRoot ptr (ent + spdkMmEntOffset) }

/-- The block leaves the tree, and the entry stored for it is given back. -/
def Mm.unregister (m : Mm) (ptr : Addr) : Mm :=
  let d := radixTreeDelete m.spdkMemRoot ptr
  let ent := d.2 - spdkMmEntOffset
  { m with
    spdkMemRoot := d.1
    mmTable := Function.update m.mmTable ent { m.mmTable ent with used := false } }

/-! ## Allocating and freeing -/

/-- The two allocators. -/
inductive Owner where
  | spdk
  | usr
  deriving DecidableEq

/-- What `spdk_malloc` and the application's `malloc` return when they are asked. -/
structure MallocAnswer where
  spdk : Addr
  usr : Addr

/-- `spdkfs_malloc`: the table, whose block it is, and the block. Both assertions stop the
process. -/
def spdkfsMalloc (ans : MallocAnswer) (size : Nat) (m : Mm) : Option (Mm × Owner × Addr) :=
  -- only whole pages are asked for from SPDK
  if size % 4096 ≠ 0 then
    if ans.usr = 0 then none else some (m, .usr, ans.usr)
  -- SPDK has none left: the application's allocator is the fallback
  else if ans.spdk = 0 then some (m, .usr, ans.usr)
  else
    (findNextEntry m).bind fun nextEnt =>
      nextEnt.map fun ent => (m.register ent ans.spdk, .spdk, ans.spdk)

/-- The allocator `spdkfs_realloc` and `spdkfs_free` hand a block to. -/
def Mm.owner (m : Mm) (ptr : Addr) : Owner := if spdkfsMmFind m ptr then .spdk else .usr

/-- `spdkfs_realloc`: the allocator that is asked. Its answer is returned as it is, and the
table stays. -/
def spdkfsRealloc (ptr : Addr) (m : Mm) : Mm × Owner := (m, m.owner ptr)

/-- `spdkfs_free` -/
def spdkfsFree (ptr : Addr) (m : Mm) : Mm × Owner :=
  if spdkfsMmFind m ptr then (m.unregister ptr, .spdk) else (m, .usr)

/-- The loop of `spdkfs_mm_free` from index `i` on, with `left` rounds to its end test: the table
it leaves, and the blocks it hands to `spdk_free`. A read of an entry past the table has no
result. -/
def mmFreeLoop : (left i : Nat) → Mm → Option (Mm × List Addr)
  | 0, _, m => some (m, [])
  | left + 1, i, m =>
      if m.mmTableCount = 0 then some (m, [])
      else if maxIoPtrNum ≤ i then none
      else if (m.mmTable i).used then
        (mmFreeLoop left (i + 1) { m with mmTableCount := m.mmTableCount - 1 }).map fun r =>
          (r.1, (m.mmTable i).ptr :: r.2)
      else mmFreeLoop left (i + 1) m

/-- `spdkfs_mm_free`, which always returns true. The end test lets the index reach
`MAX_IO_PTR_NUM`. -/
def spdkfsMmFree (m : Mm) : Option (Mm × List Addr) := mmFreeLoop (maxIoPtrNum + 1) 0 m

/-! ## Finding an entry -/

/-- Going up from `i`, the scan finds an unused entry if there is one below its end. -/
theorem entryScan_up {table : Nat → MmEntry} {last fuel i j : Nat} (hlast : last < maxIoPtrNum)
    (hij : i ≤ j) (hj : j < last) (hfree : (table j).used = false) (hfuel : j - i < fuel) :
    ∃ k < last, (table k).used = false ∧ entryScan table last fuel i = some (some k) := by
  induction fuel generalizing i with
  | zero => omega
  | succ fuel ih =>
      have hne : i ≠ last := by omega
      cases hused : (table i).used with
      | false => exact ⟨i, by omega, hused, by simp [entryScan, hne, hused]⟩
      | true =>
          have hlt : i < j := by
            refine Nat.lt_of_le_of_ne hij ?_
            rintro rfl
            rw [hused] at hfree
            cases hfree
          obtain ⟨k, hk, hkfree, hscan⟩ := ih (i := i + 1) hlt (by omega)
          refine ⟨k, hk, hkfree, ?_⟩
          rw [entryScan, if_neg hne, hused, Nat.mod_eq_of_lt (by omega)]
          exact hscan

/-- The count never leaves 0, so the scan looks at all entries but the last. -/
theorem findNextEntry_spec {m : Mm} (h0 : m.mmTableCount = 0) {j : Nat} (hj : j < maxIoPtrNum - 1)
    (hfree : (m.mmTable j).used = false) :
    ∃ k < maxIoPtrNum - 1, (m.mmTable k).used = false ∧ findNextEntry m = some (some k) := by
  have hmax : maxIoPtrNum = 4096 := rfl
  have hlast : (0 + maxIoPtrNum - 1) % maxIoPtrNum = maxIoPtrNum - 1 := by decide
  rw [findNextEntry, nextEntry, h0, if_neg (by omega), hlast]
  exact entryScan_up (by omega) (Nat.zero_le j) hj hfree (by omega)

/-- A block of whole pages that SPDK has is entered where the scan ends. -/
theorem spdkfsMalloc_spdk {ans : MallocAnswer} {size ent : Nat} {m : Mm} (hsize : size % 4096 = 0)
    (hans : ans.spdk ≠ 0) (hfind : findNextEntry m = some (some ent)) :
    spdkfsMalloc ans size m = some (m.register ent ans.spdk, .spdk, ans.spdk) := by
  rw [spdkfsMalloc, if_neg (not_not.mpr hsize), if_neg hans, hfind]
  rfl

/-- An allocation is served by the application's allocator, and the table stays, or by SPDK's, and
the block is entered where the scan ends. -/
theorem spdkfsMalloc_cases {ans : MallocAnswer} {size : Nat} {m m' : Mm} {o : Owner} {a : Addr}
    (h : spdkfsMalloc ans size m = some (m', o, a)) :
    ((size % 4096 ≠ 0 ∧ ans.usr ≠ 0 ∨ size % 4096 = 0 ∧ ans.spdk = 0) ∧
        m' = m ∧ o = .usr ∧ a = ans.usr) ∨
      size % 4096 = 0 ∧ ans.spdk ≠ 0 ∧ ∃ ent, findNextEntry m = some (some ent) ∧
        m' = m.register ent ans.spdk ∧ o = .spdk ∧ a = ans.spdk := by
  unfold spdkfsMalloc at h
  split at h
  · next hsize =>
      split at h
      · cases h
      · next husr =>
          cases h
          exact Or.inl ⟨Or.inl ⟨hsize, husr⟩, rfl, rfl, rfl⟩
  · next hsize =>
      have hsize := not_not.mp hsize
      split at h
      · next hspdk =>
          cases h
          exact Or.inl ⟨Or.inr ⟨hsize, hspdk⟩, rfl, rfl, rfl⟩
      · next hspdk =>
          obtain ⟨o', hfind, h⟩ := Option.bind_eq_some_iff.mp h
          obtain ⟨ent, rfl, heq⟩ := Option.map_eq_some_iff.mp h
          cases heq
          exact Or.inr ⟨hsize, hspdk, ent, hfind, rfl, rfl, rfl⟩

/-! ## The table after a call -/

theorem spdkfsMmFind_iff {m : Mm} {ptr : Addr} :
    spdkfsMmFind m ptr = true ↔ m.spdkMemRoot ptr ≠ 0 := by
  rw [spdkfsMmFind, bne_iff_ne]

theorem Mm.register_root {m : Mm} {ptr : Addr} (h : m.spdkMemRoot ptr = 0) (ent : Nat) (a : Addr) :
    (m.register ent ptr).spdkMemRoot a =
      if a = ptr then ent + spdkMmEntOffset else m.spdkMemRoot a := by
  show radixTreeInsert m.spdkMemRoot ptr _ a = _
  rw [radixTreeInsert, if_neg (not_not.mpr h), Function.update_apply]

theorem Mm.unregister_root (m : Mm) (ptr a : Addr) :
    (m.unregister ptr).spdkMemRoot a = if a = ptr then 0 else m.spdkMemRoot a :=
  Function.update_apply ..

theorem spdkfsFree_owner (ptr : Addr) (m : Mm) : (spdkfsFree ptr m).2 = m.owner ptr := by
  unfold spdkfsFree Mm.owner
  split
  · rfl
  · rfl

/-- Only the entry stored for the block changes. -/
theorem Mm.unregister_table {m : Mm} {ptr : Addr} {ent : Nat}
    (h : m.spdkMemRoot ptr = ent + spdkMmEntOffset) :
    (m.unregister ptr).mmTable =
      Function.update m.mmTable ent { m.mmTable ent with used := false } := by
  unfold Mm.unregister radixTreeDelete
  simp only [h, Nat.add_sub_cancel]

end BlobTopFs
