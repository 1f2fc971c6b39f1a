import BlobTopFs.Lib.Simulation
import BlobTopFs.Memory.RadixMap
import Mathlib.Order.Lattice.Nat

/-!
# Runs of the radix tree

Any sequence of inserts, lookups and deletes on the tree, beside the same sequence on the finite
map that `IoMm` takes the tree for. Both return the same values, and the tree never keeps a node
that leads to no item.
-/

namespace BlobTopFs.Radix

open Run

/-! ## The tree and the map, call by call -/

inductive TreeCall where
  | insert (calloc : Calloc) (index : Nat) (item : Addr)
  | lookup (index : Nat)
  | delete (index : Nat)

/-- A tree, and what the calls so far have returned. -/
structure TreeWorld where
  mem : RadixMem
  replies : List Int

/-- After `radix_tree_init`. -/
def TreeWorld.start : TreeWorld := ⟨radixTreeInit .zero, []⟩

def treeStep (w : TreeWorld) : TreeCall → Option TreeWorld
  | .insert calloc index item =>
      (radixTreeInsert calloc index item w.mem).map fun r => ⟨r.1, w.replies ++ [r.2]⟩
  | .lookup index =>
      (radixTreeLookup w.mem index).map fun item : Addr => ⟨w.mem, w.replies ++ [(item : Int)]⟩
  | .delete index =>
      (radixTreeDelete index w.mem).map fun r => ⟨r.1, w.replies ++ [(r.2 : Int)]⟩

/-- A finite map, and what the calls on it have returned. -/
structure MapWorld where
  map : Nat → Addr
  replies : List Int

def MapWorld.start : MapWorld := ⟨fun _ => 0, []⟩

/-- The same calls on the map. -/
def mapStep (a : MapWorld) : TreeCall → Option MapWorld
  | .insert _ index item =>
      some ⟨BlobTopFs.radixTreeInsert a.map index item,
        a.replies ++ [if a.map index ≠ 0 then -EEXIST else 0]⟩
  | .lookup index => some ⟨a.map, a.replies ++ [(a.map index : Int)]⟩
  | .delete index =>
      let d := BlobTopFs.radixTreeDelete a.map index
      some ⟨d.1, a.replies ++ [(d.2 : Int)]⟩

/-- Keys are of type `unsigned long`, items are not NULL, and `calloc` has memory. -/
def TreeCall.Legal : TreeCall → Prop
  | .insert calloc index item => calloc.Succeeds ∧ index < 2 ^ 64 ∧ item ≠ 0
  | .lookup index => index < 2 ^ 64
  | .delete index => index < 2 ^ 64

/-- The tree has the items of the map, and none past the largest key. -/
structure RadixMem.Represents (m : RadixMem) (map : Nat → Addr) : Prop where
  tree : ∃ ns, m.Tree ns
  item : ∀ k, m.item k = map k
  bound : ∀ k, 2 ^ 64 ≤ k → map k = 0

structure TreeWorld.Refines (w : TreeWorld) (a : MapWorld) : Prop where
  mem : w.mem.Represents a.map
  replies : w.replies = a.replies

/-! ## One call -/

section Step

variable {m : RadixMem} {map : Nat → Addr} {index : Nat} {item : Addr}

theorem RadixMem.represents_init : (radixTreeInit .zero).Represents fun _ => 0 where
  tree := by
    refine ⟨∅, ⟨fun i hi => if_pos hi, Nat.zero_le _, rfl, fun q => ?_⟩, fun _ => rfl⟩
    simp [radixTreeInit, radixTreeInitMaxindex, RadixMem.zero]
  item := fun k => RadixMem.item_of_empty rfl k
  bound := fun _ _ => rfl

theorem RadixMem.Represents.lookup (h : m.Represents map) (hk : index < 2 ^ 64) :
    radixTreeLookup m index = some (map index) := by
  obtain ⟨ns, ht⟩ := h.tree
  rw [radixTreeLookup_spec ht.toShape hk, h.item]

theorem RadixMem.Represents.insert (h : m.Represents map) {calloc : Calloc}
    (hcalloc : calloc.Succeeds) (hk : index < 2 ^ 64) (hitem : item ≠ 0) :
    ∃ m', radixTreeInsert calloc index item m =
        some (m', if map index ≠ 0 then -EEXIST else 0) ∧
      m'.Represents (BlobTopFs.radixTreeInsert map index item) := by
  obtain ⟨ns, ht⟩ := h.tree
  unfold BlobTopFs.radixTreeInsert
  rcases radixTreeInsert_spec hcalloc hitem ht hk with
    ⟨hthere, hrun⟩ | ⟨habsent, m', ns', hrun, ht', hitem'⟩
  · rw [h.item] at hthere
    rw [if_pos hthere, if_pos hthere]
    exact ⟨m, hrun, h⟩
  · rw [h.item] at habsent
    rw [if_neg (not_not.mpr habsent), if_neg (not_not.mpr habsent)]
    refine ⟨m', hrun, ⟨ns', ht'⟩, fun k => ?_, fun k hbig => ?_⟩
    · rw [hitem', h.item, Function.update_apply]
    · have hne : k ≠ index := by omega
      rw [Function.update_of_ne hne, h.bound k hbig]

theorem RadixMem.Represents.delete (h : m.Represents map) (hk : index < 2 ^ 64) :
    ∃ m', radixTreeDelete index m = some (m', map index) ∧
      m'.Represents (Function.update map index 0) := by
  obtain ⟨ns, ht⟩ := h.tree
  obtain ⟨m', ns', hrun, ht', hitem'⟩ := radixTreeDelete_spec ht hk
  rw [h.item] at hrun
  refine ⟨m', hrun, ⟨ns', ht'⟩, fun k => ?_, fun k hbig => ?_⟩
  · rw [hitem', h.item, Function.update_apply]
  · have hne : k ≠ index := by omega
    rw [Function.update_of_ne hne, h.bound k hbig]

end Step

theorem TreeWorld.start_refines : TreeWorld.start.Refines .start :=
  ⟨RadixMem.represents_init, rfl⟩

theorem treeStep_simulates :
    Simulates treeStep mapStep TreeWorld.Refines fun _ call => call.Legal := by
  intro w a call hR hL
  cases call with
  | insert calloc index item =>
      obtain ⟨hcalloc, hk, hitem⟩ := hL
      obtain ⟨m', hrun, hm'⟩ := hR.mem.insert hcalloc hk hitem
      rw [treeStep, mapStep, hrun, Option.map_some]
      exact .some ⟨hm', by rw [hR.replies]⟩
  | lookup index =>
      rw [treeStep, mapStep, hR.mem.lookup hL, Option.map_some]
      exact .some ⟨hR.mem, by rw [hR.replies]⟩
  | delete index =>
      obtain ⟨m', hrun, hm'⟩ := hR.mem.delete hL
      rw [treeStep, mapStep, hrun, Option.map_some]
      exact .some ⟨hm', by rw [hR.replies]; rfl⟩

/-! ## Runs -/

/-- The map never refuses a call. -/
theorem exec_mapStep (a : MapWorld) (calls : List TreeCall) :
    ∃ a', exec mapStep a calls = some a' := by
  induction calls generalizing a with
  | nil => exact ⟨a, rfl⟩
  | cons call calls ih =>
      cases call with
      | insert calloc index item => exact ih _
      | lookup index => exact ih _
      | delete index => exact ih _

/-- **The tree is a finite map.** Any sequence of inserts, lookups and deletes from
`radix_tree_init` on comes back, and returns call by call what the finite map returns: no walk
leaves an array or follows a dangling pointer, and afterwards every key is looked up right. -/
theorem radix_tree_refines_map {calls : List TreeCall} (hlegal : ∀ call ∈ calls, call.Legal) :
    ∃ w a, exec treeStep .start calls = some w ∧ exec mapStep .start calls = some a ∧
      w.replies = a.replies ∧
      ∀ index < 2 ^ 64, radixTreeLookup w.mem index = some (a.map index) := by
  have hrel := treeStep_simulates.exec TreeWorld.start_refines (eachStep_of_forall hlegal)
  obtain ⟨a, ha⟩ := exec_mapStep .start calls
  rw [ha] at hrel
  generalize hw : exec treeStep .start calls = o at hrel
  cases hrel with
  | some hR => exact ⟨_, a, rfl, ha, hR.replies, fun index hk => hR.mem.lookup hk⟩

/-- An allocator that always has memory: the least address that is free. -/
noncomputable def Calloc.least : Calloc where
  answer := fun nodes => sInf {q | q ≠ 0 ∧ nodes q = none}
  fresh := by
    intro nodes hne
    exact (Nat.sInf_mem (Nat.nonempty_of_pos_sInf (Nat.pos_of_ne_zero hne))).2

theorem Calloc.least_succeeds : Calloc.least.Succeeds := by
  intro nodes hfin
  obtain ⟨q, hq⟩ := (hfin.insert 0).exists_notMem
  have hne : q ≠ 0 := fun heq => hq (Or.inl heq)
  have hnone : nodes q = none := by
    cases hnode : nodes q with
    | none => rfl
    | some nd => exact absurd (Or.inr (by simp [hnode])) hq
  have hfree : {q | q ≠ 0 ∧ nodes q = none}.Nonempty := ⟨q, hne, hnone⟩
  exact (Nat.sInf_mem hfree).1

/-- A block's key is entered, refused the second time, found and taken out. -/
theorem radix_tree_refines_map_block : ∃ w, exec treeStep .start [.insert .least 0x1000 997,
    .insert .least 0x1000 998, .lookup 0x1000, .delete 0x1000, .lookup 0x1000] = some w ∧
      w.replies = [0, -17, 997, 997, 0] := by
  have hlegal : ∀ call ∈ [TreeCall.insert .least 0x1000 997, .insert .least 0x1000 998,
      .lookup 0x1000, .delete 0x1000, .lookup 0x1000], call.Legal := by
    simp [TreeCall.Legal, Calloc.least_succeeds]
  obtain ⟨w, a, hw, ha, hreplies, -⟩ := radix_tree_refines_map hlegal
  refine ⟨w, hw, hreplies.trans ?_⟩
  cases ha
  rfl

/-- No node is kept for nothing: every node counts its filled slots and has one, the height is
within the path array of `radix_tree_delete`, there is at most one node for each item and each
height, and a tree without items is as `RADIX_TREE_INIT` has it. -/
structure RadixMem.Tidy (m : RadixMem) : Prop where
  counts : ∀ q nd, m.nodes q = some nd →
    0 < nd.count ∧ nd.count + (holders 64 nd.slots 0).card = 64
  height : m.root.height < radixTreeMaxPath
  space : ∃ ns : Finset Addr, (∀ q, (m.nodes q).isSome = true ↔ q ∈ ns) ∧
    ∀ K : Finset Nat, (∀ k < 2 ^ 64, radixTreeLookup m k ≠ some 0 → k ∈ K) →
      ns.card ≤ m.root.height * K.card
  empty : (∀ k < 2 ^ 64, radixTreeLookup m k = some 0) → m.root = ⟨0, 0⟩ ∧ ∀ q, m.nodes q = none

theorem RadixMem.Represents.tidy {m : RadixMem} {map : Nat → Addr} (h : m.Represents map) :
    m.Tidy := by
  obtain ⟨ns, ht⟩ := h.tree
  have hspace : ∀ K : Finset Nat, (∀ k < 2 ^ 64, radixTreeLookup m k ≠ some 0 → k ∈ K) →
      ns.card ≤ m.root.height * K.card := by
    intro K hK
    refine ht.owns.card_le (by decide) fun k hk hget => ?_
    have hitem : map k ≠ 0 := by
      rw [← h.item k]
      exact (if_pos hk).trans_ne hget
    have hlt : k < 2 ^ 64 := not_le.mp fun hbig => hitem (h.bound k hbig)
    refine hK k hlt fun hlook => hitem ?_
    rw [h.lookup hlt] at hlook
    exact Option.some.inj hlook
  refine ⟨fun q nd hnd => ?_, Nat.lt_succ_of_le ht.height_le, ⟨ns, ht.exact, hspace⟩,
    fun hall => ?_⟩
  · exact ht.owns.count ((ht.exact q).mp (by rw [hnd]; rfl)) hnd
  · have hns : ns = ∅ := by
      have hzero := hspace ∅ fun k hk hne => absurd (hall k hk) hne
      rwa [Finset.card_empty, Nat.mul_zero, Nat.le_zero, Finset.card_eq_zero] at hzero
    have hroot : m.root.rnode = 0 := by
      by_contra hne
      obtain ⟨k, hk, hget⟩ := ht.owns.exists_get (by decide) hne
      have hitem : map k ≠ 0 := by
        rw [← h.item k]
        exact (if_pos hk).trans_ne hget
      have hlt : k < 2 ^ 64 := not_le.mp fun hbig => hitem (h.bound k hbig)
      have hlook := hall k hlt
      rw [h.lookup hlt] at hlook
      exact hitem (Option.some.inj hlook)
    refine ⟨?_, fun q => ?_⟩
    · have hheight := ht.reset hroot
      cases hr : m.root with
      | mk height rnode =>
          rw [hr] at hroot hheight
          rw [show rnode = 0 from hroot, show height = 0 from hheight]
    · have hq := (ht.exact q).mp
      rw [hns] at hq
      cases hnode : m.nodes q with
      | none => rfl
      | some nd => exact absurd (hq (by rw [hnode]; rfl)) (Finset.notMem_empty q)

/-- **The tree stays tidy**, whatever has been inserted and deleted in whatever order. -/
theorem radix_tree_stays_tidy {calls : List TreeCall} (hlegal : ∀ call ∈ calls, call.Legal) :
    Always treeStep (fun w => w.mem.Tidy) .start calls := by
  have hkeep : ∀ w call w', (∃ map, w.mem.Represents map) → call.Legal →
      treeStep w call = some w' → ∃ map, w'.mem.Represents map := by
    rintro w call w' ⟨map, hmap⟩ hL hw
    obtain ⟨a, -, hR⟩ := treeStep_simulates.forward (t := ⟨map, w.replies⟩) ⟨hmap, rfl⟩ hL hw
    exact ⟨a.map, hR.mem⟩
  have hstart : ∃ map, TreeWorld.start.mem.Represents map := ⟨_, RadixMem.represents_init⟩
  refine (always_of_step hkeep hstart (eachStep_of_forall hlegal)).mono fun w hw => ?_
  obtain ⟨map, hmap⟩ := hw
  exact hmap.tidy

/-- A key that needs the whole height comes and goes. -/
theorem radix_tree_stays_tidy_largest : Always treeStep (fun w => w.mem.Tidy) .start
    [.insert .least (2 ^ 64 - 1) 996, .delete (2 ^ 64 - 1)] :=
  radix_tree_stays_tidy (by simp [TreeCall.Legal, Calloc.least_succeeds])

end BlobTopFs.Radix
