import BlobTopFs.Memory.Registry

/-!
# Giving SPDK's blocks back at the end

`spdkfs_mm_free` goes through the table until it has seen as many entries in use as
`mm_table_count` says. That is right for every pattern of entries as long as the count is, but
neither `spdkfs_malloc` nor `spdkfs_free` touches the count.
-/

namespace BlobTopFs

open Run

/-- The entries in use. -/
def Mm.usedEntries (m : Mm) : List Nat :=
  (List.range maxIoPtrNum).filter fun i => (m.mmTable i).used

/-- The count is that of the entries in use, and `spdkfs_mm_free` stays within the table and
hands SPDK each of its live blocks once, and nothing else. -/
structure MmWorld.Accounted (w : MmWorld) : Prop where
  count : w.mm.mmTableCount = w.mm.usedEntries.length
  teardown : ∃ m freed, spdkfsMmFree w.mm = some (m, freed) ∧ freed.Nodup ∧
    ∀ a, a ∈ freed ↔ a ∈ w.live .spdk

/-- The call allocates or frees. -/
def MmCall.AllocatesOrFrees : MmCall → Prop
  | .malloc .. | .free _ => True
  | .realloc .. => False

/-- The call takes no block of SPDK's: the size is not one of whole pages, or SPDK has none. -/
def MmCall.LeavesSpdk : MmCall → Prop
  | .malloc ans size => size % 4096 ≠ 0 ∨ ans.spdk = 0
  | .realloc .. | .free _ => True

/-! ## The loop -/

theorem Mm.count_zero {m : Mm} (h : m.mmTableCount = 0) : { m with mmTableCount := 0 } = m := by
  cases m
  cases h
  rfl

/-- With the right count, the loop hands over the blocks of the entries in use, and is left before
the index is past the table. -/
theorem mmFreeLoop_spec (n i : Nat) (m : Mm) (hi : i + n = maxIoPtrNum)
    (hcount : m.mmTableCount = ((List.range' i n).filter fun j => (m.mmTable j).used).length) :
    mmFreeLoop (n + 1) i m = some ({ m with mmTableCount := 0 },
      ((List.range' i n).filter fun j => (m.mmTable j).used).map fun j => (m.mmTable j).ptr) := by
  induction n generalizing i m with
  | zero =>
      have h0 : m.mmTableCount = 0 := hcount
      rw [mmFreeLoop, if_pos h0, Mm.count_zero h0]
      rfl
  | succ n ih =>
      rw [mmFreeLoop]
      by_cases h0 : m.mmTableCount = 0
      · have hnil := List.eq_nil_of_length_eq_zero (hcount.symm.trans h0)
        rw [if_pos h0, Mm.count_zero h0, hnil]
        rfl
      · have hin : ¬ maxIoPtrNum ≤ i := by omega
        have hnext : i + 1 + n = maxIoPtrNum := by omega
        rw [if_neg h0, if_neg hin]
        rw [List.range'_succ, List.filter_cons] at hcount ⊢
        by_cases hused : (m.mmTable i).used = true
        · rw [if_pos hused] at hcount ⊢
          have hrest := ih (i + 1) { m with mmTableCount := m.mmTableCount - 1 } hnext
            (by rw [hcount]; rfl)
          rw [if_pos hused, hrest]
          rfl
        · rw [if_neg hused] at hcount ⊢
          rw [if_neg hused]
          exact ih (i + 1) m hnext hcount

/-- So where the count is right, the teardown is. -/
theorem MmWorld.Registered.accounted {w : MmWorld} (hw : w.Registered)
    (hused : ∀ ent, (w.mm.mmTable ent).used = true → (w.mm.mmTable ent).ptr ∈ w.live .spdk ∧
      w.mm.spdkMemRoot (w.mm.mmTable ent).ptr = ent + spdkMmEntOffset)
    (hcount : w.mm.mmTableCount = w.mm.usedEntries.length) : w.Accounted := by
  have hrange : List.range maxIoPtrNum = List.range' 0 maxIoPtrNum := List.range_eq_range'
  have hloop := mmFreeLoop_spec maxIoPtrNum 0 w.mm (Nat.zero_add _) (hrange ▸ hcount)
  refine ⟨hcount, _, _, hloop, ?_, fun a => ?_⟩
  · -- two entries in use have two blocks, as a block has one entry in the tree
    refine List.Nodup.map_on (fun i hi j hj heq => ?_) (List.Nodup.filter _ (List.nodup_range' ..))
    have hri := (hused i (List.mem_filter.mp hi).2).2
    have hrj := (hused j (List.mem_filter.mp hj).2).2
    rw [heq, hrj] at hri
    exact (Nat.add_right_cancel hri).symm
  · rw [List.mem_map]
    constructor
    · rintro ⟨i, hi, rfl⟩
      exact (hused i (List.mem_filter.mp hi).2).1
    · intro ha
      obtain ⟨ent, hent, -, htable⟩ := hw.entry a ha
      refine ⟨ent, List.mem_filter.mpr ⟨hrange ▸ List.mem_range.mpr hent, ?_⟩, ?_⟩
      · rw [htable]
      · rw [htable]

/-! ## The count -/

/-- The count is right only where no block of SPDK's is live. -/
theorem MmWorld.Inv.accounted_iff_none_live {w : MmWorld} (hw : w.Inv) :
    w.Accounted ↔ w.live .spdk = ∅ := by
  constructor
  · intro h
    have hnone : w.mm.usedEntries = [] :=
      List.eq_nil_of_length_eq_zero (h.count.symm.trans hw.count)
    apply Finset.eq_empty_of_forall_notMem
    intro a ha
    obtain ⟨ent, hent, -, htable⟩ := hw.entry a ha
    have hin : ent ∈ w.mm.usedEntries := by
      refine List.mem_filter.mpr ⟨List.mem_range.mpr hent, ?_⟩
      rw [htable]
    rw [hnone] at hin
    cases hin
  · intro hempty
    apply hw.toRegistered.accounted hw.used
    have hnone : w.mm.usedEntries = [] := by
      apply List.filter_eq_nil_iff.mpr
      intro ent _ hused
      have hlive := (hw.used ent hused).1
      rw [hempty] at hlive
      cases hlive
    rw [hw.count, hnone]
    rfl

/-! ## Runs -/

theorem MmCall.AllocatesOrFrees.inPlace {w : MmWorld} {call : MmCall}
    (h : call.AllocatesOrFrees) : call.InPlace w := by
  cases call with
  | malloc ans size => trivial
  | free ptr => trivial
  | realloc ans ptr size => exact h.elim

/-- A page-sized allocation that SPDK serves leaves its block live. -/
theorem MmWorld.Inv.malloc_spdk {w : MmWorld} {ans : MallocAnswer} {size : Nat} (hw : w.Inv)
    (hcard : (w.live .spdk).card < maxIoPtrNum - 1) (hsize : size % 4096 = 0)
    (hans : ans.spdk ≠ 0) :
    ∃ w', mmStep w (.malloc ans size) = some w' ∧ ans.spdk ∈ w'.live .spdk := by
  obtain ⟨j, hj, hfree⟩ := hw.exists_unused hcard
  obtain ⟨k, -, -, hfind⟩ := findNextEntry_spec hw.count hj hfree
  refine ⟨_, by rw [mmStep, spdkfsMalloc_spdk hsize hans hfind]; rfl, ?_⟩
  exact (mem_giveBlock hans).mpr (Or.inl ⟨rfl, rfl⟩)

/-- A call that takes no block of SPDK's leaves none live if none was. -/
theorem mmStep_noSpdk {w w' : MmWorld} {call : MmCall} (hnone : w.live .spdk = ∅)
    (hkind : call.AllocatesOrFrees) (hcall : call.LeavesSpdk) (h : mmStep w call = some w') :
    w'.live .spdk = ∅ := by
  cases call with
  | malloc ans size =>
      obtain ⟨⟨m, o, a⟩, hr, rfl⟩ := Option.map_eq_some_iff.mp h
      rcases spdkfsMalloc_cases hr with ⟨-, -, rfl, -⟩ | ⟨hsize, hans, -⟩
      · exact (giveBlock_other (by simp)).trans hnone
      · exact (hcall.elim (absurd hsize) hans).elim
  | free ptr =>
      rw [mmStep] at h
      split at h
      · cases h
      · cases h
        apply Finset.eq_empty_of_forall_notMem
        intro a ha
        have hlive := (mem_takeBlock.mp ha).1
        rw [hnone] at hlive
        cases hlive
  | realloc ans ptr size => exact hkind.elim

/-- **The teardown.** In a run of allocations and frees the count is right and the teardown
complete at every point exactly when no call takes a block of SPDK's. -/
theorem teardown_complete_iff {calls : List MmCall}
    (hlegal : EachStep mmStep (fun w call => call.Legal w ∧ call.AllocatesOrFrees) .start calls) :
    Always mmStep MmWorld.Accounted .start calls ↔
      EachStep mmStep (fun _ call => call.LeavesSpdk) .start calls := by
  refine always_iff_eachStep (I := fun w => w.Inv ∧ w.live .spdk = ∅) ?_ ?_ ?_
    ⟨MmWorld.start_inv, rfl⟩ hlegal
  · intro w ⟨hw, hnone⟩
    exact hw.accounted_iff_none_live.mpr hnone
  · intro w call w' ⟨hw, hnone⟩ ⟨hL, hkind⟩ hcall h
    exact ⟨mmStep_inv hw hL hkind.inPlace h, mmStep_noSpdk hnone hkind hcall h⟩
  · intro w call ⟨hw, hnone⟩ ⟨hL, hkind⟩ hafter
    cases call with
    | malloc ans size =>
        by_contra hcall
        obtain ⟨hsize, hans⟩ := not_or.mp hcall
        obtain ⟨w', hstep, hmem⟩ := hw.malloc_spdk hL.2.2 (not_not.mp hsize) hans
        have hempty := (mmStep_inv hw hL hkind.inPlace hstep).accounted_iff_none_live.mp
          (hafter w' hstep)
        rw [hempty] at hmem
        cases hmem
    | free ptr => trivial
    | realloc ans ptr size => trivial

/-- A block that is not of whole pages is allocated and freed. -/
theorem teardown_complete_bytes :
    Always mmStep MmWorld.Accounted .start [.malloc ⟨0, 0x1000⟩ 100, .free 0x1000] := by
  have hcard : 0 < maxIoPtrNum - 1 := by decide
  have hfresh : MmWorld.start.Fresh 0x1000 := fun _ h => nomatch h
  apply (teardown_complete_iff ?_).mpr
  · refine EachStep.cons rfl (Or.inl (by decide)) ?_
    exact EachStep.cons rfl trivial trivial
  · refine EachStep.cons rfl ⟨⟨fun h => absurd rfl h, fun _ => hfresh, hcard⟩, trivial⟩ ?_
    exact EachStep.cons rfl ⟨Or.inr ⟨.usr, by decide⟩, trivial⟩ trivial

/-- A block of one page is allocated. The count is still 0, and the teardown frees nothing. -/
theorem teardown_misses_page :
    EachStep mmStep (fun w call => call.Legal w ∧ call.AllocatesOrFrees) .start
        [.malloc ⟨0x1000, 0⟩ 4096] ∧
      ¬ Always mmStep MmWorld.Accounted .start [.malloc ⟨0x1000, 0⟩ 4096] := by
  have hcard : 0 < maxIoPtrNum - 1 := by decide
  have hfresh : MmWorld.start.Fresh 0x1000 := fun _ h => nomatch h
  refine ⟨EachStep.cons rfl ⟨⟨fun _ => hfresh, fun h => absurd rfl h, hcard⟩, trivial⟩ trivial, ?_⟩
  rintro ⟨-, h⟩
  obtain ⟨m, freed, hfree, -, hmem⟩ := (h _ rfl).teardown
  cases hfree
  exact absurd ((hmem 0x1000).mpr (by decide)) (by decide)

end BlobTopFs
