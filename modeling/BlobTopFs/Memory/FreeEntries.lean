import BlobTopFs.Memory.Teardown

/-!
# Whether a free entry is found

`find_next_entry` begins its scan at `mm_table_count` and ends it at the entry before, which it
does not look at. The count is 0 at all times, so the entry left out is always the last one: no
block ever gets it, and once all others are in use, the assertion in `spdkfs_malloc` stops the
process with one entry free.
-/

namespace BlobTopFs

open Run

/-! ## One table -/

/-- The scan ends at an unused entry, and a block from SPDK is entered in one. -/
structure Mm.EntersBlocks (m : Mm) : Prop where
  find : ∃ ent < maxIoPtrNum, findNextEntry m = some (some ent) ∧ (m.mmTable ent).used = false
  malloc : ∀ ans size, size % 4096 = 0 → ans.spdk ≠ 0 →
    ∃ ent < maxIoPtrNum, (m.mmTable ent).used = false ∧
      spdkfsMalloc ans size m = some (m.register ent ans.spdk, .spdk, ans.spdk)

/-- It is so as long as not all entries are in use. -/
def Mm.EntriesComplete (m : Mm) : Prop := m.usedEntries.length < maxIoPtrNum → m.EntersBlocks

/-- The call takes a block from SPDK when all entries but two are in use, and so leaves one free. -/
def MmCall.LeavesOne (w : MmWorld) : MmCall → Prop
  | .malloc ans size =>
      size % 4096 = 0 ∧ ans.spdk ≠ 0 ∧ w.mm.usedEntries.length = maxIoPtrNum - 2
  | .realloc .. | .free _ => False

/-- What the scan returns is unused, and not the entry it ends at. -/
theorem entryScan_eq_some {table : Nat → MmEntry} {last fuel i k : Nat}
    (h : entryScan table last fuel i = some (some k)) : k ≠ last ∧ (table k).used = false := by
  induction fuel generalizing i with
  | zero => cases h
  | succ fuel ih =>
      rw [entryScan] at h
      split at h
      · cases h
      · next hne =>
          split at h
          · next hfree =>
              cases h
              exact ⟨hne, by simpa using hfree⟩
          · exact ih h

theorem Mm.card_used (m : Mm) :
    (holders maxIoPtrNum (fun i => (m.mmTable i).used) true).card = m.usedEntries.length :=
  card_holders_true ..

theorem Mm.register_used (m : Mm) (ent : Nat) (ptr : Addr) :
    (fun i => ((m.register ent ptr).mmTable i).used) =
      Function.update (fun i => (m.mmTable i).used) ent true := by
  funext i
  show (Function.update m.mmTable ent ⟨ptr, true⟩ i).used = _
  by_cases hi : i = ent
  · rw [hi, Function.update_self, Function.update_self]
  · rw [Function.update_of_ne hi, Function.update_of_ne hi]

theorem Mm.usedEntries_register {m : Mm} {ent : Nat} (hent : ent < maxIoPtrNum)
    (hfree : (m.mmTable ent).used = false) (ptr : Addr) :
    (m.register ent ptr).usedEntries.length = m.usedEntries.length + 1 := by
  rw [← Mm.card_used, ← Mm.card_used, Mm.register_used]
  exact card_holders_gain hent (by simp [hfree])

/-- An entry that is given back leaves the unused ones unused. -/
theorem Mm.unregister_unused {m : Mm} {i : Nat} (h : (m.mmTable i).used = false) (ptr : Addr) :
    ((m.unregister ptr).mmTable i).used = false := by
  unfold Mm.unregister
  dsimp only
  by_cases hi : i = (radixTreeDelete m.spdkMemRoot ptr).2 - spdkMmEntOffset
  · rw [hi, Function.update_self]
  · rw [Function.update_of_ne hi]
    exact h

/-- The count is 0, and the last entry is free. -/
structure Mm.LastFree (m : Mm) : Prop where
  count : m.mmTableCount = 0
  last : (m.mmTable (maxIoPtrNum - 1)).used = false

namespace Mm.LastFree

variable {m : Mm}

/-- The scan ends at the last entry. -/
theorem ne_last (h : m.LastFree) {ent : Nat} (hfind : findNextEntry m = some (some ent)) :
    ent ≠ maxIoPtrNum - 1 ∧ (m.mmTable ent).used = false := by
  have hlast : (0 + maxIoPtrNum - 1) % maxIoPtrNum = maxIoPtrNum - 1 := by decide
  rw [findNextEntry, nextEntry, h.count, if_neg (by decide), hlast] at hfind
  exact entryScan_eq_some hfind

/-- A second unused entry is one that the scan looks at. -/
theorem used_add_two_le (h : m.LastFree) {ent : Nat} (hent : ent < maxIoPtrNum - 1)
    (hfree : (m.mmTable ent).used = false) : m.usedEntries.length + 2 ≤ maxIoPtrNum := by
  have hmax : maxIoPtrNum = 4096 := rfl
  have hlast := h.last
  rw [← m.card_used]
  exact card_holders_add_two_le (i := ent) (j := maxIoPtrNum - 1) (by omega) (by omega) (by omega)
    (by simp [hfree]) (by simp [hlast])

/-- With two unused entries, one is such, -/
theorem exists_unused (h : m.usedEntries.length + 2 ≤ maxIoPtrNum) :
    ∃ ent < maxIoPtrNum - 1, (m.mmTable ent).used = false := by
  by_contra hno
  have hall : ∀ i < maxIoPtrNum, i ≠ maxIoPtrNum - 1 → (m.mmTable i).used = true := by
    intro i hi hne
    by_contra hfree
    exact hno ⟨i, by omega, by simpa using hfree⟩
  have hle := le_card_holders hall
  rw [m.card_used] at hle
  omega

/-- and the scan ends at one. -/
theorem exists_find (h : m.LastFree) (htwo : m.usedEntries.length + 2 ≤ maxIoPtrNum) :
    ∃ ent < maxIoPtrNum - 1, (m.mmTable ent).used = false ∧
      findNextEntry m = some (some ent) := by
  obtain ⟨j, hj, hfree⟩ := exists_unused htwo
  exact findNextEntry_spec h.count hj hfree

/-- The last entry alone is not enough. -/
theorem complete_iff (h : m.LastFree) :
    m.EntriesComplete ↔ m.usedEntries.length + 2 ≤ maxIoPtrNum := by
  have hmax : maxIoPtrNum = 4096 := rfl
  constructor
  · intro hcomplete
    have hless : m.usedEntries.length < maxIoPtrNum := by
      have hlast := h.last
      rw [← m.card_used]
      exact card_holders_lt (i := maxIoPtrNum - 1) (by omega) (by simp [hlast])
    obtain ⟨ent, hent, hfind, hfree⟩ := (hcomplete hless).find
    have hne := (h.ne_last hfind).1
    exact h.used_add_two_le (show ent < maxIoPtrNum - 1 by omega) hfree
  · intro htwo _
    obtain ⟨k, hk, hkfree, hfind⟩ := h.exists_find htwo
    refine ⟨⟨k, by omega, hfind, hkfree⟩, fun ans size hsize hans => ?_⟩
    exact ⟨k, by omega, hkfree, spdkfsMalloc_spdk hsize hans hfind⟩

/-- A block takes another entry than the last. -/
theorem register (h : m.LastFree) {ent : Nat} (hfind : findNextEntry m = some (some ent))
    (ptr : Addr) : (m.register ent ptr).LastFree := by
  refine ⟨h.count, ?_⟩
  show (Function.update m.mmTable ent ⟨ptr, true⟩ (maxIoPtrNum - 1)).used = false
  rw [Function.update_of_ne (h.ne_last hfind).1.symm]
  exact h.last

end Mm.LastFree

/-! ## Runs -/

section Step

variable {w w' : MmWorld} {call : MmCall}

/-- What a call does to the table: nothing, or it gives an entry back, or it enters a block from
SPDK. -/
theorem mmStep_mm_cases (h : mmStep w call = some w') :
    w'.mm = w.mm ∨ (∃ ptr, w'.mm = w.mm.unregister ptr) ∨
      ∃ ans size ent, call = .malloc ans size ∧ size % 4096 = 0 ∧ ans.spdk ≠ 0 ∧
        findNextEntry w.mm = some (some ent) ∧ w'.mm = w.mm.register ent ans.spdk := by
  cases call with
  | malloc ans size =>
      obtain ⟨⟨m, o, a⟩, hr, rfl⟩ := Option.map_eq_some_iff.mp h
      rcases spdkfsMalloc_cases hr with ⟨-, rfl, -⟩ | ⟨hsize, hans, ent, hfind, rfl, -⟩
      · exact Or.inl rfl
      · exact Or.inr (Or.inr ⟨ans, size, ent, rfl, hsize, hans, hfind, rfl⟩)
  | realloc ans ptr size =>
      rw [mmStep] at h
      split at h
      · cases h
      · cases h
        exact Or.inl rfl
  | free ptr =>
      rw [mmStep] at h
      split at h
      · cases h
      · cases h
        unfold spdkfsFree
        split
        · exact Or.inr (Or.inl ⟨ptr, rfl⟩)
        · exact Or.inl rfl

/-- Whatever the allocators answer, the last entry stays free. -/
theorem mmStep_lastFree (hw : w.mm.LastFree) (h : mmStep w call = some w') : w'.mm.LastFree := by
  rcases mmStep_mm_cases h with hsame | ⟨ptr, heq⟩ | ⟨ans, size, ent, -, -, -, hfind, heq⟩
  · rw [hsame]
    exact hw
  · rw [heq]
    exact ⟨hw.count, Mm.unregister_unused hw.last ptr⟩
  · rw [heq]
    exact hw.register hfind ans.spdk

/-- While two entries are unused, a call leaves as many unless it takes a block from SPDK and there
are just two. -/
theorem mmStep_two_unused (hw : w.mm.LastFree) (htwo : w.mm.usedEntries.length + 2 ≤ maxIoPtrNum)
    (hcall : ¬ call.LeavesOne w) (h : mmStep w call = some w') :
    w'.mm.usedEntries.length + 2 ≤ maxIoPtrNum := by
  rcases mmStep_mm_cases h with hsame | ⟨ptr, heq⟩ | ⟨ans, size, ent, rfl, hsize, hans, hfind, heq⟩
  · rw [hsame]
    exact htwo
  · obtain ⟨j, hj, hfree⟩ := Mm.LastFree.exists_unused htwo
    apply (mmStep_lastFree hw h).used_add_two_le hj
    rw [heq]
    exact Mm.unregister_unused hfree ptr
  · obtain ⟨k, hk, hfree, hfind'⟩ := hw.exists_find htwo
    cases hfind.symm.trans hfind'
    rw [heq, Mm.usedEntries_register (by omega) hfree]
    have hless : w.mm.usedEntries.length ≠ maxIoPtrNum - 2 := fun heq => hcall ⟨hsize, hans, heq⟩
    omega

/-- An allocation that SPDK serves uses one entry more. -/
theorem mmStep_malloc_used {ans : MallocAnswer} {size : Nat} (hw : w.mm.LastFree)
    (htwo : w.mm.usedEntries.length + 2 ≤ maxIoPtrNum) (hsize : size % 4096 = 0)
    (hans : ans.spdk ≠ 0) :
    ∃ w', mmStep w (.malloc ans size) = some w' ∧
      w'.mm.usedEntries.length = w.mm.usedEntries.length + 1 := by
  obtain ⟨k, hk, hfree, hfind⟩ := hw.exists_find htwo
  refine ⟨_, by rw [mmStep, spdkfsMalloc_spdk hsize hans hfind]; rfl, ?_⟩
  exact Mm.usedEntries_register (by omega) hfree ans.spdk

end Step

theorem MmWorld.start_lastFree : MmWorld.start.mm.LastFree := ⟨rfl, rfl⟩

theorem MmWorld.start_used : MmWorld.start.mm.usedEntries.length = 0 := by
  rw [List.length_eq_zero_iff]
  exact List.filter_eq_nil_iff.mpr fun _ _ => Bool.false_ne_true

/-- **Free entries.** In a run of calls, whatever the allocators answer, the scan finds an entry at
every point at which one is free exactly when no call takes a block from SPDK while all entries but
two are in use. -/
theorem entries_complete_iff (calls : List MmCall) :
    Always mmStep (fun w => w.mm.EntriesComplete) .start calls ↔
      EachStep mmStep (fun w call => ¬ call.LeavesOne w) .start calls := by
  have hmax : maxIoPtrNum = 4096 := rfl
  refine always_iff_eachStep (L := fun _ _ => True)
    (I := fun w => w.mm.LastFree ∧ w.mm.usedEntries.length + 2 ≤ maxIoPtrNum) ?_ ?_ ?_ ?_
    (eachStep_of_forall fun _ _ => trivial)
  · intro w ⟨hw, htwo⟩
    exact hw.complete_iff.mpr htwo
  · intro w call w' ⟨hw, htwo⟩ _ hcall h
    exact ⟨mmStep_lastFree hw h, mmStep_two_unused hw htwo hcall h⟩
  · intro w call ⟨hw, htwo⟩ _ hafter hcall
    cases call with
    | malloc ans size =>
        obtain ⟨hsize, hans, hused⟩ := hcall
        obtain ⟨w', hstep, hused'⟩ := mmStep_malloc_used hw htwo hsize hans
        have hleft := (mmStep_lastFree hw hstep).complete_iff.mp (hafter w' hstep)
        omega
    | free ptr => exact hcall
    | realloc ans ptr size => exact hcall
  · refine ⟨MmWorld.start_lastFree, ?_⟩
    rw [MmWorld.start_used]
    decide

/-- Allocations of `n` pages, at `0x1000` and on. -/
def mallocPages (n : Nat) : List MmCall :=
  (List.range n).map fun i => .malloc ⟨4096 * (i + 1), 0⟩ 4096

theorem exec_mallocPages (n : Nat) (h : n < maxIoPtrNum) :
    ∃ w, exec mmStep .start (mallocPages n) = some w ∧ w.mm.LastFree ∧
      w.mm.usedEntries.length = n := by
  induction n with
  | zero => exact ⟨.start, rfl, MmWorld.start_lastFree, MmWorld.start_used⟩
  | succ n ih =>
      obtain ⟨w, hrun, hw, hused⟩ := ih (Nat.lt_of_succ_lt h)
      have htwo : w.mm.usedEntries.length + 2 ≤ maxIoPtrNum := by omega
      have hans : (⟨4096 * (n + 1), 0⟩ : MallocAnswer).spdk ≠ 0 :=
        Nat.mul_ne_zero (by decide) (Nat.succ_ne_zero n)
      obtain ⟨w', hstep, hused'⟩ :=
        mmStep_malloc_used hw htwo (Nat.mod_self 4096) hans
      refine ⟨w', ?_, mmStep_lastFree hw hstep, by rw [hused', hused]⟩
      rw [mallocPages, List.range_succ, List.map_append, exec_append]
      show (exec mmStep .start (mallocPages n)).bind _ = _
      rw [hrun, Option.bind_some, List.map_singleton, exec_cons, hstep]
      rfl

/-- With all entries but one in use, the scan does not find that one. -/
theorem not_complete_mallocPages {n : Nat} (hn : n + 1 = maxIoPtrNum) :
    ¬ Always mmStep (fun w => w.mm.EntriesComplete) .start (mallocPages n) := by
  intro h
  obtain ⟨w, hrun, hw, hused⟩ := exec_mallocPages n (by omega)
  have htwo := hw.complete_iff.mp (h.last hrun)
  omega

/-- 4095 pages are allocated. -/
theorem entries_not_complete :
    ¬ Always mmStep (fun w => w.mm.EntriesComplete) .start (mallocPages 4095) :=
  not_complete_mallocPages rfl

end BlobTopFs
