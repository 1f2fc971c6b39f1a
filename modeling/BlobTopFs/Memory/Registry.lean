import BlobTopFs.Lib.Run
import BlobTopFs.SpdkFs.IoMm

/-!
# Which allocator owns a block

An application that allocates, reallocates and frees, followed beside the blocks that are live
in each of the two allocators. The tree tells them apart as long as it holds exactly the live
blocks of SPDK's, which `spdkfs_malloc` and `spdkfs_free` see to and `spdkfs_realloc` does not:
it leaves the tree as it is when SPDK has moved the block or has taken it back.
-/

namespace BlobTopFs

open Run

/-! ## Runs beside the live blocks -/

/-- The memory table, and the live blocks of each allocator. -/
structure MmWorld where
  mm : Mm
  live : Owner → Finset Addr

/-- After `spdkfs_mm_init`. -/
def MmWorld.start : MmWorld := ⟨spdkfsMmInit .zero, fun _ => ∅⟩

/-- What an allocator's `realloc` does: the block is at a new address, or is still where it was,
or NULL is returned and it is still there, or NULL is returned and it is gone, which is how
`spdk_realloc` answers the size 0. -/
inductive ReallocAnswer where
  | moved (ptr : Addr)
  | kept
  | failed
  | released

inductive MmCall where
  | malloc (ans : MallocAnswer) (size : Nat)
  | realloc (ans : ReallocAnswer) (ptr : Addr) (size : Nat)
  | free (ptr : Addr)

/-- A block is handed out; NULL is none. -/
def giveBlock (live : Owner → Finset Addr) (o : Owner) (ptr : Addr) : Owner → Finset Addr :=
  if ptr = 0 then live else Function.update live o (insert ptr (live o))

/-- A block is taken back. -/
def takeBlock (live : Owner → Finset Addr) (o : Owner) (ptr : Addr) : Owner → Finset Addr :=
  Function.update live o ((live o).erase ptr)

/-- What a realloc of `ptr` that allocator `o` has answered does to its blocks. -/
def reallocBlock (live : Owner → Finset Addr) (o : Owner) (ptr : Addr) :
    ReallocAnswer → Owner → Finset Addr
  | .moved a => giveBlock (takeBlock live o ptr) o a
  | .kept | .failed => live
  | .released => takeBlock live o ptr

/-- One call. An allocator that is handed a block of the other one is not followed further. -/
def mmStep (w : MmWorld) : MmCall → Option MmWorld
  | .malloc ans size =>
      (spdkfsMalloc ans size w.mm).map fun r => ⟨r.1, giveBlock w.live r.2.1 r.2.2⟩
  | .realloc ans ptr _ =>
      let r := spdkfsRealloc ptr w.mm
      if ptr ≠ 0 ∧ ptr ∉ w.live r.2 then none
      else some ⟨r.1, reallocBlock w.live r.2 ptr ans⟩
  | .free ptr =>
      let r := spdkfsFree ptr w.mm
      if ptr ≠ 0 ∧ ptr ∉ w.live r.2 then none else some ⟨r.1, takeBlock w.live r.2 ptr⟩

/-- No live block is at the address. -/
def MmWorld.Fresh (w : MmWorld) (ptr : Addr) : Prop := ∀ o, ptr ∉ w.live o

/-- NULL, or a live block. -/
def MmWorld.Passes (w : MmWorld) (ptr : Addr) : Prop := ptr = 0 ∨ ∃ o, ptr ∈ w.live o

/-- The allocators hand out fresh blocks, the application passes blocks that are live, and the
blocks of SPDK fit the table. -/
def MmCall.Legal (w : MmWorld) : MmCall → Prop
  | .malloc ans _ => (ans.spdk ≠ 0 → w.Fresh ans.spdk) ∧ (ans.usr ≠ 0 → w.Fresh ans.usr) ∧
      (w.live .spdk).card < maxIoPtrNum - 1
  | .realloc ans ptr _ => w.Passes ptr ∧ ∀ a, ans = .moved a → a ≠ 0 ∧ w.Fresh a
  | .free ptr => w.Passes ptr

/-- The tree holds SPDK's live blocks and no others, each with an entry of its own. -/
structure MmWorld.Registered (w : MmWorld) : Prop where
  found : ∀ a, spdkfsMmFind w.mm a = true ↔ a ∈ w.live .spdk
  entry : ∀ a ∈ w.live .spdk, ∃ ent < maxIoPtrNum,
    w.mm.spdkMemRoot a = ent + spdkMmEntOffset ∧ w.mm.mmTable ent = ⟨a, true⟩

/-- The allocator that is handed the block owns it. -/
def MmCall.Handed (w : MmWorld) : MmCall → Prop
  | .realloc _ ptr _ => ptr ≠ 0 → ptr ∈ w.live (spdkfsRealloc ptr w.mm).2
  | .free ptr => ptr ≠ 0 → ptr ∈ w.live (spdkfsFree ptr w.mm).2
  | .malloc .. => True

/-- If the call reallocates a block in the tree, SPDK leaves it where it is. -/
def MmCall.InPlace (w : MmWorld) : MmCall → Prop
  | .realloc ans ptr _ => spdkfsMmFind w.mm ptr = true → ans = .kept ∨ ans = .failed
  | _ => True

/-! ## The live blocks after a call -/

section Blocks

variable {live : Owner → Finset Addr} {o o' : Owner} {ptr a : Addr}

theorem mem_giveBlock (h : ptr ≠ 0) :
    a ∈ giveBlock live o ptr o' ↔ (a = ptr ∧ o' = o) ∨ a ∈ live o' := by
  rw [giveBlock, if_neg h]
  by_cases ho : o' = o
  · subst ho
    simp
  · simp [ho]

theorem mem_takeBlock : a ∈ takeBlock live o ptr o' ↔ a ∈ live o' ∧ ¬ (a = ptr ∧ o' = o) := by
  unfold takeBlock
  by_cases ho : o' = o
  · subst ho
    simp [and_comm]
  · simp [ho]

theorem giveBlock_other (h : o' ≠ o) : giveBlock live o ptr o' = live o' := by
  unfold giveBlock
  split
  · rfl
  · exact Function.update_of_ne h ..

theorem takeBlock_other (h : o' ≠ o) : takeBlock live o ptr o' = live o' :=
  Function.update_of_ne h ..

end Blocks

/-! ## The invariant -/

/-- Besides, no block is live in both allocators or at NULL, and an entry in use is that of a
live block. -/
structure MmWorld.Inv (w : MmWorld) : Prop extends w.Registered where
  apart : ∀ a ∈ w.live .spdk, a ∉ w.live .usr
  nonnull : ∀ o, 0 ∉ w.live o
  count : w.mm.mmTableCount = 0
  used : ∀ ent, (w.mm.mmTable ent).used = true → (w.mm.mmTable ent).ptr ∈ w.live .spdk ∧
    w.mm.spdkMemRoot (w.mm.mmTable ent).ptr = ent + spdkMmEntOffset

theorem MmWorld.start_inv : MmWorld.start.Inv where
  found := fun a => by simp [MmWorld.start, spdkfsMmInit, Mm.zero, spdkfsMmFind]
  entry := fun a ha => by simp [MmWorld.start] at ha
  apart := fun a ha => by simp [MmWorld.start] at ha
  nonnull := fun o => by simp [MmWorld.start]
  count := rfl
  used := fun ent h => by cases h

section Step

variable {w : MmWorld} {ptr : Addr}

/-- While the blocks fit the table, some entry the scan looks at is unused: those in use have
different blocks. -/
theorem MmWorld.Inv.exists_unused (hw : w.Inv) (hcard : (w.live .spdk).card < maxIoPtrNum - 1) :
    ∃ ent < maxIoPtrNum - 1, (w.mm.mmTable ent).used = false := by
  by_contra hno
  have hall : ∀ ent ∈ Finset.range (maxIoPtrNum - 1), (w.mm.mmTable ent).used = true := by
    intro ent hent
    by_contra hf
    exact hno ⟨ent, Finset.mem_range.mp hent, by simpa using hf⟩
  have hle := Finset.card_le_card_of_injOn (fun ent => (w.mm.mmTable ent).ptr)
    (fun ent hent => (hw.used ent (hall ent hent)).1) (by
      intro ent hent ent' hent' heq
      have h := (hw.used ent (hall ent hent)).2
      have h' := (hw.used ent' (hall ent' hent')).2
      simp only at heq
      rw [heq] at h
      omega)
  rw [Finset.card_range] at hle
  omega

theorem MmWorld.Inv.root_eq_zero (hw : w.Inv) (h : ptr ∉ w.live .spdk) :
    w.mm.spdkMemRoot ptr = 0 := by
  by_contra hne
  exact h ((hw.found ptr).mp (spdkfsMmFind_iff.mpr hne))

/-- The allocator a block is handed to owns it. -/
theorem MmWorld.Inv.mem_owner (hw : w.Inv) (hptr : w.Passes ptr) (h0 : ptr ≠ 0) :
    ptr ∈ w.live (w.mm.owner ptr) := by
  obtain ⟨o, ho⟩ := hptr.resolve_left h0
  unfold Mm.owner
  split
  · next hfind => exact (hw.found ptr).mp hfind
  · next hfind =>
      cases o with
      | spdk => exact absurd ((hw.found ptr).mpr ho) hfind
      | usr => exact ho

/-- Blocks of the application's allocator come and go. -/
theorem MmWorld.Inv.sameSpdk (hw : w.Inv) {live : Owner → Finset Addr}
    (hspdk : live .spdk = w.live .spdk) (hapart : ∀ a ∈ w.live .spdk, a ∉ live .usr)
    (hnull : 0 ∉ live .usr) : MmWorld.Inv ⟨w.mm, live⟩ where
  found := by simpa only [hspdk] using hw.found
  entry := by simpa only [hspdk] using hw.entry
  apart := by simpa only [hspdk] using hapart
  nonnull := by
    intro o
    cases o with
    | spdk => simpa only [hspdk] using hw.nonnull .spdk
    | usr => exact hnull
  count := hw.count
  used := by simpa only [hspdk] using hw.used

theorem MmWorld.Inv.giveUsr (hw : w.Inv) (h : ptr ≠ 0 → w.Fresh ptr) :
    MmWorld.Inv ⟨w.mm, giveBlock w.live .usr ptr⟩ := by
  by_cases h0 : ptr = 0
  · rwa [giveBlock, if_pos h0]
  · refine hw.sameSpdk (giveBlock_other (by decide)) ?_ ?_
    · intro a ha hmem
      rcases (mem_giveBlock h0).mp hmem with ⟨rfl, -⟩ | hmem
      · exact h h0 .spdk ha
      · exact hw.apart a ha hmem
    · intro hmem
      rcases (mem_giveBlock h0).mp hmem with ⟨heq, -⟩ | hmem
      · exact h0 heq.symm
      · exact hw.nonnull .usr hmem

theorem MmWorld.Inv.takeUsr (hw : w.Inv) (ptr : Addr) :
    MmWorld.Inv ⟨w.mm, takeBlock w.live .usr ptr⟩ := by
  refine hw.sameSpdk (takeBlock_other (by decide)) ?_ ?_
  · exact fun a ha hmem => hw.apart a ha (mem_takeBlock.mp hmem).1
  · exact fun hmem => hw.nonnull .usr (mem_takeBlock.mp hmem).1

/-- A new block of SPDK's, entered where no block was. -/
theorem MmWorld.Inv.register (hw : w.Inv) (h0 : ptr ≠ 0) (h : w.Fresh ptr) {ent : Nat}
    (hent : ent < maxIoPtrNum) (hfree : (w.mm.mmTable ent).used = false) :
    MmWorld.Inv ⟨w.mm.register ent ptr, giveBlock w.live .spdk ptr⟩ := by
  have hroot := Mm.register_root (hw.root_eq_zero (h .spdk)) ent
  have husr : giveBlock w.live .spdk ptr .usr = w.live .usr := giveBlock_other (by decide)
  have htable : ∀ e, (w.mm.register ent ptr).mmTable e =
      if e = ent then ⟨ptr, true⟩ else w.mm.mmTable e := Function.update_apply _ _ _
  refine ⟨⟨?_, ?_⟩, ?_, ?_, hw.count, ?_⟩
  · intro a
    rw [spdkfsMmFind_iff, hroot, mem_giveBlock h0]
    by_cases ha : a = ptr
    · simp [ha, spdkMmEntOffset]
    · simp [ha, ← hw.found a, spdkfsMmFind_iff]
  · intro a ha
    rcases (mem_giveBlock h0).mp ha with ⟨rfl, -⟩ | ha
    · exact ⟨ent, hent, by rw [hroot, if_pos rfl], by rw [htable, if_pos rfl]⟩
    · obtain ⟨e, he, hre, hte⟩ := hw.entry a ha
      have hne : a ≠ ptr := fun heq => h .spdk (heq ▸ ha)
      -- the entry that was chosen was no block's
      have hne' : e ≠ ent := by
        rintro rfl
        rw [hte] at hfree
        cases hfree
      exact ⟨e, he, by rw [hroot, if_neg hne, hre], by rw [htable, if_neg hne', hte]⟩
  · intro a ha
    show a ∉ giveBlock w.live .spdk ptr .usr
    rw [husr]
    rcases (mem_giveBlock h0).mp ha with ⟨rfl, -⟩ | ha
    · exact h .usr
    · exact hw.apart a ha
  · intro o hmem
    rcases (mem_giveBlock h0).mp hmem with ⟨heq, -⟩ | hmem
    · exact h0 heq.symm
    · exact hw.nonnull o hmem
  · intro e he
    rw [htable] at he ⊢
    by_cases hee : e = ent
    · rw [if_pos hee, hee, hroot, if_pos rfl]
      exact ⟨(mem_giveBlock h0).mpr (Or.inl ⟨rfl, rfl⟩), rfl⟩
    · rw [if_neg hee] at he ⊢
      obtain ⟨hmem, hre⟩ := hw.used e he
      have hne : (w.mm.mmTable e).ptr ≠ ptr := fun heq => h .spdk (heq ▸ hmem)
      exact ⟨(mem_giveBlock h0).mpr (Or.inr hmem), by rw [hroot, if_neg hne, hre]⟩

/-- SPDK's takes one back, which leaves the tree. -/
theorem MmWorld.Inv.unregister (hw : w.Inv) (h : ptr ∈ w.live .spdk) :
    MmWorld.Inv ⟨w.mm.unregister ptr, takeBlock w.live .spdk ptr⟩ := by
  obtain ⟨ent, -, hre, hte⟩ := hw.entry ptr h
  have hroot := Mm.unregister_root w.mm ptr
  have htable : ∀ e, (w.mm.unregister ptr).mmTable e =
      if e = ent then ⟨ptr, false⟩ else w.mm.mmTable e := by
    intro e
    rw [Mm.unregister_table hre, Function.update_apply, hte]
  have husr : takeBlock w.live .spdk ptr .usr = w.live .usr := takeBlock_other (by decide)
  have hmem : ∀ {a}, a ∈ takeBlock w.live .spdk ptr .spdk ↔ a ∈ w.live .spdk ∧ a ≠ ptr := by
    intro a
    rw [mem_takeBlock]
    simp
  refine ⟨⟨?_, ?_⟩, ?_, fun o hmem => hw.nonnull o (mem_takeBlock.mp hmem).1, hw.count, ?_⟩
  · intro a
    rw [spdkfsMmFind_iff, hroot, hmem, ← hw.found a, spdkfsMmFind_iff]
    by_cases ha : a = ptr
    · simp [ha]
    · simp [ha]
  · intro a ha
    obtain ⟨ha, hne⟩ := hmem.mp ha
    obtain ⟨e, he, hre', hte'⟩ := hw.entry a ha
    -- two blocks have two entries, as an entry has one address
    have hee : e ≠ ent := by
      rintro rfl
      rw [hte] at hte'
      exact hne (congrArg MmEntry.ptr hte').symm
    exact ⟨e, he, by rw [hroot, if_neg hne, hre'], by rw [htable, if_neg hee, hte']⟩
  · intro a ha
    show a ∉ takeBlock w.live .spdk ptr .usr
    rw [husr]
    exact hw.apart a (hmem.mp ha).1
  · intro e he
    rw [htable] at he ⊢
    by_cases hee : e = ent
    · rw [if_pos hee] at he
      cases he
    · rw [if_neg hee] at he ⊢
      obtain ⟨hlive, hre'⟩ := hw.used e he
      have hne : (w.mm.mmTable e).ptr ≠ ptr := by
        intro heq
        rw [heq, hre] at hre'
        omega
      exact ⟨hmem.mpr ⟨hlive, hne⟩, by rw [hroot, if_neg hne, hre']⟩

theorem mmStep_realloc (ans : ReallocAnswer) (size : Nat)
    (h : ptr ≠ 0 → ptr ∈ w.live (w.mm.owner ptr)) :
    mmStep w (.realloc ans ptr size) = some ⟨w.mm, reallocBlock w.live (w.mm.owner ptr) ptr ans⟩ :=
  if_neg fun hno => hno.2 (h hno.1)

theorem mmStep_free (h : ptr ≠ 0 → ptr ∈ w.live (spdkfsFree ptr w.mm).2) :
    mmStep w (.free ptr) =
      some ⟨(spdkfsFree ptr w.mm).1, takeBlock w.live (spdkfsFree ptr w.mm).2 ptr⟩ :=
  if_neg fun hno => hno.2 (h hno.1)

theorem mmStep_inv {w' : MmWorld} {call : MmCall} (hw : w.Inv) (hlegal : call.Legal w)
    (hplace : call.InPlace w) (h : mmStep w call = some w') : w'.Inv := by
  cases call with
  | malloc ans size =>
      obtain ⟨⟨m, o, a⟩, hr, rfl⟩ := Option.map_eq_some_iff.mp h
      obtain ⟨hspdk, husr, hcard⟩ := hlegal
      rcases spdkfsMalloc_cases hr with
        ⟨-, rfl, rfl, rfl⟩ | ⟨-, h0, ent, hent, rfl, rfl, rfl⟩
      · exact hw.giveUsr husr
      · obtain ⟨j, hj, hfree⟩ := hw.exists_unused hcard
        obtain ⟨k, hk, hkfree, hfind⟩ := findNextEntry_spec hw.count hj hfree
        cases hfind.symm.trans hent
        exact hw.register h0 (hspdk h0) (by omega) hkfree
  | realloc ans ptr size =>
      obtain ⟨hptr, hans⟩ := hlegal
      rw [mmStep_realloc ans size (hw.mem_owner hptr)] at h
      cases h
      cases hown : w.mm.owner ptr with
      | spdk =>
          -- the block is in the tree, so SPDK has left it where it was
          have hfind : spdkfsMmFind w.mm ptr = true := by
            unfold Mm.owner at hown
            split at hown
            · assumption
            · cases hown
          rcases hplace hfind with rfl | rfl
          · exact hw
          · exact hw
      | usr =>
          cases ans with
          | moved a =>
              obtain ⟨-, hfresh⟩ := hans a rfl
              refine (hw.takeUsr ptr).giveUsr fun _ o hmem => ?_
              exact hfresh o (mem_takeBlock.mp hmem).1
          | kept => exact hw
          | failed => exact hw
          | released => exact hw.takeUsr ptr
  | free ptr =>
      rw [mmStep_free (spdkfsFree_owner ptr w.mm ▸ hw.mem_owner hlegal)] at h
      cases h
      unfold spdkfsFree
      split
      · next hfind => exact hw.unregister ((hw.found ptr).mp hfind)
      · exact hw.takeUsr ptr

theorem handed_of_inv {call : MmCall} (hw : w.Inv) (hlegal : call.Legal w) : call.Handed w := by
  cases call with
  | malloc ans size => trivial
  | realloc ans ptr size => exact hw.mem_owner hlegal.1
  | free ptr =>
      intro h0
      rw [spdkfsFree_owner]
      exact hw.mem_owner hlegal h0

/-- A registered block that SPDK moves is lost, and one it takes back stays registered. -/
theorem inPlace_of_registered {call : MmCall} (hw : w.Inv) (hlegal : call.Legal w)
    (h : ∀ w', mmStep w call = some w' → w'.Registered) : call.InPlace w := by
  cases call with
  | malloc ans size => trivial
  | free ptr => trivial
  | realloc ans ptr size =>
      intro hfind
      have hmem := (hw.found ptr).mp hfind
      have hown : w.mm.owner ptr = .spdk := if_pos hfind
      have hstep := mmStep_realloc (w := w) ans size (fun _ => hown ▸ hmem)
      rw [hown] at hstep
      have hreg := h _ hstep
      cases ans with
      | kept => exact Or.inl rfl
      | failed => exact Or.inr rfl
      | moved a =>
          obtain ⟨h0, hfresh⟩ := hlegal.2 a rfl
          have hlive : a ∈ reallocBlock w.live .spdk ptr (.moved a) .spdk :=
            (mem_giveBlock h0).mpr (Or.inl ⟨rfl, rfl⟩)
          exact absurd ((hw.found a).mp ((hreg.found a).mpr hlive)) (hfresh .spdk)
      | released =>
          exact absurd ⟨rfl, rfl⟩ (mem_takeBlock.mp ((hreg.found ptr).mp hfind)).2

end Step

/-- **The registry.** In a run of allocations, reallocations and frees the tree holds at every
point exactly the live blocks of SPDK's allocator, each with an entry of its own, and every
block is handed to the allocator that owns it, exactly when SPDK leaves every registered block
that is reallocated where it is. -/
theorem registry_exact_iff {calls : List MmCall}
    (hlegal : EachStep mmStep (fun w call => call.Legal w) .start calls) :
    Always mmStep MmWorld.Registered .start calls ∧
        EachStep mmStep (fun w call => call.Handed w) .start calls ↔
      EachStep mmStep (fun w call => call.InPlace w) .start calls := by
  have hiff := always_iff_eachStep (I := MmWorld.Inv) (fun w hw => hw.toRegistered)
    (fun w call w' hw hL hC h => mmStep_inv hw hL hC h)
    (fun w call hw hL h => inPlace_of_registered hw hL h) MmWorld.start_inv hlegal
  rw [← hiff]
  refine and_iff_left_of_imp fun hreg => ?_
  exact eachStep_of_step (fun w call w' hw hC h => mmStep_inv hw hC.1 hC.2 h)
    (fun w call hw hC => handed_of_inv hw hC.1) MmWorld.start_inv (hlegal.and (hiff.mp hreg))

/-- A block of one page is allocated and freed. -/
theorem registry_exact_page :
    Always mmStep MmWorld.Registered .start [.malloc ⟨0x1000, 0⟩ 4096, .free 0x1000] := by
  have hcard : 0 < maxIoPtrNum - 1 := by decide
  have hfresh : MmWorld.start.Fresh 0x1000 := fun _ h => nomatch h
  refine ((registry_exact_iff ?_).mpr ?_).1
  · refine EachStep.cons rfl ⟨fun _ => hfresh, fun h => absurd rfl h, hcard⟩ ?_
    exact EachStep.cons rfl (Or.inr ⟨.spdk, by decide⟩) trivial
  · exact EachStep.cons rfl trivial (EachStep.cons rfl trivial trivial)

/-- The block is grown, which moves it. The tree does not know it any more, and when it is freed
the application's allocator gets it. -/
theorem registry_loses_moved :
    EachStep mmStep (fun w call => call.Legal w) .start
        [.malloc ⟨0x1000, 0⟩ 4096, .realloc (.moved 0x2000) 0x1000 8192, .free 0x2000] ∧
      ¬ Always mmStep MmWorld.Registered .start
        [.malloc ⟨0x1000, 0⟩ 4096, .realloc (.moved 0x2000) 0x1000 8192, .free 0x2000] ∧
      ¬ EachStep mmStep (fun w call => call.Handed w) .start
        [.malloc ⟨0x1000, 0⟩ 4096, .realloc (.moved 0x2000) 0x1000 8192, .free 0x2000] := by
  have hcard : 0 < maxIoPtrNum - 1 := by decide
  have hfresh : MmWorld.start.Fresh 0x1000 := fun _ h => nomatch h
  refine ⟨?_, ?_, ?_⟩
  · refine EachStep.cons rfl ⟨fun _ => hfresh, fun h => absurd rfl h, hcard⟩ ?_
    refine EachStep.cons rfl ⟨Or.inr ⟨.spdk, by decide⟩, fun a ha => ?_⟩ ?_
    · cases ha
      exact ⟨by decide, fun o => by cases o <;> decide⟩
    · exact ⟨Or.inr ⟨.spdk, by decide⟩, fun _ _ => trivial⟩
  · rintro ⟨-, h⟩
    have hmoved := ((h _ rfl).2 _ rfl).head
    exact absurd ((hmoved.found 0x2000).mpr (by decide)) (by decide)
  · rintro ⟨-, h⟩
    have hfree := ((h _ rfl).2 _ rfl).1
    exact absurd (hfree (by decide)) (by decide)

end BlobTopFs
