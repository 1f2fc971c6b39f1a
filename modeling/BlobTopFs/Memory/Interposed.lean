import BlobTopFs.Memory.RadixRuns
import BlobTopFs.Memory.Registry
import BlobTopFs.SpdkFs.MmTree

/-!
# The interposed allocator, on the tree itself

An application from the start of the process on: it allocates, reallocates and frees through the
three functions of `interface.c`, before and after the memory table is set up. Every block that is
live when `spdkfs_mm_init` runs is the C library's, so an empty tree is right; from then on the
tree and the table do what `Mm` does, and the invariant of the registry carries over.
-/

namespace BlobTopFs.Radix

open Machine Run

/-! ## Runs from the start of the process -/

/-- The memory table with its tree, and the live blocks of each allocator. -/
structure HeapWorld where
  mm : MmTree
  live : Owner → Finset Addr

def HeapWorld.start : HeapWorld := ⟨.zero, fun _ => ∅⟩

/-- `load_simple_spdk_fs` sets the table up, and the application calls the three functions; the
tree takes its nodes from `calloc`. -/
inductive HeapCall where
  | mmInit
  | app (calloc : Calloc) (call : MmCall)

/-- One call. An allocator that is handed a block of the other one is not followed further. -/
def heapStep (w : HeapWorld) : HeapCall → Option HeapWorld
  | .mmInit => some ⟨spdkfsMmInit w.mm, w.live⟩
  | .app calloc (.malloc ans size) =>
      (spdkMalloc calloc ans size w.mm).map fun r => ⟨r.1, giveBlock w.live r.2.1 r.2.2⟩
  | .app _ (.realloc ans ptr _) =>
      (spdkRealloc ptr w.mm).bind fun r =>
        if ptr ≠ 0 ∧ ptr ∉ w.live r.2 then none
        else some ⟨r.1, reallocBlock w.live r.2 ptr ans⟩
  | .app _ (.free ptr) =>
      (spdkFree ptr w.mm).bind fun r =>
        if ptr ≠ 0 ∧ ptr ∉ w.live r.2 then none else some ⟨r.1, takeBlock w.live r.2 ptr⟩

/-- The table with what the tree holds. -/
def MmTree.toMm (m : MmTree) : Mm := ⟨m.initialized, m.tree.item, m.mmTable, m.mmTableCount⟩

def HeapWorld.toMmWorld (w : HeapWorld) : MmWorld := ⟨w.mm.toMm, w.live⟩

/-- The addresses an allocator answers with are those of a 64-bit machine. -/
def addressed : MmCall → Prop
  | .malloc ans _ => ans.spdk < 2 ^ 64 ∧ ans.usr < 2 ^ 64
  | .realloc ans _ _ => ∀ a, ans = .moved a → a < 2 ^ 64
  | .free _ => True

/-- As in a run on the table alone; besides, `calloc` has memory for the nodes. -/
def HeapCall.Legal (w : HeapWorld) : HeapCall → Prop
  | .mmInit => True
  | .app calloc call => calloc.Succeeds ∧ call.Legal w.toMmWorld ∧ addressed call

/-- The tree finds SPDK's live blocks and no others, each with an entry of its own. -/
structure HeapWorld.Registered (w : HeapWorld) : Prop where
  found : ∀ a < 2 ^ 64, spdkfsMmFind w.mm a = some true ↔ a ∈ w.live .spdk
  entry : ∀ a ∈ w.live .spdk, ∃ ent < maxIoPtrNum,
    radixTreeLookup w.mm.tree a = some (ent + spdkMmEntOffset) ∧ w.mm.mmTable ent = ⟨a, true⟩

/-- The call comes back, and the allocator that is handed the block owns it. -/
def HeapCall.Handed (w : HeapWorld) : HeapCall → Prop
  | .app _ (.realloc _ ptr _) =>
      ∃ r, spdkRealloc ptr w.mm = some r ∧ (ptr ≠ 0 → ptr ∈ w.live r.2)
  | .app _ (.free ptr) => ∃ r, spdkFree ptr w.mm = some r ∧ (ptr ≠ 0 → ptr ∈ w.live r.2)
  | _ => True

/-- If the call reallocates a block in the tree, SPDK leaves it where it is. -/
def HeapCall.InPlace (w : HeapWorld) : HeapCall → Prop
  | .app _ (.realloc ans ptr _) =>
      spdkfsMmFind w.mm ptr = some true → ans = .kept ∨ ans = .failed
  | _ => True

/-! ## The invariant -/

/-- The tree represents what the table takes it for, and before it is set up it is empty. -/
structure HeapWorld.Inv (w : HeapWorld) : Prop where
  before : w.mm.initialized = false → w.mm.tree = .zero ∧ w.live .spdk = ∅
  after : w.mm.initialized = true → w.mm.tree.Represents w.mm.tree.item
  bound : ∀ o, ∀ a ∈ w.live o, a < 2 ^ 64
  registry : w.toMmWorld.Inv

section Step

variable {w w' : HeapWorld} {calloc : Calloc} {call : MmCall} {ans : MallocAnswer}
  {ptr a : Addr} {size : Nat}

/-- The registry does not look at `initialized`. -/
theorem inv_congr {w w' : MmWorld} (hw : w.Inv) (hroot : w'.mm.spdkMemRoot = w.mm.spdkMemRoot)
    (htable : w'.mm.mmTable = w.mm.mmTable) (hcount : w'.mm.mmTableCount = w.mm.mmTableCount)
    (hlive : w'.live = w.live) : w'.Inv where
  found := by simpa only [BlobTopFs.spdkfsMmFind, hroot, hlive] using hw.found
  entry := by simpa only [hroot, htable, hlive] using hw.entry
  apart := by simpa only [hlive] using hw.apart
  nonnull := by simpa only [hlive] using hw.nonnull
  count := by rw [hcount, hw.count]
  used := by simpa only [hroot, htable, hlive] using hw.used

theorem lookup_zero (k : Nat) : radixTreeLookup .zero k = some 0 := by
  have hmax : radixTreeMaxindex .zero RadixMem.zero.root.height = some 0 := rfl
  rw [radixTreeLookup, hmax, Option.bind_some]
  split
  · rfl
  · rfl

theorem HeapWorld.Inv.lookup (hw : w.Inv) (ha : a < 2 ^ 64) :
    radixTreeLookup w.mm.tree a = some (w.mm.tree.item a) := by
  cases hinit : w.mm.initialized with
  | true => exact (hw.after hinit).lookup ha
  | false =>
      rw [(hw.before hinit).1, lookup_zero]
      exact congrArg some (RadixMem.item_of_empty rfl a).symm

theorem HeapWorld.Inv.find (hw : w.Inv) (ha : a < 2 ^ 64) :
    spdkfsMmFind w.mm a = some (BlobTopFs.spdkfsMmFind w.mm.toMm a) := by
  rw [spdkfsMmFind, hw.lookup ha]
  rfl

theorem HeapWorld.Inv.passes_lt (hw : w.Inv) (h : w.toMmWorld.Passes ptr) : ptr < 2 ^ 64 := by
  rcases h with rfl | ⟨o, ho⟩
  · decide
  · exact hw.bound o ptr ho

theorem HeapWorld.start_inv : HeapWorld.start.Inv where
  before := fun _ => ⟨rfl, rfl⟩
  after := fun h => by cases h
  bound := fun o a ha => by simp [HeapWorld.start] at ha
  registry := by
    refine inv_congr MmWorld.start_inv (funext fun k => ?_) rfl rfl rfl
    exact RadixMem.item_of_empty rfl k

/-- Before the table is set up nothing is in it. -/
theorem HeapWorld.Inv.mmInit (hw : w.Inv) : HeapWorld.Inv ⟨spdkfsMmInit w.mm, w.live⟩ := by
  unfold spdkfsMmInit
  split
  · exact hw
  · next hinit =>
      obtain ⟨htree, -⟩ := hw.before (by simpa using hinit)
      refine ⟨fun h => Bool.noConfusion h, fun _ => ?_, hw.bound, ?_⟩
      · show (radixTreeInit w.mm.tree).Represents (radixTreeInit w.mm.tree).item
        rw [htree]
        exact ⟨RadixMem.represents_init.tree, fun _ => rfl, fun k _ => RadixMem.item_of_empty rfl k⟩
      · exact inv_congr hw.registry rfl rfl rfl rfl

/-- The live blocks stay addresses. -/
theorem mem_giveBlock_lt {live : Owner → Finset Addr} (h : ∀ o, ∀ a ∈ live o, a < 2 ^ 64)
    {o : Owner} (hptr : ptr < 2 ^ 64) : ∀ o', ∀ a ∈ giveBlock live o ptr o', a < 2 ^ 64 := by
  intro o' a ha
  by_cases h0 : ptr = 0
  · rw [giveBlock, if_pos h0] at ha
    exact h o' a ha
  · rcases (mem_giveBlock h0).mp ha with ⟨rfl, -⟩ | ha
    · exact hptr
    · exact h o' a ha

theorem mem_takeBlock_lt {live : Owner → Finset Addr} (h : ∀ o, ∀ a ∈ live o, a < 2 ^ 64)
    {o : Owner} : ∀ o', ∀ a ∈ takeBlock live o ptr o', a < 2 ^ 64 :=
  fun o' a ha => h o' a (mem_takeBlock.mp ha).1

theorem mem_reallocBlock_lt {live : Owner → Finset Addr} (h : ∀ o, ∀ a ∈ live o, a < 2 ^ 64)
    {o : Owner} {ans : ReallocAnswer} (hans : ∀ a, ans = .moved a → a < 2 ^ 64) :
    ∀ o', ∀ a ∈ reallocBlock live o ptr ans o', a < 2 ^ 64 := by
  cases ans with
  | moved a => exact mem_giveBlock_lt (mem_takeBlock_lt h) (hans a rfl)
  | kept => exact h
  | failed => exact h
  | released => exact mem_takeBlock_lt h

/-! ## One call -/

/-- What relates the two levels: the table with what the tree holds. -/
def Abstracts (w : HeapWorld) (a : MmWorld) : Prop :=
  w.toMmWorld = a ∧ w.mm.initialized = true ∧ w.mm.tree.Represents w.mm.tree.item ∧
    ∀ o, ∀ a ∈ w.live o, a < 2 ^ 64

/-- Once the table is set up, a call does on the tree what it does on the finite map. -/
theorem heapStep_abstracts (hw : w.Inv) (hinit : w.mm.initialized = true)
    (hL : (HeapCall.app calloc call).Legal w) :
    Option.Rel Abstracts (heapStep w (.app calloc call)) (mmStep w.toMmWorld call) := by
  obtain ⟨hcalloc, hlegal, haddr⟩ := hL
  have hrep := hw.after hinit
  cases call with
  | malloc ans size =>
      rw [heapStep, mmStep, spdkMalloc, hinit, Bool.not_true, if_neg Bool.false_ne_true,
        spdkfsMalloc, BlobTopFs.spdkfsMalloc]
      by_cases hsize : size % 4096 ≠ 0
      · rw [if_pos hsize, if_pos hsize]
        by_cases husr : ans.usr = 0
        · rw [if_pos husr, if_pos husr]
          exact .none
        · rw [if_neg husr, if_neg husr]
          exact .some ⟨rfl, hinit, hrep, mem_giveBlock_lt hw.bound haddr.2⟩
      · rw [if_neg hsize, if_neg hsize]
        by_cases hspdk : ans.spdk = 0
        · rw [if_pos hspdk, if_pos hspdk]
          exact .some ⟨rfl, hinit, hrep, mem_giveBlock_lt hw.bound haddr.2⟩
        · rw [if_neg hspdk, if_neg hspdk]
          have hfind : findNextEntry w.mm = BlobTopFs.findNextEntry w.toMmWorld.mm := rfl
          rw [hfind]
          cases BlobTopFs.findNextEntry w.toMmWorld.mm with
          | none => exact .none
          | some nextEnt =>
              cases nextEnt with
              | none => exact .none
              | some ent =>
                  have hne : ent + spdkMmEntOffset ≠ 0 := Nat.succ_ne_zero _
                  obtain ⟨m', hrun, hm'⟩ := hrep.insert hcalloc haddr.1 hne
                  rw [Option.bind_some, Option.bind_some, hrun]
                  refine .some ⟨?_, hinit, ?_, mem_giveBlock_lt hw.bound haddr.1⟩
                  · have hitem : m'.item = _ := funext hm'.item
                    simp only [HeapWorld.toMmWorld, MmTree.toMm, hitem]
                    rfl
                  · exact ⟨hm'.tree, fun _ => rfl, fun k hk => (hm'.item k).trans (hm'.bound k hk)⟩
  | realloc ans ptr size =>
      have hptr := hw.passes_lt hlegal.1
      rw [heapStep, mmStep, spdkRealloc, hinit, Bool.not_true, if_neg Bool.false_ne_true,
        spdkfsRealloc, hw.find hptr, Option.map_some, Option.bind_some]
      show Option.Rel _ (if ptr ≠ 0 ∧ ptr ∉ w.live (w.mm.toMm.owner ptr) then none else _)
        (if ptr ≠ 0 ∧ ptr ∉ w.live (w.mm.toMm.owner ptr) then none else _)
      split
      · exact .none
      · exact .some ⟨rfl, hinit, hrep, mem_reallocBlock_lt hw.bound haddr⟩
  | free ptr =>
      have hptr := hw.passes_lt hlegal
      rw [heapStep, mmStep, spdkFree, hinit, Bool.not_true, if_neg Bool.false_ne_true,
        spdkfsFree, hw.find hptr, Option.bind_some, BlobTopFs.spdkfsFree]
      by_cases hfind : BlobTopFs.spdkfsMmFind w.mm.toMm ptr = true
      · obtain ⟨ent, hent, hroot, -⟩ := hw.registry.entry ptr ((hw.registry.found ptr).mp hfind)
        have hitem : w.mm.tree.item ptr = ent + spdkMmEntOffset := hroot
        have hs : s32 (w.mm.tree.item ptr) - spdkMmEntOffset = ent := by
          have hoff : spdkMmEntOffset = 996 := rfl
          have hmax : maxIoPtrNum = 4096 := rfl
          rw [hitem]
          unfold s32 u32
          omega
        obtain ⟨m', hrun, hm'⟩ := hrep.delete hptr
        have hfind' : BlobTopFs.spdkfsMmFind w.toMmWorld.mm ptr = true := hfind
        rw [if_pos hfind, if_pos hfind', hrun, Option.bind_some]
        simp only [hs, Int.toNat_natCast]
        rw [if_pos ⟨Int.natCast_nonneg ent, Int.ofNat_lt.mpr hent⟩, Option.bind_some]
        show Option.Rel _ (if ptr ≠ 0 ∧ ptr ∉ w.live .spdk then none else _)
          (if ptr ≠ 0 ∧ ptr ∉ w.live .spdk then none else _)
        split
        · exact .none
        · refine .some ⟨?_, hinit, ?_, mem_takeBlock_lt hw.bound⟩
          · have hitem' : m'.item = _ := funext hm'.item
            have htable := Mm.unregister_table hroot
            simp only [HeapWorld.toMmWorld, MmTree.toMm, hitem'] at htable ⊢
            simp only [Mm.unregister] at htable ⊢
            rw [htable]
            rfl
          · exact ⟨hm'.tree, fun _ => rfl, fun k hk => (hm'.item k).trans (hm'.bound k hk)⟩
      · have hfind' : ¬ BlobTopFs.spdkfsMmFind w.toMmWorld.mm ptr = true := hfind
        rw [if_neg hfind, if_neg hfind', Option.bind_some]
        show Option.Rel _ (if ptr ≠ 0 ∧ ptr ∉ w.live .usr then none else _)
          (if ptr ≠ 0 ∧ ptr ∉ w.live .usr then none else _)
        split
        · exact .none
        · exact .some ⟨rfl, hinit, hrep, mem_takeBlock_lt hw.bound⟩

/-- A call that has a next state is handed to the owner of the block. -/
theorem handed_of_step (h : heapStep w (.app calloc call) = some w') :
    (HeapCall.app calloc call).Handed w := by
  cases call with
  | malloc ans size => trivial
  | realloc ans ptr size =>
      obtain ⟨r, hr, hstep⟩ := Option.bind_eq_some_iff.mp h
      refine ⟨r, hr, fun h0 => ?_⟩
      by_contra hnot
      rw [if_pos ⟨h0, hnot⟩] at hstep
      cases hstep
  | free ptr =>
      obtain ⟨r, hr, hstep⟩ := Option.bind_eq_some_iff.mp h
      refine ⟨r, hr, fun h0 => ?_⟩
      by_contra hnot
      rw [if_pos ⟨h0, hnot⟩] at hstep
      cases hstep

/-- What a call does to the live blocks that is passed on to the C library. -/
def passedOn (live : Owner → Finset Addr) : MmCall → Owner → Finset Addr
  | .malloc ans _ => giveBlock live .usr ans.usr
  | .realloc ans ptr _ => reallocBlock live .usr ptr ans
  | .free ptr => takeBlock live .usr ptr

theorem passedOn_spdk (live : Owner → Finset Addr) (call : MmCall) :
    passedOn live call .spdk = live .spdk := by
  have hother : Owner.spdk ≠ Owner.usr := by decide
  cases call with
  | malloc ans size => exact giveBlock_other hother
  | free ptr => exact takeBlock_other hother
  | realloc ans ptr size =>
      cases ans with
      | moved a =>
          show giveBlock (takeBlock live .usr ptr) .usr a .spdk = live .spdk
          rw [giveBlock_other hother]
          exact takeBlock_other hother
      | kept => rfl
      | failed => rfl
      | released =>
          show takeBlock live .usr ptr .spdk = live .spdk
          exact takeBlock_other hother

theorem mem_passedOn_lt {live : Owner → Finset Addr} (h : ∀ o, ∀ a ∈ live o, a < 2 ^ 64)
    (haddr : addressed call) : ∀ o, ∀ a ∈ passedOn live call o, a < 2 ^ 64 := by
  cases call with
  | malloc ans size => exact mem_giveBlock_lt h haddr.2
  | realloc ans ptr size => exact mem_reallocBlock_lt h haddr
  | free ptr => exact mem_takeBlock_lt h

theorem inv_passedOn {w : MmWorld} (hw : w.Inv) (hlegal : call.Legal w) :
    MmWorld.Inv ⟨w.mm, passedOn w.live call⟩ := by
  cases call with
  | malloc ans size => exact hw.giveUsr hlegal.2.1
  | free ptr => exact hw.takeUsr ptr
  | realloc ans ptr size =>
      cases ans with
      | moved a =>
          refine (hw.takeUsr ptr).giveUsr fun _ o hmem => ?_
          exact (hlegal.2 a rfl).2 o (mem_takeBlock.mp hmem).1
      | kept => exact hw
      | failed => exact hw
      | released => exact hw.takeUsr ptr

/-- Before the table is set up every call is passed on. -/
theorem heapStep_before (hinit : w.mm.initialized = false) (hspdk : w.live .spdk = ∅)
    (hlegal : call.Legal w.toMmWorld) :
    heapStep w (.app calloc call) = some ⟨w.mm, passedOn w.live call⟩ := by
  have howned : ∀ {ptr}, w.toMmWorld.Passes ptr → ¬ (ptr ≠ 0 ∧ ptr ∉ w.live .usr) := by
    rintro ptr (rfl | ⟨o, ho⟩) ⟨h0, hnot⟩
    · exact h0 rfl
    · cases o with
      | spdk => exact absurd (hspdk ▸ ho) (Finset.notMem_empty ptr)
      | usr => exact hnot ho
  cases call with
  | malloc ans size =>
      rw [heapStep, spdkMalloc, hinit]
      rfl
  | realloc ans ptr size =>
      rw [heapStep, spdkRealloc, hinit]
      exact if_neg (howned hlegal.1)
  | free ptr =>
      rw [heapStep, spdkFree, hinit]
      exact if_neg (howned hlegal)

theorem HeapWorld.Inv.registered_iff (hlook : ∀ a < 2 ^ 64,
      radixTreeLookup w.mm.tree a = some (w.mm.tree.item a))
    (hbig : ∀ a, 2 ^ 64 ≤ a → w.mm.tree.item a = 0) (hbound : ∀ o, ∀ a ∈ w.live o, a < 2 ^ 64) :
    w.Registered ↔ w.toMmWorld.Registered := by
  have hfind : ∀ a < 2 ^ 64, (spdkfsMmFind w.mm a = some true ↔
      BlobTopFs.spdkfsMmFind w.mm.toMm a = true) := by
    intro a ha
    rw [spdkfsMmFind, hlook a ha, Option.map_some, Option.some.injEq]
    rfl
  constructor
  · rintro ⟨hfound, hentry⟩
    refine ⟨fun a => ?_, fun a ha => ?_⟩
    · by_cases ha : a < 2 ^ 64
      · exact (hfind a ha).symm.trans (hfound a ha)
      · refine iff_of_false (fun h => ?_) fun h => ha (hbound _ a h)
        exact spdkfsMmFind_iff.mp h (hbig a (not_lt.mp ha))
    · obtain ⟨ent, hent, hroot, htable⟩ := hentry a ha
      rw [hlook a (hbound _ a ha)] at hroot
      exact ⟨ent, hent, Option.some.inj hroot, htable⟩
  · rintro ⟨hfound, hentry⟩
    refine ⟨fun a ha => (hfind a ha).trans (hfound a), fun a ha => ?_⟩
    obtain ⟨ent, hent, hroot, htable⟩ := hentry a ha
    refine ⟨ent, hent, ?_, htable⟩
    rw [hlook a (hbound _ a ha)]
    exact congrArg some hroot

theorem HeapWorld.Inv.registered (hw : w.Inv) : w.Registered := by
  refine (HeapWorld.Inv.registered_iff (fun a ha => hw.lookup ha) (fun a ha => ?_) hw.bound).mpr
    hw.registry.toRegistered
  by_contra hne
  have hmem := (hw.registry.found a).mp (spdkfsMmFind_iff.mpr hne)
  exact absurd (hw.bound _ a hmem) (not_lt.mpr ha)

/-- A call that leaves registered blocks in place keeps the invariant. -/
theorem HeapWorld.Inv.step {c : HeapCall} (hw : w.Inv) (hL : c.Legal w) (hplace : c.InPlace w)
    (h : heapStep w c = some w') : w'.Inv := by
  cases c with
  | mmInit =>
      cases h
      exact hw.mmInit
  | app calloc call =>
      obtain ⟨hcalloc, hlegal, haddr⟩ := hL
      cases hinit : w.mm.initialized with
      | true =>
          have hrel := heapStep_abstracts hw hinit ⟨hcalloc, hlegal, haddr⟩
          rw [h] at hrel
          generalize ht : mmStep w.toMmWorld call = o at hrel
          cases hrel with
          | some hab =>
              obtain ⟨heq, hinit', hrep, hbound⟩ := hab
              have hplace' : call.InPlace w.toMmWorld := by
                cases call with
                | malloc ans size => trivial
                | free ptr => trivial
                | realloc ans ptr size =>
                    intro hfind
                    apply hplace
                    rw [hw.find (hw.passes_lt hlegal.1)]
                    exact congrArg some hfind
              refine ⟨fun h => ?_, fun _ => hrep, hbound,
                heq ▸ mmStep_inv hw.registry hlegal hplace' ht⟩
              rw [hinit'] at h
              cases h
      | false =>
          obtain ⟨htree, hspdk⟩ := hw.before hinit
          rw [heapStep_before hinit hspdk hlegal] at h
          cases h
          have hafter : w.mm.initialized = true → w.mm.tree.Represents w.mm.tree.item := by
            rw [hinit]
            exact fun h => Bool.noConfusion h
          exact ⟨fun _ => ⟨htree, (passedOn_spdk w.live call).trans hspdk⟩, hafter,
            mem_passedOn_lt hw.bound haddr, inv_passedOn hw.registry hlegal⟩

/-- Under the invariant every block is handed to its owner. -/
theorem HeapWorld.Inv.handed {c : HeapCall} (hw : w.Inv) (hL : c.Legal w) : c.Handed w := by
  cases c with
  | mmInit => trivial
  | app calloc call =>
      obtain ⟨hcalloc, hlegal, haddr⟩ := hL
      cases hinit : w.mm.initialized with
      | false => exact handed_of_step (heapStep_before hinit (hw.before hinit).2 hlegal)
      | true =>
          have hrel := heapStep_abstracts hw hinit ⟨hcalloc, hlegal, haddr⟩
          have hcome : ∀ t, mmStep w.toMmWorld call = some t →
              (HeapCall.app calloc call).Handed w := by
            intro t ht
            rw [ht] at hrel
            generalize hs : heapStep w (.app calloc call) = o at hrel
            cases hrel with
            | some hab => exact handed_of_step hs
          cases call with
          | malloc ans size => trivial
          | realloc ans ptr size =>
              exact hcome _ (mmStep_realloc ans size (hw.registry.mem_owner hlegal.1))
          | free ptr =>
              refine hcome _ (mmStep_free ?_)
              rw [spdkfsFree_owner]
              exact hw.registry.mem_owner hlegal

/-- A registered block that SPDK moves is lost, and one it takes back stays registered. -/
theorem HeapWorld.Inv.inPlace {c : HeapCall} (hw : w.Inv) (hL : c.Legal w)
    (h : ∀ w', heapStep w c = some w' → w'.Registered) : c.InPlace w := by
  cases c with
  | mmInit => trivial
  | app calloc call =>
      obtain ⟨hcalloc, hlegal, haddr⟩ := hL
      cases call with
      | malloc ans size => trivial
      | free ptr => trivial
      | realloc ans ptr size =>
          intro hfind
          rw [hw.find (hw.passes_lt hlegal.1)] at hfind
          have hfind := Option.some.inj hfind
          have hmem := (hw.registry.found ptr).mp hfind
          cases hinit : w.mm.initialized with
          | false => exact absurd ((hw.before hinit).2 ▸ hmem) (Finset.notMem_empty ptr)
          | true =>
              refine inPlace_of_registered hw.registry hlegal (fun t ht => ?_) hfind
              have hrel := heapStep_abstracts hw hinit ⟨hcalloc, hlegal, haddr⟩
              rw [ht] at hrel
              generalize hs : heapStep w (.app calloc (.realloc ans ptr size)) = o at hrel
              cases hrel with
              | some hab =>
                  obtain ⟨rfl, -, hrep, hbound⟩ := hab
                  exact (HeapWorld.Inv.registered_iff (fun a ha => hrep.lookup ha) hrep.bound
                    hbound).mp (h _ hs)

end Step

/-! ## Runs -/

/-- **The interposed allocator.** From the start of the process on, with `spdkfs_mm_init` called
at any point, the radix tree finds exactly SPDK's live blocks, and every reallocation and every
free comes back and is handed to the allocator that owns the block, exactly when SPDK leaves every
registered block that is reallocated where it is. -/
theorem interposed_exact_iff {calls : List HeapCall}
    (hlegal : EachStep heapStep (fun w c => c.Legal w) .start calls) :
    Always heapStep HeapWorld.Registered .start calls ∧
        EachStep heapStep (fun w c => c.Handed w) .start calls ↔
      EachStep heapStep (fun w c => c.InPlace w) .start calls := by
  have hiff := always_iff_eachStep (fun w (hw : HeapWorld.Inv w) => hw.registered)
    (fun w c w' hw hL hC h => hw.step hL hC h) (fun w c hw hL h => hw.inPlace hL h)
    HeapWorld.start_inv hlegal
  rw [← hiff]
  refine and_iff_left_of_imp fun hreg => ?_
  exact eachStep_of_step (fun w c w' hw hC h => hw.step hC.1 hC.2 h)
    (fun w c hw hC => hw.handed hC.1) HeapWorld.start_inv (hlegal.and (hiff.mp hreg))

/-- A run with a block of each allocator: the application's is from before the table was set up,
and SPDK's from after it. -/
noncomputable def twoBlocks : List HeapCall :=
  [.app .least (.malloc ⟨0, 0x500⟩ 100), .mmInit, .app .least (.malloc ⟨0x1000, 0⟩ 4096),
    .app .least (.free 0x500)]

theorem twoBlocks_legal : EachStep heapStep (fun w c => c.Legal w) .start twoBlocks := by
  have hcard : 0 < maxIoPtrNum - 1 := by decide
  have hmalloc : (MmCall.malloc ⟨0, 0x500⟩ 100).Legal HeapWorld.start.toMmWorld :=
    ⟨fun h => absurd rfl h, fun _ _ h => (nomatch h), hcard⟩
  have hlive : ∀ o, giveBlock HeapWorld.start.live .usr 0x500 o =
      if o = .usr then {0x500} else ∅ := by
    intro o
    cases o <;> decide
  refine EachStep.cons rfl ⟨Calloc.least_succeeds, hmalloc, by decide, by decide⟩ ?_
  refine EachStep.cons rfl trivial ⟨⟨Calloc.least_succeeds, ⟨fun _ o hmem => ?_,
    fun h => absurd rfl h, hcard⟩, by decide, by decide⟩, fun t ht => ⟨?_, fun _ _ => trivial⟩⟩
  · have hmem : (0x1000 : Nat) ∈ giveBlock HeapWorld.start.live .usr 0x500 o := hmem
    rw [hlive] at hmem
    cases o <;> simp at hmem
  · obtain ⟨r, -, rfl⟩ := Option.map_eq_some_iff.mp ht
    refine ⟨Calloc.least_succeeds, Or.inr ⟨.usr, ?_⟩, trivial⟩
    have hmem : (0x500 : Nat) ∈ giveBlock HeapWorld.start.live .usr 0x500 .usr := by decide
    show (0x500 : Nat) ∈ giveBlock (giveBlock HeapWorld.start.live .usr 0x500) r.2.1 r.2.2 .usr
    by_cases h0 : r.2.2 = 0
    · rwa [giveBlock, if_pos h0]
    · exact (mem_giveBlock h0).mpr (Or.inr hmem)

/-- Either block is given back to its own allocator. -/
theorem interposed_exact_two_blocks :
    EachStep heapStep (fun w c => c.Handed w) .start twoBlocks := by
  refine ((interposed_exact_iff twoBlocks_legal).mpr ?_).2
  exact ⟨trivial, fun _ _ => ⟨trivial, fun _ _ =>
    ⟨trivial, fun _ _ => ⟨trivial, fun _ _ => trivial⟩⟩⟩⟩

/-- **No node is leaked**: in such a run the tree has at most eleven nodes for each live block of
SPDK's, and none once they are all freed. -/
theorem interposed_nodes_le {calls : List HeapCall}
    (hlegal : EachStep heapStep (fun w c => c.Legal w) .start calls)
    (hplace : EachStep heapStep (fun w c => c.InPlace w) .start calls) :
    Always heapStep (fun w => ∃ ns : Finset Addr,
      (∀ q, (w.mm.tree.nodes q).isSome = true ↔ q ∈ ns) ∧
        ns.card ≤ 11 * (w.live .spdk).card) .start calls := by
  have hinv := always_of_step (fun w c w' (hw : HeapWorld.Inv w) hC h => hw.step hC.1 hC.2 h)
    HeapWorld.start_inv (hlegal.and hplace)
  refine hinv.mono fun w hw => ?_
  cases hinit : w.mm.initialized with
  | false =>
      refine ⟨∅, fun q => ?_, Nat.zero_le _⟩
      rw [(hw.before hinit).1]
      simp [RadixMem.zero]
  | true =>
      have htidy := (hw.after hinit).tidy
      obtain ⟨ns, hexact, hspace⟩ := htidy.space
      have hle := hspace (w.live .spdk) fun k hk hne => by
        rw [hw.lookup hk] at hne
        refine (hw.registry.found k).mp (spdkfsMmFind_iff.mpr fun hzero => hne ?_)
        exact congrArg some hzero
      refine ⟨ns, hexact, hle.trans (Nat.mul_le_mul_right _ (Nat.le_of_lt_succ htidy.height))⟩

theorem interposed_nodes_two_blocks : Always heapStep (fun w => ∃ ns : Finset Addr,
    (∀ q, (w.mm.tree.nodes q).isSome = true ↔ q ∈ ns) ∧
      ns.card ≤ 11 * (w.live .spdk).card) .start twoBlocks := by
  refine interposed_nodes_le twoBlocks_legal ?_
  exact ⟨trivial, fun _ _ => ⟨trivial, fun _ _ =>
    ⟨trivial, fun _ _ => ⟨trivial, fun _ _ => trivial⟩⟩⟩⟩

end BlobTopFs.Radix
