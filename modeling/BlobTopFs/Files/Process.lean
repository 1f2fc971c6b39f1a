import BlobTopFs.Files.Coherence
import BlobTopFs.Files.Routing
import BlobTopFs.Memory.Interposed
import BlobTopFs.SimpleFs.Interface

/-!
# The process

An application that is run with the library in front of the C library calls the functions of
`interface.c` and no others: those for files, on paths and descriptors of either kind, and those
for memory. The two halves meet in `spdkfs_mm_find`, by which a transfer decides whether SPDK may
have the application's own buffer. Here they run together, from the start of the process on, and
behind each call on files are the calls of `monopoly_ops.c` that it comes to.
-/

namespace BlobTopFs

open Machine Run Radix

variable {g : Geometry}

/-! ## Calls on files -/

/-- One call on files and the answers it gets, the kernel's first. A buffer is given by its
address and what it holds. -/
inductive FileCall where
  | openPath (kernelFd : Int) (ans : CreateAnswer) (openErrno : Int) (file : CStr)
      (oflag : BitVec 32)
  | close (kernelRet closeErrno fd : Int)
  | read (kernel : Mem × Int) (io : Nat → IoAnswer) (fd : Int) (ptr : Addr) (buf : Mem)
      (nbytes : Nat)
  | write (kernelRet : Int) (io : Nat → WriteAnswer) (fd : Int) (ptr : Addr) (buf : Mem)
      (nbytes : Nat)
  | lseek (kernelRet fd offset whence : Int)
  | stat (kernel : Option Stat × Int) (openErrno : Int) (file : CStr)
  | unlink (kernelRet deleteErrno undef : Int) (file : CStr)

/-- Whether SPDK gets the buffer itself. What goes to the kernel is not looked up. -/
def ownBuffer (mm : MmTree) (fd : Int) (ptr : Addr) : Option Bool :=
  if fd < TESTFD then some false else Radix.spdkfsMmFind mm ptr

/-- The state after the call, what it leaves in a buffer that it is given, and its value. -/
def FileCall.run (findDir : FindDir) (mm : MmTree) (s : Fs g) :
    FileCall → Option (Fs g × Mem × Int)
  | .openPath kernelFd ans openErrno file oflag =>
      (spdkOpen kernelFd ans openErrno file oflag s).map fun r => (r.1, fun _ => 0, r.2)
  | .close kernelRet closeErrno fd =>
      (spdkClose kernelRet closeErrno fd s).map fun r => (r.1, fun _ => 0, r.2)
  | .read kernel io fd ptr buf nbytes =>
      (ownBuffer mm fd ptr).bind fun registered => spdkRead kernel io fd buf nbytes registered s
  | .write kernelRet io fd ptr buf nbytes =>
      (ownBuffer mm fd ptr).bind fun registered =>
        spdkWrite kernelRet io fd buf nbytes registered s
  | .lseek kernelRet fd offset whence =>
      (spdkLseek kernelRet fd offset whence s).map fun r => (r.1, fun _ => 0, r.2)
  | .stat kernel openErrno file =>
      (spdkStat kernel findDir openErrno file s).map fun r => (r.1, fun _ => 0, r.2.2)
  | .unlink kernelRet deleteErrno undef file =>
      (spdkUnlink kernelRet findDir deleteErrno undef file s).map fun r => (r.1, fun _ => 0, r.2)

/-- The call on the descriptor's entry, if it is a blob file's. -/
def onBlob (fd : Int) (call : Int → FsCall) : List FsCall :=
  match callee fd with
  | .syscall _ => []
  | .monopoly n => [call n]

/-- The calls of `monopoly_ops.c` that a call on files comes to: none if it is the kernel's, and two
if an open does not create. -/
def FileCall.calls (mm : MmTree) (s : Fs g) : FileCall → List FsCall
  | .openPath _ ans openErrno file _ =>
      if spdkPtopBlobfile file = true ∧ s.fdtable.fileCount ≤ spdkMaxFileCnt then
        .create ans file ::
          if (monopolyCreate ans file s).map Prod.snd = some (-1) then [.openName openErrno file]
          else []
      else []
  | .close _ closeErrno fd => onBlob fd fun n => .close closeErrno n
  | .read _ io fd ptr buf nbytes =>
      onBlob fd fun n => .read io n buf nbytes ((ownBuffer mm fd ptr).getD false)
  | .write _ io fd ptr buf nbytes =>
      onBlob fd fun n => .write io n buf nbytes ((ownBuffer mm fd ptr).getD false)
  | .lseek _ fd offset whence => onBlob fd fun n => .lseek n offset whence
  | .stat _ openErrno file => if spdkPtopBlobfile file = true then [.stat openErrno file] else []
  | .unlink _ deleteErrno undef file =>
      if spdkPtopBlobfile file = true then [.unlink deleteErrno undef file] else []

/-! ## The process -/

/-- The file system with what the application knows of its files, and the heap. -/
structure Process (g : Geometry) where
  files : FilesWorld g
  heap : HeapWorld

/-- The file system is loaded, and nothing is allocated. -/
def Process.start (s : Fs g) : Process g := ⟨.start s, .start⟩

inductive ProcessCall where
  | heap (call : HeapCall)
  | file (call : FileCall)

/-- One call. What the application learns from a call on files is what it would learn from the
calls that one comes to. -/
def processStep (findDir : FindDir) (p : Process g) : ProcessCall → Option (Process g)
  | .heap call => (heapStep p.heap call).map fun heap => ⟨p.files, heap⟩
  | .file call =>
      (call.run findDir p.heap.mm p.files.fs).bind fun r =>
        (exec (filesStep findDir) p.files (call.calls p.heap.mm p.files.fs)).map fun w =>
          ⟨{ w with fs := r.1 }, p.heap⟩

/-- The descriptor is below the blob files', or an open one of them. -/
def Process.Holds (p : Process g) (fd : Int) : Prop :=
  fd < TESTFD ∨ (p.files.opened (fd - TESTFD).toNat).isSome

/-- Descriptors that are passed in are held, addresses, offsets and lengths are values of their
types, and no seek of a blob file goes below 0. -/
def FileCall.Legal (p : Process g) : FileCall → Prop
  | .close _ _ fd => p.Holds fd
  | .read _ _ fd ptr _ nbytes | .write _ _ fd ptr _ nbytes =>
      p.Holds fd ∧ ptr < 2 ^ 64 ∧ nbytes < 2 ^ 64
  | .lseek kernelRet fd offset whence => p.Holds fd ∧ FitsOff offset ∧
      ∀ s pos, TESTFD ≤ fd → spdkLseek kernelRet fd offset whence p.files.fs = some (s, pos) →
        0 ≤ pos
  | .openPath .. | .stat .. | .unlink .. => True

def ProcessCall.Legal (p : Process g) : ProcessCall → Prop
  | .heap call => call.Legal p.heap
  | .file call => call.Legal p

/-- The entry has an object that is at the start of its file. -/
def Fs.AtStart (s : Fs g) (fd : Int) : Prop :=
  ∃ f file, s.fdtable.file fd = some f ∧ s.files f = some file ∧ file.fPos = 0

/-- A call that comes back is a step of the process. An open of a blob file returns no descriptor of
one, or one that was not open and whose file object is at the start of the file now. A read from a
blob file delivers at each offset the byte known to be there, if one is. -/
def FileCall.Served (findDir : FindDir) (p : Process g) (call : FileCall) : Prop :=
  ∀ r, call.run findDir p.heap.mm p.files.fs = some r →
    ∃ p', processStep findDir p (.file call) = some p' ∧ p'.files.fs = r.1 ∧ p'.heap = p.heap ∧
      match call with
      | .openPath _ _ _ file _ => spdkPtopBlobfile file = true →
          r.2.2 < TESTFD ∨ p.files.opened (r.2.2 - TESTFD).toNat = none ∧
            r.1.AtStart (r.2.2 - TESTFD) ∧
              ∃ o, p'.files.opened (r.2.2 - TESTFD).toNat = some o ∧ o.pos = 0
      | .read _ _ fd _ _ _ => TESTFD ≤ fd →
          ∀ id o, p.files.fs.blobOf (fd - TESTFD) = some id →
            p.files.opened (fd - TESTFD).toNat = some o →
            ∀ q < r.2.2.toNat, ∀ byte, p.files.known id (o.pos.toNat + q) = some byte →
              r.2.1 q = byte
      | _ => True

def ProcessCall.Served (findDir : FindDir) (p : Process g) : ProcessCall → Prop
  | .heap _ => True
  | .file call => call.Served findDir p

/-- A reallocation or a free is handed to the allocator that owns the block, and a transfer on a
blob file hands SPDK the application's buffer if it is a live block of SPDK's, and only then. -/
def ProcessCall.Owned (p : Process g) : ProcessCall → Prop
  | .heap call => call.Handed p.heap
  | .file (.read _ _ fd ptr _ _) | .file (.write _ _ fd ptr _ _) => TESTFD ≤ fd →
      ownBuffer p.heap.mm fd ptr = some (decide (ptr ∈ p.heap.live .spdk))
  | .file _ => True

/-- If the call reallocates a block of SPDK's, SPDK leaves it where it is. -/
def ProcessCall.InPlace (p : Process g) : ProcessCall → Prop
  | .heap call => call.InPlace p.heap
  | .file _ => True

/-! ## What a call on files comes to -/

section Refinement

variable {findDir : FindDir} {w : FilesWorld g} {s' : Fs g} {mm : MmTree} {fd : Int}

theorem exec_one {call : FsCall} {ret : Int} (h : call.run findDir w.fs = some (s', ret)) :
    exec (filesStep findDir) w [call] =
      some ⟨⟨s', call.noteOpened w.fs.nextFile w.opened ret⟩, call.noteContents w ret⟩ := by
  rw [exec_cons, filesStep, h]
  rfl

/-- What an open of a blob file does: nothing if the count is past the table, else a create, and
behind one that returns -1 an open. -/
theorem spdkOpen_inv {kernelFd : Int} {ans : CreateAnswer} {openErrno : Int} {file : CStr}
    {oflag : BitVec 32} {s : Fs g} {ret : Int} (hblob : spdkPtopBlobfile file = true)
    (h : spdkOpen kernelFd ans openErrno file oflag s = some (s', ret)) :
    spdkMaxFileCnt < s.fdtable.fileCount ∧ s' = s ∧ ret = -1 ∨
      s.fdtable.fileCount ≤ spdkMaxFileCnt ∧ ∃ s₁ fd, monopolyCreate ans file s = some (s₁, fd) ∧
        (fd = -1 ∧ (∃ fd', monopolyOpen openErrno file s₁ = some (s', fd') ∧ ret = TESTFD + fd') ∨
          fd ≠ -1 ∧ s' = s₁ ∧ ret = TESTFD + fd) := by
  rw [spdkOpen_eq hblob] at h
  split at h
  · next hfull =>
      cases h
      exact Or.inl ⟨hfull, rfl, rfl⟩
  · next hroom =>
      obtain ⟨⟨s₁, fd⟩, hcreate, h⟩ := Option.bind_eq_some_iff.mp h
      refine Or.inr ⟨not_lt.mp hroom, s₁, fd, hcreate, ?_⟩
      by_cases hfd : fd = -1
      · rw [if_pos hfd] at h
        obtain ⟨⟨s₂, fd'⟩, hopen, heq⟩ := Option.map_eq_some_iff.mp h
        cases heq
        exact Or.inl ⟨hfd, fd', hopen, rfl⟩
      · rw [if_neg hfd] at h
        cases h
        exact Or.inr ⟨hfd, rfl, rfl⟩

/-- On a descriptor of the kernel's there is no call; on a blob file's there is one. -/
theorem exec_onBlob {call : Int → FsCall} (hkernel : fd < TESTFD → s' = w.fs)
    (hblob : TESTFD ≤ fd → ∃ ret, (call (fd - TESTFD)).run findDir w.fs = some (s', ret)) :
    ∃ w', exec (filesStep findDir) w (onBlob fd call) = some w' ∧ w'.fs = s' := by
  rcases lt_or_ge fd TESTFD with hlt | hle
  · rw [onBlob, callee_of_lt hlt]
    exact ⟨w, rfl, (hkernel hlt).symm⟩
  · rw [onBlob, callee_of_le hle]
    obtain ⟨ret, h⟩ := hblob hle
    exact ⟨_, exec_one h, rfl⟩

/-- **A call on files is the calls it comes to**: they come back as well, and leave the file system
in the same state. -/
theorem FileCall.run_calls {call : FileCall} {r : Fs g × Mem × Int}
    (h : call.run findDir mm w.fs = some r) :
    ∃ w', exec (filesStep findDir) w (call.calls mm w.fs) = some w' ∧ w'.fs = r.1 := by
  cases call with
  | openPath kernelFd ans openErrno file oflag =>
      obtain ⟨⟨s', ret⟩, hr, rfl⟩ := Option.map_eq_some_iff.mp h
      rw [FileCall.calls]
      cases hblob : spdkPtopBlobfile file with
      | false =>
          rw [spdkOpen, hblob, if_pos (by decide)] at hr
          cases hr
          exact ⟨w, rfl, rfl⟩
      | true =>
          rcases spdkOpen_inv hblob hr with
            ⟨hfull, rfl, -⟩ | ⟨hroom, s₁, fd, hcreate, ⟨rfl, fd', hopen, -⟩ | ⟨hfd, rfl, -⟩⟩
          · rw [if_neg fun hand => absurd hand.2 (by omega)]
            exact ⟨w, rfl, rfl⟩
          · have hrun : (FsCall.create ans file).run findDir w.fs = some (s₁, -1) := hcreate
            rw [if_pos ⟨rfl, hroom⟩, hcreate, Option.map_some, if_pos rfl, exec_cons, filesStep,
              hrun]
            exact ⟨_, exec_one hopen, rfl⟩
          · have hrun : (FsCall.create ans file).run findDir w.fs = some (s', fd) := hcreate
            rw [if_pos ⟨rfl, hroom⟩, hcreate, Option.map_some,
              if_neg fun heq => hfd (Option.some.inj heq)]
            exact ⟨_, exec_one hrun, rfl⟩
  | close kernelRet closeErrno fd =>
      obtain ⟨r, hr, rfl⟩ := Option.map_eq_some_iff.mp h
      refine exec_onBlob (fun hlt => ?_) fun hle => ⟨r.2, ?_⟩
      · rw [spdkClose, callee_of_lt hlt] at hr
        cases hr
        rfl
      · rw [spdkClose, callee_of_le hle] at hr
        exact hr
  | read kernel io fd ptr buf nbytes =>
      obtain ⟨registered, hown, hr⟩ := Option.bind_eq_some_iff.mp h
      rw [FileCall.calls, hown]
      refine exec_onBlob (fun hlt => ?_) fun hle => ?_
      · rw [spdkRead, callee_of_lt hlt] at hr
        cases hr
        rfl
      · rw [spdkRead, callee_of_le hle] at hr
        obtain ⟨r, hread, rfl⟩ := Option.map_eq_some_iff.mp hr
        exact ⟨r.2.2, Option.map_eq_some_iff.mpr ⟨r, hread, rfl⟩⟩
  | write kernelRet io fd ptr buf nbytes =>
      obtain ⟨registered, hown, hr⟩ := Option.bind_eq_some_iff.mp h
      rw [FileCall.calls, hown]
      refine exec_onBlob (fun hlt => ?_) fun hle => ⟨r.2.2, ?_⟩
      · rw [spdkWrite, callee_of_lt hlt] at hr
        cases hr
        rfl
      · rw [spdkWrite, callee_of_le hle] at hr
        have hwrite : monopolyWrite io (fd - TESTFD) buf nbytes registered w.fs = some r := hr
        exact Option.map_eq_some_iff.mpr ⟨r, hwrite, rfl⟩
  | lseek kernelRet fd offset whence =>
      obtain ⟨r, hr, rfl⟩ := Option.map_eq_some_iff.mp h
      refine exec_onBlob (fun hlt => ?_) fun hle => ⟨r.2, ?_⟩
      · rw [spdkLseek, callee_of_lt hlt] at hr
        cases hr
        rfl
      · rw [spdkLseek, callee_of_le hle] at hr
        exact hr
  | stat kernel openErrno file =>
      obtain ⟨r, hr, rfl⟩ := Option.map_eq_some_iff.mp h
      rw [spdkStat] at hr
      rw [FileCall.calls]
      cases hblob : spdkPtopBlobfile file with
      | false =>
          rw [hblob, if_pos (by decide)] at hr
          cases hr
          exact ⟨w, rfl, rfl⟩
      | true =>
          rw [hblob, if_neg (by decide)] at hr
          have hrun : (FsCall.stat openErrno file).run findDir w.fs = some (r.1, r.2.2) :=
            Option.map_eq_some_iff.mpr ⟨r, hr, rfl⟩
          exact ⟨_, exec_one hrun, rfl⟩
  | unlink kernelRet deleteErrno undef file =>
      obtain ⟨r, hr, rfl⟩ := Option.map_eq_some_iff.mp h
      rw [spdkUnlink] at hr
      rw [FileCall.calls]
      cases hblob : spdkPtopBlobfile file with
      | false =>
          rw [hblob, if_pos (by decide)] at hr
          cases hr
          exact ⟨w, rfl, rfl⟩
      | true =>
          rw [hblob, if_neg (by decide)] at hr
          have hrun : (FsCall.unlink deleteErrno undef file).run findDir w.fs = some (r.1, r.2) :=
            hr
          exact ⟨_, exec_one hrun, rfl⟩

/-- A held descriptor of a blob file is an open one of the entry. -/
theorem Process.Holds.opened {p : Process g} (h : p.Holds fd) (hle : TESTFD ≤ fd) :
    0 ≤ fd - TESTFD ∧ (p.files.opened (fd - TESTFD).toNat).isSome :=
  ⟨by omega, h.resolve_left (not_lt.mpr hle)⟩

theorem eachStep_onBlob {call : Int → FsCall}
    (h : TESTFD ≤ fd → (call (fd - TESTFD)).Proper w) :
    EachStep (filesStep findDir) (fun w call => call.Proper w) w (onBlob fd call) := by
  rcases lt_or_ge fd TESTFD with hlt | hle
  · rw [onBlob, callee_of_lt hlt]
    trivial
  · rw [onBlob, callee_of_le hle]
    exact ⟨h hle, fun _ _ => trivial⟩

/-- The calls that a legal call comes to are proper. -/
theorem FileCall.Legal.proper {p : Process g} {call : FileCall} (h : call.Legal p) :
    EachStep (filesStep findDir) (fun w call => call.Proper w) p.files
      (call.calls p.heap.mm p.files.fs) := by
  cases call with
  | openPath kernelFd ans openErrno file oflag =>
      rw [FileCall.calls]
      split
      · refine ⟨trivial, fun _ _ => ?_⟩
        split
        · exact ⟨trivial, fun _ _ => trivial⟩
        · trivial
      · trivial
  | close kernelRet closeErrno fd => exact eachStep_onBlob fun hle => h.opened hle
  | read kernel io fd ptr buf nbytes =>
      refine eachStep_onBlob fun hle => ?_
      obtain ⟨h0, hopen⟩ := h.1.opened hle
      exact ⟨h0, hopen, h.2.2⟩
  | write kernelRet io fd ptr buf nbytes =>
      refine eachStep_onBlob fun hle => ?_
      obtain ⟨h0, hopen⟩ := h.1.opened hle
      exact ⟨h0, hopen, h.2.2⟩
  | lseek kernelRet fd offset whence =>
      refine eachStep_onBlob fun hle => ?_
      obtain ⟨h0, hopen⟩ := h.1.opened hle
      refine ⟨h0, hopen, h.2.1, fun s pos hseek => h.2.2 s pos hle ?_⟩
      rw [spdkLseek, callee_of_le hle]
      exact hseek
  | stat kernel openErrno file =>
      rw [FileCall.calls]
      split
      · exact ⟨trivial, fun _ _ => trivial⟩
      · trivial
  | unlink kernelRet deleteErrno undef file =>
      rw [FileCall.calls]
      split
      · exact ⟨trivial, fun _ _ => trivial⟩
      · trivial

end Refinement

/-! ## One call of the process -/

section Step

variable {findDir : FindDir} {p p' : Process g}

/-- A call on files leaves the heap, and the files as the calls it comes to do. -/
theorem processStep_file {call : FileCall} (h : processStep findDir p (.file call) = some p') :
    p'.heap = p.heap ∧ ∃ r, call.run findDir p.heap.mm p.files.fs = some r ∧
      exec (filesStep findDir) p.files (call.calls p.heap.mm p.files.fs) = some p'.files ∧
      p'.files.fs = r.1 := by
  obtain ⟨r, hr, h⟩ := Option.bind_eq_some_iff.mp h
  obtain ⟨w, hw, rfl⟩ := Option.map_eq_some_iff.mp h
  obtain ⟨w', hw', hfs⟩ := FileCall.run_calls hr
  cases hw.symm.trans hw'
  refine ⟨rfl, r, hr, ?_, rfl⟩
  rw [← hfs]
  exact hw

/-- A call on files that comes back is a step of the process. -/
theorem processStep_of_run {call : FileCall} {r : Fs g × Mem × Int}
    (h : call.run findDir p.heap.mm p.files.fs = some r) :
    ∃ p', processStep findDir p (.file call) = some p' ∧ p'.files.fs = r.1 ∧ p'.heap = p.heap := by
  obtain ⟨w, hw, -⟩ := FileCall.run_calls h
  refine ⟨⟨{ w with fs := r.1 }, p.heap⟩, ?_, rfl, rfl⟩
  rw [processStep, h, Option.bind_some, hw]
  rfl

theorem processStep_heap {call : HeapCall} (h : processStep findDir p (.heap call) = some p') :
    heapStep p.heap call = some p'.heap ∧ p'.files = p.files := by
  obtain ⟨heap, hheap, rfl⟩ := Option.map_eq_some_iff.mp h
  exact ⟨hheap, rfl⟩

theorem processStep_files_inv (hB : g.ioUnit ∣ bufSize) {call : ProcessCall} (hp : p.files.Inv)
    (hL : call.Legal p) (h : processStep findDir p call = some p') : p'.files.Inv := by
  cases call with
  | heap call =>
      rw [(processStep_heap h).2]
      exact hp
  | file call =>
      obtain ⟨-, r, -, hexec, -⟩ := processStep_file h
      have hproper : EachStep (filesStep findDir) (fun w call => call.Proper w) p.files
        (call.calls p.heap.mm p.files.fs) := FileCall.Legal.proper hL
      exact exec_inv (fun _ _ _ hw hcall h => filesStep_inv hB hw hcall h) hp hproper hexec

/-- The heap's own invariant, as long as SPDK leaves its blocks in place. -/
theorem processStep_heap_inv {call : ProcessCall} (hp : p.heap.Inv) (hL : call.Legal p)
    (hplace : call.InPlace p) (h : processStep findDir p call = some p') : p'.heap.Inv := by
  cases call with
  | heap call => exact hp.step hL hplace (processStep_heap h).1
  | file call =>
      rw [(processStep_file h).1]
      exact hp

/-- The value of `__spdk_read` has been through an `int`, which makes none greater. -/
theorem s32_toNat_le {x : Int} (hx : 0 ≤ x) : (s32 x).toNat ≤ x.toNat := by
  unfold s32 u32
  split <;> omega

/-- The descriptor a create or an open gives is new, and at the start of the file. -/
theorem new_descriptor {w w' : FilesWorld g} {s' : Fs g} {call : FsCall} {fd : Int}
    (hrun : call.run findDir w.fs = some (s', fd))
    (hexec : exec (filesStep findDir) w [call] = some w')
    (hnone : 0 ≤ fd → w.opened fd.toNat = none)
    (hnote : 0 ≤ fd → call.noteOpened w.fs.nextFile w.opened fd =
      Function.update w.opened fd.toNat (some ⟨w.fs.nextFile, 0⟩)) :
    TESTFD + fd < TESTFD ∨ w.opened (TESTFD + fd - TESTFD).toNat = none ∧
      ∃ o, w'.opened (TESTFD + fd - TESTFD).toNat = some o ∧ o.pos = 0 := by
  rw [exec_one hrun] at hexec
  rw [add_sub_cancel_left, ← Option.some.inj hexec]
  rcases lt_or_ge fd 0 with hneg | h0
  · exact Or.inl (by omega)
  · refine Or.inr ⟨hnone h0, ⟨w.fs.nextFile, 0⟩, ?_, rfl⟩
    rw [hnote h0]
    exact Function.update_self ..

/-- An open descriptor at position 0 is one whose object is. -/
theorem FdWorld.Inv.atStart {w : FdWorld g} {fd : Int} {o : Opened} (hw : w.Inv) (h0 : 0 ≤ fd)
    (ho : w.opened fd.toNat = some o) (hpos : o.pos = 0) : w.fs.AtStart fd := by
  obtain ⟨hlt, -, hslot⟩ := hw.slot _ o ho
  obtain ⟨file, hfile, hfpos⟩ := hw.object _ o ho
  refine ⟨o.object, file, ?_, hfile, hfpos.trans hpos⟩
  rw [Fdtable.file, if_pos ⟨h0, by omega⟩, hslot]

/-- An open of a blob file gives a new descriptor, if it gives one. -/
theorem FilesWorld.Inv.opens (hp : p.files.Inv) {kernelFd : Int} {ans : CreateAnswer}
    {openErrno : Int} {file : CStr} {oflag : BitVec 32} (hblob : spdkPtopBlobfile file = true)
    (hstep : processStep findDir p (.file (.openPath kernelFd ans openErrno file oflag)) = some p')
    {s' : Fs g} {ret : Int}
    (hopen : spdkOpen kernelFd ans openErrno file oflag p.files.fs = some (s', ret)) :
    ret < TESTFD ∨ p.files.opened (ret - TESTFD).toNat = none ∧
      ∃ o, p'.files.opened (ret - TESTFD).toNat = some o ∧ o.pos = 0 := by
  obtain ⟨-, r', hr', hexec, -⟩ := processStep_file hstep
  rw [FileCall.calls] at hexec
  rcases spdkOpen_inv hblob hopen with ⟨-, -, rfl⟩ |
    ⟨hroom, s₁, fd, hcreate, ⟨rfl, fd', hopen', rfl⟩ | ⟨hfd, rfl, rfl⟩⟩
  · exact Or.inl (show (-1 : Int) < TESTFD by decide)
  · -- the create has changed nothing, and the open is on what it has left
    have hrun : (FsCall.create ans file).run findDir p.files.fs = some (s₁, -1) := hcreate
    obtain ⟨w₁, hw₁, hfs, hkept⟩ : ∃ w₁, filesStep findDir p.files (.create ans file) = some w₁ ∧
        w₁.fs = s₁ ∧ w₁.opened = p.files.opened := by
      refine ⟨_, Option.map_eq_some_iff.mpr ⟨_, hrun, rfl⟩, rfl, ?_⟩
      simp [FsCall.noteOpened]
    have hopens : (FsCall.create ans file).UsesOpen p.files.opened := trivial
    have hinv := fdStep_inv hp.descriptors hopens (filesStep_fdStep hw₁)
    have hrun' : (FsCall.openName openErrno file).run findDir w₁.fs = some (s', fd') := by
      rw [hfs]
      exact hopen'
    rw [if_pos ⟨hblob, hroom⟩, hcreate, Option.map_some, if_pos rfl, exec_cons, hw₁,
      Option.bind_some] at hexec
    have hfree := returnsFree_of_inv hinv (.openName openErrno file) s' fd' hrun'
    have hnew := new_descriptor hrun' hexec (fun h0 => (hfree h0).2)
      fun h0 => by rw [FsCall.noteOpened, if_pos h0]
    rw [hkept] at hnew
    exact hnew
  · have hrun : (FsCall.create ans file).run findDir p.files.fs = some (s', fd) := hcreate
    rw [if_pos ⟨hblob, hroom⟩, hcreate, Option.map_some,
      if_neg fun heq => hfd (Option.some.inj heq)] at hexec
    have hfree := returnsFree_of_inv hp.descriptors (.create ans file) s' fd hcreate
    exact new_descriptor hrun hexec (fun h0 => (hfree h0).2)
      fun h0 => by rw [FsCall.noteOpened, if_pos h0]

/-- The calls that are on files are served in every state that keeps the invariant. -/
theorem FilesWorld.Inv.served (hB : g.ioUnit ∣ bufSize) (hp : p.files.Inv) {call : FileCall}
    (hL : call.Legal p) : call.Served findDir p := by
  intro r hr
  obtain ⟨p', hstep, hfs, hheap⟩ := processStep_of_run hr
  refine ⟨p', hstep, hfs, hheap, ?_⟩
  cases call with
  | openPath kernelFd ans openErrno file oflag =>
      intro hblob
      obtain ⟨⟨s', ret⟩, hopen, rfl⟩ := Option.map_eq_some_iff.mp hr
      rcases lt_or_ge ret TESTFD with hlt | hle
      · exact Or.inl hlt
      · have hL' : (ProcessCall.file (.openPath kernelFd ans openErrno file oflag)).Legal p := hL
        obtain ⟨hnone, o, ho, hpos⟩ :=
          (hp.opens hblob hstep hopen).resolve_left (not_lt.mpr hle)
        have hp' := (processStep_files_inv hB hp hL' hstep).descriptors
        refine Or.inr ⟨hnone, ?_, o, ho, hpos⟩
        rw [← hfs]
        exact hp'.atStart (Int.sub_nonneg_of_le hle) ho hpos
  | read kernel io fd ptr buf nbytes =>
      intro hle id o hid ho q hq byte hbyte
      obtain ⟨registered, -, hr⟩ := Option.bind_eq_some_iff.mp hr
      rw [spdkRead, callee_of_le hle] at hr
      obtain ⟨⟨s', buf', ret⟩, hread, rfl⟩ := Option.map_eq_some_iff.mp hr
      obtain ⟨h0, hopen⟩ := hL.1.opened hle
      have hproper : (FsCall.read io (fd - TESTFD) buf nbytes registered).Proper p.files :=
        ⟨h0, hopen, hL.2.2⟩
      have hret : 0 ≤ ret := by
        obtain ⟨f, v, -, hres, -⟩ := Fs.monopolyRead_cases hread
        obtain ⟨k, -, -, -, hk, -⟩ :=
          Fs.monopolyRead_spec hB hres (hp.resolves h0 hres ho).1 hL.2.2 hread
        omega
      have hdelivers := hp.deliversKnown hB hproper s' buf' ret id o hread hid ho
      exact hdelivers q (lt_of_lt_of_le hq (s32_toNat_le hret)) byte hbyte
  | _ => trivial

/-- The heap's half: a transfer finds SPDK's live blocks, and a block goes to its owner. -/
theorem owned_of_inv (hp : p.heap.Inv) {call : ProcessCall} (hL : call.Legal p) :
    call.Owned p := by
  have hfind : ∀ fd ptr, ptr < 2 ^ 64 → TESTFD ≤ fd →
      ownBuffer p.heap.mm fd ptr = some (decide (ptr ∈ p.heap.live .spdk)) := by
    intro fd ptr hptr hle
    have hfound := hp.registered.found ptr hptr
    rw [hp.find hptr, Option.some.injEq] at hfound
    rw [ownBuffer, if_neg (not_lt.mpr hle), hp.find hptr, Option.some.injEq]
    exact Bool.eq_iff_iff.mpr (hfound.trans decide_eq_true_iff.symm)
  match call with
  | .heap call => exact hp.handed hL
  | .file (.read _ _ fd ptr _ _) => exact hfind fd ptr hL.2.1
  | .file (.write _ _ fd ptr _ _) => exact hfind fd ptr hL.2.1
  | .file (.openPath ..) | .file (.close ..) | .file (.lseek ..) | .file (.stat ..)
  | .file (.unlink ..) => trivial

end Step

/-! ## Runs -/

/-- The calls of `monopoly_ops.c` behind a call. -/
def ProcessCall.fileCalls (p : Process g) : ProcessCall → List FsCall
  | .heap _ => []
  | .file call => call.calls p.heap.mm p.files.fs

/-- The calls on memory behind a call. -/
def ProcessCall.heapCalls (_ : Process g) : ProcessCall → List HeapCall
  | .heap call => [call]
  | .file _ => []

/-- **The two halves of a process.** Its files are left as by the calls of `monopoly_ops.c` behind
its calls alone, which are on descriptors that are open, and its heap as by its calls on memory
alone. -/
theorem process_refines_calls {findDir : FindDir} {p p' : Process g} {calls : List ProcessCall}
    (hlegal : EachStep (processStep findDir) (fun p call => call.Legal p) p calls)
    (hrun : exec (processStep findDir) p calls = some p') :
    (exec (filesStep findDir) p.files
          (expand (processStep findDir) ProcessCall.fileCalls p calls) = some p'.files ∧
        EachStep (filesStep findDir) (fun w call => call.Proper w) p.files
          (expand (processStep findDir) ProcessCall.fileCalls p calls)) ∧
      exec heapStep p.heap (expand (processStep findDir) ProcessCall.heapCalls p calls) =
          some p'.heap ∧
        EachStep heapStep (fun w call => call.Legal w) p.heap
          (expand (processStep findDir) ProcessCall.heapCalls p calls) := by
  constructor
  · have hsim : ∀ (p : Process g) (w : FilesWorld g) call p', w = p.files → call.Legal p →
        processStep findDir p call = some p' → ∃ w',
          exec (filesStep findDir) w (call.fileCalls p) = some w' ∧
          EachStep (filesStep findDir) (fun w call => call.Proper w) w (call.fileCalls p) ∧
          w' = p'.files := by
      rintro p _ call p' rfl hL hstep
      cases call with
      | heap call => exact ⟨p.files, rfl, trivial, (processStep_heap hstep).2.symm⟩
      | file call =>
          obtain ⟨-, r, -, hexec, -⟩ := processStep_file hstep
          exact ⟨p'.files, hexec, FileCall.Legal.proper hL, rfl⟩
    obtain ⟨w', hexec, heach, rfl⟩ := exec_expand hsim rfl hlegal hrun
    exact ⟨hexec, heach⟩
  · have hsim : ∀ (p : Process g) (w : HeapWorld) call p', w = p.heap → call.Legal p →
        processStep findDir p call = some p' → ∃ w',
          exec heapStep w (call.heapCalls p) = some w' ∧
          EachStep heapStep (fun w call => call.Legal w) w (call.heapCalls p) ∧ w' = p'.heap := by
      rintro p _ call p' rfl hL hstep
      cases call with
      | heap call =>
          have hheap := (processStep_heap hstep).1
          refine ⟨p'.heap, ?_, ⟨hL, fun _ _ => trivial⟩, rfl⟩
          exact exec_cons_eq_some.mpr ⟨_, hheap, rfl⟩
      | file call => exact ⟨p.heap, rfl, trivial, (processStep_file hstep).1.symm⟩
    obtain ⟨w', hexec, heach, rfl⟩ := exec_expand hsim rfl hlegal hrun
    exact ⟨hexec, heach⟩

/-- A file is written from a buffer that is not SPDK's. -/
def userBuffer : List ProcessCall :=
  [.file (.openPath (-1) (.done 1) 0 pathA 0), .heap .mmInit,
    .file (.write 0 (fun _ => .done) TESTFD 0x500 (fun _ => 65) 4096)]

theorem userBuffer_legal : EachStep (processStep fun _ _ => -1) (fun p call => call.Legal p)
    (.start (.empty .malloc4k)) userBuffer := by
  refine EachStep.cons rfl trivial ?_
  refine EachStep.cons rfl trivial ?_
  exact EachStep.cons rfl ⟨Or.inr rfl, by decide, by decide⟩ trivial

theorem process_refines_calls_userBuffer : ∃ p' : Process .malloc4k,
    exec (filesStep fun _ _ => -1) (.start (.empty .malloc4k))
        [.create (.done 1) pathA, .write (fun _ => .done) 0 (fun _ => 65) 4096 false] =
      some p'.files ∧ exec heapStep .start [.mmInit] = some p'.heap := by
  have hrun : exec (processStep fun _ _ => -1) (.start (.empty .malloc4k)) userBuffer =
    some ((exec (processStep fun _ _ => -1) (.start (.empty .malloc4k)) userBuffer).get rfl) :=
      (Option.some_get _).symm
  have hrefines := process_refines_calls userBuffer_legal hrun
  exact ⟨_, hrefines.1.1, hrefines.2.1⟩

/-- **The whole library.** In every run of a process, its calls on files and on memory in any order
and on files and blocks of either kind, a read from a blob file delivers what was last stored
there, through whichever descriptor that was, and an open gives a descriptor that is new. If SPDK
leaves the blocks that are reallocated in place, it is given the application's buffer in just those
transfers for which the buffer is a live block of its own, and every block goes back to the
allocator it is from. -/
theorem process_served {findDir : FindDir} {ans : LoadAnswer} {superBlob : BlobId}
    {bs : Blobstore g} {s : Fs g} {calls : List ProcessCall} (hB : g.ioUnit ∣ bufSize)
    (hload : loadRoot ans superBlob bs = some s)
    (hlegal : EachStep (processStep findDir) (fun p call => call.Legal p) (.start s) calls) :
    EachStep (processStep findDir) (fun p call => call.Served findDir p) (.start s) calls ∧
      (EachStep (processStep findDir) (fun p call => call.InPlace p) (.start s) calls →
        EachStep (processStep findDir) (fun p call => call.Owned p) (.start s) calls) := by
  constructor
  · refine eachStep_of_step (fun _ _ _ hp hL h => processStep_files_inv hB hp hL h)
      (fun p call hp hL => ?_) (FilesWorld.start_inv hload) hlegal
    cases call with
    | heap call => trivial
    | file call => exact hp.served hB hL
  · intro hplace
    exact eachStep_of_step (fun _ _ _ hp hC h => processStep_heap_inv hp hC.1 hC.2 h)
      (fun _ _ hp hC => owned_of_inv hp hC.1) HeapWorld.start_inv (hlegal.and hplace)

/-- A file is opened twice, and two chunks are written to it through one descriptor, from a buffer
that is not SPDK's. -/
def bothOpen : List ProcessCall :=
  [.file (.openPath (-1) (.done 1) 0 pathA 0), .file (.openPath (-1) (.done 1) 0 pathA 0),
    .heap .mmInit,
    .file (.write 0 (fun _ => .done) TESTFD 0x500 (fun _ => 65) (2 * bufSize))]

/-- What is left then. -/
def bothOpenProcess : Process .malloc4k :=
  (exec (processStep fun _ _ => -1) (.start (.empty .malloc4k)) bothOpen).get rfl

theorem bothOpen_exec : exec (processStep fun _ _ => -1) (.start (.empty .malloc4k)) bothOpen =
    some bothOpenProcess :=
  (Option.some_get _).symm

/-- The file is read through the other descriptor. -/
def readThere : FileCall :=
  .read (fun _ => 0, 0) (fun _ => .done) (TESTFD + 1) 0x1000 (fun _ => 0) 4096

/-- It is read into a block of SPDK's. -/
noncomputable def sharedBlock : List ProcessCall :=
  [.heap (.app .least (.malloc ⟨0x1000, 0⟩ 4096)), .file readThere]

theorem sharedBlock_legal : EachStep (processStep fun _ _ => -1) (fun p call => call.Legal p)
    (.start (.empty .malloc4k)) (bothOpen ++ sharedBlock) := by
  have hcard : 0 < maxIoPtrNum - 1 := by decide
  refine EachStep.append ?_ bothOpen_exec ?_
  · refine EachStep.cons rfl trivial ?_
    refine EachStep.cons rfl trivial ?_
    refine EachStep.cons rfl trivial ?_
    exact EachStep.cons rfl ⟨Or.inr rfl, by decide, by decide⟩ trivial
  · refine ⟨⟨Calloc.least_succeeds, ⟨fun _ o hmem => ?_, fun h => absurd rfl h, hcard⟩, by decide,
      by decide⟩, fun p hp => ⟨⟨Or.inr ?_, by decide, by decide⟩, fun _ _ => trivial⟩⟩
    · cases o <;> exact absurd hmem (Finset.notMem_empty _)
    · rw [(processStep_heap hp).2]
      rfl

/-- SPDK has the block, and the process goes on. -/
theorem bothOpenProcess_malloc : ∃ heap : HeapWorld,
    processStep (fun _ _ => -1) bothOpenProcess (.heap (.app .least (.malloc ⟨0x1000, 0⟩ 4096))) =
      some ⟨bothOpenProcess.files, heap⟩ ∧ 0x1000 ∈ heap.live .spdk := by
  have hlegal := (sharedBlock_legal.drop bothOpen_exec).1
  have hinv : bothOpenProcess.heap.Inv := HeapWorld.start_inv.mmInit
  have hrel := heapStep_abstracts hinv rfl hlegal
  have hmm : (mmStep bothOpenProcess.heap.toMmWorld (.malloc ⟨0x1000, 0⟩ 4096)).map MmWorld.live =
      some (giveBlock (fun _ => ∅) .spdk 0x1000) := rfl
  obtain ⟨a, ha, hlive⟩ := Option.map_eq_some_iff.mp hmm
  rw [ha] at hrel
  cases hheap : heapStep bothOpenProcess.heap (.app .least (.malloc ⟨0x1000, 0⟩ 4096)) with
  | none =>
      rw [hheap] at hrel
      cases hrel
  | some heap =>
      rw [hheap] at hrel
      cases hrel with
      | some habs =>
          refine ⟨heap, Option.map_eq_some_iff.mpr ⟨heap, hheap, rfl⟩, ?_⟩
          have hsame : heap.live = a.live := congrArg MmWorld.live habs.1
          rw [hsame, hlive]
          decide

/-- The read is given the block itself, and delivers what was written through the other
descriptor. -/
theorem process_served_sharedBlock :
    EachStep (processStep fun _ _ => -1) (fun p call => call.Served (fun _ _ => -1) p)
        (.start (.empty .malloc4k)) (bothOpen ++ sharedBlock) ∧
      EachStep (processStep fun _ _ => -1) (fun p call => call.Owned p)
        (.start (.empty .malloc4k)) (bothOpen ++ sharedBlock) ∧
      ∃ (heap : HeapWorld) (r : Fs .malloc4k × Mem × Int),
        ownBuffer heap.mm (TESTFD + 1) 0x1000 = some true ∧
        readThere.run (fun _ _ => -1) heap.mm bothOpenProcess.files.fs = some r ∧
        r.2.2 = 4096 ∧ ∀ q < 4096, r.2.1 q = 65 := by
  have hload := loadRoot_formatted (g := .malloc4k) .done 0
  obtain ⟨hserved, howned⟩ := process_served (by decide) hload sharedBlock_legal
  have hplace : EachStep (processStep fun _ _ => -1) (fun p call => call.InPlace p)
      (.start (.empty .malloc4k)) (bothOpen ++ sharedBlock) :=
    ⟨trivial, fun _ _ => ⟨trivial, fun _ _ => ⟨trivial, fun _ _ => ⟨trivial, fun _ _ =>
      ⟨trivial, fun _ _ => ⟨trivial, fun _ _ => trivial⟩⟩⟩⟩⟩⟩
  refine ⟨hserved, howned hplace, ?_⟩
  obtain ⟨heap, hmalloc, hmem⟩ := bothOpenProcess_malloc
  have hown : ownBuffer heap.mm (TESTFD + 1) 0x1000 = some true := by
    have h := (((howned hplace).drop bothOpen_exec).2 _ hmalloc).1 (by decide)
    exact h.trans (congrArg some (decide_eq_true hmem))
  have hread : (spdkRead (fun _ => 0, 0) (fun _ => .done) (TESTFD + 1) (fun _ => 0) 4096 true
      bothOpenProcess.files.fs).map (fun r => r.2.2) = some 4096 := by
    decide +kernel
  obtain ⟨r, hr, hret⟩ := Option.map_eq_some_iff.mp hread
  have hrun : readThere.run (fun _ _ => -1) heap.mm bothOpenProcess.files.fs = some r := by
    rw [readThere, FileCall.run, hown]
    exact hr
  refine ⟨heap, r, hown, hrun, hret, fun q hq => ?_⟩
  obtain ⟨p', -, -, -, hdelivers⟩ := ((hserved.drop bothOpen_exec).2 _ hmalloc).1 r hrun
  refine hdelivers (by decide) 1 ⟨1, 0⟩ rfl rfl q (by rw [hret]; omega) 65 ?_
  show noteStored 0 (2 * bufSize) (2 * bufSize) bufSize (fun _ => 65) false _ (0 + q) = some 65
  unfold noteStored bufSize
  rw [if_pos (by omega)]

end BlobTopFs
