import BlobTopFs.SimpleFs.Calls

/-!
# `interface.c`: the entry points an application calls

`__spdk_open` and the rest stand in front of both the kernel and the blob file system. A path
that begins with `spdkfs/` is a blob file's; the descriptor of a blob file is its entry in
`g_fdtable` plus `TESTFD`, and any descriptor below `TESTFD` is taken to be the kernel's. What
the kernel answers, where it is asked, is an argument of each entry point.
-/

namespace BlobTopFs

open Machine

variable {g : Geometry}

def TESTFD : Int := 10086

def O_CREAT : BitVec 32 := 0x40

/-- `"spdkfs/"` -/
def blobfilePrefix : List UInt8 := [115, 112, 100, 107, 102, 115, 47]

/-- `spdk_ptop_blobfile`. A path shorter than the seven bytes `memcmp` compares differs from
them at its terminator. -/
def spdkPtopBlobfile (file : CStr) : Bool :=
  if file.strlen < 5 then false
  else if file.chars.take 7 ≠ blobfilePrefix then false
  else true

/-- `spdkfs/a` -/
def pathA : CStr := ⟨[115, 112, 100, 107, 102, 115, 47, 97], by decide⟩

/-- `__spdk_open`; `kernelFd` is what `r_open` returns. -/
def spdkOpen (kernelFd : Int) (ans : CreateAnswer) (openErrno : Int) (file : CStr)
    (oflag : BitVec 32) (s : Fs g) : Option (Fs g × Int) :=
  if !spdkPtopBlobfile file then some (s, kernelFd)
  -- `|` for `&`: the test holds of every flag word
  else if oflag ||| O_CREAT ≠ 0 then
    if s.fdtable.fileCount > spdkMaxFileCnt then some (s, -1)
    else
      (monopolyCreate ans file s).bind fun r =>
        -- -1 is also what a create without a free entry returns
        if r.2 = -1 then (monopolyOpen openErrno file r.1).map fun o => (o.1, TESTFD + o.2)
        else some (r.1, TESTFD + r.2)
  else (monopolyOpen openErrno file s).map fun o => (o.1, TESTFD + o.2)

/-! ## Calls on a descriptor -/

/-- Whom a call on a descriptor is passed to, and under which descriptor. -/
inductive Callee where
  | syscall (fd : Int)
  | monopoly (fd : Int)
  deriving DecidableEq

/-- The test `__fd < TESTFD` that the four entry points begin with. -/
def callee (fd : Int) : Callee := if fd < TESTFD then .syscall fd else .monopoly (fd - TESTFD)

theorem callee_of_lt {fd : Int} (h : fd < TESTFD) : callee fd = .syscall fd := if_pos h

theorem callee_of_le {fd : Int} (h : TESTFD ≤ fd) : callee fd = .monopoly (fd - TESTFD) :=
  if_neg (not_lt.mpr h)

/-- `__spdk_close` -/
def spdkClose (kernelRet closeErrno fd : Int) (s : Fs g) : Option (Fs g × Int) :=
  match callee fd with
  | .syscall _ => some (s, kernelRet)
  | .monopoly n => monopolyClose closeErrno n s

/-- `__spdk_read`: what `monopoly_read` returns goes through an `int`. -/
def spdkRead (kernel : Mem × Int) (io : Nat → IoAnswer) (fd : Int) (buf : Mem) (nbytes : Nat)
    (registered : Bool) (s : Fs g) : Option (Fs g × Mem × Int) :=
  match callee fd with
  | .syscall _ => some (s, kernel.1, kernel.2)
  | .monopoly n =>
      (monopolyRead io n buf nbytes registered s).map fun r => (r.1, r.2.1, s32 r.2.2)

/-- `__spdk_write` -/
def spdkWrite (kernelRet : Int) (io : Nat → WriteAnswer) (fd : Int) (buf : Mem) (nbytes : Nat)
    (registered : Bool) (s : Fs g) : Option (Fs g × Mem × Int) :=
  match callee fd with
  | .syscall _ => some (s, buf, kernelRet)
  | .monopoly n => monopolyWrite io n buf nbytes registered s

/-- `__spdk_lseek` -/
def spdkLseek (kernelRet fd offset whence : Int) (s : Fs g) : Option (Fs g × Int) :=
  match callee fd with
  | .syscall _ => some (s, kernelRet)
  | .monopoly n => monopolyLseek n offset whence s

/-! ## Calls on a path -/

/-- `__spdk_stat`: what is in the buffer afterwards, if it is filled in, and the value. -/
def spdkStat (kernel : Option Stat × Int) (findDir : FindDir) (openErrno : Int) (file : CStr)
    (s : Fs g) : Option (Fs g × Option Stat × Int) :=
  if !spdkPtopBlobfile file then some (s, kernel) else monopolyStat findDir openErrno file s

/-- `__spdk_unlink` -/
def spdkUnlink (kernelRet : Int) (findDir : FindDir) (deleteErrno undef : Int) (pathname : CStr)
    (s : Fs g) : Option (Fs g × Int) :=
  if !spdkPtopBlobfile pathname then some (s, kernelRet)
  else monopolyUnlink findDir deleteErrno undef pathname s

/-! ## The calls together -/

/-- One call and the answers it gets, the kernel's first. -/
inductive InterfaceCall where
  | openPath (kernelFd : Int) (ans : CreateAnswer) (openErrno : Int) (file : CStr)
      (oflag : BitVec 32)
  | close (kernelRet closeErrno fd : Int)
  | read (kernel : Mem × Int) (io : Nat → IoAnswer) (fd : Int) (buf : Mem) (nbytes : Nat)
      (registered : Bool)
  | write (kernelRet : Int) (io : Nat → WriteAnswer) (fd : Int) (buf : Mem) (nbytes : Nat)
      (registered : Bool)
  | lseek (kernelRet fd offset whence : Int)

/-- The state after the call and the value it returns. -/
def InterfaceCall.run (s : Fs g) : InterfaceCall → Option (Fs g × Int)
  | .openPath kernelFd ans openErrno file oflag => spdkOpen kernelFd ans openErrno file oflag s
  | .close kernelRet closeErrno fd => spdkClose kernelRet closeErrno fd s
  | .read kernel io fd buf nbytes registered =>
      (spdkRead kernel io fd buf nbytes registered s).map fun r => (r.1, r.2.2)
  | .write kernelRet io fd buf nbytes registered =>
      (spdkWrite kernelRet io fd buf nbytes registered s).map fun r => (r.1, r.2.2)
  | .lseek kernelRet fd offset whence => spdkLseek kernelRet fd offset whence s

/-- The descriptor the call is on. -/
def InterfaceCall.fd : InterfaceCall → Option Int
  | .openPath .. => none
  | .close _ _ fd | .read _ _ fd _ _ _ | .write _ _ fd _ _ _ | .lseek _ fd _ _ => some fd

/-! ## How an open of a blob file ends -/

/-- Entry `i` of the table is in use and holds a file object. -/
def Fs.OpenEntry (s : Fs g) (i : Nat) : Prop :=
  s.fdtable.used i = true ∧ ∃ f, s.fdtable.file i = some f ∧ (s.files f).isSome

/-- A create or an open that gets as far as asking for a descriptor returns the entry that holds
the new file object, exactly when the table has one to offer. -/
theorem Fs.entry_of_getFd {s s' : Fs g} {t : Fdtable} {ret : Int}
    (ht : getFdFromTable s.fdtable = some (t, ret))
    (hfd : s'.fdtable = t.install ret s.nextFile) (hfile : (s'.files s.nextFile).isSome) :
    (ret = -1 ∧ ¬ s.fdtable.Offers ∧ s'.fdtable = s.fdtable) ∨
      ∃ i : Nat, ret = i ∧ s.fdtable.Offers ∧ s'.OpenEntry i := by
  by_cases hne : ret = -1
  · subst hne
    refine Or.inl ⟨rfl, fun hoff => ?_, ?_⟩
    · obtain ⟨t', fd, h, hfd⟩ := hoff.getFd
      cases h.symm.trans ht
      exact hfd rfl
    · rw [hfd, Fdtable.install, if_pos rfl]
      rcases getFdFromTable_cases ht with ⟨-, rfl⟩ | ⟨i, hi, -⟩
      · rfl
      · omega
  · right
    have hentry := Fdtable.install_file ht hne s.nextFile
    have hoff := Fdtable.Offers.of_getFd ht hne
    rcases getFdFromTable_cases ht with ⟨hneg, -⟩ | ⟨i, rfl, -, -, -, rfl⟩
    · exact absurd hneg hne
    · refine ⟨i, rfl, hoff, ?_, s.nextFile, ?_, hfile⟩
      · rw [hfd, Fdtable.install, if_neg hne]
        exact Function.update_self ..
      · rw [hfd]
        exact hentry

/-- A create that does not find its name ends there; one that does changes nothing. -/
theorem monopolyCreate_entry {ans : CreateAnswer} {name : CStr} {s s' : Fs g} {ret : Int}
    (h : monopolyCreate ans name s = some (s', ret)) :
    (ret = -1 ∧ s'.fdtable = s.fdtable ∧ (s' = s ∧ spdkfsDirLookup s.workdir name ≠ -1 ∨
        ¬ s.fdtable.Offers)) ∨
      ∃ i : Nat, ret = i ∧ s.fdtable.Offers ∧ s'.OpenEntry i := by
  rcases monopolyCreate_cases h with ⟨hfound, rfl, rfl⟩ |
    ⟨bs, blob, ok, b, dir, t, -, -, -, -, ht, hs'⟩
  · exact Or.inl ⟨rfl, rfl, Or.inl ⟨rfl, hfound⟩⟩
  · have hfd : s'.fdtable = t.install ret s.nextFile := by rw [hs']
    have hfile : (s'.files s.nextFile).isSome := by simp [hs']
    rcases Fs.entry_of_getFd ht hfd hfile with ⟨rfl, hno, hsame⟩ | hentry
    · exact Or.inl ⟨rfl, hsame, Or.inr hno⟩
    · exact Or.inr hentry

/-- So does an open that finds its name. -/
theorem monopolyOpen_entry {openErrno : Int} {name : CStr} {s s' : Fs g} {ret : Int}
    (h : monopolyOpen openErrno name s = some (s', ret)) :
    (ret = -1 ∧ (spdkfsDirLookup s.workdir name = -1 ∨ ¬ s.fdtable.Offers)) ∨
      ∃ i : Nat, ret = i ∧ s.fdtable.Offers ∧ s'.OpenEntry i := by
  rcases monopolyOpen_cases h with ⟨hnone, rfl, rfl⟩ |
    ⟨i, -, b, t, -, -, -, -, ht, hfd, -, -, hfiles⟩
  · exact Or.inl ⟨rfl, Or.inl hnone⟩
  · have hfile : (s'.files s.nextFile).isSome := by simp [hfiles]
    rcases Fs.entry_of_getFd ht hfd hfile with ⟨rfl, hno, -⟩ | hentry
    · exact Or.inl ⟨rfl, Or.inr hno⟩
    · exact Or.inr hentry

/-- The flags of an open do not matter. -/
theorem spdkOpen_eq {kernelFd : Int} {ans : CreateAnswer} {openErrno : Int} {file : CStr}
    {oflag : BitVec 32} {s : Fs g} (hblob : spdkPtopBlobfile file = true) :
    spdkOpen kernelFd ans openErrno file oflag s =
      if s.fdtable.fileCount > spdkMaxFileCnt then some (s, -1)
      else (monopolyCreate ans file s).bind fun r =>
        if r.2 = -1 then (monopolyOpen openErrno file r.1).map fun o => (o.1, TESTFD + o.2)
        else some (r.1, TESTFD + r.2) := by
  have hflag : oflag ||| O_CREAT ≠ 0 := fun h0 => absurd (BitVec.or_eq_zero_iff.mp h0).2 (by decide)
  unfold spdkOpen
  rw [hblob, if_neg (by decide), if_pos hflag]

/-- An open of a blob file returns -1 when the count has passed the size of the table. Otherwise
it returns an open entry plus `TESTFD` if the table has one to offer, and `TESTFD - 1` if not. -/
theorem spdkOpen_cases {kernelFd : Int} {ans : CreateAnswer} {openErrno : Int} {file : CStr}
    {oflag : BitVec 32} {s s' : Fs g} {ret : Int} (hblob : spdkPtopBlobfile file = true)
    (h : spdkOpen kernelFd ans openErrno file oflag s = some (s', ret)) :
    (s.fdtable.fileCount > spdkMaxFileCnt ∧ ret = -1) ∨
      (s.fdtable.fileCount ≤ spdkMaxFileCnt ∧ ¬ s.fdtable.Offers ∧ ret = TESTFD - 1) ∨
      (s.fdtable.Offers ∧ ∃ i : Nat, ret = TESTFD + i ∧ s'.OpenEntry i) := by
  rw [spdkOpen_eq hblob] at h
  split at h
  · next hfull =>
      cases h
      exact Or.inl ⟨hfull, rfl⟩
  · next hroom =>
      right
      obtain ⟨⟨s₁, fd⟩, hcreate, h⟩ := Option.bind_eq_some_iff.mp h
      rcases monopolyCreate_entry hcreate with ⟨rfl, hsame, hwhy⟩ | ⟨i, rfl, hoff, hentry⟩
      · rw [if_pos rfl] at h
        obtain ⟨⟨s₂, fd⟩, hopen, heq⟩ := Option.map_eq_some_iff.mp h
        cases heq
        rcases monopolyOpen_entry hopen with ⟨rfl, hno⟩ | ⟨i, rfl, hoff, hentry⟩
        · refine Or.inl ⟨not_lt.mp hroom, ?_, rfl⟩
          rcases hwhy with ⟨rfl, hfound⟩ | hno'
          · exact hno.resolve_left hfound
          · exact hno'
        · exact Or.inr ⟨hsame ▸ hoff, i, rfl, hentry⟩
      · rw [if_neg (by omega)] at h
        cases h
        exact Or.inr ⟨hoff, i, rfl, hentry⟩

end BlobTopFs
