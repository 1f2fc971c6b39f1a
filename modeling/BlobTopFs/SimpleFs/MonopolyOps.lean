import BlobTopFs.SimpleFs.Dir
import BlobTopFs.SimpleFs.MonopolyIo

/-!
# `monopoly_ops.c`: the operations on the whole file system

The state is what the globals `g_filesystem`, `g_fdtable` and `g_workdir` reach. Every
operation takes the answers of SPDK and of the allocators as arguments, and has no result
when the process does not come back from it: a failed assertion, a NULL or dangling pointer
that is followed, or a descriptor scan without an end.

`find_dir`, which `monopoly_stat` and `monopoly_unlink` call, is defined nowhere in the
repository; it is the parameter `findDir`.
-/

namespace BlobTopFs

open Machine

variable {g : Geometry}

/-- What `find_dir(name, dir)` returns. -/
abbrev FindDir := CStr → SpdkfsDir → Int

structure Fs (g : Geometry) where
  bs : Blobstore g
  files : FileId → Option SpdkfsFile
  nextFile : FileId
  fdtable : Fdtable
  workdir : SpdkfsDir
  buffer : Mem

/-! ## The descriptor table -/

/-- The `for` loop of `get_fd_from_table` from index `i` on, for at most `fuel` rounds:
`none` if it is still running then, `some none` if it left at its end test. -/
def fdScan (used : Nat → Bool) (last : Nat) : (fuel i : Nat) → Option (Option Nat)
  | 0, _ => none
  | fuel + 1, i =>
      if i = last then some none
      else
        let i := if i = spdkMaxFileCnt then 0 else i
        if used i then fdScan used last fuel (u32 (i + 1)) else some (some i)

/-- In twice the size of the table the index has been everywhere it can get. -/
def fdScanFuel : Nat := 2 * spdkMaxFileCnt

/-- `get_fd_from_table` -/
def getFdFromTable (t : Fdtable) : Option (Fdtable × Int) :=
  if t.fileCount ≥ spdkMaxFileCnt then some (t, -1)
  else
    (fdScan t.used (u32 (t.fileCount - 1)) fdScanFuel t.fileCount).map fun
      | none => (t, -1)
      | some i =>
          ({ t with used := Function.update t.used i true, fileCount := u32 (t.fileCount + 1) }, i)

/-- `return_fd_to_table` -/
def returnFdToTable (fd : Nat) (t : Fdtable) : Fdtable :=
  { t with fileCount := u32 (t.fileCount - 1), used := Function.update t.used fd false }

/-- `g_fdtable.open_files[fd]`, for an index inside the array -/
def Fdtable.file (t : Fdtable) (fd : Int) : Option FileId :=
  if 0 ≤ fd ∧ fd < spdkMaxFileCnt then t.openFiles fd.toNat else none

/-! ## File objects in the state -/

namespace Fs

/-- The file object at `f` with the blob it has open. -/
def openFile (s : Fs g) (f : FileId) : Option (OpenFile g) :=
  (s.files f).bind fun file => (s.bs.opened file.blob).map fun b => ⟨file, b, s.bs.log⟩

/-- The state after an operation on the file object at `f`. -/
def putFile (s : Fs g) (f : FileId) (v : OpenFile g) : Fs g :=
  { s with
    files := Function.update s.files f (some v.file)
    bs := ({ s.bs with log := v.log } : Blobstore g).setBlob v.file.blob v.blob }

/-- A file object that `malloc` has just returned. -/
def addFile (s : Fs g) (file : SpdkfsFile) : Fs g :=
  { s with files := Function.update s.files s.nextFile (some file), nextFile := s.nextFile + 1 }

/-- The end of `monopoly_create` and `monopoly_open`: the new file object gets a
descriptor, or -1 is returned if there is none. -/
def installFile (s : Fs g) (file : SpdkfsFile) : Option (Fs g × Int) :=
  (getFdFromTable s.fdtable).map fun r =>
    let s' := s.addFile file
    -- the file object is left behind, and so is the reference on its blob
    if r.2 = -1 then ({ s' with fdtable := r.1 }, -1)
    else
      ({ s' with
          fdtable := { r.1 with
            openFiles := Function.update r.1.openFiles r.2.toNat (some s.nextFile) } }, r.2)

end Fs

/-! ## Creating and opening -/

/-- `simple_fs_create` on the blob `h`, in a record whose other fields `malloc` left as
`raw` -/
def simpleFsCreate (raw : SpdkfsFilePersistCtx) (now : Int) (h : BlobId) (bs : Blobstore g) :
    Option (Blobstore g × SpdkfsFile) :=
  (bs.opened h).map fun b =>
    let p := { raw with fSize := 0, blobId := h, iWritecount := 0, iCtime := now }
    (bs.setBlob h (b.setFilePersistent p), ⟨h, .own p, 0⟩)

/-- `simple_fs_open` on the blob `h`: the attribute must be there. -/
def simpleFsOpen (h : BlobId) (bs : Blobstore g) : Option SpdkfsFile :=
  (bs.opened h).bind fun b => b.xattrs.filePersistent.map fun _ => ⟨h, .xattr, 0⟩

/-- The answers to a `monopoly_create`: the status of the create and of the open, the id
SPDK gives the blob and the bytes its clusters will hold, what `malloc` left in the file
object's blob pointer and in the record, the time, and the directory's memory. -/
structure CreateAnswer where
  createErrno : Int
  openErrno : Int
  id : BlobId
  content : Mem
  garbage : Option BlobId
  raw : SpdkfsFilePersistCtx
  now : Int
  mem : DirentMem

/-- The blob gets the id `id`, and fresh memory is zero. -/
def CreateAnswer.done (id : BlobId) : CreateAnswer where
  createErrno := 0
  openErrno := 0
  id := id
  content := fun _ => 0
  garbage := none
  raw := .unset
  now := 0
  mem := ⟨some fun _ => 0, some fun _ => 0⟩

/-- `monopoly_create` -/
def monopolyCreate (ans : CreateAnswer) (name : CStr) (s : Fs g) : Option (Fs g × Int) :=
  if !s.workdir.initialized then none
  else if spdkfsDirLookup s.workdir name ≠ -1 then some (s, -1)
  else
    (blobCreate ans.createErrno ans.openErrno ans.id ans.content ans.garbage s.bs).bind fun c =>
      (simpleFsCreate ans.raw ans.now c.2.1 c.1).bind fun n =>
        (addDirent g ans.mem n.2.blob name s.workdir).bind fun dir =>
          ({ s with bs := n.1, workdir := dir } : Fs g).installFile n.2

/-- `monopoly_open`. After a failed open the blob pointer is NULL, and `simple_fs_open`
follows it. -/
def monopolyOpen (openErrno : Int) (name : CStr) (s : Fs g) : Option (Fs g × Int) :=
  let direntNum := spdkfsDirLookup s.workdir name
  if direntNum = -1 then some (s, -1)
  else
    let o := blobOpen openErrno (s.workdir.direntId direntNum.toNat) s.bs
    o.2.bind fun h =>
      (simpleFsOpen h o.1).bind fun file => ({ s with bs := o.1 } : Fs g).installFile file

/-! ## Closing -/

/-- `simple_fs_close`. Closing a blob that is closed already reports an error and does
nothing else. -/
def simpleFsClose (closeErrno : Int) (f : FileId) (file : SpdkfsFile) (s : Fs g) : Fs g :=
  let s := match s.openFile f with
    -- the attribute of a closed blob cannot be set
    | none => s
    | some v => s.putFile f v.storePersist
  { s with bs := (blobClose closeErrno file.blob s.bs).1 }

/-- `monopoly_close` -/
def monopolyClose (closeErrno : Int) (fd : Int) (s : Fs g) : Option (Fs g × Int) :=
  (s.fdtable.file fd).bind fun f =>
    (s.files f).map fun file =>
      let s := simpleFsClose closeErrno f file s
      ({ s with fdtable := returnFdToTable fd.toNat s.fdtable }, 0)

/-! ## Reading, writing, seeking -/

/-- `monopoly_read`: the state, the caller's buffer and the return value -/
def monopolyRead (io : Nat → IoAnswer) (fd : Int) (buf : Mem) (nbytes : Nat)
    (registered : Bool) (s : Fs g) : Option (Fs g × Mem × Int) :=
  (s.fdtable.file fd).bind fun f =>
    (s.openFile f).bind fun v =>
      (monopolyReadFile io v s.buffer buf nbytes registered).map fun r =>
        ({ s.putFile f r.view with buffer := r.bounce }, r.buf, r.ret)

/-- `monopoly_write` -/
def monopolyWrite (io : Nat → WriteAnswer) (fd : Int) (buf : Mem) (nbytes : Nat)
    (registered : Bool) (s : Fs g) : Option (Fs g × Mem × Int) :=
  (s.fdtable.file fd).bind fun f =>
    (s.openFile f).bind fun v =>
      (monopolyWriteFile io v s.buffer buf nbytes registered).map fun r =>
        ({ s.putFile f r.view with buffer := r.bounce }, r.buf, r.ret)

/-- `monopoly_lseek` -/
def monopolyLseek (fd : Int) (offset whence : Int) (s : Fs g) : Option (Fs g × Int) :=
  (s.fdtable.file fd).bind fun f =>
    (s.files f).map fun file =>
      let r := monopolyLseekFile g file offset whence
      ({ s with files := Function.update s.files f (some r.1) }, r.2)

/-! ## Stat and unlink -/

/-- The fields of `struct stat` that `monopoly_stat` fills in. -/
structure Stat where
  stIno : BlobId
  stSize : Nat
  stMtime : Int
  stAtime : Int
  stBlksize : Nat
  stUid : Nat
  deriving DecidableEq

/-- `monopoly_stat`: what `find_dir` returned becomes a blob id, and the blob is opened. -/
def monopolyStat (findDir : FindDir) (openErrno : Int) (name : CStr) (s : Fs g) :
    Option (Fs g × Option Stat × Int) :=
  let targetFileId := findDir name s.workdir
  if targetFileId = -1 then some (s, none, -1)
  else
    let o := blobOpen openErrno (UInt64.ofNat (u64 targetFileId)) s.bs
    -- nothing closes the blob again
    match o.2 with
    | none => some ({ s with bs := o.1 }, none, -1)
    | some h =>
        (o.1.opened h).bind fun b =>
          b.xattrs.filePersistent.map fun p =>
            ({ s with bs := o.1 },
              some ⟨h, p.fSize, p.iMtime, p.iAtime, g.ioUnit, p.iUid⟩, 0)

/-- `monopoly_unlink`. It ends without a `return`, so the value of a call that finds the
name is whatever the caller finds, `undef`. -/
def monopolyUnlink (findDir : FindDir) (deleteErrno undef : Int) (name : CStr) (s : Fs g) :
    Option (Fs g × Int) :=
  let direntIdx := findDir name s.workdir
  if direntIdx = -1 then some (s, -1)
  -- an index below -1 is outside the array
  else if direntIdx < 0 then none
  else
    let bs := (blobUnlink deleteErrno (s.workdir.direntId direntIdx.toNat) s.bs).1
    (removeDirent direntIdx.toNat s.workdir).map fun dir =>
      ({ s with bs := bs, workdir := dir }, undef)

end BlobTopFs
