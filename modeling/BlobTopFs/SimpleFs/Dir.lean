import BlobTopFs.SimpleFs.File

/-!
# `dir.c` and `add_dirent`: one directory

A directory is an array of `struct spdkfs_dirent` in a buffer of `d_size` bytes, of which
the first `d_dirent_count` entries count. The buffer is flat memory here, so that a name
that fills its field runs on into the id behind it, and a write past `d_size` lands behind
the buffer, where the next `spdk_realloc` does not look.
-/

namespace BlobTopFs

open Machine

variable {g : Geometry}

/-! ## Entries -/

/-- The offset of `dirents[i]` -/
def direntOff (i : Nat) : Nat := i * sizeofDirent

/-- `dirents[i]._id` -/
def SpdkfsDir.direntId (d : SpdkfsDir) (i : Nat) : BlobId :=
  readLe64 d.dirents (direntOff i + spdkMaxNameCount)

/-- `!strcmp(dirents[i]._name, name)` -/
def SpdkfsDir.direntIs (d : SpdkfsDir) (name : CStr) (i : Nat) : Bool :=
  strEq d.dirents (direntOff i) name.chars

/-- `spdkfs_dir_lookup` -/
def spdkfsDirLookup (d : SpdkfsDir) (name : CStr) : Int :=
  match (List.range d.dirPersist.dDirentCount).find? (d.direntIs name) with
  | some i => i
  | none => -1

/-! ## Adding and removing an entry -/

/-- What `spdk_malloc` and `spdk_realloc` return in `add_dirent`: the bytes of the new
buffer, or NULL. -/
structure DirentMem where
  malloc : Option Mem
  realloc : Option Mem

/-- The first allocation: a directory of size 0 gets one io_unit. -/
def SpdkfsDir.allocate (g : Geometry) (mem : DirentMem) (d : SpdkfsDir) :
    Option Mem × SpdkfsDirPersistCtx :=
  if d.dirPersist.dSize = 0 then (mem.malloc, { d.dirPersist with dSize := g.ioUnit })
  else (some d.dirents, d.dirPersist)

/-- The growth test, which compares a number of io_units with a number of bytes, and the
growth by one io_unit. What the buffer held is copied up to its old size. -/
def growDirents (g : Geometry) (mem : DirentMem) (buf : Option Mem) (p : SpdkfsDirPersistCtx) :
    Option Mem × SpdkfsDirPersistCtx :=
  if p.dSize / g.ioUnit ≤ p.dDirentCount * sizeofDirent then
    (mem.realloc.map fun m =>
        match buf with
        | none => m
        | some old => m.write 0 p.dSize old,
      { p with dSize := p.dSize + g.ioUnit })
  else (buf, p)

/-- The entry is filled in: the id, and as many bytes of the name as it has, without a
terminator. -/
def writeDirent (m : Mem) (i : Nat) (id : BlobId) (name : CStr) : Mem :=
  (m.write (direntOff i + spdkMaxNameCount) 8 (le64 id)).write (direntOff i)
    (min spdkMaxNameCount name.strlen) name.mem

/-- `add_dirent`. Writing through a NULL `dirents` ends the process. -/
def addDirent (g : Geometry) (mem : DirentMem) (id : BlobId) (name : CStr) (d : SpdkfsDir) :
    Option SpdkfsDir :=
  let a := d.allocate g mem
  let b := growDirents g mem a.1 a.2
  b.1.map fun m =>
    { d with
      dirty := true
      dirents := writeDirent m b.2.dDirentCount id name
      dirPersist := { b.2 with dDirentCount := b.2.dDirentCount + 1 } }

/-- `dirents[i] = dirents[i + 1]` for `left` indices from `i` on -/
def shiftDirents (m : Mem) : (left i : Nat) → Mem
  | 0, _ => m
  | left + 1, i =>
      shiftDirents (m.write (direntOff i) sizeofDirent (m.shift (direntOff (i + 1)))) left (i + 1)

/-- The removal in `monopoly_unlink`. The loop bound `d_dirent_count - 1` of an empty
directory wraps, and the loop leaves the buffer. -/
def removeDirent (idx : Nat) (d : SpdkfsDir) : Option SpdkfsDir :=
  if d.dirPersist.dDirentCount = 0 then none
  else some
    { d with
      dirents := shiftDirents d.dirents (d.dirPersist.dDirentCount - 1 - idx) idx
      dirPersist := { d.dirPersist with dDirentCount := d.dirPersist.dDirentCount - 1 } }

/-! ## Creating, reading, writing and closing a directory -/

/-- `simple_dir_create`, for the directory object `d` whose `blob` is set -/
def simpleDirCreate (now : Int) (bs : Blobstore g) (d : SpdkfsDir) :
    Option (Blobstore g × SpdkfsDir) :=
  (bs.opened d.blob).map fun b =>
    let p : SpdkfsDirPersistCtx := ⟨now, 0, 0, d.blob⟩
    (bs.setBlob d.blob (b.setDirPersistent p),
      { d with dirPersist := p, initialized := true, dirty := false })

/-- `simple_dir_read`. A missing attribute fails the assertion, a NULL buffer ends the
process, and what `generic_blob_io` returns is not looked at. -/
def simpleDirRead (mem : Option Mem) (ans : IoAnswer) (bs : Blobstore g) (d : SpdkfsDir) :
    Option (Blobstore g × SpdkfsDir) :=
  (bs.opened d.blob).bind fun b =>
    b.xattrs.dirPersistent.bind fun p =>
      mem.map fun m =>
        let io := genericBlobIo ans d.blob b p.dSize 0 m true
        ({ bs with log := io.event :: bs.log },
          { d with dirPersist := p, dirents := io.buffer, initialized := true, dirty := false })

/-- `simple_dir_write`. The flag is cleared first, and what `generic_blob_io` returns is not
looked at. -/
def simpleDirWrite (ans : IoAnswer) (bs : Blobstore g) (d : SpdkfsDir) :
    Option (Blobstore g × SpdkfsDir) :=
  if d.dirty then
    (bs.opened d.blob).map fun b =>
      let io := genericBlobIo ans d.blob (b.setDirPersistent d.dirPersist) d.dirPersist.dSize 0
        d.dirents false
      (({ bs with log := io.event :: bs.log } : Blobstore g).setBlob d.blob io.blob,
        { d with dirty := false })
  else some (bs, d)

/-- How the requests of `simple_dir_close` end. -/
structure DirCloseAnswer where
  resize : ResizeAnswer
  io : IoAnswer
  closeErrno : Int

/-- The resize in `simple_dir_close`: enough clusters for `d_size` bytes. -/
def SpdkfsDir.makeRoom (ans : ResizeAnswer) (d : SpdkfsDir) (b : Blob g) :
    Option (Blob g × List Event) :=
  if d.dirPersist.dSize > getBlobSize b then
    (genericBlobResize ans d.blob b d.dirPersist.dSize).map fun r => (r.blob, r.events)
  else some (b, [])

/-- `simple_dir_close` -/
def simpleDirClose (ans : DirCloseAnswer) (bs : Blobstore g) (d : SpdkfsDir) :
    Option (Blobstore g) :=
  if d.dirty then
    (bs.opened d.blob).bind fun b =>
      (d.makeRoom ans.resize b).map fun r =>
        -- the attribute is set whether or not the entries were written
        let io := genericBlobIo ans.io d.blob r.1 d.dirPersist.dSize 0 d.dirents false
        let saved := ({ bs with log := io.event :: (r.2 ++ bs.log) } : Blobstore g).setBlob d.blob
          (io.blob.setDirPersistent d.dirPersist)
        (blobClose ans.closeErrno d.blob saved).1
  -- a removal alone does not set `dirty`, and is not saved
  else some (blobClose ans.closeErrno d.blob bs).1

end BlobTopFs
