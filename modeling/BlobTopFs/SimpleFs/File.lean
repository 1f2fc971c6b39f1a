import BlobTopFs.SimpleFs.BlobOp

/-!
# `file.c`: one open file

`simple_fs_read` and `simple_fs_write` see a file object, the record its `file_persist`
points to and the blob it has open. An `OpenFile` is these together, so that the functions
here are functions on one value; `MonopolyOps` takes an `OpenFile` out of the file system's
state and puts it back.
-/

namespace BlobTopFs

open Machine

variable {g : Geometry}

/-- A file object, its blob, and the log of requests. -/
structure OpenFile (g : Geometry) where
  file : SpdkfsFile
  blob : Blob g
  log : List Event

/-- The record of an attribute that was never set. `simple_fs_open` asserts that there is
one, so nothing reads this. -/
def SpdkfsFilePersistCtx.unset : SpdkfsFilePersistCtx := ⟨0, 0, 0, 0, 0, 0, 0⟩

namespace OpenFile

/-- `*file->file_persist` -/
def persist (v : OpenFile g) : SpdkfsFilePersistCtx :=
  match v.file.filePersist with
  | .own p => p
  | .xattr => v.blob.xattrs.filePersistent.getD .unset

/-- `*file->file_persist = p`: through the pointer, so that an opened file changes the
value the blobstore holds. -/
def setPersist (v : OpenFile g) (p : SpdkfsFilePersistCtx) : OpenFile g :=
  match v.file.filePersist with
  | .own _ => { v with file := { v.file with filePersist := .own p } }
  | .xattr =>
      { v with blob := { v.blob with xattrs := { v.blob.xattrs with filePersistent := some p } } }

/-- `file->f_pos = pos` -/
def setPos (v : OpenFile g) (pos : Int) : OpenFile g :=
  { v with file := { v.file with fPos := pos } }

/-- `spdk_blob_set_xattr(file->_blob, "file_persistent", file->file_persist, ..)` -/
def storePersist (v : OpenFile g) : OpenFile g :=
  { v with blob := v.blob.setFilePersistent v.persist }

/-- The effect of a completed data request on the file's blob and the log. -/
def afterIo (v : OpenFile g) (d : IoDone g) : OpenFile g :=
  { v with blob := d.blob, log := d.event :: v.log }

end OpenFile

/-- `get_blob_size` -/
def getBlobSize (b : Blob g) : Nat := u64 (b.clusters * g.clusterSize)

/-- What a transfer of one buffer leaves: the file, the buffer, and the return value. -/
structure Transfer (g : Geometry) where
  view : OpenFile g
  buffer : Mem
  ret : Int

/-- `simple_fs_read` -/
def simpleFsRead (ans : IoAnswer) (v : OpenFile g) (size : Nat) (buffer : Mem) :
    Option (Transfer g) :=
  -- the assertion, which is on 512 and not on the io_unit
  if size % 512 ≠ 0 then none
  -- all or nothing: a read that ends behind `f_size` is refused whole
  else if u64 (v.file.fPos + size) > v.persist.fSize then some ⟨v, buffer, 0⟩
  else
    let d := genericBlobIo ans v.file.blob v.blob size v.file.fPos buffer true
    let w := v.afterIo d
    if d.ok then
      some ⟨(w.setPos (s64 (v.file.fPos + size))).storePersist, d.buffer, s64 size⟩
    -- position and record stay, but a failed request may have left its mark in the buffer
    else some ⟨w, d.buffer, 0⟩

/-- How the two requests of a write end. -/
structure WriteAnswer where
  resize : ResizeAnswer
  io : IoAnswer

/-- Both go through. -/
def WriteAnswer.done : WriteAnswer := ⟨⟨0, 0⟩, .done⟩

namespace OpenFile

/-- The first statement of `simple_fs_write`: one more cluster if the write does not fit. -/
def grow (ans : ResizeAnswer) (v : OpenFile g) (size : Nat) : Option (OpenFile g) :=
  let fileMaxSize := getBlobSize v.blob
  if u64 (v.file.fPos + size) > fileMaxSize then
    -- one cluster, however far behind the end the write lies
    (genericBlobResize ans v.file.blob v.blob (u64 (fileMaxSize + g.clusterSize))).map
      fun d => { v with blob := d.blob, log := d.events ++ v.log }
  else some v

/-- `f_size` is raised to the position the write starts at, and the write is counted. -/
def noteWrite (v : OpenFile g) : OpenFile g :=
  let p := v.persist
  v.setPersist
    { p with
      fSize := if u64 v.file.fPos > p.fSize then u64 v.file.fPos else p.fSize
      iWritecount := u32 (p.iWritecount + 1) }

end OpenFile

/-- `simple_fs_write` -/
def simpleFsWrite (ans : WriteAnswer) (v : OpenFile g) (size : Nat) (buffer : Mem) :
    Option (Transfer g) :=
  (v.grow ans.resize size).map fun u =>
    -- noted before the request, and so for one that fails too
    let u := u.noteWrite
    let d := genericBlobIo ans.io u.file.blob u.blob size u.file.fPos buffer false
    let w := u.afterIo d
    if d.ok then ⟨(w.setPos (s64 (u.file.fPos + size))).storePersist, buffer, s64 size⟩
    else ⟨w, buffer, 0⟩

/-! ## Reading the state back

The setters above, seen through the fields that matter to their callers. -/

namespace OpenFile

@[simp] theorem setPersist_persist (v : OpenFile g) (p : SpdkfsFilePersistCtx) :
    (v.setPersist p).persist = p := by
  unfold setPersist persist
  cases h : v.file.filePersist with
  | own q => rfl
  | xattr => simp [h]

@[simp] theorem setPersist_fPos (v : OpenFile g) (p : SpdkfsFilePersistCtx) :
    (v.setPersist p).file.fPos = v.file.fPos := by
  unfold setPersist
  split <;> rfl

@[simp] theorem setPersist_fileBlob (v : OpenFile g) (p : SpdkfsFilePersistCtx) :
    (v.setPersist p).file.blob = v.file.blob := by
  unfold setPersist
  split <;> rfl

@[simp] theorem setPersist_data (v : OpenFile g) (p : SpdkfsFilePersistCtx) :
    (v.setPersist p).blob.data = v.blob.data := by
  unfold setPersist
  split <;> rfl

@[simp] theorem setPersist_clusters (v : OpenFile g) (p : SpdkfsFilePersistCtx) :
    (v.setPersist p).blob.clusters = v.blob.clusters := by
  unfold setPersist
  split <;> rfl

@[simp] theorem setPersist_openRef (v : OpenFile g) (p : SpdkfsFilePersistCtx) :
    (v.setPersist p).blob.openRef = v.blob.openRef := by
  unfold setPersist
  split <;> rfl

@[simp] theorem setPos_persist (v : OpenFile g) (pos : Int) :
    (v.setPos pos).persist = v.persist := rfl

@[simp] theorem setPos_fPos (v : OpenFile g) (pos : Int) :
    (v.setPos pos).file.fPos = pos := rfl

@[simp] theorem setPos_fileBlob (v : OpenFile g) (pos : Int) :
    (v.setPos pos).file.blob = v.file.blob := rfl

@[simp] theorem setPos_blob (v : OpenFile g) (pos : Int) : (v.setPos pos).blob = v.blob := rfl

@[simp] theorem storePersist_persist (v : OpenFile g) : v.storePersist.persist = v.persist := by
  unfold storePersist
  cases h : v.file.filePersist with
  | own p => simp [persist, h]
  | xattr => simp [persist, h, Blob.setFilePersistent]

@[simp] theorem storePersist_file (v : OpenFile g) : v.storePersist.file = v.file := rfl

@[simp] theorem storePersist_data (v : OpenFile g) :
    v.storePersist.blob.data = v.blob.data := rfl

@[simp] theorem storePersist_clusters (v : OpenFile g) :
    v.storePersist.blob.clusters = v.blob.clusters := rfl

@[simp] theorem storePersist_openRef (v : OpenFile g) :
    v.storePersist.blob.openRef = v.blob.openRef := rfl

@[simp] theorem afterIo_file (v : OpenFile g) (d : IoDone g) : (v.afterIo d).file = v.file := rfl

@[simp] theorem afterIo_blob (v : OpenFile g) (d : IoDone g) : (v.afterIo d).blob = d.blob := rfl

end OpenFile

/-- The product in `get_blob_size` does not wrap. -/
@[simp] theorem getBlobSize_eq (b : Blob g) : getBlobSize b = b.capacity := by
  have h := b.capacity_lt
  unfold Blob.capacity at *
  unfold getBlobSize u64
  push_cast
  omega

end BlobTopFs
