import BlobTopFs.Lib.Machine
import BlobTopFs.Fs.Types

/-!
# The blobstore

SPDK is not part of the repository. This is what the file system relies on, one function
for each request it makes: a request that SPDK accepts has the documented effect, a request
it cannot accept (a range past the end of the blob, a blob that does not exist, a delete of
an open blob) reports an error and has none, and beyond that SPDK may fail any request for
reasons of its own. Those reasons are the *answers* below, arguments of every operation, so
that what is proved for all answers holds for every pattern of failures.

A blob keeps its metadata twice: `xattrs` is what `spdk_blob_get_xattr_value` shows and `clusters`
what a resize has set, `disk` and `diskClusters` are what survives a restart.
`spdk_blob_set_xattr` marks the attributes as changed, and a metadata sync, or a close, which makes
one, writes the changed ones and the number of clusters to disk.
-/

namespace BlobTopFs

open Machine

def EINVAL : Int := 22
def ENOENT : Int := 2
def EBADF : Int := 9
def EBUSY : Int := 16
def ENOSPC : Int := 28

/-! ## Blobs -/

structure Xattrs where
  filePersistent : Option SpdkfsFilePersistCtx
  dirPersistent : Option SpdkfsDirPersistCtx
  deriving DecidableEq

/-- A blob: its clusters, of which the device has no more than `totalClusters`, in memory and on
disk, their bytes, the references `spdk_bs_open_blob` has handed out, and its attributes. -/
structure Blob (g : Geometry) where
  clusters : Nat
  clusters_le : clusters ≤ g.totalClusters
  diskClusters : Nat
  diskClusters_le : diskClusters ≤ g.totalClusters
  data : Mem
  openRef : Nat
  xattrs : Xattrs
  disk : Xattrs
  xattrDirty : Bool

variable {g : Geometry}

/-- The number of bytes the blob's clusters hold. -/
def Blob.capacity (b : Blob g) : Nat := b.clusters * g.clusterSize

/-- The number of bytes that the clusters on disk hold. -/
def Blob.diskCapacity (b : Blob g) : Nat := b.diskClusters * g.clusterSize

theorem Blob.capacity_lt (b : Blob g) : b.capacity < 2 ^ 63 :=
  Nat.lt_of_le_of_lt (Nat.mul_le_mul_right _ b.clusters_le) g.device_lt

/-- A blob as `spdk_bs_create_blob` leaves it: no clusters, no attributes. The bytes are
those its clusters will turn out to hold when it is resized. -/
def Blob.fresh (content : Mem) : Blob g where
  clusters := 0
  clusters_le := Nat.zero_le _
  diskClusters := 0
  diskClusters_le := Nat.zero_le _
  data := content
  openRef := 0
  xattrs := ⟨none, none⟩
  disk := ⟨none, none⟩
  xattrDirty := false

/-! ## Answers and the request log -/

/-- How one data request ends when its range is valid. A failed one may leave bytes of its
own choosing in the memory it was writing to, `junk`, or leave that memory alone. -/
structure IoAnswer where
  bserrno : Int
  junk : Option Mem

/-- The request goes through. -/
def IoAnswer.done : IoAnswer := ⟨0, none⟩

/-- How a resize and the metadata sync that follows it end. -/
structure ResizeAnswer where
  resizeErrno : Int
  syncErrno : Int

/-- The requests handed to the blobstore. A data request records the byte length the
caller gave next to the io_units it was turned into. -/
inductive Request where
  | createBlob
  | openBlob (id : BlobId)
  | closeBlob (id : BlobId)
  | deleteBlob (id : BlobId)
  | resize (id : BlobId) (clusters : Nat)
  | syncMd (id : BlobId)
  | ioRead (id : BlobId) (offset length size : Nat)
  | ioWrite (id : BlobId) (offset length size : Nat)
  deriving DecidableEq

/-- A request and the status it completed with. -/
structure Event where
  request : Request
  bserrno : Int
  deriving DecidableEq

/-! ## Requests on one blob -/

/-- The io_units `[offset, offset + length)` exist. -/
def Blob.inRange (b : Blob g) (offset length : Nat) : Bool :=
  (offset + length) * g.ioUnit ≤ b.capacity

/-- What a failed transfer leaves in the memory it was writing to. -/
def IoAnswer.torn (ans : IoAnswer) (m : Mem) (off len : Nat) : Mem :=
  match ans.junk with
  | none => m
  | some j => m.write off len j

/-- `spdk_blob_io_read` -/
def spdkBlobIoRead (ans : IoAnswer) (b : Blob g) (buffer : Mem) (offset length : Nat) :
    Mem × Int :=
  if !b.inRange offset length then (buffer, -EINVAL)
  else if ans.bserrno ≠ 0 then (ans.torn buffer 0 (length * g.ioUnit), ans.bserrno)
  else (buffer.write 0 (length * g.ioUnit) (b.data.shift (offset * g.ioUnit)), 0)

/-- `spdk_blob_io_write` -/
def spdkBlobIoWrite (ans : IoAnswer) (b : Blob g) (buffer : Mem) (offset length : Nat) :
    Blob g × Int :=
  if !b.inRange offset length then (b, -EINVAL)
  else if ans.bserrno ≠ 0 then
    ({ b with data := ans.torn b.data (offset * g.ioUnit) (length * g.ioUnit) }, ans.bserrno)
  else ({ b with data := b.data.write (offset * g.ioUnit) (length * g.ioUnit) buffer }, 0)

/-- `spdk_blob_resize`. That other blobs have the free clusters is an answer, as any other error
is. -/
def spdkBlobResize (e : Int) (b : Blob g) (n : Nat) : Blob g × Int :=
  if e ≠ 0 then (b, e)
  else if h : n ≤ g.totalClusters then ({ b with clusters := n, clusters_le := h }, 0)
  else (b, -ENOSPC)

/-- What a sync writes: the number of clusters, and the attributes, if `spdk_blob_set_xattr`
changed them. -/
def Blob.synced (b : Blob g) : Blob g :=
  { b with
    diskClusters := b.clusters
    diskClusters_le := b.clusters_le
    disk := if b.xattrDirty then b.xattrs else b.disk
    xattrDirty := false }

/-- `spdk_blob_sync_md` -/
def spdkBlobSyncMd (e : Int) (b : Blob g) : Blob g × Int :=
  if e ≠ 0 then (b, e) else (b.synced, 0)

/-- `spdk_blob_set_xattr(blob, "file_persistent", ..)` -/
def Blob.setFilePersistent (b : Blob g) (v : SpdkfsFilePersistCtx) : Blob g :=
  { b with xattrs := { b.xattrs with filePersistent := some v }, xattrDirty := true }

/-- `spdk_blob_set_xattr(blob, "dir_persistent", ..)` -/
def Blob.setDirPersistent (b : Blob g) (v : SpdkfsDirPersistCtx) : Blob g :=
  { b with xattrs := { b.xattrs with dirPersistent := some v }, xattrDirty := true }

/-! ## Requests on the blobstore -/

/-- The blobs that exist, and the requests made so far, the latest first. -/
structure Blobstore (g : Geometry) where
  blobs : BlobId → Option (Blob g)
  log : List Event

namespace Blobstore

def setBlob (bs : Blobstore g) (id : BlobId) (b : Blob g) : Blobstore g :=
  { bs with blobs := Function.update bs.blobs id (some b) }

def record (bs : Blobstore g) (request : Request) (bserrno : Int) : Blobstore g :=
  { bs with log := ⟨request, bserrno⟩ :: bs.log }

@[simp] theorem record_blobs (bs : Blobstore g) (r : Request) (e : Int) :
    (bs.record r e).blobs = bs.blobs := rfl

@[simp] theorem setBlob_self (bs : Blobstore g) (id : BlobId) (b : Blob g) :
    (bs.setBlob id b).blobs id = some b := Function.update_self ..

theorem setBlob_of_ne (bs : Blobstore g) {id id' : BlobId} (b : Blob g) (h : id' ≠ id) :
    (bs.setBlob id b).blobs id' = bs.blobs id' := Function.update_of_ne h ..

theorem setBlob_blobs (bs : Blobstore g) (id id' : BlobId) (b : Blob g) :
    (bs.setBlob id b).blobs id' = if id' = id then some b else bs.blobs id' :=
  Function.update_apply ..

/-- A `struct spdk_blob *` may be used while its blob has an open reference. -/
def opened (bs : Blobstore g) (id : BlobId) : Option (Blob g) :=
  (bs.blobs id).filter fun b => 0 < b.openRef

theorem opened_eq_some {bs : Blobstore g} {id : BlobId} {b : Blob g} :
    bs.opened id = some b ↔ bs.blobs id = some b ∧ 0 < b.openRef := by
  simp [opened, Option.filter_eq_some_iff]

end Blobstore

/-- `spdk_bs_create_blob`: SPDK picks the id. -/
def spdkBsCreateBlob (e : Int) (id : BlobId) (content : Mem) (bs : Blobstore g) :
    Blobstore g × Int :=
  if e ≠ 0 then (bs.record .createBlob e, e)
  else ((bs.setBlob id (Blob.fresh content)).record .createBlob 0, 0)

/-- A further reference to a blob; the first one reads the attributes from disk. -/
def Blob.opening (b : Blob g) : Blob g :=
  { b with
    openRef := b.openRef + 1
    xattrs := if b.openRef = 0 then b.disk else b.xattrs }

/-- `spdk_bs_open_blob` -/
def spdkBsOpenBlob (e : Int) (id : BlobId) (bs : Blobstore g) : Blobstore g × Int :=
  match bs.blobs id with
  | none => (bs.record (.openBlob id) (if e ≠ 0 then e else -ENOENT),
      if e ≠ 0 then e else -ENOENT)
  | some b =>
      if e ≠ 0 then (bs.record (.openBlob id) e, e)
      else ((bs.setBlob id b.opening).record (.openBlob id) 0, 0)

/-- The metadata is synced, and there is one reference less. -/
def Blob.closing (b : Blob g) : Blob g := { b.synced with openRef := b.openRef - 1 }

@[simp] theorem Blob.closing_clusters (b : Blob g) : b.closing.clusters = b.clusters := rfl

@[simp] theorem Blob.closing_data (b : Blob g) : b.closing.data = b.data := rfl

@[simp] theorem Blob.closing_xattrs (b : Blob g) : b.closing.xattrs = b.xattrs := rfl

/-- What a close leaves on disk. -/
theorem Blob.closing_disk (b : Blob g) :
    b.closing.disk = if b.xattrDirty then b.xattrs else b.disk := rfl

@[simp] theorem Blob.closing_diskClusters (b : Blob g) : b.closing.diskClusters = b.clusters := rfl

/-- `spdk_blob_close` -/
def spdkBlobClose (e : Int) (id : BlobId) (bs : Blobstore g) : Blobstore g × Int :=
  match bs.opened id with
  | none => (bs.record (.closeBlob id) (-EBADF), -EBADF)
  | some b =>
      if e ≠ 0 then (bs.record (.closeBlob id) e, e)
      else ((bs.setBlob id b.closing).record (.closeBlob id) 0, 0)

/-- `spdk_bs_delete_blob`: an open blob stays. -/
def spdkBsDeleteBlob (e : Int) (id : BlobId) (bs : Blobstore g) : Blobstore g × Int :=
  match bs.blobs id with
  | none => (bs.record (.deleteBlob id) (-ENOENT), -ENOENT)
  | some b =>
      if e ≠ 0 then (bs.record (.deleteBlob id) e, e)
      else if 0 < b.openRef then (bs.record (.deleteBlob id) (-EBUSY), -EBUSY)
      else ({ bs with blobs := Function.update bs.blobs id none }.record (.deleteBlob id) 0, 0)

end BlobTopFs
