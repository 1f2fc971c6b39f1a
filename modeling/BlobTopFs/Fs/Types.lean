import BlobTopFs.Lib.Memory

/-!
# The data of `fs.h`

The structures the file layer, the directory layer and the descriptor table work on, with
the fields some modelled function reads or writes. An `unsigned int`, `size_t` or
`uint64_t` field is a `Nat` kept below its width by the functions that store to it, a
`loff_t` or `long` is an `Int`, and a blob id is a `UInt64`, since its eight bytes are laid
out in a directory entry.
-/

namespace BlobTopFs

/-! ## Constants -/

/-- `SPDK_MAX_FILE_CNT` -/
def spdkMaxFileCnt : Nat := 256

/-- `SPDK_MAX_NAME_COUNT` -/
def spdkMaxNameCount : Nat := 512

/-- `sizeof(struct spdkfs_dirent)`: the name field, then the eight bytes of the id. -/
def sizeofDirent : Nat := spdkMaxNameCount + 8

/-- `g_filesystem->_buffer.buf_size`, set by `load_simple_spdk_fs`. -/
def bufSize : Nat := 0x10000

/-- `POLLER_MAX_TIME`, `1e8` as an `int`. -/
def pollerMaxTime : Nat := 100000000

/-! ## The blobstore's sizes -/

/-- What `spdk_bs_get_io_unit_size` and `spdk_bs_get_cluster_size` report, and how many
clusters the device has. The io_unit is at most a page and so fits the `int` every caller
keeps it in, the cluster size is a `uint32_t`, and the device ends below `2 ^ 63`. -/
structure Geometry where
  ioUnit : Nat
  clusterSize : Nat
  totalClusters : Nat
  ioUnit_pos : 0 < ioUnit
  ioUnit_lt : ioUnit < 2 ^ 31
  clusterSize_pos : 0 < clusterSize
  clusterSize_lt : clusterSize < 2 ^ 32
  device_lt : totalClusters * clusterSize < 2 ^ 63

/-- The `Malloc0` device of `bdev.json` in clusters of SPDK's default size. -/
def Geometry.malloc0 : Geometry :=
  ⟨512, 0x100000, 16, by decide, by decide, by decide, by decide, by decide⟩

/-- The same device in blocks of 4 KiB. -/
def Geometry.malloc4k : Geometry :=
  ⟨4096, 0x100000, 16, by decide, by decide, by decide, by decide, by decide⟩

/-- A device with clusters of 2 GiB. -/
def Geometry.large : Geometry :=
  ⟨512, 0x80000000, 4, by decide, by decide, by decide, by decide, by decide⟩

/-! ## Persistent records -/

abbrev BlobId := UInt64

/-- `struct spdkfs_file_persist_ctx`, the value of a blob's `file_persistent` attribute. -/
structure SpdkfsFilePersistCtx where
  iUid : Nat
  iAtime : Int
  iMtime : Int
  iCtime : Int
  fSize : Nat
  iWritecount : Nat
  blobId : BlobId
  deriving DecidableEq

/-- `struct spdkfs_dir_persist_ctx`, the value of a blob's `dir_persistent` attribute. -/
structure SpdkfsDirPersistCtx where
  iCtime : Int
  dDirentCount : Nat
  dSize : Nat
  blobId : BlobId
  deriving DecidableEq

/-! ## Files and descriptors -/

/-- Where `file->file_persist` points: to a record of the file object's own, which
`simple_fs_create` allocates, or to the value the blobstore stores for the attribute, which
`spdk_blob_get_xattr_value` hands out in `simple_fs_open`. The second is read as the stored value at
all times: `spdk_blob_set_xattr` is taken to overwrite it in place. -/
inductive FilePersistPtr where
  | own (record : SpdkfsFilePersistCtx)
  | xattr
  deriving DecidableEq

/-- `struct spdkfs_file`. A `struct spdk_blob *` is named by the id of its blob: every open
of a blob that is open already hands out the same pointer. -/
structure SpdkfsFile where
  blob : BlobId
  filePersist : FilePersistPtr
  fPos : Int
  deriving DecidableEq

/-- The address of a file object. The program frees none, so `malloc` never repeats one. -/
abbrev FileId := Nat

/-- `struct fdtable` -/
structure Fdtable where
  fileCount : Nat
  used : Nat → Bool
  openFiles : Nat → Option FileId

/-- The table as a static object starts: all zero. -/
def Fdtable.zero : Fdtable := ⟨0, fun _ => false, fun _ => none⟩

/-! ## Directories -/

/-- `struct spdkfs_dir`. The record behind `dir_persist` is kept by value: after
`simple_dir_create` it is the directory's own, after `simple_dir_read` it is the cached
attribute, which no other object refers to, and in both cases only `spdk_blob_set_xattr`
makes it persistent. -/
structure SpdkfsDir where
  blob : BlobId
  initialized : Bool
  dirPersist : SpdkfsDirPersistCtx
  dirents : Mem
  dirty : Bool

/-- The file names `a` and `b`. -/
def nameA : CStr := ⟨[97], by decide⟩

def nameB : CStr := ⟨[98], by decide⟩

end BlobTopFs
