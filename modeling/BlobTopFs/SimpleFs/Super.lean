import BlobTopFs.SimpleFs.MonopolyOps

/-!
# `super.c`: loading and unloading

A session begins with `load_root`, which makes the directory of an empty super blob and
reads that of any other, and ends with the directory close of `unload_simple_spdk_fs`. What
a session finds is what the one before left on disk.
-/

namespace BlobTopFs

variable {g : Geometry}

/-- The answers to a `load_root`: the directory's memory, the directory read, the time, what the
memory held that `malloc` and `spdk_malloc` handed out, and what the clusters of each blob will turn
out to hold that it has lost and gets again. -/
structure LoadAnswer where
  lost : BlobId → Mem
  mem : Option Mem
  io : IoAnswer
  now : Int
  raw : SpdkfsDir
  bounce : Mem

/-- The directory is read, and fresh memory is zero. -/
def LoadAnswer.done : LoadAnswer where
  lost := fun _ _ => 0
  mem := some fun _ => 0
  io := .done
  now := 0
  raw := ⟨0, false, ⟨0, 0, 0, 0⟩, fun _ => 0, false⟩
  bounce := fun _ => 0

/-- `load_root`, with the rest of `load_simple_spdk_fs`: no file object, an empty
descriptor table, and the root as the working directory. -/
def loadRoot (ans : LoadAnswer) (superBlob : BlobId) (bs : Blobstore g) : Option (Fs g) :=
  let root := { ans.raw with blob := superBlob }
  (bs.opened superBlob).bind fun b =>
    (if b.clusters = 0 then simpleDirCreate ans.now bs root
      else simpleDirRead ans.mem ans.io bs root).map fun r =>
        { bs := r.1
          files := fun _ => none
          nextFile := 0
          fdtable := .zero
          workdir := r.2
          buffer := ans.bounce }

/-- A blob when the blobstore is loaded: clusters and attributes are those on disk, and only the
super blob, which `init_spdk_filesystem` opens, has a reference. Clusters that were never synced
are gone, and what they held with them. -/
def Blob.loaded (openRef : Nat) (lost : Mem) (b : Blob g) : Blob g :=
  { b with
    clusters := b.diskClusters
    clusters_le := b.diskClusters_le
    data := fun q => if b.diskCapacity ≤ q ∧ q < b.capacity then lost q else b.data q
    openRef := openRef
    xattrs := b.disk
    xattrDirty := false }

/-- `spdk_bs_load` and the open of the super blob, on what the last session left. -/
def Blobstore.reload (superBlob : BlobId) (lost : BlobId → Mem) (bs : Blobstore g) :
    Blobstore g where
  blobs := fun id =>
    (bs.blobs id).map fun b => b.loaded (if id = superBlob then 1 else 0) (lost id)
  log := []

/-- `load_root` on what the last session left. -/
def loadSession (ans : LoadAnswer) (superBlob : BlobId) (bs : Blobstore g) : Option (Fs g) :=
  loadRoot ans superBlob (bs.reload superBlob ans.lost)

/-- What is on disk is as it was. -/
theorem Blob.loaded_data {openRef : Nat} {lost : Mem} {b : Blob g} {q : Nat}
    (h : q < b.diskCapacity) : (b.loaded openRef lost).data q = b.data q :=
  if_neg fun hq => absurd hq.1 (Nat.not_le.mpr h)

/-- A blobstore that `spdk_bs_init` has just made, with its super blob open. -/
def Blobstore.formatted (superBlob : BlobId) : Blobstore g where
  blobs := Function.update (fun _ => none) superBlob
    (some { Blob.fresh (fun _ => 0) with openRef := 1 })
  log := []

/-- The file system on a device that has just been formatted. -/
def Fs.formatted (ans : LoadAnswer) (superBlob : BlobId) : Fs g :=
  let p : SpdkfsDirPersistCtx := ⟨ans.now, 0, 0, superBlob⟩
  { bs := (Blobstore.formatted superBlob).setBlob superBlob
      (({ Blob.fresh (fun _ => 0) with openRef := 1 } : Blob g).setDirPersistent p)
    files := fun _ => none
    nextFile := 0
    fdtable := .zero
    workdir := { ans.raw with
      blob := superBlob, dirPersist := p, initialized := true, dirty := false }
    buffer := ans.bounce }

/-- The same with every answer the expected one. -/
abbrev Fs.empty (g : Geometry) : Fs g := .formatted .done 0

/-- Loading leaves all blobs but the super blob alone, and no descriptor open. -/
theorem loadRoot_spec {ans : LoadAnswer} {superBlob : BlobId} {bs : Blobstore g} {s : Fs g}
    (h : loadRoot ans superBlob bs = some s) :
    s.workdir.blob = superBlob ∧ s.fdtable = .zero ∧ (∀ f, s.files f = none) ∧
      ∀ id, id ≠ superBlob → s.bs.blobs id = bs.blobs id := by
  obtain ⟨b, hb, h⟩ := Option.bind_eq_some_iff.mp h
  obtain ⟨r, hr, rfl⟩ := Option.map_eq_some_iff.mp h
  split at hr
  · obtain ⟨b', -, rfl⟩ := Option.map_eq_some_iff.mp hr
    exact ⟨rfl, rfl, fun _ => rfl, fun id hid => Blobstore.setBlob_of_ne _ _ hid⟩
  · obtain ⟨b', -, hr⟩ := Option.bind_eq_some_iff.mp hr
    obtain ⟨p, -, hr⟩ := Option.bind_eq_some_iff.mp hr
    obtain ⟨m, -, rfl⟩ := Option.map_eq_some_iff.mp hr
    exact ⟨rfl, rfl, fun _ => rfl, fun _ _ => rfl⟩

theorem formatted_opened (superBlob : BlobId) :
    (Blobstore.formatted superBlob : Blobstore g).opened superBlob =
      some { Blob.fresh (fun _ => 0) with openRef := 1 } := by
  rw [Blobstore.opened_eq_some]
  exact ⟨by simp [Blobstore.formatted], Nat.one_pos⟩

/-- The root directory is one that `simple_dir_create` has made. -/
theorem simpleDirCreate_formatted (ans : LoadAnswer) (superBlob : BlobId) :
    simpleDirCreate ans.now (.formatted superBlob : Blobstore g)
        { ans.raw with blob := superBlob } =
      some ((Fs.formatted ans superBlob).bs, (Fs.formatted (g := g) ans superBlob).workdir) := by
  rw [simpleDirCreate, formatted_opened]
  rfl

/-- On an empty super blob `load_root` makes a directory. -/
theorem loadRoot_formatted (ans : LoadAnswer) (superBlob : BlobId) :
    loadRoot (g := g) ans superBlob (.formatted superBlob) = some (.formatted ans superBlob) := by
  have hempty : (Blob.fresh (g := g) (fun _ => 0)).clusters = 0 := rfl
  simp only [loadRoot, formatted_opened, Option.bind_some]
  rw [if_pos hempty, simpleDirCreate_formatted]
  rfl

/-- A load does not tell a formatted device from a reloaded one. -/
theorem reload_formatted (superBlob : BlobId) (lost : BlobId → Mem) :
    (Blobstore.formatted superBlob : Blobstore g).reload superBlob lost = .formatted superBlob := by
  unfold Blobstore.reload Blobstore.formatted
  congr 1
  funext id
  by_cases h : id = superBlob
  · subst h
    simp [Blob.loaded, Blob.fresh, Blob.capacity]
  · simp [h]

end BlobTopFs
