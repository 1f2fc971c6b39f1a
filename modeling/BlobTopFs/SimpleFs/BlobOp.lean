import BlobTopFs.Spdk.Blobstore

/-!
# `blob_op.c`: the blocking wrappers

Each wrapper sends one request to the SPDK thread, polls until its completion callback has
run and turns the status the callback left behind into a `bool`. Here the request is made
and completed in one go; `Async/Poller` models the polling, and says under which schedules
a wrapper may be taken to be what it is here.
-/

namespace BlobTopFs

open Machine

variable {g : Geometry}

/-- What the callbacks of a chain leave in `fs_errno`: a stage that fails ends the chain,
so the status is that of the first failing stage, or of the last stage. -/
def chainErrno (first second : Int) : Int := if first ≠ 0 then first else second

/-! ## Data requests -/

/-- A completed data request: the blob and the buffer after it, and the log entry. -/
structure IoDone (g : Geometry) where
  blob : Blob g
  buffer : Mem
  event : Event

/-- `io_blob`: byte length and offset become io_units. -/
def ioBlob (ans : IoAnswer) (id : BlobId) (b : Blob g) (rwSize : Nat) (rwOffset : Int)
    (rwBuffer : Mem) (read : Bool) : IoDone g :=
  let offset := u64 rwOffset / g.ioUnit
  let length := upperDiv rwSize g.ioUnit
  if read then
    let r := spdkBlobIoRead ans b rwBuffer offset length
    ⟨b, r.1, .ioRead id offset length rwSize, r.2⟩
  else
    let r := spdkBlobIoWrite ans b rwBuffer offset length
    ⟨r.1, rwBuffer, .ioWrite id offset length rwSize, r.2⟩

/-- What `generic_blob_io` returns: `!rw_ctx.blob_errno`. -/
def IoDone.ok (d : IoDone g) : Bool := d.event.bserrno == 0

/-- `generic_blob_io` -/
def genericBlobIo (ans : IoAnswer) (id : BlobId) (b : Blob g) (size : Nat) (offset : Int)
    (buffer : Mem) (read : Bool) : IoDone g :=
  ioBlob ans id b size offset buffer read

/-! ## Resizing -/

/-- A completed resize: the blob after it, the log entries, and what
`generic_blob_resize` returns. -/
structure ResizeDone (g : Geometry) where
  blob : Blob g
  events : List Event
  ok : Bool

/-- `generic_blob_resize`: a resize in whole clusters, and a metadata sync if it succeeds.
`assert(rw_ctx->rw_size)` stops the process on size 0. -/
def genericBlobResize (ans : ResizeAnswer) (id : BlobId) (b : Blob g) (size : Nat) :
    Option (ResizeDone g) :=
  if size = 0 then none
  else
    let n := upperDiv size g.clusterSize
    let r := spdkBlobResize ans.resizeErrno b n
    -- the chain ends with the stage that fails
    if r.2 ≠ 0 then some ⟨r.1, [⟨.resize id n, r.2⟩], false⟩
    else
      let y := spdkBlobSyncMd ans.syncErrno r.1
      some ⟨y.1, [⟨.syncMd id, y.2⟩, ⟨.resize id n, 0⟩], y.2 == 0⟩

/-! ## Creating, opening, closing, deleting -/

/-- `blob_create`: create, then open. The pointer that comes back is the caller's own
uninitialised one, `garbage`, unless the open ran; `assert(*blob)` stops the process when it
is NULL. -/
def blobCreate (createErr openErr : Int) (id : BlobId) (content : Mem)
    (garbage : Option BlobId) (bs : Blobstore g) : Option (Blobstore g × BlobId × Bool) :=
  let c := spdkBsCreateBlob createErr id content bs
  if c.2 ≠ 0 then garbage.map fun h => (c.1, h, false)
  else
    let o := spdkBsOpenBlob openErr id c.1
    -- the blob that was created stays, and nobody knows its id
    if o.2 ≠ 0 then garbage.map fun h => (o.1, h, false)
    else some (o.1, id, true)

/-- `blob_open`: on an error the callback is given a NULL blob and stores it. -/
def blobOpen (e : Int) (id : BlobId) (bs : Blobstore g) : Blobstore g × Option BlobId :=
  let o := spdkBsOpenBlob e id bs
  (o.1, if o.2 ≠ 0 then none else some id)

/-- `blob_close` -/
def blobClose (e : Int) (id : BlobId) (bs : Blobstore g) : Blobstore g × Bool :=
  let c := spdkBlobClose e id bs
  (c.1, c.2 == 0)

/-- `blob_unlink` -/
def blobUnlink (e : Int) (id : BlobId) (bs : Blobstore g) : Blobstore g × Bool :=
  let d := spdkBsDeleteBlob e id bs
  (d.1, d.2 == 0)

/-! ## What the wrappers do to the blobs -/

/-- A `blob_create` that SPDK does not fail: the blob is there and open. -/
theorem blobCreate_done {e e' : Int} {id blob : BlobId} {content : Mem} {garbage : Option BlobId}
    {bs bs' : Blobstore g} {ok : Bool} (he : e = 0) (he' : e' = 0)
    (h : blobCreate e e' id content garbage bs = some (bs', blob, ok)) :
    blob = id ∧ bs'.opened id = some (Blob.fresh content).opening ∧
      bs'.blobs = Function.update bs.blobs id (some (Blob.fresh content).opening) := by
  subst he he'
  simp only [blobCreate, spdkBsCreateBlob, ne_eq, not_true_eq_false, if_false,
    spdkBsOpenBlob, Blobstore.record_blobs, Blobstore.setBlob_self, Option.some.injEq,
    Prod.mk.injEq] at h
  obtain ⟨rfl, rfl, -⟩ := h
  refine ⟨rfl, ?_, ?_⟩
  · rw [Blobstore.opened_eq_some]
    exact ⟨Blobstore.setBlob_self .., Nat.succ_pos _⟩
  · show Function.update (Function.update bs.blobs id _) id _ = _
    rw [Function.update_idem]

/-- An open takes a reference, or changes no blob. -/
theorem blobOpen_cases (e : Int) (id : BlobId) (bs : Blobstore g) :
    ((blobOpen e id bs).2 = none ∧ (blobOpen e id bs).1.blobs = bs.blobs ∧
        (bs.blobs id = none ∨ e ≠ 0)) ∨
      (blobOpen e id bs).2 = some id ∧ ∃ b, bs.blobs id = some b ∧
        (blobOpen e id bs).1.blobs = Function.update bs.blobs id (some b.opening) := by
  unfold blobOpen spdkBsOpenBlob
  cases hb : bs.blobs id with
  | none =>
      refine Or.inl ⟨if_pos ?_, rfl, Or.inl rfl⟩
      show (if e ≠ 0 then e else -ENOENT) ≠ 0
      split
      · assumption
      · exact (show (-ENOENT : Int) ≠ 0 by decide)
  | some b =>
      by_cases he : e = 0
      · simp only [he, ne_eq, not_true_eq_false, if_false]
        exact Or.inr ⟨trivial, b, rfl, rfl⟩
      · simp only [ne_eq, he, not_false_eq_true, if_true]
        exact Or.inl ⟨trivial, rfl, Or.inr trivial⟩

/-- An open succeeds if the blob is there and SPDK does not fail it. -/
theorem blobOpen_eq_some_iff {e : Int} {id h : BlobId} {bs : Blobstore g} :
    (blobOpen e id bs).2 = some h ↔ h = id ∧ e = 0 ∧ (bs.blobs id).isSome = true := by
  unfold blobOpen spdkBsOpenBlob
  cases bs.blobs id with
  | none =>
      by_cases he : e = 0
      · simp [he, ENOENT]
      · simp [he]
  | some b =>
      by_cases he : e = 0
      · simp [he, eq_comm]
      · simp [he]

theorem blobOpen_done {id : BlobId} {bs : Blobstore g} {b : Blob g} (hb : bs.blobs id = some b) :
    blobOpen 0 id bs = ((bs.setBlob id b.opening).record (.openBlob id) 0, some id) := by
  simp [blobOpen, spdkBsOpenBlob, hb]

/-- A close drops a reference, or changes no blob. -/
theorem blobClose_cases (e : Int) (id : BlobId) (bs : Blobstore g) :
    (blobClose e id bs).1.blobs = bs.blobs ∧ (bs.opened id = none ∨ e ≠ 0) ∨
      e = 0 ∧ ∃ b, bs.opened id = some b ∧
        (blobClose e id bs).1.blobs = Function.update bs.blobs id (some b.closing) := by
  unfold blobClose spdkBlobClose
  cases hb : bs.opened id with
  | none => exact Or.inl ⟨rfl, Or.inl rfl⟩
  | some b =>
      by_cases he : e = 0
      · simp only [he, ne_eq, not_true_eq_false, if_false]
        exact Or.inr ⟨trivial, b, rfl, rfl⟩
      · simp only [ne_eq, he, not_false_eq_true, if_true]
        exact Or.inl ⟨rfl, Or.inr trivial⟩

/-- A delete removes a blob without references, or changes no blob. -/
theorem blobUnlink_cases (e : Int) (id : BlobId) (bs : Blobstore g) :
    (blobUnlink e id bs).1.blobs = bs.blobs ∧
        (e ≠ 0 ∨ ∀ b, bs.blobs id = some b → 0 < b.openRef) ∨
      e = 0 ∧ (∃ b, bs.blobs id = some b ∧ b.openRef = 0) ∧
        (blobUnlink e id bs).1.blobs = Function.update bs.blobs id none := by
  unfold blobUnlink spdkBsDeleteBlob
  cases hb : bs.blobs id with
  | none => exact Or.inl ⟨rfl, Or.inr fun b h => nomatch h⟩
  | some b =>
      by_cases he : e = 0
      · by_cases href : 0 < b.openRef
        · simp only [he, ne_eq, not_true_eq_false, if_false, href, if_true]
          refine Or.inl ⟨rfl, Or.inr fun b' h => ?_⟩
          cases h
          exact href
        · simp only [he, ne_eq, not_true_eq_false, if_false, href]
          exact Or.inr ⟨trivial, ⟨b, rfl, Nat.eq_zero_of_not_pos href⟩, rfl⟩
      · simp only [ne_eq, he, not_false_eq_true, if_true]
        exact Or.inl ⟨rfl, Or.inl trivial⟩

/-! ## What a data request does -/

/-- A read request leaves the blob as it is. -/
@[simp] theorem ioBlob_read_blob (ans : IoAnswer) (id : BlobId) (b : Blob g) (size : Nat)
    (offset : Int) (buffer : Mem) : (ioBlob ans id b size offset buffer true).blob = b := rfl

/-! ## What a resize does

A resize touches the clusters and what is on disk, nothing a reader of the blob sees. -/

/-- The two blobs hold the same bytes, references and attributes. -/
structure Blob.Kept (b b' : Blob g) : Prop where
  data : b'.data = b.data
  openRef : b'.openRef = b.openRef
  xattrs : b'.xattrs = b.xattrs

theorem Blob.Kept.refl (b : Blob g) : Blob.Kept b b := ⟨rfl, rfl, rfl⟩

theorem Blob.Kept.trans {a b c : Blob g} (h : Blob.Kept a b) (h' : Blob.Kept b c) :
    Blob.Kept a c :=
  ⟨h'.data.trans h.data, h'.openRef.trans h.openRef, h'.xattrs.trans h.xattrs⟩

theorem spdkBlobResize_cases (e : Int) (b : Blob g) (n : Nat) :
    Blob.Kept b (spdkBlobResize e b n).1 ∧
      (((spdkBlobResize e b n).2 = 0 ∧ (spdkBlobResize e b n).1.clusters = n) ∨
        ((spdkBlobResize e b n).2 ≠ 0 ∧ (spdkBlobResize e b n).1 = b)) := by
  unfold spdkBlobResize
  split
  · next he => exact ⟨Blob.Kept.refl b, Or.inr ⟨he, rfl⟩⟩
  · split
    · exact ⟨⟨rfl, rfl, rfl⟩, Or.inl ⟨rfl, rfl⟩⟩
    · have he : (-ENOSPC : Int) ≠ 0 := by decide
      exact ⟨Blob.Kept.refl b, Or.inr ⟨he, rfl⟩⟩

theorem spdkBlobSyncMd_kept (e : Int) (b : Blob g) :
    Blob.Kept b (spdkBlobSyncMd e b).1 ∧ (spdkBlobSyncMd e b).1.clusters = b.clusters := by
  unfold spdkBlobSyncMd
  split
  · exact ⟨Blob.Kept.refl b, rfl⟩
  · exact ⟨⟨rfl, rfl, rfl⟩, rfl⟩

/-- A resize that SPDK does not fail, of a blob that may become that large. -/
theorem genericBlobResize_done {ans : ResizeAnswer} (id : BlobId) (b : Blob g) {size : Nat}
    (hr : ans.resizeErrno = 0) (h0 : 0 < size)
    (hfull : upperDiv size g.clusterSize ≤ g.totalClusters) :
    ∃ d, genericBlobResize ans id b size = some d ∧ Blob.Kept b d.blob ∧
      d.blob.clusters = upperDiv size g.clusterSize := by
  have hresize : spdkBlobResize ans.resizeErrno b (upperDiv size g.clusterSize) =
      ({ b with clusters := upperDiv size g.clusterSize, clusters_le := hfull }, 0) := by
    rw [spdkBlobResize, if_neg (not_not.mpr hr), dif_pos hfull]
  obtain ⟨hk, hc⟩ := spdkBlobSyncMd_kept ans.syncErrno
    (spdkBlobResize ans.resizeErrno b (upperDiv size g.clusterSize)).1
  rw [hresize] at hk hc
  unfold genericBlobResize
  rw [if_neg (Nat.ne_of_gt h0)]
  simp only [hresize, ne_eq, not_true_eq_false, if_false]
  exact ⟨_, rfl, ⟨hk.data, hk.openRef, hk.xattrs⟩, hc⟩

/-- The assertion in `resize_blob` is the only way out of a resize without a result. -/
theorem genericBlobResize_isSome (ans : ResizeAnswer) (id : BlobId) (b : Blob g) {size : Nat}
    (h : size ≠ 0) : ∃ d, genericBlobResize ans id b size = some d := by
  unfold genericBlobResize
  rw [if_neg h]
  dsimp only
  split
  · exact ⟨_, rfl⟩
  · exact ⟨_, rfl⟩

theorem genericBlobResize_spec {ans : ResizeAnswer} {id : BlobId} {b : Blob g} {size : Nat}
    {d : ResizeDone g} (h : genericBlobResize ans id b size = some d) :
    Blob.Kept b d.blob ∧
      (d.blob.clusters = b.clusters ∨ d.blob.clusters = upperDiv size g.clusterSize) := by
  obtain ⟨hk, hr⟩ := spdkBlobResize_cases ans.resizeErrno b (upperDiv size g.clusterSize)
  obtain ⟨hs, hsc⟩ := spdkBlobSyncMd_kept ans.syncErrno
    (spdkBlobResize ans.resizeErrno b (upperDiv size g.clusterSize)).1
  unfold genericBlobResize at h
  split at h
  · cases h
  · dsimp only at h
    rcases hr with ⟨h0, hc⟩ | ⟨h0, hb⟩
    · rw [if_neg (not_not.mpr h0)] at h
      cases h
      exact ⟨hk.trans hs, Or.inr (hsc.trans hc)⟩
    · rw [if_pos h0] at h
      cases h
      exact ⟨hk, Or.inl (congrArg Blob.clusters hb)⟩

/-- How many clusters a resize leaves. -/
theorem genericBlobResize_clusters {ans : ResizeAnswer} {id : BlobId} {b : Blob g} {size : Nat}
    {d : ResizeDone g} (h : genericBlobResize ans id b size = some d) :
    d.blob.clusters =
      if ans.resizeErrno = 0 ∧ upperDiv size g.clusterSize ≤ g.totalClusters then
        upperDiv size g.clusterSize
      else b.clusters := by
  have h0 : 0 < size := by
    by_contra h0
    rw [genericBlobResize, if_pos (by omega)] at h
    cases h
  by_cases hr : ans.resizeErrno = 0 ∧ upperDiv size g.clusterSize ≤ g.totalClusters
  · obtain ⟨d', hd', -, hc⟩ := genericBlobResize_done id b hr.1 h0 hr.2
    cases h.symm.trans hd'
    rw [if_pos hr, hc]
  · have hfail : (spdkBlobResize ans.resizeErrno b (upperDiv size g.clusterSize)).2 ≠ 0 ∧
        (spdkBlobResize ans.resizeErrno b (upperDiv size g.clusterSize)).1 = b := by
      unfold spdkBlobResize
      split
      · next he => exact ⟨he, rfl⟩
      · next he =>
          rw [dif_neg fun hle => hr ⟨not_not.mp he, hle⟩]
          exact ⟨show (-ENOSPC : Int) ≠ 0 by decide, rfl⟩
    rw [genericBlobResize, if_neg (by omega)] at h
    dsimp only at h
    rw [if_pos hfail.1] at h
    cases h
    rw [if_neg hr]
    exact congrArg Blob.clusters hfail.2

end BlobTopFs
