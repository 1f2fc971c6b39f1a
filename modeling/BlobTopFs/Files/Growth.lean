import BlobTopFs.Files.RoundTrip

/-!
# Whether the blob grows far enough

Before a write the file layer makes room for it: one more cluster, if the write does not fit. That
is enough exactly for a write that ends no further than one cluster behind the end of the blob.
-/

namespace BlobTopFs

variable {g : Geometry}

/-- The resize step leaves room for a write of `size` bytes at `p`, and the write returns `size`. -/
def GrowsEnough (ans : WriteAnswer) (v : OpenFile g) (p size : Nat) (buffer : Mem) : Prop :=
  ∃ u t, v.grow ans.resize size = some u ∧ p + size ≤ u.blob.clusters * g.clusterSize ∧
    simpleFsWrite ans v size buffer = some t ∧ t.ret = size

/-- **Growth.** For a write of whole io_units that the device has the clusters for, and whose
requests SPDK does not fail, the resize step makes enough room exactly when the write ends within
one cluster of the end of the blob. -/
theorem growsEnough_iff {ans : WriteAnswer} (hres : ans.resize.resizeErrno = 0)
    (hio : ans.io.bserrno = 0) {v : OpenFile g} {p size : Nat} (hv : v.At p)
    (hs : g.ioUnit ∣ size) (h0 : 0 < size) (hfree : p + size ≤ g.totalClusters * g.clusterSize)
    (buffer : Mem) :
    GrowsEnough ans v p size buffer ↔
      p + size ≤ v.blob.clusters * g.clusterSize + g.clusterSize := by
  have hreach := OpenFile.reaches_iff_of_free hres (v := v) hfree
  obtain ⟨u, hu⟩ := OpenFile.grow_isSome ans.resize v size
  obtain ⟨t, ht, hret, -⟩ := simpleFsWrite_free hres hio buffer hv hs h0 hfree
  constructor
  · rintro ⟨u', t', hu', hroom, -⟩
    cases hu.symm.trans hu'
    exact hreach.mp ((hv.reaches_iff hu).mp hroom)
  · intro hle
    exact ⟨u, t, hu, (hv.reaches_iff hu).mpr (hreach.mpr hle), ht, hret.mpr hle⟩

/-- The file of `file_ut.c` when it is new: its blob has no cluster. -/
def newFile : OpenFile .malloc0 := (fileUtFs.openFile 0).get rfl

theorem newFile_at : newFile.At 0 := OpenFile.at_zero rfl

/-- One cluster is enough for the write of `file_ut.c`. -/
theorem growsEnough_page : GrowsEnough .done newFile 0 4096 fun _ => 65 :=
  (growsEnough_iff rfl rfl newFile_at (by decide) (by decide) (by decide) _).mpr (by decide)

/-- It is not for a write of two clusters, though the device has sixteen. -/
theorem not_growsEnough_two :
    2 * 0x100000 ≤ Geometry.malloc0.totalClusters * Geometry.malloc0.clusterSize ∧
      ¬ GrowsEnough .done newFile 0 (2 * 0x100000) fun _ => 65 := by
  refine ⟨by decide, ?_⟩
  rintro ⟨u, t, -, -, ht, hret⟩
  have hzero : (simpleFsWrite .done newFile (2 * 0x100000) fun _ => 65).map Transfer.ret =
      some 0 := by decide +kernel
  rw [ht, Option.map_some, hret] at hzero
  exact absurd hzero (by decide)

end BlobTopFs
