import BlobTopFs.SimpleFs.File

/-!
# What one transfer does

`simple_fs_read` and `simple_fs_write` for a position and a length that are whole
io_units: the request covers exactly the bytes `[p, p + size)`, and either all of them move
or the position stays.
-/

namespace BlobTopFs

open Machine

variable {g : Geometry}

/-- The file stands at the io_unit boundary `p`. -/
structure OpenFile.At (v : OpenFile g) (p : Nat) : Prop where
  fPos : v.file.fPos = p
  dvd : g.ioUnit ∣ p
  lt : p < 2 ^ 63

theorem OpenFile.at_zero {v : OpenFile g} (h : v.file.fPos = 0) : v.At 0 :=
  ⟨h, Nat.dvd_zero _, by decide⟩

/-- After whole io_units. -/
theorem OpenFile.At.moved {v w : OpenFile g} {p size : Nat} (hv : v.At p)
    (hpos : w.file.fPos = (p : Int) + size) (hs : g.ioUnit ∣ size) (hlt : p + size < 2 ^ 63) :
    w.At (p + size) where
  fPos := by rw [hpos, Int.natCast_add]
  dvd := Nat.dvd_add hv.dvd hs
  lt := hlt

/-! ## io_units and bytes -/

/-- Whole io_units, as the blobstore is told of them, are the bytes that were meant. -/
theorem ioUnits_bytes {p size : Nat} (hp : g.ioUnit ∣ p) (hp' : p < 2 ^ 64)
    (hs : g.ioUnit ∣ size) (hs0 : 0 < size) (hs' : size < 2 ^ 64) :
    u64 (p : Int) / g.ioUnit * g.ioUnit = p ∧ upperDiv size g.ioUnit * g.ioUnit = size := by
  refine ⟨?_, ?_⟩
  · rw [u64_natCast hp']
    exact Nat.div_mul_cancel hp
  · have hn : size / g.ioUnit * g.ioUnit = size := Nat.div_mul_cancel hs
    have hpos : 0 < size / g.ioUnit := Nat.div_pos (Nat.le_of_dvd hs0 hs) g.ioUnit_pos
    have hdiv := upperDiv_mul g.ioUnit_pos hpos (by rw [hn]; exact hs')
    rw [hn] at hdiv
    rw [hdiv, hn]

theorem inRange_iff (b : Blob g) {p size : Nat} (hp : g.ioUnit ∣ p) (hp' : p < 2 ^ 64)
    (hs : g.ioUnit ∣ size) (hs0 : 0 < size) (hs' : size < 2 ^ 64) :
    b.inRange (u64 (p : Int) / g.ioUnit) (upperDiv size g.ioUnit) = true ↔
      p + size ≤ b.capacity := by
  obtain ⟨h1, h2⟩ := ioUnits_bytes hp hp' hs hs0 hs'
  rw [Blob.inRange, decide_eq_true_iff, Nat.add_mul, h1, h2]

/-- A read of whole io_units succeeds when it is in range and SPDK does not fail it. -/
theorem ioBlob_read_ok_iff (ans : IoAnswer) (id : BlobId) (b : Blob g) (buffer : Mem)
    {p size : Nat} (hp : g.ioUnit ∣ p) (hp' : p < 2 ^ 64) (hs : g.ioUnit ∣ size)
    (hs0 : 0 < size) (hs' : size < 2 ^ 64) :
    (ioBlob ans id b size p buffer true).ok = true ↔ p + size ≤ b.capacity ∧ ans.bserrno = 0 := by
  have hr := inRange_iff b hp hp' hs hs0 hs'
  simp only [ioBlob, if_true, spdkBlobIoRead, IoDone.ok]
  cases hin : b.inRange (u64 (p : Int) / g.ioUnit) (upperDiv size g.ioUnit) with
  | false =>
      rw [hin, Bool.false_eq_true, false_iff] at hr
      simp [EINVAL, hr]
  | true =>
      rw [hin, eq_self_iff_true, true_iff] at hr
      by_cases he : ans.bserrno = 0
      · simp [he, hr]
      · simp [he]

/-- The bytes a successful read delivers. -/
theorem ioBlob_read_buffer {ans : IoAnswer} {id : BlobId} {b : Blob g} {p size : Nat}
    {buffer : Mem} (hp : g.ioUnit ∣ p) (hp' : p < 2 ^ 64) (hs : g.ioUnit ∣ size)
    (hs0 : 0 < size) (hs' : size < 2 ^ 64)
    (h : (ioBlob ans id b size p buffer true).ok = true) :
    (ioBlob ans id b size p buffer true).buffer = buffer.write 0 size (b.data.shift p) := by
  obtain ⟨hcap, he⟩ := (ioBlob_read_ok_iff ans id b buffer hp hp' hs hs0 hs').mp h
  obtain ⟨h1, h2⟩ := ioUnits_bytes hp hp' hs hs0 hs'
  have hr := (inRange_iff b hp hp' hs hs0 hs').mpr hcap
  simp only [ioBlob, if_true, spdkBlobIoRead, hr, Bool.not_true, Bool.false_eq_true, if_false,
    he, ne_eq, not_true_eq_false, h1, h2]

/-- A failed read touches the buffer only if SPDK left junk there. -/
theorem ioBlob_read_fail {ans : IoAnswer} {id : BlobId} {b : Blob g} {size : Nat}
    {offset : Int} {buffer : Mem} (hj : ans.bserrno = 0 ∨ ans.junk = none)
    (h : ¬ (ioBlob ans id b size offset buffer true).ok = true) :
    (ioBlob ans id b size offset buffer true).buffer = buffer := by
  simp only [ioBlob, if_true, spdkBlobIoRead, IoDone.ok] at h ⊢
  split
  · rfl
  · next hin =>
      split
      · next he =>
          rcases hj with hj | hj
          · exact absurd hj he
          · simp [IoAnswer.torn, hj]
      · next he =>
          rw [if_neg hin, if_neg he] at h
          exact absurd rfl h

/-- So does a write. -/
theorem ioBlob_write_ok_iff (ans : IoAnswer) (id : BlobId) (b : Blob g) (buffer : Mem)
    {p size : Nat} (hp : g.ioUnit ∣ p) (hp' : p < 2 ^ 64) (hs : g.ioUnit ∣ size)
    (hs0 : 0 < size) (hs' : size < 2 ^ 64) :
    (ioBlob ans id b size p buffer false).ok = true ↔ p + size ≤ b.capacity ∧ ans.bserrno = 0 := by
  have hr := inRange_iff b hp hp' hs hs0 hs'
  simp only [ioBlob, Bool.false_eq_true, if_false, spdkBlobIoWrite, IoDone.ok]
  -- SPDK refuses what is out of range by itself
  cases hin : b.inRange (u64 (p : Int) / g.ioUnit) (upperDiv size g.ioUnit) with
  | false =>
      rw [hin, Bool.false_eq_true, false_iff] at hr
      simp [EINVAL, hr]
  | true =>
      rw [hin, eq_self_iff_true, true_iff] at hr
      by_cases he : ans.bserrno = 0
      · simp [he, hr]
      · simp [he]

/-- A write of whole io_units that succeeds is a copy into the blob, and it was in range. -/
theorem ioBlob_write_ok {ans : IoAnswer} {id : BlobId} {b : Blob g} {p size : Nat}
    {buffer : Mem} (hp : g.ioUnit ∣ p) (hp' : p < 2 ^ 64) (hs : g.ioUnit ∣ size)
    (hs0 : 0 < size) (hs' : size < 2 ^ 64) (h : (ioBlob ans id b size p buffer false).ok = true) :
    p + size ≤ b.capacity ∧ ans.bserrno = 0 ∧
      (ioBlob ans id b size p buffer false).blob.data = b.data.write p size buffer := by
  obtain ⟨h1, h2⟩ := ioUnits_bytes hp hp' hs hs0 hs'
  have hr := inRange_iff b hp hp' hs hs0 hs'
  simp only [ioBlob, Bool.false_eq_true, if_false, spdkBlobIoWrite, IoDone.ok] at h ⊢
  split at h
  · cases h
  · next hin =>
      rw [Bool.not_eq_true, Bool.not_eq_false'] at hin
      split at h
      · next he => exact absurd (beq_iff_eq.mp h) he
      · next he =>
          refine ⟨hr.mp hin, not_not.mp he, ?_⟩
          simp only [hin, Bool.not_true, Bool.false_eq_true, if_false, if_neg he, h1, h2]

/-- A write that fails leaves the bytes outside its range, and inside it too unless SPDK
tore them. -/
theorem ioBlob_write_fail {ans : IoAnswer} {id : BlobId} {b : Blob g} {p size : Nat}
    {buffer : Mem} (hp : g.ioUnit ∣ p) (hp' : p < 2 ^ 64) (hs : g.ioUnit ∣ size)
    (hs0 : 0 < size) (hs' : size < 2 ^ 64) (h : (ioBlob ans id b size p buffer false).ok = false)
    {q : Nat} (hq : ans.junk = none ∨ ¬ (p ≤ q ∧ q < p + size)) :
    (ioBlob ans id b size p buffer false).blob.data q = b.data q := by
  obtain ⟨h1, h2⟩ := ioUnits_bytes hp hp' hs hs0 hs'
  simp only [ioBlob, Bool.false_eq_true, if_false, spdkBlobIoWrite, IoDone.ok] at h ⊢
  split
  · rfl
  · next hin =>
      split
      · simp only [IoAnswer.torn, h1, h2]
        cases hj : ans.junk with
        | none => rfl
        | some j =>
            rcases hq with hq | hq
            · rw [hj] at hq
              cases hq
            · exact Mem.write_out (by omega)
      · next he =>
          rw [if_neg hin, if_neg he] at h
          cases h

theorem ioBlob_write_frame (ans : IoAnswer) (id : BlobId) (b : Blob g) (size : Nat)
    (offset : Int) (buffer : Mem) :
    (ioBlob ans id b size offset buffer false).blob.clusters = b.clusters ∧
      (ioBlob ans id b size offset buffer false).blob.openRef = b.openRef ∧
      (ioBlob ans id b size offset buffer false).blob.xattrs = b.xattrs ∧
      (ioBlob ans id b size offset buffer false).buffer = buffer := by
  simp only [ioBlob, Bool.false_eq_true, if_false, spdkBlobIoWrite]
  split
  · exact ⟨rfl, rfl, rfl, trivial⟩
  · split
    · exact ⟨rfl, rfl, rfl, trivial⟩
    · exact ⟨rfl, rfl, rfl, trivial⟩

/-! ## The resize step -/

/-- The resize step leaves the file and the blob's bytes, and adds at most one cluster. -/
theorem OpenFile.grow_spec {ans : ResizeAnswer} {v u : OpenFile g} {size : Nat}
    (h : v.grow ans size = some u) :
    u.file = v.file ∧ Blob.Kept v.blob u.blob ∧
      (u.blob.clusters = v.blob.clusters ∨ u.blob.clusters = v.blob.clusters + 1) := by
  unfold OpenFile.grow at h
  dsimp only at h
  split at h
  · obtain ⟨d, hd, rfl⟩ := Option.map_eq_some_iff.mp h
    obtain ⟨hk, hc⟩ := genericBlobResize_spec hd
    refine ⟨rfl, hk, ?_⟩
    rcases hc with hc | hc
    · exact Or.inl hc
    · right
      have hlt := v.blob.capacity_lt
      have hcl := g.clusterSize_lt
      have hsum : v.blob.capacity + g.clusterSize = (v.blob.clusters + 1) * g.clusterSize := by
        rw [Blob.capacity, Nat.add_mul, Nat.one_mul]
      rw [getBlobSize_eq, ← Int.natCast_add, u64_natCast (by omega), hsum] at hc
      rw [upperDiv_mul g.clusterSize_pos (Nat.succ_pos _) (by rw [← hsum]; omega)] at hc
      exact hc
  · cases h
    exact ⟨rfl, Blob.Kept.refl _, Or.inl rfl⟩

/-- The size asked for is never 0, so the assertion of the resize holds. -/
theorem OpenFile.grow_isSome (ans : ResizeAnswer) (v : OpenFile g) (size : Nat) :
    ∃ u, v.grow ans size = some u := by
  unfold OpenFile.grow
  dsimp only
  split
  · have hlt := v.blob.capacity_lt
    have hcl := g.clusterSize_lt
    have hcp := g.clusterSize_pos
    rw [getBlobSize_eq, ← Int.natCast_add, u64_natCast (by omega)]
    have hne : v.blob.capacity + g.clusterSize ≠ 0 := by omega
    obtain ⟨d, hd⟩ := genericBlobResize_isSome ans v.file.blob v.blob hne
    exact ⟨_, by rw [hd]; rfl⟩
  · exact ⟨v, rfl⟩

theorem capacity_le_of_grow {ans : ResizeAnswer} {v u : OpenFile g} {size : Nat}
    (h : v.grow ans size = some u) : v.blob.capacity ≤ u.blob.capacity := by
  obtain ⟨-, -, hc⟩ := OpenFile.grow_spec h
  apply Nat.mul_le_mul_right
  omega

/-- The resize step adds a cluster when the write does not fit, if it gets one. -/
theorem OpenFile.grow_clusters {ans : ResizeAnswer} {v u : OpenFile g} {size : Nat}
    (h : v.grow ans size = some u) :
    u.blob.clusters =
      if v.blob.capacity < u64 (v.file.fPos + size) ∧ ans.resizeErrno = 0 ∧
          v.blob.clusters < g.totalClusters then v.blob.clusters + 1
      else v.blob.clusters := by
  unfold OpenFile.grow at h
  dsimp only at h
  rw [getBlobSize_eq] at h
  split at h
  · next hgrow =>
      obtain ⟨d, hd, rfl⟩ := Option.map_eq_some_iff.mp h
      have hlt := v.blob.capacity_lt
      have hcl := g.clusterSize_lt
      have hsum : v.blob.capacity + g.clusterSize = (v.blob.clusters + 1) * g.clusterSize := by
        rw [Blob.capacity, Nat.add_mul, Nat.one_mul]
      have hn : upperDiv (u64 ((v.blob.capacity : Int) + g.clusterSize)) g.clusterSize =
          v.blob.clusters + 1 := by
        rw [← Int.natCast_add, u64_natCast (by omega), hsum]
        exact upperDiv_mul g.clusterSize_pos (Nat.succ_pos _) (by omega)
      show d.blob.clusters = _
      rw [genericBlobResize_clusters hd, hn]
      simp only [gt_iff_lt] at hgrow
      simp only [hgrow, true_and, Nat.succ_le_iff]
  · next hfits =>
      cases h
      rw [if_neg fun h => hfits h.1]

/-- The blob holds `e` bytes, or does with the one cluster that the resize step adds. -/
def OpenFile.Reaches (ans : ResizeAnswer) (v : OpenFile g) (e : Nat) : Prop :=
  e ≤ v.blob.capacity ∨
    (ans.resizeErrno = 0 ∧ v.blob.clusters < g.totalClusters ∧
      e ≤ v.blob.capacity + g.clusterSize)

/-- After the resize step a write at `p` is in range exactly when the blob reaches its end. -/
theorem OpenFile.At.reaches_iff {ans : ResizeAnswer} {v u : OpenFile g} {p size : Nat}
    (hv : v.At p) (h : v.grow ans size = some u) :
    p + size ≤ u.blob.capacity ↔ v.Reaches ans (p + size) := by
  have hlt := v.blob.capacity_lt
  have hcl := g.clusterSize_lt
  have hp := hv.lt
  have hsum : (v.blob.clusters + 1) * g.clusterSize = v.blob.capacity + g.clusterSize := by
    rw [Blob.capacity, Nat.add_mul, Nat.one_mul]
  have hc := grow_clusters h
  rw [hv.fPos] at hc
  unfold Reaches
  have hcap : u.blob.capacity = u.blob.clusters * g.clusterSize := rfl
  rw [hcap, hc]
  by_cases hend : p + size < 2 ^ 64
  · rw [← Int.natCast_add, u64_natCast hend]
    split
    · next hgrow =>
        rw [hsum]
        exact ⟨fun hle => Or.inr ⟨hgrow.2.1, hgrow.2.2, hle⟩, fun h => by omega⟩
    · next hno =>
        refine ⟨Or.inl, fun h => h.elim id fun h => ?_⟩
        by_contra hgt
        exact hno ⟨not_le.mp hgt, h.1, h.2.1⟩
  · -- nothing that far behind can be reached
    constructor
    · intro hle
      split at hle
      · omega
      · exact Or.inl hle
    · rintro (hle | ⟨-, -, hle⟩)
      · omega
      · omega

/-- Where the device has the clusters, and SPDK does not fail the resize, one more is to be had. -/
theorem OpenFile.reaches_iff_of_free {ans : ResizeAnswer} (hres : ans.resizeErrno = 0)
    {v : OpenFile g} {e : Nat} (hfree : e ≤ g.totalClusters * g.clusterSize) :
    v.Reaches ans e ↔ e ≤ v.blob.capacity + g.clusterSize := by
  constructor
  · rintro (hle | ⟨-, -, hle⟩)
    · exact Nat.le_add_right_of_le hle
    · exact hle
  · intro hle
    by_cases hcap : e ≤ v.blob.capacity
    · exact Or.inl hcap
    · have hlt : v.blob.clusters * g.clusterSize < g.totalClusters * g.clusterSize :=
        Nat.lt_of_lt_of_le (not_le.mp hcap) hfree
      exact Or.inr ⟨hres, Nat.lt_of_mul_lt_mul_right hlt, hle⟩

/-! ## Noting a write -/

theorem OpenFile.noteWrite_fSize {v : OpenFile g} {p : Nat} (hv : v.At p) :
    v.noteWrite.persist.fSize = max v.persist.fSize p := by
  have hp : u64 (p : Int) = p := u64_natCast (by have := hv.lt; omega)
  simp only [OpenFile.noteWrite, OpenFile.setPersist_persist, hv.fPos, hp]
  split
  · omega
  · omega

@[simp] theorem OpenFile.noteWrite_fPos (v : OpenFile g) :
    v.noteWrite.file.fPos = v.file.fPos := OpenFile.setPersist_fPos ..

@[simp] theorem OpenFile.noteWrite_fileBlob (v : OpenFile g) :
    v.noteWrite.file.blob = v.file.blob := OpenFile.setPersist_fileBlob ..

@[simp] theorem OpenFile.noteWrite_data (v : OpenFile g) :
    v.noteWrite.blob.data = v.blob.data := OpenFile.setPersist_data ..

@[simp] theorem OpenFile.noteWrite_clusters (v : OpenFile g) :
    v.noteWrite.blob.clusters = v.blob.clusters := OpenFile.setPersist_clusters ..

@[simp] theorem OpenFile.noteWrite_openRef (v : OpenFile g) :
    v.noteWrite.blob.openRef = v.blob.openRef := OpenFile.setPersist_openRef ..

theorem OpenFile.capacity_congr {b b' : Blob g} (h : b'.clusters = b.clusters) :
    b'.capacity = b.capacity := by
  rw [Blob.capacity, Blob.capacity, h]

/-! ## `simple_fs_write` -/

/-- What a write at `p` does however its requests end. -/
structure WriteFrame (v w : OpenFile g) (p : Nat) : Prop where
  fileBlob : w.file.blob = v.file.blob
  openRef : w.blob.openRef = v.blob.openRef
  capacity : v.blob.capacity ≤ w.blob.capacity
  fSize : w.persist.fSize = max v.persist.fSize p

/-- A write whose I/O succeeded: the bytes are in the blob and the position has moved. -/
structure WriteDone (v w : OpenFile g) (p size : Nat) (buffer : Mem) : Prop where
  fPos : w.file.fPos = p + size
  backed : p + size ≤ w.blob.capacity
  data : w.blob.data = v.blob.data.write p size buffer

/-- A write whose I/O failed: the position stays, and so do all bytes it did not address. -/
structure WriteFailed (ans : IoAnswer) (v w : OpenFile g) (p size : Nat) : Prop where
  fPos : w.file.fPos = p
  data : ∀ q, ans.junk = none ∨ ¬ (p ≤ q ∧ q < p + size) → w.blob.data q = v.blob.data q

theorem simpleFsWrite_spec {ans : WriteAnswer} {v : OpenFile g} {p size : Nat} {buffer : Mem}
    {t : Transfer g} (hv : v.At p) (hs : g.ioUnit ∣ size) (hs0 : 0 < size)
    (hs' : size < 2 ^ 64) (h : simpleFsWrite ans v size buffer = some t) :
    WriteFrame v t.view p ∧ t.buffer = buffer ∧
      (t.ret = size ∧ WriteDone v t.view p size buffer ∨
        t.ret = 0 ∧ WriteFailed ans.io v t.view p size) := by
  obtain ⟨u, hu, rfl⟩ := Option.map_eq_some_iff.mp h
  obtain ⟨hfile, hkept, -⟩ := OpenFile.grow_spec hu
  have hcap := capacity_le_of_grow hu
  have huAt : u.At p := ⟨by rw [hfile]; exact hv.fPos, hv.dvd, hv.lt⟩
  have hsize := OpenFile.noteWrite_fSize huAt
  -- the growth is of the blob alone: neither position nor record have changed
  have hsame : u.persist.fSize = v.persist.fSize := by
    unfold OpenFile.persist
    rw [hfile, hkept.xattrs]
  have hp : p < 2 ^ 64 := by have := hv.lt; omega
  obtain ⟨hcl, href, hx, -⟩ :=
    ioBlob_write_frame ans.io u.file.blob u.noteWrite.blob size (p : Int) buffer
  -- the record is read through the blob's attributes, which a data request leaves
  have hpersist : ∀ d : IoDone g, d.blob.xattrs = u.noteWrite.blob.xattrs →
      (u.noteWrite.afterIo d).persist = u.noteWrite.persist := by
    intro d hd
    unfold OpenFile.persist
    rw [OpenFile.afterIo_file, OpenFile.afterIo_blob, hd]
  have hcapEq := (OpenFile.capacity_congr hcl).trans
    (OpenFile.capacity_congr (OpenFile.noteWrite_clusters u))
  simp only [OpenFile.noteWrite_fPos, OpenFile.noteWrite_fileBlob, huAt.fPos, genericBlobIo]
  cases hok : (ioBlob ans.io u.file.blob u.noteWrite.blob size (p : Int) buffer false).ok with
  | true =>
      -- the bytes are in the blob, the position moves and the record is stored
      obtain ⟨hin, -, hdata⟩ := ioBlob_write_ok hv.dvd hp hs hs0 hs' hok
      rw [OpenFile.capacity_congr (OpenFile.noteWrite_clusters u)] at hin
      have hlt := u.blob.capacity_lt
      rw [if_pos rfl]
      refine ⟨⟨?_, ?_, ?_, ?_⟩, rfl, Or.inl ⟨?_, ?_, ?_, ?_⟩⟩
      · simp [hfile]
      · simp [href, hkept.openRef]
      · exact hcapEq ▸ hcap
      · simp only [OpenFile.storePersist_persist, OpenFile.setPos_persist]
        rw [hpersist _ hx, hsize, hsame]
      · show s64 (size : Int) = size
        rw [s64_of_fits (by omega) (by omega)]
      · show s64 ((p : Int) + size) = p + size
        rw [s64_of_fits (by omega) (by omega)]
      · show p + size ≤ Blob.capacity _
        rw [← hcapEq] at hin
        exact hin
      · simp only [OpenFile.storePersist_data, OpenFile.setPos_blob, OpenFile.afterIo_blob,
          hdata, OpenFile.noteWrite_data, hkept.data]
  | false =>
      -- only what was noted before the request is left of it
      rw [if_neg (by decide)]
      refine ⟨⟨?_, ?_, ?_, ?_⟩, rfl, Or.inr ⟨rfl, ?_, ?_⟩⟩
      · simp [hfile]
      · simp [href, hkept.openRef]
      · exact hcapEq ▸ hcap
      · rw [hpersist _ hx, hsize, hsame]
      · simp [huAt.fPos]
      · intro q hq
        show (ioBlob ans.io u.file.blob u.noteWrite.blob size (p : Int) buffer
          false).blob.data q = _
        rw [ioBlob_write_fail hv.dvd hp hs hs0 hs' hok hq, OpenFile.noteWrite_data, hkept.data]

/-- How many bytes a write moves, and how many clusters it leaves. -/
theorem simpleFsWrite_exact {ans : WriteAnswer} {v : OpenFile g} {p size : Nat} {buffer : Mem}
    {t : Transfer g} (hv : v.At p) (hs : g.ioUnit ∣ size) (hs0 : 0 < size)
    (hs' : size < 2 ^ 64) (h : simpleFsWrite ans v size buffer = some t) :
    (t.ret = size ↔ v.Reaches ans.resize (p + size) ∧ ans.io.bserrno = 0) ∧
      t.view.blob.clusters =
        if v.blob.capacity < u64 ((p : Int) + size) ∧ ans.resize.resizeErrno = 0 ∧
            v.blob.clusters < g.totalClusters then v.blob.clusters + 1
        else v.blob.clusters := by
  obtain ⟨u, hu, rfl⟩ := Option.map_eq_some_iff.mp h
  obtain ⟨hfile, -, -⟩ := OpenFile.grow_spec hu
  have hp : p < 2 ^ 64 := by have := hv.lt; omega
  have hpos : u.noteWrite.file.fPos = p := by rw [OpenFile.noteWrite_fPos, hfile, hv.fPos]
  obtain ⟨hcl, -⟩ :=
    ioBlob_write_frame ans.io u.noteWrite.file.blob u.noteWrite.blob size (p : Int) buffer
  have hok := ioBlob_write_ok_iff ans.io u.noteWrite.file.blob u.noteWrite.blob buffer hv.dvd hp
    hs hs0 hs'
  -- SPDK sees the blob as the growth has left it
  rw [OpenFile.capacity_congr (OpenFile.noteWrite_clusters u), hv.reaches_iff hu] at hok
  have hgrown := OpenFile.grow_clusters hu
  rw [hv.fPos] at hgrown
  simp only [genericBlobIo, hpos]
  cases hd : (ioBlob ans.io u.noteWrite.file.blob u.noteWrite.blob size (p : Int) buffer
    false).ok with
  | true =>
      rw [hd, eq_self_iff_true, true_iff] at hok
      obtain ⟨hcap, -, -⟩ := ioBlob_write_ok hv.dvd hp hs hs0 hs' hd
      have hlt := u.noteWrite.blob.capacity_lt
      rw [if_pos rfl]
      refine ⟨iff_of_true ?_ hok, ?_⟩
      · show s64 (size : Int) = size
        rw [s64_of_fits (by omega) (by omega)]
      · simp only [OpenFile.storePersist_clusters, OpenFile.setPos_blob, OpenFile.afterIo_blob, hcl,
          OpenFile.noteWrite_clusters, hgrown]
  | false =>
      rw [hd, Bool.false_eq_true, false_iff] at hok
      rw [if_neg (by decide)]
      refine ⟨iff_of_false ?_ hok, ?_⟩
      · show (0 : Int) ≠ size
        omega
      · simp only [OpenFile.afterIo_blob, hcl, OpenFile.noteWrite_clusters, hgrown]

/-- A write always has a result. -/
theorem simpleFsWrite_isSome (ans : WriteAnswer) (v : OpenFile g) (size : Nat) (buffer : Mem) :
    ∃ t, simpleFsWrite ans v size buffer = some t := by
  obtain ⟨u, hu⟩ := OpenFile.grow_isSome ans.resize v size
  exact ⟨_, by rw [simpleFsWrite, hu]; rfl⟩

/-- A write that SPDK does not fail, and for which the device has the clusters. -/
theorem simpleFsWrite_free {ans : WriteAnswer} (hres : ans.resize.resizeErrno = 0)
    (hio : ans.io.bserrno = 0) {v : OpenFile g} {p size : Nat} (buffer : Mem) (hv : v.At p)
    (hs : g.ioUnit ∣ size) (hs0 : 0 < size) (hfree : p + size ≤ g.totalClusters * g.clusterSize) :
    ∃ t, simpleFsWrite ans v size buffer = some t ∧
      (t.ret = size ↔ p + size ≤ v.blob.capacity + g.clusterSize) ∧
      t.view.blob.clusters =
        if v.blob.capacity < p + size then v.blob.clusters + 1 else v.blob.clusters := by
  have hdev := g.device_lt
  obtain ⟨t, ht⟩ := simpleFsWrite_isSome ans v size buffer
  obtain ⟨hret, hcl⟩ := simpleFsWrite_exact hv hs hs0 (by omega) ht
  rw [OpenFile.reaches_iff_of_free hres hfree, and_iff_left hio] at hret
  rw [← Int.natCast_add, u64_natCast (by omega)] at hcl
  refine ⟨t, ht, hret, hcl.trans ?_⟩
  -- there is a cluster left for a write that grows
  by_cases hgrow : v.blob.capacity < p + size
  · have hlt : v.blob.clusters * g.clusterSize < g.totalClusters * g.clusterSize :=
      Nat.lt_of_lt_of_le hgrow hfree
    rw [if_pos ⟨hgrow, hres, Nat.lt_of_mul_lt_mul_right hlt⟩, if_pos hgrow]
  · rw [if_neg fun h => hgrow h.1, if_neg hgrow]

/-! ## `simple_fs_read` -/

/-- What a read leaves alone, however it ends. -/
structure ReadFrame (v w : OpenFile g) : Prop where
  fileBlob : w.file.blob = v.file.blob
  openRef : w.blob.openRef = v.blob.openRef
  data : w.blob.data = v.blob.data
  clusters : w.blob.clusters = v.blob.clusters
  persist : w.persist = v.persist

theorem ReadFrame.refl (v : OpenFile g) : ReadFrame v v := ⟨rfl, rfl, rfl, rfl, rfl⟩

theorem ReadFrame.trans {u v w : OpenFile g} (h : ReadFrame u v) (h' : ReadFrame v w) :
    ReadFrame u w :=
  ⟨h'.fileBlob.trans h.fileBlob, h'.openRef.trans h.openRef, h'.data.trans h.data,
    h'.clusters.trans h.clusters, h'.persist.trans h.persist⟩

theorem simpleFsRead_spec {ans : IoAnswer} {v : OpenFile g} {p size : Nat} {buffer : Mem}
    {t : Transfer g} (hv : v.At p) (hs : g.ioUnit ∣ size) (hs0 : 0 < size)
    (hs' : size < 2 ^ 64) (h : simpleFsRead ans v size buffer = some t) :
    ReadFrame v t.view ∧ 512 ∣ size ∧
      (t.ret = size ∧ t.view.file.fPos = p + size ∧ p + size ≤ v.persist.fSize ∧
          p + size ≤ v.blob.capacity ∧ t.buffer = buffer.write 0 size (v.blob.data.shift p) ∨
        t.ret = 0 ∧ t.view.file.fPos = p ∧
          (ans.bserrno = 0 ∨ ans.junk = none → t.buffer = buffer)) := by
  have hp : p < 2 ^ 64 := by have := hv.lt; omega
  unfold simpleFsRead at h
  split at h
  · cases h
  · next h512 =>
      have h512' : 512 ∣ size := Nat.dvd_of_mod_eq_zero (not_not.mp h512)
      split at h
      · cases h
        exact ⟨ReadFrame.refl v, h512', Or.inr ⟨rfl, hv.fPos, fun _ => rfl⟩⟩
      · next hsize =>
          -- the request is made, as it ends at `f_size` at most
          have hio := ioBlob_read_ok_iff ans v.file.blob v.blob buffer hv.dvd hp hs hs0 hs'
          simp only [genericBlobIo, hv.fPos] at h hsize
          split at h
          · next hok =>
              cases h
              obtain ⟨hcap, -⟩ := hio.mp hok
              have hlt := v.blob.capacity_lt
              rw [← Int.natCast_add, u64_natCast (by omega)] at hsize
              -- a read leaves the blob, and with it the record behind the file's pointer
              have hper : (v.afterIo (ioBlob ans v.file.blob v.blob size p buffer true)).persist =
                  v.persist := rfl
              refine ⟨⟨?_, ?_, ?_, ?_, ?_⟩, h512', Or.inl ⟨?_, ?_, by omega, hcap, ?_⟩⟩
              · simp
              · simp
              · simp
              · simp
              · simp [hper]
              · show s64 (size : Int) = size
                rw [s64_of_fits (by omega) (by omega)]
              · rw [OpenFile.storePersist_file, OpenFile.setPos_fPos,
                  s64_of_fits (by omega) (by omega)]
              · exact ioBlob_read_buffer hv.dvd hp hs hs0 hs' hok
          · next hok =>
              cases h
              exact ⟨⟨rfl, rfl, rfl, rfl, rfl⟩, h512',
                Or.inr ⟨rfl, hv.fPos, fun hj => ioBlob_read_fail hj hok⟩⟩

/-- A read inside the file and the blob that SPDK does not fail moves all its bytes. -/
theorem simpleFsRead_ok {ans : IoAnswer} {v : OpenFile g} {p size : Nat} (buffer : Mem)
    (hv : v.At p) (hs : g.ioUnit ∣ size) (hs0 : 0 < size) (h512 : 512 ∣ size)
    (hsize : p + size ≤ v.persist.fSize) (hcap : p + size ≤ v.blob.capacity)
    (hok : ans.bserrno = 0) : ∃ t, simpleFsRead ans v size buffer = some t ∧ t.ret = size := by
  have hlt := v.blob.capacity_lt
  have hio := (ioBlob_read_ok_iff ans v.file.blob v.blob buffer hv.dvd (by omega) hs hs0
    (by omega)).mpr ⟨hcap, hok⟩
  unfold simpleFsRead
  simp only [genericBlobIo, hv.fPos]
  rw [if_neg (by omega), ← Int.natCast_add, u64_natCast (by omega), if_neg (by omega), if_pos hio]
  exact ⟨_, rfl, s64_of_fits (by omega) (by omega)⟩

/-- The assertion is the only way out of a read without a result. -/
theorem simpleFsRead_isSome (ans : IoAnswer) (v : OpenFile g) {size : Nat} (buffer : Mem)
    (h512 : 512 ∣ size) : ∃ t, simpleFsRead ans v size buffer = some t := by
  unfold simpleFsRead
  rw [if_neg (by omega)]
  split
  · exact ⟨_, rfl⟩
  · dsimp only
    split <;> exact ⟨_, rfl⟩

/-- How far a file can be read: up to its size, and no further than its blob. -/
def OpenFile.readable (v : OpenFile g) : Nat := min v.persist.fSize v.blob.capacity

theorem OpenFile.readable_lt (v : OpenFile g) : v.readable < 2 ^ 63 :=
  Nat.lt_of_le_of_lt (Nat.min_le_right ..) v.blob.capacity_lt

theorem ReadFrame.readable {v w : OpenFile g} (h : ReadFrame v w) : w.readable = v.readable := by
  unfold OpenFile.readable Blob.capacity
  rw [h.persist, h.clusters]

/-- A read moves all its bytes exactly when they can be read and SPDK does not fail it. -/
theorem simpleFsRead_exact (ans : IoAnswer) {v : OpenFile g} {p size : Nat} (buffer : Mem)
    (hv : v.At p) (hs : g.ioUnit ∣ size) (hs0 : 0 < size) (hs' : size < 2 ^ 64)
    (h512 : 512 ∣ size) :
    ∃ t, simpleFsRead ans v size buffer = some t ∧
      (t.ret = size ↔ p + size ≤ v.readable ∧ ans.bserrno = 0) := by
  obtain ⟨t, ht⟩ := simpleFsRead_isSome ans v buffer h512
  refine ⟨t, ht, ?_⟩
  constructor
  · intro hret
    obtain ⟨-, -, ⟨-, -, hsize, hcap, -⟩ | ⟨hret', -⟩⟩ := simpleFsRead_spec hv hs hs0 hs' ht
    · refine ⟨Nat.le_min.mpr ⟨hsize, hcap⟩, ?_⟩
      by_contra he
      have hp : p < 2 ^ 64 := by have := hv.lt; omega
      have hio := ioBlob_read_ok_iff ans v.file.blob v.blob buffer hv.dvd hp hs hs0 hs'
      have hlt := v.blob.capacity_lt
      -- a request that SPDK fails returns 0
      rw [simpleFsRead, if_neg (by omega), hv.fPos, ← Int.natCast_add, u64_natCast (by omega),
        if_neg (by omega), genericBlobIo] at ht
      dsimp only at ht
      rw [if_neg fun hok => he (hio.mp hok).2] at ht
      cases ht
      dsimp only at hret
      omega
    · omega
  · rintro ⟨hle, hok⟩
    unfold OpenFile.readable at hle
    obtain ⟨t', ht', hret⟩ := simpleFsRead_ok buffer hv hs hs0 h512 (by omega) (by omega) hok
    cases ht.symm.trans ht'
    exact hret

end BlobTopFs
