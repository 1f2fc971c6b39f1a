import BlobTopFs.Files.RoundTrip
import BlobTopFs.SimpleFs.Interface

/-!
# The counts that reads and writes return

A count goes through a `size_t`, an `int` and a `ssize_t` before the caller sees it. Chunks are
small, and what they add up to is not: `__spdk_read` keeps its result in an `int`, so that a read
that moves `2 ^ 31` bytes returns something else, and a transfer through the bounce buffer counts
its chunks in one. `__spdk_write` keeps nothing.
-/

namespace BlobTopFs

open Machine

variable {g : Geometry}

/-! ## Before the start of the file

A seek may have left a position below 0. No request from there is in range. -/

/-- The io_unit at a negative position is behind every blob. -/
theorem Blob.inRange_of_neg (b : Blob g) {pos : Int} (hneg : pos < 0) (hfits : FitsOff pos)
    (size : Nat) : b.inRange (u64 pos / g.ioUnit) (upperDiv size g.ioUnit) = false := by
  have hcap := b.capacity_lt
  have hpos : 2 ^ 63 ≤ u64 pos := by
    have := hfits.1
    unfold u64
    omega
  have hdiv := Nat.div_add_mod (u64 pos) g.ioUnit
  have hmod := Nat.mod_lt (u64 pos) g.ioUnit_pos
  -- the request is for one io_unit at least
  have hend : u64 pos < (u64 pos / g.ioUnit + upperDiv size g.ioUnit) * g.ioUnit := by
    have hone : u64 pos / g.ioUnit + 1 ≤ u64 pos / g.ioUnit + upperDiv size g.ioUnit :=
      Nat.add_le_add_left (Nat.le_add_left 1 _) _
    refine Nat.lt_of_lt_of_le ?_ (Nat.mul_le_mul_right g.ioUnit hone)
    rw [Nat.add_mul, Nat.mul_comm (u64 pos / g.ioUnit)]
    omega
  rw [Blob.inRange, decide_eq_false_iff_not]
  omega

theorem simpleFsRead_before {ans : IoAnswer} {v : OpenFile g} {size : Nat} {buffer : Mem}
    {t : Transfer g} (hneg : v.file.fPos < 0) (hfits : FitsOff v.file.fPos)
    (h : simpleFsRead ans v size buffer = some t) : t.ret = 0 := by
  have hout := v.blob.inRange_of_neg hneg hfits size
  unfold simpleFsRead at h
  split at h
  · cases h
  · split at h
    · cases h
      rfl
    · simp only [genericBlobIo, ioBlob, spdkBlobIoRead, hout, IoDone.ok] at h
      cases h
      rfl

theorem simpleFsWrite_before {ans : WriteAnswer} {v : OpenFile g} {size : Nat} {buffer : Mem}
    {t : Transfer g} (hneg : v.file.fPos < 0) (hfits : FitsOff v.file.fPos)
    (h : simpleFsWrite ans v size buffer = some t) : t.ret = 0 := by
  obtain ⟨u, hu, rfl⟩ := Option.map_eq_some_iff.mp h
  obtain ⟨hfile, -, -⟩ := OpenFile.grow_spec hu
  have hpos : u.noteWrite.file.fPos = v.file.fPos := by rw [OpenFile.noteWrite_fPos, hfile]
  have hout := u.noteWrite.blob.inRange_of_neg hneg hfits size
  simp only [genericBlobIo, ioBlob, spdkBlobIoWrite, hpos, hout, IoDone.ok]
  rfl

/-! ## How far a write gets -/

section Write

variable {io : Nat → WriteAnswer} {v : OpenFile g} {p total i : Nat} {s u : ChunkState g}

/-- How many clusters the blob has when `i` chunks of a write have been handed to the file layer:
one is added for each that does not fit, if SPDK adds it and the device has it. -/
def OpenFile.clustersAt (io : Nat → WriteAnswer) (v : OpenFile g) (p total : Nat) : Nat → Nat
  | 0 => v.blob.clusters
  | i + 1 =>
      let c := v.clustersAt io p total i
      if c * g.clusterSize < p + min total ((i + 1) * bufSize) ∧
          (io i).resize.resizeErrno = 0 ∧ c < g.totalClusters then c + 1
      else c

/-- Chunk `i` is in range then, and SPDK does not fail it. -/
def OpenFile.StoresChunk (io : Nat → WriteAnswer) (v : OpenFile g) (p total i : Nat) : Prop :=
  p + min total ((i + 1) * bufSize) ≤ v.clustersAt io p total (i + 1) * g.clusterSize ∧
    (io i).io.bserrno = 0

/-- What chunk `i` of a write finds, if all chunks before it were stored. -/
structure StoredSoFar (io : Nat → WriteAnswer) (v : OpenFile g) (p total i : Nat)
    (w : OpenFile g) : Prop where
  fPos : w.At (p + min total (i * bufSize))
  clusters : w.blob.clusters = v.clustersAt io p total i

theorem StoredSoFar.chunk (h : StoredSoFar io v p total i s.view) (h0 : 0 < total)
    (hi : i < chunkCount total) (hB : g.ioUnit ∣ bufSize) (ht : g.ioUnit ∣ total) :
    ∃ t, writeChunk io total i s = some t ∧
      (t.ret = chunkBytes total i ∧ v.StoresChunk io p total i ∧
          StoredSoFar io v p total (i + 1) t.view ∨
        t.ret = 0 ∧ ¬ v.StoresChunk io p total i) := by
  have hlt := chunk_start_lt h0 hi
  have hb0 := chunkBytes_pos hlt
  have hb1 : chunkBytes total i ≤ 65536 := chunkBytes_le
  have hbd : g.ioUnit ∣ chunkBytes total i := dvd_chunkBytes hB ht
  have hnext := chunkBytes_add hlt
  obtain ⟨hAt, hcl⟩ := h
  rw [Nat.min_eq_right (Nat.le_of_lt hlt)] at hAt
  have hp := hAt.lt
  obtain ⟨t, ht'⟩ := simpleFsWrite_isSome (io i) s.view (chunkBytes total i)
    (s.bounce.write 0 (chunkBytes total i) (s.buf.shift (i * bufSize)))
  obtain ⟨hret, hcl'⟩ := simpleFsWrite_exact hAt hbd hb0 (by omega) ht'
  obtain ⟨-, -, hcase⟩ := simpleFsWrite_spec hAt hbd hb0 (by omega) ht'
  obtain ⟨u, hu⟩ := OpenFile.grow_isSome (io i).resize s.view (chunkBytes total i)
  have hgrown := OpenFile.grow_clusters hu
  rw [hAt.fPos] at hgrown
  have hclusters : t.view.blob.clusters = v.clustersAt io p total (i + 1) := by
    rw [hcl', ← Int.natCast_add, u64_natCast (by omega), Nat.add_assoc, hnext, Blob.capacity, hcl]
    rfl
  -- the blob reaches the end of the chunk just when it does with the clusters it then has
  have hreach : s.view.Reaches (io i).resize (p + i * bufSize + chunkBytes total i) ↔
      p + min total ((i + 1) * bufSize) ≤ v.clustersAt io p total (i + 1) * g.clusterSize := by
    rw [← hAt.reaches_iff hu, Blob.capacity, hgrown, ← hcl', hclusters, Nat.add_assoc, hnext]
  rw [hreach] at hret
  refine ⟨t, ht', ?_⟩
  rcases hcase with ⟨hret', hdone⟩ | ⟨hret', -⟩
  · have hback := hdone.backed
    have hcaplt := t.view.blob.capacity_lt
    refine Or.inl ⟨hret', hret.mp hret', ?_, hclusters⟩
    rw [← hnext, ← Nat.add_assoc]
    exact hAt.moved hdone.fPos hbd (by omega)
  · refine Or.inr ⟨hret', fun hstores => ?_⟩
    have := hret.mpr hstores
    omega

/-- A loop of writes goes as far as its chunks are stored. -/
theorem exists_writeRun_stores (io : Nat → WriteAnswer) (h0 : 0 < total) (hB : g.ioUnit ∣ bufSize)
    (ht : g.ioUnit ∣ total) (bounce buf : Mem) (hv : v.At p) :
    ∃ t j, ChunkRun (writeChunk io total) total 0 ⟨v, bounce, buf⟩ t j ∧
      (∀ i < j, v.StoresChunk io p total i) ∧
      (j < chunkCount total → ¬ v.StoresChunk io p total j) := by
  have hstart : StoredSoFar io v p total 0 v := ⟨by simpa using hv, rfl⟩
  obtain ⟨t, j, hrun, hin, hend⟩ := exists_chunkRun
    (fun i s hi (h : StoredSoFar io v p total i s.view) => h.chunk h0 hi hB ht) h0
    (s := ⟨v, bounce, buf⟩) hstart
  exact ⟨t, j, hrun, hin, fun hj => (hend.resolve_left fun h => by omega).2⟩

end Write

/-! ## Where a count is lost -/

/-- The request is for `2 ^ 31` bytes or more, and so many are read: all of them if the buffer is a
registered one, and the first chunks otherwise. -/
def OpenFile.ReadsPastInt (io : Nat → IoAnswer) (v : OpenFile g) (total : Nat)
    (registered : Bool) : Prop :=
  2 ^ 31 ≤ total ∧ 0 ≤ v.file.fPos ∧
    if registered then v.file.fPos + total ≤ v.readable ∧ (io 0).bserrno = 0
    else v.file.fPos + 2 ^ 31 ≤ v.readable ∧ ∀ i < 2 ^ 31 / bufSize, (io i).bserrno = 0

/-- The request goes through the bounce buffer in `2 ^ 31` chunks or more, and so many are
stored. -/
def OpenFile.WritesPastInt (io : Nat → WriteAnswer) (v : OpenFile g) (total : Nat)
    (registered : Bool) : Prop :=
  registered = false ∧ 2 ^ 31 ≤ chunkCount total ∧ 0 ≤ v.file.fPos ∧
    ∀ i < 2 ^ 31, v.StoresChunk io v.file.fPos.toNat total i

/-- What does not fit an `int` does not survive one. -/
theorem s32_eq_iff {k : Nat} : s32 (k : Int) = k ↔ k < 2 ^ 31 := by
  constructor
  · intro h
    have hfits : s32 (k : Int) < 2 ^ 31 := by
      unfold s32 u32
      omega
    omega
  · intro h
    exact s32_of_fits (by omega) (by omega)

section Requests

variable {v : OpenFile g} {nbytes total p : Nat} {bounce buf : Mem} {registered : Bool}

/-- A read through the bounce buffer counts the chunks up to the first that fails. -/
theorem monopolyReadFile_bounced_count_iff {io : Nat → IoAnswer} (hB : g.ioUnit ∣ bufSize)
    (h512 : 512 ∣ total) (hv : v.At p) (h63 : nbytes < 2 ^ 63)
    (htot : nbytes / g.ioUnit * g.ioUnit = total) (h0 : 0 < total) :
    (∃ r, monopolyReadFile io v bounce buf nbytes false = some r ∧ s32 r.ret = r.ret) ↔
      ¬ v.ReadsPastInt io total false := by
  have hle : total ≤ nbytes := htot ▸ total_le nbytes
  have hpos := hv.fPos
  obtain ⟨t, j, hrun, hin, hend⟩ :=
    exists_readRun io h0 hB (htot ▸ dvd_total nbytes) h512 bounce buf hv
  rw [monopolyReadFile_bounced v bounce buf (by omega) htot h0]
  have hcount : ∀ {r},
      chunkLoop (readChunk io total) (chunkCount total) 0 ⟨v, bounce, buf⟩ 0 = some r →
        r.ret = (min total (j * bufSize) : Nat) := by
    intro r hr
    obtain ⟨k, hrun', -, hret⟩ := (chunkLoop_start h0 fun _ _ _ => readChunk_ret).mp hr
    obtain ⟨-, rfl⟩ := hrun.unique h0 hrun'
    exact hret
  have hchunks : 2 ^ 31 / bufSize = 32768 := by decide
  have hall := le_chunkCount_mul total
  have hmul : ∀ k, k * bufSize = k * 65536 := fun _ => rfl
  rw [OpenFile.ReadsPastInt, if_neg Bool.false_ne_true, hchunks]
  constructor
  · rintro ⟨r, hr, hs32⟩ ⟨hbig, -, hfar, hok⟩
    rw [hcount hr, s32_eq_iff, hmul] at hs32
    -- the loop has not got through the chunks of the first `2 ^ 31` bytes
    have hj : j < 32768 := by omega
    rw [hmul] at hall
    refine hend (by omega) ⟨?_, hok j hj⟩
    rw [hmul]
    omega
  · intro hnot
    have hk : min total (j * bufSize) < 2 ^ 31 := by
      by_contra hge
      rw [hmul] at hge
      refine hnot ⟨by omega, by omega, ?_, fun i hi => (hin i (by omega)).2⟩
      have hlast := (hin 32767 (by omega)).1
      rw [hmul] at hlast
      omega
    have hj : j < 2 ^ 31 := by
      rw [hmul] at hk
      by_cases hsmall : total < 2 ^ 31
      · exact Nat.lt_of_le_of_lt hrun.le.2 (chunkCount_lt (by omega))
      · omega
    exact ⟨⟨t.view, t.bounce, t.buf, (min total (j * bufSize) : Nat)⟩,
      (chunkLoop_start h0 fun _ _ _ => readChunk_ret).mpr ⟨j, hrun, hj, rfl⟩,
      s32_eq_iff.mpr hk⟩

/-- A read into a registered buffer is one request, that counts all or nothing. -/
theorem monopolyReadFile_direct_count_iff {io : Nat → IoAnswer} (h512 : 512 ∣ total)
    (hv : v.At p) (h63 : nbytes < 2 ^ 63) (htot : nbytes / g.ioUnit * g.ioUnit = total)
    (h0 : 0 < total) :
    (∃ r, monopolyReadFile io v bounce buf nbytes true = some r ∧ s32 r.ret = r.ret) ↔
      ¬ v.ReadsPastInt io total true := by
  have hle : total ≤ nbytes := htot ▸ total_le nbytes
  have hpos := hv.fPos
  have hlt := v.readable_lt
  obtain ⟨t, ht, hiff⟩ :=
    simpleFsRead_exact (io 0) buf hv (htot ▸ dvd_total nbytes) h0 (by omega) h512
  rw [monopolyReadFile_direct v bounce buf htot h0, ht, Option.map_some, OpenFile.ReadsPastInt,
    if_pos rfl]
  by_cases hreads : p + total ≤ v.readable ∧ (io 0).bserrno = 0
  · have hret : s64 (u64 t.ret) = total := by
      rw [hiff.mpr hreads, s64_u64, s64_of_fits (by omega) (by omega)]
    rw [hret]
    constructor
    · rintro ⟨r, heq, hs32⟩ ⟨hbig, -⟩
      cases heq
      have := s32_eq_iff.mp hs32
      omega
    · intro hnot
      refine ⟨_, rfl, s32_eq_iff.mpr ?_⟩
      by_contra hbig
      exact hnot ⟨not_lt.mp hbig, by omega, by omega, hreads.2⟩
  · have hzero : t.ret = 0 := by
      rcases simpleFsRead_ret ht with hret | hret
      · exact hret
      · rw [s64_of_fits (by omega) (by omega)] at hret
        exact absurd (hiff.mp hret) hreads
    refine iff_of_true ⟨_, rfl, ?_⟩ fun h => hreads ⟨by omega, h.2.2.2⟩
    rw [hzero]
    rfl

/-- A read comes back with a count that an `int` can hold, unless it reads more than that. -/
theorem monopolyReadFile_count_iff {io : Nat → IoAnswer} (hB : g.ioUnit ∣ bufSize)
    (h512 : 512 ∣ total) (hv : v.At p) (h63 : nbytes < 2 ^ 63)
    (htot : nbytes / g.ioUnit * g.ioUnit = total) :
    (∃ r, monopolyReadFile io v bounce buf nbytes registered = some r ∧ s32 r.ret = r.ret) ↔
      ¬ v.ReadsPastInt io total registered := by
  rcases Nat.eq_zero_or_pos total with rfl | h0
  · rw [monopolyReadFile_zero v bounce buf (units_eq_zero htot)]
    exact iff_of_true ⟨_, rfl, rfl⟩ fun h => absurd h.1 (by decide)
  · cases registered with
    | false => exact monopolyReadFile_bounced_count_iff hB h512 hv h63 htot h0
    | true => exact monopolyReadFile_direct_count_iff h512 hv h63 htot h0

/-- A write comes back, unless it stores more chunks than an `int` can count. -/
theorem monopolyWriteFile_count_iff {io : Nat → WriteAnswer} (hB : g.ioUnit ∣ bufSize)
    (hv : v.At p) (h63 : nbytes < 2 ^ 63) (htot : nbytes / g.ioUnit * g.ioUnit = total) :
    (∃ r, monopolyWriteFile io v bounce buf nbytes registered = some r) ↔
      ¬ v.WritesPastInt io total registered := by
  have hd : g.ioUnit ∣ total := htot ▸ dvd_total nbytes
  have hpos : v.file.fPos.toNat = p := by rw [hv.fPos, Int.toNat_natCast]
  unfold OpenFile.WritesPastInt
  rw [hpos]
  rcases Nat.eq_zero_or_pos total with rfl | h0
  · rw [monopolyWriteFile_zero v bounce buf (units_eq_zero htot)]
    exact iff_of_true ⟨_, rfl⟩ fun h => absurd h.2.1 (by decide)
  · cases registered with
    | false =>
        obtain ⟨t, j, hrun, hin, hend⟩ := exists_writeRun_stores io h0 hB hd bounce buf hv
        rw [monopolyWriteFile_bounced v bounce buf (by omega) htot h0]
        constructor
        · rintro ⟨r, hr⟩ ⟨-, hcount, -, hstores⟩
          obtain ⟨k, hrun', hk, -⟩ := (chunkLoop_start h0 fun _ _ _ => writeChunk_ret).mp hr
          obtain ⟨-, rfl⟩ := hrun.unique h0 hrun'
          exact hend (Nat.lt_of_lt_of_le hk hcount) (hstores j hk)
        · intro hnot
          have hj : j < 2 ^ 31 := by
            by_contra hge
            have hle := hrun.le.2
            have hfPos := hv.fPos
            exact hnot ⟨rfl, by omega, by omega, fun i hi => hin i (by omega)⟩
          exact ⟨⟨t.view, t.bounce, t.buf, _⟩,
            (chunkLoop_start h0 fun _ _ _ => writeChunk_ret).mpr ⟨j, hrun, hj, rfl⟩⟩
    | true =>
        obtain ⟨t, ht⟩ := simpleFsWrite_isSome (io 0) v total buf
        rw [monopolyWriteFile_direct v bounce buf htot h0, ht]
        exact iff_of_true ⟨_, rfl⟩ fun h => absurd h.1 (by decide)

/-- From below 0 nothing is moved. -/
theorem monopolyReadFile_before (io : Nat → IoAnswer) (hneg : v.file.fPos < 0)
    (hfits : FitsOff v.file.fPos) (h512 : 512 ∣ total) (h63 : nbytes < 2 ^ 63)
    (htot : nbytes / g.ioUnit * g.ioUnit = total) :
    ∃ r, monopolyReadFile io v bounce buf nbytes registered = some r ∧ r.ret = 0 := by
  rcases Nat.eq_zero_or_pos total with rfl | h0
  · exact ⟨_, monopolyReadFile_zero v bounce buf (units_eq_zero htot) io registered, rfl⟩
  · cases registered with
    | false =>
        obtain ⟨t, ht⟩ := simpleFsRead_isSome (io 0) v bounce
          (dvd_chunkBytes (i := 0) (by decide) h512)
        rw [monopolyReadFile_bounced v bounce buf (by omega) htot h0,
          chunkLoop_cut (show readChunk io total 0 ⟨v, bounce, buf⟩ = some t from ht)
            (simpleFsRead_before hneg hfits ht)]
        exact ⟨_, rfl, rfl⟩
    | true =>
        obtain ⟨t, ht⟩ := simpleFsRead_isSome (io 0) v buf h512
        rw [monopolyReadFile_direct v bounce buf htot h0, ht, Option.map_some,
          simpleFsRead_before hneg hfits ht]
        exact ⟨_, rfl, rfl⟩

theorem monopolyWriteFile_before (io : Nat → WriteAnswer) (hneg : v.file.fPos < 0)
    (hfits : FitsOff v.file.fPos) (h63 : nbytes < 2 ^ 63)
    (htot : nbytes / g.ioUnit * g.ioUnit = total) :
    ∃ r, monopolyWriteFile io v bounce buf nbytes registered = some r ∧ r.ret = 0 := by
  rcases Nat.eq_zero_or_pos total with rfl | h0
  · exact ⟨_, monopolyWriteFile_zero v bounce buf (units_eq_zero htot) io registered, rfl⟩
  · cases registered with
    | false =>
        obtain ⟨t, ht⟩ := simpleFsWrite_isSome (io 0) v (chunkBytes total 0)
          (bounce.write 0 (chunkBytes total 0) (buf.shift (0 * bufSize)))
        rw [monopolyWriteFile_bounced v bounce buf (by omega) htot h0,
          chunkLoop_cut (show writeChunk io total 0 ⟨v, bounce, buf⟩ = some t from ht)
            (simpleFsWrite_before hneg hfits ht)]
        exact ⟨_, rfl, rfl⟩
    | true =>
        obtain ⟨t, ht⟩ := simpleFsWrite_isSome (io 0) v total buf
        rw [monopolyWriteFile_direct v bounce buf htot h0, ht, Option.map_some,
          simpleFsWrite_before hneg hfits ht]
        exact ⟨_, rfl, rfl⟩

/-- A position that is not below 0. -/
theorem OpenFile.at_of_nonneg {v : OpenFile g} (hal : (g.ioUnit : Int) ∣ v.file.fPos)
    (hfits : FitsOff v.file.fPos) (hpos : 0 ≤ v.file.fPos) : v.At v.file.fPos.toNat where
  fPos := (Int.toNat_of_nonneg hpos).symm
  dvd := by rwa [← Int.natCast_dvd_natCast, Int.toNat_of_nonneg hpos]
  lt := by have := hfits.2; omega

/-- A read that comes back has moved the position by what it returns. -/
theorem monopolyReadFile_moves {io : Nat → IoAnswer} {r : MonopolyIo g} (hB : g.ioUnit ∣ bufSize)
    (h512 : 512 ∣ total) (hal : (g.ioUnit : Int) ∣ v.file.fPos) (hfits : FitsOff v.file.fPos)
    (h63 : nbytes < 2 ^ 63) (htot : nbytes / g.ioUnit * g.ioUnit = total)
    (h : monopolyReadFile io v bounce buf nbytes registered = some r) :
    0 ≤ r.ret ∧ r.view.file.fPos = v.file.fPos + r.ret ∧
      r.view.blob.openRef = v.blob.openRef := by
  obtain ⟨k, hret, hadv⟩ := monopolyReadFile_composes Advanced.composes
    (fun _ _ _ _ _ ht => simpleFsRead_advanced ht) h
  rcases Int.lt_or_le v.file.fPos 0 with hneg | hpos
  · obtain ⟨r', hr', hzero⟩ := monopolyReadFile_before io hneg hfits h512 h63 htot
    cases h.symm.trans hr'
    refine ⟨le_of_eq hzero.symm, ?_, hadv.openRef⟩
    rw [hadv.fPos hret hfits, hzero, Int.add_zero, s64_of_fits hfits.1 hfits.2]
  · obtain ⟨n, hn, hread, -⟩ :=
      monopolyReadFile_spec hB (OpenFile.at_of_nonneg hal hfits hpos) (by omega) h
    refine ⟨by omega, ?_, hadv.openRef⟩
    rw [hread.fPos.fPos]
    omega

/-- So has a write. -/
theorem monopolyWriteFile_moves {io : Nat → WriteAnswer} {r : MonopolyIo g}
    (hB : g.ioUnit ∣ bufSize) (hal : (g.ioUnit : Int) ∣ v.file.fPos) (hfits : FitsOff v.file.fPos)
    (h63 : nbytes < 2 ^ 63) (h : monopolyWriteFile io v bounce buf nbytes registered = some r) :
    0 ≤ r.ret ∧ r.view.file.fPos = v.file.fPos + r.ret ∧
      r.view.blob.openRef = v.blob.openRef := by
  obtain ⟨k, hret, hadv⟩ := monopolyWriteFile_composes Advanced.composes
    (fun _ _ _ _ _ ht => simpleFsWrite_advanced ht) h
  rcases Int.lt_or_le v.file.fPos 0 with hneg | hpos
  · obtain ⟨r', hr', hzero⟩ := monopolyWriteFile_before io hneg hfits h63 rfl
    cases h.symm.trans hr'
    refine ⟨le_of_eq hzero.symm, ?_, hadv.openRef⟩
    rw [hadv.fPos hret hfits, hzero, Int.add_zero, s64_of_fits hfits.1 hfits.2]
  · obtain ⟨n, hn, -, hwrote⟩ :=
      monopolyWriteFile_spec hB (OpenFile.at_of_nonneg hal hfits hpos) (by omega) h
    refine ⟨by omega, ?_, hadv.openRef⟩
    rw [hwrote.fPos.fPos]
    omega

end Requests

/-! ## The entry points -/

/-- The call comes back, with the number of bytes by which it has moved the position of `fd`. -/
def Fs.CountExact (s : Fs g) (fd : Int) (call : Option (Fs g × Mem × Int)) : Prop :=
  ∃ s' buf' ret, call = some (s', buf', ret) ∧ 0 ≤ ret ∧ ∀ f v, s.Resolves fd f v →
    ∃ w, s'.Resolves fd f w ∧ w.file.fPos = v.file.fPos + ret

/-- A blob file's descriptor goes to its entry. -/
theorem Fs.Resolves.callee {s : Fs g} {fd : Int} {f : FileId} {v : OpenFile g}
    (h : s.Resolves fd f v) : callee (TESTFD + fd) = .monopoly fd := by
  have hfd : 0 ≤ fd := by
    by_contra hneg
    have hfile := h.file
    rw [Fdtable.file, if_neg fun h => hneg h.1] at hfile
    cases hfile
  rw [BlobTopFs.callee, if_neg (by omega)]
  congr 1
  omega

section Entry

variable {s : Fs g} {fd : Int} {f : FileId} {v : OpenFile g} {nbytes : Nat}

theorem spdkRead_countExact_iff (hB : g.ioUnit ∣ bufSize) (h512 : 512 ∣ g.ioUnit)
    (hopen : s.Resolves fd f v) (hal : (g.ioUnit : Int) ∣ v.file.fPos)
    (hfits : FitsOff v.file.fPos) (h63 : nbytes < 2 ^ 63) (kernel : Mem × Int)
    (io : Nat → IoAnswer) (buf : Mem) (registered : Bool) :
    s.CountExact fd (spdkRead kernel io (TESTFD + fd) buf nbytes registered s) ↔
      ∃ r, monopolyReadFile io v s.buffer buf nbytes registered = some r ∧ s32 r.ret = r.ret := by
  have hd512 := Nat.dvd_trans h512 (dvd_total (g := g) nbytes)
  rw [spdkRead, hopen.callee]
  constructor
  · rintro ⟨s', buf', ret, hcall, -, hmoved⟩
    obtain ⟨⟨t, buf'', ret'⟩, ht, heq⟩ := Option.map_eq_some_iff.mp hcall
    cases heq
    obtain ⟨r, hr, rfl, rfl, rfl⟩ := (Fs.monopolyRead_eq_some hopen).mp ht
    obtain ⟨-, hpos, href⟩ := monopolyReadFile_moves hB hd512 hal hfits h63 rfl hr
    obtain ⟨w, hres, hw⟩ := hmoved f v hopen
    obtain ⟨-, rfl⟩ := hres.unique (hopen.putFile r.bounce (href ▸ hopen.openRef_pos))
    exact ⟨r, hr, Int.add_left_cancel (hw.symm.trans hpos)⟩
  · rintro ⟨r, hr, hs32⟩
    obtain ⟨h0, hpos, href⟩ := monopolyReadFile_moves hB hd512 hal hfits h63 rfl hr
    have hread := (Fs.monopolyRead_eq_some hopen).mpr ⟨r, hr, rfl, rfl, rfl⟩
    refine ⟨{ s.putFile f r.view with buffer := r.bounce }, r.buf, r.ret, ?_, h0,
      fun f' v' hres => ?_⟩
    · simp only [hread, Option.map_some, hs32]
    · obtain ⟨rfl, rfl⟩ := hres.unique hopen
      exact ⟨r.view, hopen.putFile r.bounce (href ▸ hopen.openRef_pos), hpos⟩

theorem spdkWrite_countExact_iff (hB : g.ioUnit ∣ bufSize) (hopen : s.Resolves fd f v)
    (hal : (g.ioUnit : Int) ∣ v.file.fPos) (hfits : FitsOff v.file.fPos) (h63 : nbytes < 2 ^ 63)
    (kernelRet : Int) (io : Nat → WriteAnswer) (buf : Mem) (registered : Bool) :
    s.CountExact fd (spdkWrite kernelRet io (TESTFD + fd) buf nbytes registered s) ↔
      ∃ r, monopolyWriteFile io v s.buffer buf nbytes registered = some r := by
  rw [spdkWrite, hopen.callee]
  constructor
  · rintro ⟨s', buf', ret, hcall, -⟩
    obtain ⟨r, hr, -⟩ := (Fs.monopolyWrite_eq_some hopen).mp hcall
    exact ⟨r, hr⟩
  · rintro ⟨r, hr⟩
    obtain ⟨h0, hpos, href⟩ := monopolyWriteFile_moves hB hal hfits h63 hr
    refine ⟨_, r.buf, r.ret, (Fs.monopolyWrite_eq_some hopen).mpr ⟨r, hr, rfl, rfl, rfl⟩, h0,
      fun f' v' hres => ?_⟩
    obtain ⟨rfl, rfl⟩ := hres.unique hopen
    exact ⟨r.view, hopen.putFile r.bounce (href ▸ hopen.openRef_pos), hpos⟩

/-- **Counts.** Whatever SPDK answers, `__spdk_read` returns the bytes by which it has moved the
position just when it does not read `2 ^ 31` of them, and `__spdk_write` does just when it does not
store `2 ^ 31` chunks from the bounce buffer. -/
theorem counts_exact_iff (hB : g.ioUnit ∣ bufSize) (h512 : 512 ∣ g.ioUnit)
    (hopen : s.Resolves fd f v) (hal : (g.ioUnit : Int) ∣ v.file.fPos)
    (hfits : FitsOff v.file.fPos) (h63 : nbytes < 2 ^ 63) (kernel : Mem × Int) (kernelRet : Int)
    (rio : Nat → IoAnswer) (wio : Nat → WriteAnswer) (buf : Mem) (registered : Bool) :
    (s.CountExact fd (spdkRead kernel rio (TESTFD + fd) buf nbytes registered s) ↔
        ¬ v.ReadsPastInt rio (nbytes / g.ioUnit * g.ioUnit) registered) ∧
      (s.CountExact fd (spdkWrite kernelRet wio (TESTFD + fd) buf nbytes registered s) ↔
        ¬ v.WritesPastInt wio (nbytes / g.ioUnit * g.ioUnit) registered) := by
  have hd512 := Nat.dvd_trans h512 (dvd_total (g := g) nbytes)
  rw [spdkRead_countExact_iff hB h512 hopen hal hfits h63,
    spdkWrite_countExact_iff hB hopen hal hfits h63]
  rcases Int.lt_or_le v.file.fPos 0 with hneg | hpos
  · obtain ⟨r, hr, hzero⟩ := monopolyReadFile_before rio hneg hfits hd512 h63 rfl
    obtain ⟨r', hr', -⟩ := monopolyWriteFile_before wio hneg hfits h63 rfl
    constructor
    · refine iff_of_true ⟨r, hr, by rw [hzero]; rfl⟩ fun h => ?_
      exact absurd h.2.1 (by omega)
    · refine iff_of_true ⟨r', hr'⟩ fun h => ?_
      exact absurd h.2.2.1 (by omega)
  · have hv := OpenFile.at_of_nonneg hal hfits hpos
    exact ⟨monopolyReadFile_count_iff hB hd512 hv h63 rfl,
      monopolyWriteFile_count_iff hB hv h63 rfl⟩

end Entry

/-- Three chunks are counted both ways, and all of them are read. -/
theorem counts_exact_chunks :
    writtenFs.CountExact 0 (spdkRead (fun _ => 0, 0) (fun _ => .done) (TESTFD + 0) (fun _ => 0)
        (3 * bufSize) false writtenFs) ∧
      writtenFs.CountExact 0 (spdkWrite 0 (fun _ => .done) (TESTFD + 0) (fun _ => 65)
        (3 * bufSize) false writtenFs) ∧
      (spdkRead (fun _ => 0, 0) (fun _ => .done) (TESTFD + 0) (fun _ => 0) (3 * bufSize) false
        writtenFs).map (fun r => r.2.2) = some ((3 * bufSize : Nat) : Int) := by
  have h := counts_exact_iff (by decide) (by decide)
    (show writtenFs.Resolves 0 0 _ from ⟨rfl, rfl⟩) (by decide) fitsOff_zero
    (show 3 * bufSize < 2 ^ 63 by decide) (fun _ => 0, 0) 0 (fun _ => .done) (fun _ => .done)
  exact ⟨(h (fun _ => 0) false).1.mpr fun hfar => absurd hfar.1 (by decide),
    (h (fun _ => 65) false).2.mpr fun hfar => absurd hfar.2.1 (by decide), by decide +kernel⟩

/-- A file of 2 GiB on a device with clusters of that size: a write of the first, and of one
io_unit behind it, from buffers the memory table knows, and a seek back to the start. -/
def twoGiBFs : Option (Fs .large) :=
  (monopolyCreate (.done 1) nameA (.formatted .done 0)).bind fun c =>
    (monopolyWrite (fun _ => .done) 0 (fun _ => 65) (2 ^ 31) true c.1).bind fun w =>
      (monopolyWrite (fun _ => .done) 0 (fun _ => 65) 512 true w.1).bind fun w' =>
        (monopolyLseek 0 0 SEEK_SET w'.1).map Prod.fst

/-- All of it is read at once, and `- 2 ^ 31` is returned. -/
theorem twoGiBFs_read :
    (twoGiBFs.bind fun s =>
      (spdkRead (fun _ => 0, 0) (fun _ => .done) (TESTFD + 0) (fun _ => 0) (2 ^ 31) true s).map
        fun r => r.2.2) = some (-2 ^ 31) := by
  decide +kernel

theorem counts_not_exact :
    ∃ s, twoGiBFs = some s ∧
      ¬ s.CountExact 0 (spdkRead (fun _ => 0, 0) (fun _ => .done) (TESTFD + 0) (fun _ => 0)
        (2 ^ 31) true s) := by
  obtain ⟨s, hs, hread⟩ := Option.bind_eq_some_iff.mp twoGiBFs_read
  refine ⟨s, hs, ?_⟩
  rintro ⟨s', buf', ret, hcall, h0, -⟩
  rw [hcall, Option.map_some] at hread
  cases hread
  exact absurd h0 (by decide)

end BlobTopFs
