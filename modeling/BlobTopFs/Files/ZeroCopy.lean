import BlobTopFs.Files.RoundTrip

/-!
# Registered and unregistered buffers

A request on a buffer that the spdkfs memory table knows is one call to the file layer, any
other goes there in chunks of 64 KiB. The size of the file, the growth of its blob and the
end-of-file test are matters of one call, so that the two ways agree only within bounds, which are
exact here.
-/

namespace BlobTopFs

open Machine

variable {g : Geometry}

/-! ## Writing -/

/-- The same bytes in the same clusters, the same position and the same size. -/
structure SameFile (v w : OpenFile g) : Prop where
  data : v.blob.data = w.blob.data
  clusters : v.blob.clusters = w.blob.clusters
  fPos : v.file.fPos = w.file.fPos
  fSize : v.persist.fSize = w.persist.fSize

/-- A write of the registered buffer `buf` and one of the unregistered `buf'`, of which SPDK fails
no request, return the same and leave the same file. -/
def WritesAgree (fd : Int) (buf buf' : Mem) (nbytes : Nat) (s : Fs g) : Prop :=
  ∃ r r' f v v', monopolyWrite (fun _ => .done) fd buf nbytes true s = some r ∧
    monopolyWrite (fun _ => .done) fd buf' nbytes false s = some r' ∧
    r.2.2 = r'.2.2 ∧ r.1.Resolves fd f v ∧ r'.1.Resolves fd f v' ∧ SameFile v v'

/-- Two requests that have stored the same number of bytes leave the same bytes and the same
position. -/
theorem WroteUpTo.same {io : Nat → WriteAnswer} {p total k start start' len len' : Nat}
    {buf buf' : Mem} {v u u' : OpenFile g} (hjunk : ∀ i, (io i).io.junk = none)
    (hbuf : ∀ q < total, buf q = buf' q) (h : WroteUpTo io p total buf start len v 0 k u)
    (h' : WroteUpTo io p total buf' start' len' v 0 k u') :
    u.blob.data = u'.blob.data ∧ u.file.fPos = u'.file.fPos := by
  refine ⟨funext fun q => ?_, h.fPos.fPos.trans h'.fPos.fPos.symm⟩
  have hle := h.le_right
  by_cases hin : p ≤ q ∧ q < p + total
  · by_cases hk : q < p + k
    · rw [h.done q hin.1 hk, h'.done q hin.1 hk, hbuf _ (by omega)]
    · rw [h.cut q (by omega) hin.2 (Or.inl (hjunk _)), h'.cut q (by omega) hin.2 (Or.inl (hjunk _))]
  · rw [h.rest q hin, h'.rest q hin]

section Write

variable {fd : Int} {s : Fs g} {f : FileId} {v : OpenFile g} {p nbytes total : Nat}
  {bounce buf buf' : Mem}

/-- The same for a file object. -/
def FileWritesAgree (v : OpenFile g) (bounce buf buf' : Mem) (nbytes : Nat) : Prop :=
  ∃ r r', monopolyWriteFile (fun _ => .done) v bounce buf nbytes true = some r ∧
    monopolyWriteFile (fun _ => .done) v bounce buf' nbytes false = some r' ∧
    r.ret = r'.ret ∧ SameFile r.view r'.view

/-- Whether the two calls agree is a matter of the file alone. -/
theorem writesAgree_iff_file (hopen : s.Resolves fd f v) (hB : g.ioUnit ∣ bufSize) (hv : v.At p)
    (h64 : nbytes < 2 ^ 64) :
    WritesAgree fd buf buf' nbytes s ↔ FileWritesAgree v s.buffer buf buf' nbytes := by
  constructor
  · rintro ⟨⟨s₁, b₁, ret⟩, ⟨s₂, b₂, ret'⟩, f', u, u', hw, hw', hret, hres, hres', hsame⟩
    obtain ⟨k, r, hr, hk, hk₁, hback, -⟩ := Fs.monopolyWrite_spec hB hopen hv h64 hw
    obtain ⟨k', r', hr', hk', hk₂, hback', -⟩ := Fs.monopolyWrite_spec hB hopen hv h64 hw'
    obtain ⟨rfl, rfl⟩ := hback.unique hres
    obtain ⟨-, rfl⟩ := hback'.unique hres'
    exact ⟨r, r', hr, hr', (hk.trans hk₁.symm).trans (hret.trans (hk₂.trans hk'.symm)), hsame⟩
  · rintro ⟨r, r', hr, hr', hret, hsame⟩
    have hw := (Fs.monopolyWrite_eq_some hopen).mpr ⟨r, hr, rfl, rfl, rfl⟩
    have hw' := (Fs.monopolyWrite_eq_some hopen).mpr ⟨r', hr', rfl, rfl, rfl⟩
    obtain ⟨k, r₁, hr₁, -, -, hback, -⟩ := Fs.monopolyWrite_spec hB hopen hv h64 hw
    obtain ⟨k', r₂, hr₂, -, -, hback', -⟩ := Fs.monopolyWrite_spec hB hopen hv h64 hw'
    cases hr.symm.trans hr₁
    cases hr'.symm.trans hr₂
    exact ⟨_, _, f, r.view, r'.view, hw, hw', hret, hback, hback', hsame⟩

/-- Two writes that come back with the same count, and have added as many clusters, leave the same
file unless the last chunk that was tried starts behind the end of the file. -/
theorem sameFile_iff {r r' : MonopolyIo g} {k : Nat} (hB : g.ioUnit ∣ bufSize) (hv : v.At p)
    (h64 : nbytes < 2 ^ 64) (htot : nbytes / g.ioUnit * g.ioUnit = total) (h0 : 0 < total)
    (hbuf : ∀ q < nbytes, buf q = buf' q)
    (hr : monopolyWriteFile (fun _ => .done) v bounce buf nbytes true = some r)
    (hr' : monopolyWriteFile (fun _ => .done) v bounce buf' nbytes false = some r')
    (hk : r.ret = k) (hk' : r'.ret = k)
    (hcl : r.view.blob.clusters = r'.view.blob.clusters) :
    SameFile r.view r'.view ↔
      lastChunkStart false total k = 0 ∨ p + lastChunkStart false total k ≤ v.persist.fSize := by
  have hle : total ≤ nbytes := htot ▸ total_le nbytes
  obtain ⟨j, hj, -, hw⟩ := monopolyWriteFile_spec hB hv h64 hr
  obtain ⟨j', hj', -, hw'⟩ := monopolyWriteFile_spec hB hv h64 hr'
  obtain rfl : j = k := Int.ofNat_inj.mp (hj.symm.trans hk)
  obtain rfl : j' = j := Int.ofNat_inj.mp (hj'.symm.trans hk')
  rw [htot] at hw hw'
  obtain ⟨hdata, hpos⟩ := hw.same (fun _ => rfl) (fun q hq => hbuf q (by omega)) hw'
  have hsize : r.view.persist.fSize = max v.persist.fSize p := by
    rw [hw.fSize, if_pos h0]
    rfl
  have hsize' := hw'.fSize
  rw [if_pos h0] at hsize'
  constructor
  · intro hsame
    have heq := hsame.fSize
    omega
  · intro hstart
    exact ⟨hdata, hcl, hpos, by omega⟩

/-- Where one cluster is enough, the direct way stores everything, and the other does if it can
count the chunks. -/
theorem fileWritesAgree_of_fits (hB : g.ioUnit ∣ bufSize) (hv : v.At p) (h64 : nbytes < 2 ^ 64)
    (htot : nbytes / g.ioUnit * g.ioUnit = total) (h0 : 0 < total)
    (hfree : p + total ≤ g.totalClusters * g.clusterSize) (hbuf : ∀ q < nbytes, buf q = buf' q)
    (hfits : p + total ≤ v.blob.capacity + g.clusterSize) :
    FileWritesAgree v bounce buf buf' nbytes ↔
      CounterFits false total ∧
        (total ≤ bufSize ∨ p + (total - 1) / bufSize * bufSize ≤ v.persist.fSize) := by
  have fits := fun b registered =>
    monopolyWriteFile_fits (fun _ => .done) bounce b registered hB hv htot h64 h0
      (fun _ => rfl) (fun _ => rfl) hfree hfits
  obtain ⟨r, hr, hret, hcl⟩ := (fits buf true).1 (Or.inl rfl)
  obtain ⟨hcount, hover⟩ := fits buf' false
  by_cases hc : CounterFits false total
  · obtain ⟨r', hr', hret', hcl'⟩ := hcount hc
    have hsame := sameFile_iff hB hv h64 htot h0 hbuf hr hr' hret hret' (hcl.trans hcl'.symm)
    have hstart : (total - 1) / bufSize * bufSize = 0 ↔ total ≤ bufSize := by
      rw [Nat.mul_eq_zero, or_iff_left (by decide), Nat.div_eq_zero_iff_lt (by decide)]
      omega
    rw [lastChunkStart_of_last rfl, hstart] at hsame
    rw [and_iff_right hc, ← hsame]
    constructor
    · rintro ⟨r₁, r₂, hr₁, hr₂, -, h⟩
      cases hr.symm.trans hr₁
      cases hr'.symm.trans hr₂
      exact h
    · intro h
      exact ⟨r, r', hr, hr', hret.trans hret'.symm, h⟩
  · refine iff_of_false ?_ fun h => hc h.1
    rintro ⟨-, r', -, hr', -⟩
    rw [hover hc] at hr'
    cases hr'

/-- Where it is not, the direct way stores nothing, and the other does not if its first chunk is
too long as well. -/
theorem fileWritesAgree_of_behind (hB : g.ioUnit ∣ bufSize) (hv : v.At p) (h64 : nbytes < 2 ^ 64)
    (htot : nbytes / g.ioUnit * g.ioUnit = total) (h0 : 0 < total)
    (hfree : p + total ≤ g.totalClusters * g.clusterSize) (hbuf : ∀ q < nbytes, buf q = buf' q)
    (hbehind : v.blob.capacity + g.clusterSize < p + total) :
    FileWritesAgree v bounce buf buf' nbytes ↔
      v.blob.capacity + g.clusterSize < p + min total bufSize := by
  have behind := fun b registered =>
    monopolyWriteFile_behind (fun _ => .done) bounce b registered hB hv htot h64 h0 rfl rfl hfree
  obtain ⟨r, hr, hret, hcl⟩ := behind buf true (by simpa [chunkLen] using hbehind)
  by_cases hfirst : v.blob.capacity + g.clusterSize < p + min total bufSize
  · obtain ⟨r', hr', hret', hcl'⟩ := behind buf' false hfirst
    have hnone := Nat.le_zero.mp (lastChunkStart_le false total 0)
    exact iff_of_true ⟨r, r', hr, hr', hret.trans hret'.symm,
      (sameFile_iff hB hv h64 htot h0 hbuf hr hr' hret hret' (hcl.trans hcl'.symm)).mpr
        (Or.inl hnone)⟩ hfirst
  · -- the first chunk is stored
    refine iff_of_false ?_ hfirst
    rintro ⟨r₁, r', hr₁, hr', hret', -⟩
    cases hr.symm.trans hr₁
    have hroom : p + min total (chunkLen false total) ≤ g.totalClusters * g.clusterSize := by omega
    have hpos := (monopolyWriteFile_pos_iff hB hv h64 htot h0 hr').mpr
      ⟨(OpenFile.reaches_iff_of_free rfl hroom).mpr (not_lt.mp hfirst), rfl⟩
    omega

/-- **Zero-copy writes.** For a write of whole io_units that the device has the clusters for, the
two ways agree exactly when the request is a single chunk, or is stored by both, with all its
chunks starting inside the file, or by neither. -/
theorem writesAgree_iff (hopen : s.Resolves fd f v) (hB : g.ioUnit ∣ bufSize) (hv : v.At p)
    (h64 : nbytes < 2 ^ 64) (htot : nbytes / g.ioUnit * g.ioUnit = total)
    (hfree : p + total ≤ g.totalClusters * g.clusterSize) (hbuf : ∀ q < nbytes, buf q = buf' q) :
    WritesAgree fd buf buf' nbytes s ↔
      total ≤ bufSize ∨
        (p + total ≤ v.blob.capacity + g.clusterSize ∧
          p + (total - 1) / bufSize * bufSize ≤ v.persist.fSize ∧
          (total - 1) / bufSize + 1 < 2 ^ 31) ∨
        v.blob.capacity + g.clusterSize < p + bufSize := by
  rw [writesAgree_iff_file hopen hB hv h64]
  have hsmall : total ≤ bufSize → (total - 1) / bufSize = 0 := fun h =>
    Nat.div_eq_of_lt (Nat.lt_of_le_of_lt (Nat.sub_le_sub_right h 1) (by decide))
  rcases Nat.eq_zero_or_pos total with hz | h0
  · -- nothing is asked for
    have hunits : nbytes / g.ioUnit = 0 := units_eq_zero (htot.trans hz)
    exact iff_of_true ⟨_, _, monopolyWriteFile_zero v s.buffer buf hunits _ true,
      monopolyWriteFile_zero v s.buffer buf' hunits _ false, rfl, rfl, rfl, rfl, rfl⟩
      (Or.inl (hz ▸ Nat.zero_le _))
  · by_cases hfits : p + total ≤ v.blob.capacity + g.clusterSize
    · have hcount : CounterFits false total ↔ (total - 1) / bufSize + 1 < 2 ^ 31 :=
        or_iff_right Bool.false_ne_true
      rw [fileWritesAgree_of_fits hB hv h64 htot h0 hfree hbuf hfits, hcount]
      omega
    · rw [fileWritesAgree_of_behind hB hv h64 htot h0 hfree hbuf (not_le.mp hfits)]
      omega

end Write

/-- The write of `file_ut.c`. -/
theorem writesAgree_page : WritesAgree 0 (fun _ => 65) (fun _ => 65) 4096 fileUtFs :=
  (writesAgree_iff (f := 0) ⟨rfl, rfl⟩ (by decide)
    (OpenFile.at_zero rfl) (by decide) rfl (by decide)
    fun _ _ => rfl).mpr (Or.inl (by decide))

/-- Two chunks at the start of a new file: both ways store them, but only the second one leaves a
size, that of the first chunk. -/
theorem not_writesAgree_two :
    ¬ WritesAgree 0 (fun _ => 65) (fun _ => 65) (2 * bufSize) fileUtFs := by
  rintro ⟨r, r', f, v, v', hw, hw', -, hres, hres', hsame⟩
  obtain rfl := Option.some.inj (hw.symm.trans rfl)
  obtain rfl := Option.some.inj (hw'.symm.trans rfl)
  obtain ⟨-, rfl⟩ := hres.unique ⟨rfl, rfl⟩
  obtain ⟨-, rfl⟩ := hres'.unique ⟨rfl, rfl⟩
  exact absurd hsame.fSize (by decide +kernel)

/-! ## Reading -/

/-- A read into the registered buffer `buf` and one into the unregistered `buf'`, of which SPDK
fails no request, return the same count, deliver the same bytes and leave the same position. -/
def ReadsAgree (fd : Int) (buf buf' : Mem) (nbytes : Nat) (s : Fs g) : Prop :=
  ∃ r r' f v v', monopolyRead (fun _ => .done) fd buf nbytes true s = some r ∧
    monopolyRead (fun _ => .done) fd buf' nbytes false s = some r' ∧
    r.2.2 = r'.2.2 ∧ (∀ q : Nat, (q : Int) < r.2.2 → r.2.1 q = r'.2.1 q) ∧
    r.1.Resolves fd f v ∧ r'.1.Resolves fd f v' ∧ v.file.fPos = v'.file.fPos

section Read

variable {fd : Int} {s : Fs g} {f : FileId} {v : OpenFile g} {p nbytes total : Nat}
  {buf buf' : Mem}

/-- If the two calls return the same, they agree. -/
theorem readsAgree_iff_ret (hopen : s.Resolves fd f v) (hB : g.ioUnit ∣ bufSize) (hv : v.At p)
    (h64 : nbytes < 2 ^ 64) :
    ReadsAgree fd buf buf' nbytes s ↔
      ∃ ret, (monopolyReadFile (fun _ => .done) v s.buffer buf nbytes true).map MonopolyIo.ret =
          some ret ∧
        (monopolyReadFile (fun _ => .done) v s.buffer buf' nbytes false).map MonopolyIo.ret =
          some ret := by
  constructor
  · rintro ⟨⟨s₁, b₁, ret⟩, ⟨s₂, b₂, ret'⟩, f', u, u', hw, hw', hret, -⟩
    obtain ⟨r, hr, -, -, rfl⟩ := (Fs.monopolyRead_eq_some hopen).mp hw
    obtain ⟨r', hr', -, -, rfl⟩ := (Fs.monopolyRead_eq_some hopen).mp hw'
    refine ⟨r.ret, by rw [hr]; rfl, ?_⟩
    rw [hr', Option.map_some]
    exact congrArg some hret.symm
  · rintro ⟨ret, hret, hret'⟩
    obtain ⟨r, hr, rfl⟩ := Option.map_eq_some_iff.mp hret
    obtain ⟨r', hr', hsame⟩ := Option.map_eq_some_iff.mp hret'
    have hw := (Fs.monopolyRead_eq_some hopen).mpr ⟨r, hr, rfl, rfl, rfl⟩
    have hw' := (Fs.monopolyRead_eq_some hopen).mpr ⟨r', hr', rfl, rfl, rfl⟩
    obtain ⟨k, r₁, hr₁, hk, -, hback, hread, -⟩ := Fs.monopolyRead_spec hB hopen hv h64 hw
    obtain ⟨k', r₂, hr₂, hk', -, hback', hread', -⟩ := Fs.monopolyRead_spec hB hopen hv h64 hw'
    cases hr.symm.trans hr₁
    cases hr'.symm.trans hr₂
    obtain rfl : k' = k := Int.ofNat_inj.mp (hk'.symm.trans (hsame.trans hk))
    refine ⟨_, _, f, r.view, r'.view, hw, hw', hsame.symm, ?_, hback, hback',
      hread.fPos.fPos.trans hread'.fPos.fPos.symm⟩
    intro q hq
    have hqk : q < k' := Int.ofNat_lt.mp (hk ▸ hq)
    show r.buf q = r'.buf q
    rw [hread.done q (Nat.zero_le q) hqk, hread'.done q (Nat.zero_le q) hqk]

/-- Of `rest` bytes that can be read, the direct way is served all that was asked for or nothing,
the other one the whole chunks. -/
theorem served_eq_iff (h0 : 0 < total) (rest : Nat) :
    min total (servedPieces true total rest * chunkLen true total) =
          min total (servedPieces false total rest * chunkLen false total) ∧
        servedPieces false total rest < 2 ^ 31 ↔
      total ≤ bufSize ∨ (total ≤ rest ∧ (total - 1) / bufSize + 1 < 2 ^ 31) ∨ rest < bufSize := by
  have hB0 : 0 < bufSize := by decide
  have hsmall : total ≤ bufSize → (total - 1) / bufSize = 0 := fun h =>
    Nat.div_eq_of_lt (by omega)
  by_cases hall : total ≤ rest
  · have hpieces : ∀ registered, servedPieces registered total rest =
        pieceCount registered total := fun _ => if_pos hall
    have hcount : pieceCount false total = (total - 1) / bufSize + 1 := rfl
    rw [hpieces, hpieces, min_pieceCount, min_pieceCount, hcount, and_iff_right rfl]
    omega
  · have hnone : servedPieces true total rest = 0 := by
      rw [servedPieces, if_neg hall]
      exact Nat.div_eq_of_lt (not_le.mp hall)
    have hchunks : servedPieces false total rest = rest / bufSize := if_neg hall
    have hlen : chunkLen false total = bufSize := rfl
    rw [hnone, hchunks, hlen, Nat.zero_mul, Nat.min_zero]
    rcases Nat.eq_zero_or_pos (rest / bufSize) with hzero | hpos
    · -- not even a chunk
      rw [hzero, Nat.zero_mul, Nat.min_zero]
      exact iff_of_true ⟨rfl, by decide⟩ (Or.inr (Or.inr ((Nat.div_eq_zero_iff_lt hB0).mp hzero)))
    · have hge : bufSize ≤ rest := (Nat.div_pos_iff.mp hpos).2
      have hmul := Nat.mul_pos hpos hB0
      refine iff_of_false ?_ (by omega)
      rintro ⟨hmin, -⟩
      omega

/-- **Zero-copy reads.** The two ways agree exactly when nothing is asked for, or a multiple of 512
bytes that is a single chunk, or can be read in full, in chunks that can be counted, or of which
not even the first chunk can be read. -/
theorem readsAgree_iff (hopen : s.Resolves fd f v) (hB : g.ioUnit ∣ bufSize) (hv : v.At p)
    (h64 : nbytes < 2 ^ 64) (htot : nbytes / g.ioUnit * g.ioUnit = total) :
    ReadsAgree fd buf buf' nbytes s ↔
      total = 0 ∨
        (512 ∣ total ∧
          (total ≤ bufSize ∨
            (p + total ≤ v.readable ∧ (total - 1) / bufSize + 1 < 2 ^ 31) ∨
            v.readable < p + bufSize)) := by
  rw [readsAgree_iff_ret hopen hB hv h64]
  rcases Nat.eq_zero_or_pos total with hz | h0
  · have hunits : nbytes / g.ioUnit = 0 := units_eq_zero (htot.trans hz)
    refine iff_of_true ⟨0, ?_, ?_⟩ (Or.inl hz)
    · rw [monopolyReadFile_zero v s.buffer buf hunits]
      rfl
    · rw [monopolyReadFile_zero v s.buffer buf' hunits]
      rfl
  rw [or_iff_right (Nat.ne_of_gt h0)]
  by_cases h512 : 512 ∣ total
  · have served := fun b registered =>
      monopolyReadFile_served (fun _ => .done) s.buffer b registered hB hv h64 htot h0 h512
        fun _ => rfl
    have hB0 : 0 < bufSize := by decide
    have hfits : total ≤ v.readable - p ↔ p + total ≤ v.readable := by omega
    have hfirst : v.readable - p < bufSize ↔ v.readable < p + bufSize := by omega
    have hagree := served_eq_iff h0 (v.readable - p)
    rw [hfits, hfirst] at hagree
    -- only the bounced read counts its chunks
    rw [and_iff_right h512, ← hagree, served, served, if_pos (Or.inl rfl)]
    constructor
    · rintro ⟨ret, hret, hret'⟩
      split at hret'
      · next hcount =>
          exact ⟨Int.ofNat_inj.mp (Option.some.inj (hret.trans hret'.symm)),
            hcount.resolve_left Bool.false_ne_true⟩
      · cases hret'
    · rintro ⟨heq, hcount⟩
      refine ⟨_, rfl, ?_⟩
      rw [if_pos (Or.inr hcount), heq]
  · -- the direct way does not come back
    refine iff_of_false ?_ fun h => h512 h.1
    rintro ⟨ret, hret, -⟩
    obtain ⟨r, hr, -⟩ := Option.map_eq_some_iff.mp hret
    rw [monopolyReadFile_direct v s.buffer buf htot h0] at hr
    obtain ⟨t, ht, -⟩ := Option.map_eq_some_iff.mp hr
    have hd : g.ioUnit ∣ total := htot ▸ dvd_total nbytes
    have hle : total ≤ nbytes := htot ▸ total_le nbytes
    exact h512 (simpleFsRead_spec hv hd h0 (by omega) ht).2.1

end Read

/-- The file of `file_ut.c` after a write of two chunks and a seek back to its start. -/
def twoChunksFs : Fs .malloc0 :=
  ((monopolyLseek 0 0 SEEK_SET
    ((monopolyWrite (fun _ => .done) 0 (fun _ => 65) (2 * bufSize) false fileUtFs).get rfl).1).get
      rfl).1

/-- The read of `file_ut.c`. -/
theorem readsAgree_page : ReadsAgree 0 (fun _ => 66) (fun _ => 66) 4096 twoChunksFs :=
  (readsAgree_iff (f := 0) ⟨rfl, rfl⟩ (by decide)
    (OpenFile.at_zero rfl) (by decide) rfl).mpr
    (Or.inr ⟨by decide, Or.inl (by decide)⟩)

/-- The size of the file is one chunk, so a read of two gets one, or nothing. -/
theorem not_readsAgree_two :
    ¬ ReadsAgree 0 (fun _ => 66) (fun _ => 66) (2 * bufSize) twoChunksFs := by
  rintro ⟨r, r', f, v, v', hr, hr', hret, -⟩
  have hdirect : (monopolyRead (fun _ => .done) 0 (fun _ => 66) (2 * bufSize) true twoChunksFs).map
      (fun r => r.2.2) = some 0 := by decide +kernel
  have hbounced : (monopolyRead (fun _ => .done) 0 (fun _ => 66) (2 * bufSize) false
      twoChunksFs).map (fun r => r.2.2) = some 65536 := by decide +kernel
  rw [hr, Option.map_some, hret] at hdirect
  rw [hr', Option.map_some] at hbounced
  exact absurd (hdirect.symm.trans hbounced) (by decide)

end BlobTopFs
