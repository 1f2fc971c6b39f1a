import BlobTopFs.SimpleFs.ChunkRuns

/-!
# What a whole request does

The prefix laws of `monopoly_write` and `monopoly_read`: whatever fails, a request moves
some `k` bytes, these are the first `k`, and the position advances by `k`. Both loops are
followed by one induction on the number of chunks left, in which the chunk index `i` stands
for the `min total (i * bufSize)` bytes moved so far.
-/

namespace BlobTopFs

open Machine

variable {g : Geometry}

/-! ## Chunks -/

/-- Where the last chunk starts that a request of `total` bytes hands to the file layer,
when it moves `k` of them: the chunk in which the last byte lies if all moved, the one that
failed otherwise. A registered buffer is a single chunk. -/
def lastChunkStart (registered : Bool) (total k : Nat) : Nat :=
  if registered then 0 else min k (total - 1) / bufSize * bufSize

/-- How many bytes go to the file layer at once. -/
def chunkLen (registered : Bool) (total : Nat) : Nat := if registered then total else bufSize

section Chunk

variable {total i : Nat}

/-- It starts inside what was moved, or where the request does. -/
theorem lastChunkStart_le (registered : Bool) (total k : Nat) :
    lastChunkStart registered total k ≤ k := by
  unfold lastChunkStart
  split
  · exact Nat.zero_le _
  · exact Nat.le_trans (Nat.div_mul_le_self ..) (Nat.min_le_left ..)

theorem chunkLen_pos (registered : Bool) (h : 0 < total) : 0 < chunkLen registered total := by
  unfold chunkLen
  split
  · exact h
  · decide

/-- The last chunk starts at a multiple of the chunk size. -/
theorem lastChunkStart_of_cut {k : Nat} (h : k < total) (hk : bufSize ∣ k) :
    lastChunkStart false total k = k := by
  unfold lastChunkStart
  rw [if_neg (by decide), Nat.min_eq_left (by omega), Nat.div_mul_cancel hk]

theorem lastChunkStart_of_last (hN : i = (total - 1) / bufSize) :
    lastChunkStart false total total = i * bufSize := by
  unfold lastChunkStart
  rw [if_neg (by decide), Nat.min_eq_right (by omega), hN]

end Chunk

/-! ## Writing -/

/-- A request on `[p, p + total)` that had moved `a` bytes when the file was `v` has moved
`k` and left the file `w`. The last chunk it tried starts `start` bytes into the request,
and no chunk is longer than `len`. -/
structure WroteUpTo (io : Nat → WriteAnswer) (p total : Nat) (buf : Mem) (start len : Nat)
    (v : OpenFile g) (a k : Nat) (w : OpenFile g) : Prop where
  fileBlob : w.file.blob = v.file.blob
  openRef : w.blob.openRef = v.blob.openRef
  capacity : v.blob.capacity ≤ w.blob.capacity
  fPos : w.At (p + k)
  le_left : a ≤ k
  le_right : k ≤ total
  dvd : g.ioUnit ∣ k
  backed : a < k → p + k ≤ w.blob.capacity
  fSize : w.persist.fSize = if a < total then max v.persist.fSize (p + start) else v.persist.fSize
  done : ∀ q, p + a ≤ q → q < p + k → w.blob.data q = buf (q - p)
  cut : ∀ q, p + k ≤ q → q < p + total →
    (io (k / bufSize)).io.junk = none ∨ p + k + len ≤ q → w.blob.data q = v.blob.data q
  rest : ∀ q, ¬ (p + a ≤ q ∧ q < p + total) → w.blob.data q = v.blob.data q

/-- A chunk stored in front of a request that goes on. -/
theorem WroteUpTo.cons {io : Nat → WriteAnswer} {p total a b k start len : Nat}
    {v u w : OpenFile g} {buf chunk : Mem} (hframe : WriteFrame v u (p + a))
    (hdone : WriteDone v u (p + a) b chunk) (hchunk : ∀ q < b, chunk q = buf (a + q))
    (hb : 0 < b) (ha : a < total) (hstart : a ≤ start) (hlast : a + b = total → start = a)
    (h : WroteUpTo io p total buf start len u (a + b) k w) :
    WroteUpTo io p total buf start len v a k w where
  fileBlob := h.fileBlob.trans hframe.fileBlob
  openRef := h.openRef.trans hframe.openRef
  capacity := le_trans hframe.capacity h.capacity
  fPos := h.fPos
  le_left := by have := h.le_left; omega
  le_right := h.le_right
  dvd := h.dvd
  backed := by
    intro _
    rcases Nat.lt_or_eq_of_le h.le_left with hlt | heq
    · exact h.backed hlt
    · have h1 := hdone.backed
      have h2 := h.capacity
      omega
  fSize := by
    have h1 := h.le_left
    have h2 := h.le_right
    rw [if_pos ha, h.fSize, hframe.fSize]
    split
    · omega
    · rw [hlast (by omega)]
  done := by
    intro q hq1 hq2
    by_cases hq : p + (a + b) ≤ q
    · exact h.done q hq hq2
    · rw [h.rest q (by omega), hdone.data, Mem.write_in (by omega) (by omega),
        hchunk (q - (p + a)) (by omega)]
      congr 1
      omega
  cut := by
    intro q hq1 hq2 hj
    have := h.le_left
    rw [h.cut q hq1 hq2 hj, hdone.data, Mem.write_out (by omega)]
  rest := by
    intro q hq
    have h1 := h.le_left
    have h2 := h.le_right
    rw [h.rest q (by omega), hdone.data, Mem.write_out (by omega)]

/-- All of it has been moved. -/
theorem WroteUpTo.refl {io : Nat → WriteAnswer} {p total start len : Nat} {buf : Mem}
    {v : OpenFile g} (hv : v.At (p + total)) (ht : g.ioUnit ∣ total) :
    WroteUpTo io p total buf start len v total total v where
  fileBlob := rfl
  openRef := rfl
  capacity := le_refl _
  fPos := hv
  le_left := le_refl _
  le_right := le_refl _
  dvd := ht
  backed := by omega
  fSize := (if_neg (lt_irrefl _)).symm
  done := by omega
  cut := fun _ _ _ _ => rfl
  rest := fun _ _ => rfl

/-- A chunk that fails ends the request where it stands. -/
theorem WroteUpTo.failed {io : Nat → WriteAnswer} {p total a i size len : Nat} {buf : Mem}
    {v w : OpenFile g} (hv : v.At (p + a)) (hframe : WriteFrame v w (p + a))
    (hi : a / bufSize = i) (hfail : WriteFailed (io i).io v w (p + a) size) (ha : a < total)
    (hd : g.ioUnit ∣ a) (hlen : size ≤ len) (htotal : a + size ≤ total) :
    WroteUpTo io p total buf a len v a a w where
  fileBlob := hframe.fileBlob
  openRef := hframe.openRef
  capacity := hframe.capacity
  fPos := ⟨hfail.fPos, hv.dvd, hv.lt⟩
  le_left := le_refl _
  le_right := Nat.le_of_lt ha
  dvd := hd
  backed := by omega
  fSize := by rw [if_pos ha, hframe.fSize]
  done := by omega
  cut := by
    intro q hq1 hq2 hj
    rw [hi] at hj
    exact hfail.data q (hj.imp id fun _ => by omega)
  rest := by
    intro q hq
    exact hfail.data q (Or.inr (by omega))

/-- A chunk that is stored is no later than the last one tried. -/
theorem le_lastChunkStart {total i k : Nat} (hi : i * bufSize < total)
    (hk : min total ((i + 1) * bufSize) ≤ k) : i * bufSize ≤ lastChunkStart false total k := by
  have hle : i ≤ min k (total - 1) / bufSize := by
    rw [Nat.le_div_iff_mul_le (by decide)]
    rw [Nat.add_mul] at hk
    have hB : bufSize = 65536 := rfl
    omega
  exact Nat.mul_le_mul_right bufSize hle

/-- Chunk by chunk: what the loop of `monopoly_write` has done when it stops. -/
theorem ChunkRun.wroteUpTo {io : Nat → WriteAnswer} {p total : Nat} (h0 : 0 < total)
    (hB : g.ioUnit ∣ bufSize) (ht : g.ioUnit ∣ total) {i j : Nat} {s t : ChunkState g}
    (hrun : ChunkRun (writeChunk io total) total i s t j)
    (hv : s.view.At (p + min total (i * bufSize))) :
    t.buf = s.buf ∧
      WroteUpTo io p total s.buf (lastChunkStart false total (min total (j * bufSize))) bufSize
        s.view (min total (i * bufSize)) (min total (j * bufSize)) t.view := by
  have hB' : bufSize = 65536 := rfl
  induction hrun with
  | done s =>
      rw [Nat.min_eq_left (le_chunkCount_mul total)] at hv ⊢
      exact ⟨rfl, WroteUpTo.refl hv ht⟩
  | @stop i s t hi hs =>
      have hlt := chunk_start_lt h0 hi
      have hb0 := chunkBytes_pos hlt
      have hb1 : chunkBytes total i ≤ bufSize := chunkBytes_le
      have hdvd : g.ioUnit ∣ i * bufSize := Nat.dvd_mul_left_of_dvd hB i
      have hnext := chunkBytes_add hlt
      rw [Nat.min_eq_right (Nat.le_of_lt hlt)] at hv ⊢
      obtain ⟨t', ht', hret, rfl⟩ := hs
      obtain ⟨hframe, -, ⟨hret', -⟩ | ⟨-, hfail⟩⟩ :=
        simpleFsWrite_spec hv (dvd_chunkBytes hB ht) hb0 (by omega) ht'
      · omega
      · rw [lastChunkStart_of_cut hlt (Nat.dvd_mul_left ..)]
        have hindex : i * bufSize / bufSize = i := Nat.mul_div_cancel i (by decide)
        exact ⟨rfl, WroteUpTo.failed hv hframe hindex hfail hlt hdvd hb1 (by omega)⟩
  | @move i j s u t hi hm hrest ih =>
      have hlt := chunk_start_lt h0 hi
      have hb0 := chunkBytes_pos hlt
      have hb1 : chunkBytes total i ≤ bufSize := chunkBytes_le
      have hbd : g.ioUnit ∣ chunkBytes total i := dvd_chunkBytes hB ht
      have hnext := chunkBytes_add hlt
      rw [Nat.min_eq_right (Nat.le_of_lt hlt)] at hv ⊢
      obtain ⟨t', ht', hret, rfl⟩ := hm
      obtain ⟨hframe, hbuf, ⟨-, hdone⟩ | ⟨hret', -⟩⟩ :=
        simpleFsWrite_spec hv hbd hb0 (by omega) ht'
      · -- the chunk is stored: the rest of the loop starts behind it
        have hback := hdone.backed
        have hcaplt := t'.view.blob.capacity_lt
        have hchunk : ∀ q < chunkBytes total i,
            s.bounce.write 0 (chunkBytes total i) (s.buf.shift (i * bufSize)) q =
              s.buf (i * bufSize + q) := by
          intro q hq
          rw [Mem.write_in (by omega) (by omega), Mem.shift_apply, Nat.sub_zero]
        -- and the bounce buffer brings the caller's own bytes back
        have hsame : s.buf.write (i * bufSize) (chunkBytes total i) t'.buffer = s.buf := by
          apply Mem.write_self
          intro q hq
          rw [hbuf, hchunk q hq]
        have hAt : t'.view.At (p + min total ((i + 1) * bufSize)) := by
          rw [← hnext, ← Nat.add_assoc]
          exact hv.moved hdone.fPos hbd (by omega)
        obtain ⟨hbufEq, hw⟩ := ih hAt
        rw [hsame] at hbufEq hw
        have hstart := le_lastChunkStart hlt hw.le_left
        rw [← hnext] at hw
        refine ⟨hbufEq, WroteUpTo.cons hframe hdone hchunk hb0 hlt hstart (fun hend => ?_) hw⟩
        have hj : min total (j * bufSize) = total := by
          have := hw.le_left
          have := hw.le_right
          omega
        have hi' : (total - 1) / bufSize < i + 1 := by
          rw [Nat.div_lt_iff_lt_mul (by decide), Nat.add_mul]
          omega
        rw [hj, lastChunkStart_of_last (Nat.le_antisymm (Nat.le_of_lt_succ hi) (by omega))]
      · omega

/-- A single write of the whole request. -/
theorem WroteUpTo.single {io : Nat → WriteAnswer} {p total : Nat} {buf : Mem} {v : OpenFile g}
    {t : Transfer g} (h0 : 0 < total) (h64 : total < 2 ^ 64) (ht : g.ioUnit ∣ total)
    (hv : v.At p) (h : simpleFsWrite (io 0) v total buf = some t) :
    ∃ k : Nat, s64 (u64 t.ret) = k ∧ t.buffer = buf ∧
      WroteUpTo io p total buf 0 total v 0 k t.view := by
  obtain ⟨hframe, hbuf, ⟨hret, hdone⟩ | ⟨hret, hfail⟩⟩ := simpleFsWrite_spec hv ht h0 h64 h
  · have hback := hdone.backed
    have hcap := t.view.blob.capacity_lt
    have hend : WroteUpTo io p total buf 0 total t.view total total t.view :=
      WroteUpTo.refl (hv.moved hdone.fPos ht (by omega)) ht
    refine ⟨total, ?_, hbuf, WroteUpTo.cons hframe hdone (fun q _ => ?_) h0 h0 (le_refl _)
      (fun _ => rfl) ((Nat.zero_add total).symm ▸ hend)⟩
    · rw [hret, s64_u64, s64_of_fits (by omega) (by omega)]
    · rw [Nat.zero_add]
  · refine ⟨0, ?_, hbuf, WroteUpTo.failed hv hframe (Nat.zero_div _) hfail h0 (Nat.dvd_zero _)
      (le_refl _) ?_⟩
    · rw [hret]
      rfl
    · rw [Nat.zero_add]

/-- **The prefix law of `monopoly_write`.** Some `k` bytes are stored, these are the first
`k` of the buffer, the position has advanced by `k`, and nothing outside the request has
changed. -/
theorem monopolyWriteFile_spec {io : Nat → WriteAnswer} {v : OpenFile g} {p nbytes : Nat}
    {bounce buf : Mem} {registered : Bool} {r : MonopolyIo g} (hB : g.ioUnit ∣ bufSize)
    (hv : v.At p) (h64 : nbytes < 2 ^ 64)
    (h : monopolyWriteFile io v bounce buf nbytes registered = some r) :
    ∃ k : Nat, r.ret = k ∧ r.buf = buf ∧
      WroteUpTo io p (nbytes / g.ioUnit * g.ioUnit) buf
        (lastChunkStart registered (nbytes / g.ioUnit * g.ioUnit) k)
        (chunkLen registered (nbytes / g.ioUnit * g.ioUnit)) v 0 k r.view := by
  have hle := total_le (g := g) nbytes
  have hd := dvd_total (g := g) nbytes
  by_cases hz : nbytes / g.ioUnit = 0
  · rw [monopolyWriteFile_zero v bounce buf hz] at h
    cases h
    refine ⟨0, rfl, rfl, ?_⟩
    rw [hz, Nat.zero_mul, show lastChunkStart registered 0 0 = 0 by cases registered <;> rfl]
    exact WroteUpTo.refl hv (Nat.dvd_zero _)
  · have h0 := total_pos hz
    cases registered with
    | false =>
        rw [monopolyWriteFile_bounced v bounce buf h64 rfl h0] at h
        obtain ⟨j, hrun, -, hret⟩ := (chunkLoop_start h0 fun _ _ _ => writeChunk_ret).mp h
        obtain ⟨hbuf, hw⟩ := hrun.wroteUpTo h0 hB hd (by simpa using hv)
        exact ⟨_, hret, hbuf, by simpa [chunkLen] using hw⟩
    | true =>
        rw [monopolyWriteFile_direct v bounce buf rfl h0] at h
        obtain ⟨t, ht, rfl⟩ := Option.map_eq_some_iff.mp h
        exact WroteUpTo.single h0 (by omega) hd hv ht

/-! ## Reading -/

/-- A request on `[p, p + total)` that had moved `a` bytes when the file was `v` and the
caller's buffer was `buf` has moved `k` and left the file `w` and the buffer `buf'`. What lies
behind the `k` bytes is as it was if the transfer was `clean`. -/
structure ReadUpTo (clean : Prop) (p total : Nat) (v : OpenFile g) (buf : Mem) (a k : Nat)
    (w : OpenFile g) (buf' : Mem) : Prop where
  frame : ReadFrame v w
  fPos : w.At (p + k)
  le_left : a ≤ k
  le_right : k ≤ total
  dvd : g.ioUnit ∣ k
  within : a < k → p + k ≤ v.persist.fSize
  done : ∀ q, a ≤ q → q < k → buf' q = v.blob.data (p + q)
  rest : clean → ∀ q, ¬ (a ≤ q ∧ q < k) → buf' q = buf q

theorem ReadUpTo.refl {clean : Prop} {p total a : Nat} {v : OpenFile g} {buf : Mem}
    (hv : v.At (p + a)) (ha : a ≤ total) (hd : g.ioUnit ∣ a) :
    ReadUpTo clean p total v buf a a v buf where
  frame := ReadFrame.refl v
  fPos := hv
  le_left := le_refl _
  le_right := ha
  dvd := hd
  within := by omega
  done := by omega
  rest := fun _ _ _ => rfl

/-- A chunk that fails ends the request where it stands. -/
theorem ReadUpTo.failed {clean : Prop} {p total a : Nat} {v w : OpenFile g} {buf buf' : Mem}
    (hv : v.At (p + a)) (hframe : ReadFrame v w) (hpos : w.file.fPos = (p + a : Nat))
    (ha : a ≤ total) (hd : g.ioUnit ∣ a) (hbuf : clean → buf' = buf) :
    ReadUpTo clean p total v buf a a w buf' where
  frame := hframe
  fPos := ⟨hpos, hv.dvd, hv.lt⟩
  le_left := le_refl _
  le_right := ha
  dvd := hd
  within := by omega
  done := by omega
  rest := fun hclean q _ => congrFun (hbuf hclean) q

theorem ReadUpTo.mono {clean clean' : Prop} {p total a k : Nat} {v w : OpenFile g}
    {buf buf' : Mem} (hc : clean' → clean) (h : ReadUpTo clean p total v buf a k w buf') :
    ReadUpTo clean' p total v buf a k w buf' :=
  { h with rest := fun h' => h.rest (hc h') }

/-- A chunk read in front of a request that goes on. -/
theorem ReadUpTo.cons {p total a b k : Nat} {v u w : OpenFile g} {buf chunk buf' : Mem}
    (hframe : ReadFrame v u) (hb : 0 < b) (hsize : p + a + b ≤ v.persist.fSize)
    (hchunk : ∀ q < b, chunk q = v.blob.data (p + a + q))
    (h : ReadUpTo True p total u (buf.write a b chunk) (a + b) k w buf') :
    ReadUpTo True p total v buf a k w buf' where
  frame := hframe.trans h.frame
  fPos := h.fPos
  le_left := by have := h.le_left; omega
  le_right := h.le_right
  dvd := h.dvd
  within := by
    intro _
    rcases Nat.lt_or_eq_of_le h.le_left with hlt | heq
    · rw [← hframe.persist]
      exact h.within hlt
    · omega
  done := by
    intro q hq1 hq2
    by_cases hq : a + b ≤ q
    · rw [h.done q hq hq2, hframe.data]
    · rw [h.rest trivial q (by omega), Mem.write_in (by omega) (by omega),
        hchunk (q - a) (by omega)]
      congr 1
      omega
  rest := by
    intro _ q hq
    have := h.le_left
    rw [h.rest trivial q (by omega), Mem.write_out (by omega)]

/-- Chunk by chunk: what the loop of `monopoly_read` has done when it stops. If it got through,
the last chunk was one that `simple_fs_read` accepts. -/
theorem ChunkRun.readUpTo {io : Nat → IoAnswer} {p total : Nat} (h0 : 0 < total)
    (hB : g.ioUnit ∣ bufSize) (ht : g.ioUnit ∣ total) {i j : Nat} {s t : ChunkState g}
    (hrun : ChunkRun (readChunk io total) total i s t j)
    (hv : s.view.At (p + min total (i * bufSize))) :
    ReadUpTo True p total s.view s.buf (min total (i * bufSize)) (min total (j * bufSize)) t.view
        t.buf ∧
      (i < j → j = chunkCount total → 512 ∣ total) := by
  have hB' : bufSize = 65536 := rfl
  have hdmin : ∀ i, g.ioUnit ∣ min total (i * bufSize) := by
    intro i
    rcases Nat.le_total total (i * bufSize) with h | h
    · rwa [Nat.min_eq_left h]
    · rw [Nat.min_eq_right h]
      exact Nat.dvd_mul_left_of_dvd hB i
  induction hrun with
  | done s => exact ⟨ReadUpTo.refl hv (Nat.min_le_left ..) (hdmin _), by omega⟩
  | @stop i s t hi hs =>
      have hlt := chunk_start_lt h0 hi
      have hb0 := chunkBytes_pos hlt
      have hb1 : chunkBytes total i ≤ bufSize := chunkBytes_le
      have hd := hdmin i
      rw [Nat.min_eq_right (Nat.le_of_lt hlt)] at hv hd ⊢
      obtain ⟨t', ht', hret, rfl⟩ := hs
      obtain ⟨hframe, -, ⟨hret', -⟩ | ⟨-, hpos, -⟩⟩ :=
        simpleFsRead_spec hv (dvd_chunkBytes hB ht) hb0 (by omega) ht'
      · omega
      · exact ⟨ReadUpTo.failed hv hframe hpos (Nat.le_of_lt hlt) hd fun _ => rfl, by omega⟩
  | @move i j s u t hi hm hrest ih =>
      have hlt := chunk_start_lt h0 hi
      have hb0 := chunkBytes_pos hlt
      have hb1 : chunkBytes total i ≤ bufSize := chunkBytes_le
      have hbd : g.ioUnit ∣ chunkBytes total i := dvd_chunkBytes hB ht
      have hnext := chunkBytes_add hlt
      rw [Nat.min_eq_right (Nat.le_of_lt hlt)] at hv ⊢
      obtain ⟨t', ht', hret, rfl⟩ := hm
      obtain ⟨hframe, h512, ⟨-, hpos, hsize, hcap, hbuf⟩ | ⟨hret', -⟩⟩ :=
        simpleFsRead_spec hv hbd hb0 (by omega) ht'
      · have hcaplt := s.view.blob.capacity_lt
        have hAt : t'.view.At (p + min total ((i + 1) * bufSize)) := by
          rw [← hnext, ← Nat.add_assoc]
          exact hv.moved hpos hbd (by omega)
        obtain ⟨hr, hlast⟩ := ih hAt
        rw [← hnext] at hr
        refine ⟨ReadUpTo.cons hframe hb0 hsize ?_ hr, ?_⟩
        · intro q hq
          rw [hbuf, Mem.write_in (by omega) (by omega), Mem.shift_apply, Nat.sub_zero]
        · intro _ hj
          rcases Nat.eq_or_lt_of_le hrest.le.1 with heq | hgt
          · -- the last chunk is what the request leaves over 512
            have hall := le_chunkCount_mul total
            rw [← hj, ← heq] at hall
            rw [Nat.min_eq_left hall] at hnext
            rw [← hnext]
            exact Nat.dvd_add (Nat.dvd_mul_left_of_dvd (by decide) i) h512
          · exact hlast hgt hj
      · omega

/-- A single read of the whole request. It is clean unless SPDK fails it and leaves junk. -/
theorem ReadUpTo.single {ans : IoAnswer} {p total : Nat} {buf : Mem} {v : OpenFile g}
    {t : Transfer g} (h0 : 0 < total) (h64 : total < 2 ^ 64) (ht : g.ioUnit ∣ total)
    (hv : v.At p) (h : simpleFsRead ans v total buf = some t) :
    ∃ k : Nat, s64 (u64 t.ret) = k ∧
      ReadUpTo (ans.bserrno = 0 ∨ ans.junk = none) p total v buf 0 k t.view t.buffer ∧
      (k = total → 512 ∣ total) := by
  obtain ⟨hframe, h512, ⟨hret, hpos, hsize, hcap, hbuf⟩ | ⟨hret, hpos, hbuf⟩⟩ :=
    simpleFsRead_spec hv ht h0 h64 h
  · have hlt := v.blob.capacity_lt
    have hend : ReadUpTo True p total t.view (buf.write 0 total (v.blob.data.shift p)) total total
        t.view t.buffer :=
      hbuf ▸ ReadUpTo.refl (hv.moved hpos ht (by omega)) (le_refl _) ht
    have hread : ReadUpTo True p total v buf 0 total t.view t.buffer := by
      refine ReadUpTo.cons hframe h0 hsize (fun q _ => v.blob.data.shift_apply p q) ?_
      rw [Nat.zero_add]
      exact hend
    refine ⟨total, ?_, hread.mono fun _ => trivial, fun _ => h512⟩
    rw [hret, s64_u64, s64_of_fits (by omega) (by omega)]
  · have hfailed : ReadUpTo (ans.bserrno = 0 ∨ ans.junk = none) p total v buf 0 0 t.view t.buffer :=
      ReadUpTo.failed hv hframe hpos (Nat.zero_le _) (Nat.dvd_zero _) hbuf
    exact ⟨0, by rw [hret]; rfl, hfailed, fun _ => h512⟩

/-- The chunk counter of a request that goes through the bounce buffer stays an `int`. -/
def CounterFits (registered : Bool) (total : Nat) : Prop :=
  registered = true ∨ (total - 1) / bufSize + 1 < 2 ^ 31

/-- **The prefix law of `monopoly_read`.** Some `k` bytes are delivered, these are the `k`
bytes at the position, which has advanced by `k`; a request that delivers all it asked for
is a multiple of 512, as `simple_fs_read` asserts, and its chunks are countable. -/
theorem monopolyReadFile_spec {io : Nat → IoAnswer} {v : OpenFile g} {p nbytes : Nat}
    {bounce buf : Mem} {registered : Bool} {r : MonopolyIo g} (hB : g.ioUnit ∣ bufSize)
    (hv : v.At p) (h64 : nbytes < 2 ^ 64)
    (h : monopolyReadFile io v bounce buf nbytes registered = some r) :
    ∃ k : Nat, r.ret = k ∧
      ReadUpTo (registered = true → (io 0).bserrno = 0 ∨ (io 0).junk = none) p
        (nbytes / g.ioUnit * g.ioUnit) v buf 0 k r.view r.buf ∧
      (0 < k → k = nbytes / g.ioUnit * g.ioUnit → 512 ∣ k ∧ CounterFits registered k) := by
  have hle := total_le (g := g) nbytes
  have hd := dvd_total (g := g) nbytes
  by_cases hz : nbytes / g.ioUnit = 0
  · rw [monopolyReadFile_zero v bounce buf hz] at h
    cases h
    rw [hz, Nat.zero_mul]
    exact ⟨0, rfl, ReadUpTo.refl hv (le_refl _) (Nat.dvd_zero _), by omega⟩
  · have h0 := total_pos hz
    cases registered with
    | false =>
        rw [monopolyReadFile_bounced v bounce buf h64 rfl h0] at h
        obtain ⟨j, hrun, hj, hret⟩ := (chunkLoop_start h0 fun _ _ _ => readChunk_ret).mp h
        obtain ⟨hr, hlast⟩ := hrun.readUpTo h0 hB hd (by simpa using hv)
        refine ⟨_, hret, ReadUpTo.mono (fun _ => trivial) (by simpa using hr), ?_⟩
        intro _ hkt
        have hall := hrun.last_of_min_eq h0 hkt
        rw [hkt]
        refine ⟨hlast (hall ▸ Nat.succ_pos _) hall, Or.inr ?_⟩
        show chunkCount _ < 2 ^ 31
        rw [← hall]
        exact hj
    | true =>
        rw [monopolyReadFile_direct v bounce buf rfl h0] at h
        obtain ⟨t, ht, rfl⟩ := Option.map_eq_some_iff.mp h
        obtain ⟨k, hk, hr, h512⟩ := ReadUpTo.single h0 (by omega) hd hv ht
        refine ⟨k, hk, hr.mono fun h => h rfl, ?_⟩
        intro _ hkt
        exact ⟨hkt ▸ h512 hkt, Or.inl rfl⟩

end BlobTopFs
