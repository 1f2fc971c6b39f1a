import BlobTopFs.Files.RoundTrip
import BlobTopFs.SimpleFs.Requests

/-!
# The prefix laws of a descriptor

A request on an open descriptor comes back with the number of bytes it has moved, whatever SPDK
fails on the way, and these are the first ones. It falls short of the io_units asked for only if a
data request failed, or if a read would have ended behind the file.
-/

namespace BlobTopFs

open Machine

variable {g : Geometry}

/-! ## Failures in the log -/

/-- A read or a write that did not go through. -/
def Event.IoFailed (e : Event) : Prop :=
  match e.request with
  | .ioRead .. | .ioWrite .. => e.bserrno ≠ 0
  | _ => False

/-- No data request made between two states of the log failed. -/
def NoneFailed (l l' : List Event) : Prop := ∃ es, l' = es ++ l ∧ ∀ e ∈ es, ¬ e.IoFailed

/-- The log goes on from `l`. -/
abbrev Grown (l l' : List Event) : Prop := Asked (fun _ => True) l l'

/-- Where the latest request has failed, not all have gone through. -/
theorem Grown.not_noneFailed {l l' : List Event} {e : Event} (h : Grown l l') (he : e.IoFailed) :
    ¬ NoneFailed l (e :: l') := by
  obtain ⟨es, rfl, -⟩ := h
  rintro ⟨es', heq, hes'⟩
  obtain rfl : es' = e :: es := List.append_cancel_right heq.symm
  exact hes' e List.mem_cons_self he

/-- A read that moves nothing would have ended behind the file, or has failed. -/
theorem simpleFsRead_zero {ans : IoAnswer} {v : OpenFile g} {size : Nat} {buffer : Mem}
    {t : Transfer g} (h : simpleFsRead ans v size buffer = some t) (hret : t.ret = 0)
    (hsize : s64 size ≠ 0) :
    v.persist.fSize < u64 (v.file.fPos + size) ∨ ∃ e, e.IoFailed ∧ t.view.log = e :: v.log := by
  unfold simpleFsRead at h
  split at h
  · cases h
  · split at h
    · next hbehind => exact Or.inl hbehind
    · right
      dsimp only at h
      split at h
      · cases h
        exact absurd hret hsize
      · next hfail =>
          cases h
          refine ⟨_, ?_, rfl⟩
          exact fun h0 : (_ : Int) = 0 => hfail (beq_iff_eq.mpr h0)

theorem simpleFsRead_grown {ans : IoAnswer} {v : OpenFile g} {size : Nat} {buffer : Mem}
    {t : Transfer g} (h : simpleFsRead ans v size buffer = some t) : Grown v.log t.view.log := by
  rcases simpleFsRead_log h with ⟨-, hlog⟩ | ⟨-, e, hlog⟩
  · rw [hlog]
    exact Asked.refl _ _
  · rw [hlog]
    exact Asked.cons_iff.mpr trivial

theorem simpleFsWrite_grown {ans : WriteAnswer} {v : OpenFile g} {size : Nat} {buffer : Mem}
    {t : Transfer g} (h : simpleFsWrite ans v size buffer = some t) : Grown v.log t.view.log :=
  Asked.mono (fun _ _ => trivial) (simpleFsWrite_asked h 0)

/-- A write that moves nothing has failed. -/
theorem simpleFsWrite_zero {ans : WriteAnswer} {v : OpenFile g} {size : Nat} {buffer : Mem}
    {t : Transfer g} (h : simpleFsWrite ans v size buffer = some t) (hret : t.ret = 0)
    (hsize : s64 size ≠ 0) : ∃ e l, e.IoFailed ∧ t.view.log = e :: l ∧ Grown v.log l := by
  obtain ⟨u, hu, rfl⟩ := Option.map_eq_some_iff.mp h
  have hgrown : Grown v.log u.noteWrite.log := by
    rw [OpenFile.noteWrite_log]
    exact Asked.mono (fun _ _ => trivial) (OpenFile.grow_asked hu 0)
  dsimp only at hret ⊢
  split at hret
  · exact absurd hret hsize
  · next hfail =>
      rw [if_neg hfail]
      refine ⟨_, _, ?_, rfl, hgrown⟩
      exact fun h0 : (_ : Int) = 0 => hfail (beq_iff_eq.mpr h0)

/-! ## The loops -/

section Loop

variable {total i j : Nat} {s t : ChunkState g}

/-- A loop that some chunk ends has gone on to it, and that chunk has moved nothing. -/
theorem ChunkRun.cut {op : ChunkOp g} {I : Nat → ChunkState g → Prop}
    (keep : ∀ i a b, i < chunkCount total → I i a → ChunkMoved op total i a b → I (i + 1) b)
    (hgrown : ∀ i s t, op i s = some t → Grown s.view.log t.view.log)
    (hrun : ChunkRun op total i s t j) (hI : I i s) (hj : j < chunkCount total) :
    ∃ u t', I j u ∧ op j u = some t' ∧ t'.ret = 0 ∧ t'.view = t.view ∧
      Grown s.view.log u.view.log := by
  have keep' : ∀ i (a b : ChunkState g), i < chunkCount total →
      I i a ∧ Grown s.view.log a.view.log → ChunkMoved op total i a b →
      I (i + 1) b ∧ Grown s.view.log b.view.log := by
    rintro i a b hi ⟨hI, h⟩ hm
    refine ⟨keep i a b hi hI hm, ?_⟩
    obtain ⟨t', ht', -, rfl⟩ := hm
    exact h.trans (hgrown i a t' ht')
  rcases hrun.rule keep' ⟨hI, Asked.refl _ _⟩ with ⟨hend, -⟩ | ⟨-, u, hu, t', ht', hret, rfl⟩
  · omega
  · exact ⟨u, t', hu.1, ht', hret, rfl, hu.2⟩

/-- A loop of writes gets through if no chunk fails. -/
theorem ChunkRun.writeAll {io : Nat → WriteAnswer} (h0 : 0 < total)
    (hrun : ChunkRun (writeChunk io total) total 0 s t j)
    (hnone : NoneFailed s.view.log t.view.log) : j = chunkCount total := by
  by_contra hne
  have hj : j < chunkCount total := Nat.lt_of_le_of_ne hrun.le.2 hne
  have hb0 := chunkBytes_pos (chunk_start_lt h0 hj)
  obtain ⟨u, t', -, ht', hret, hview, hgrown⟩ := ChunkRun.cut (I := fun _ _ => True)
    (fun _ _ _ _ _ _ => trivial) (fun _ _ _ => simpleFsWrite_grown) hrun trivial hj
  obtain ⟨e, l, he, hlog, hgrown'⟩ := simpleFsWrite_zero ht' hret (by rw [s64_chunkBytes]; omega)
  rw [← hview, hlog] at hnone
  exact Grown.not_noneFailed (hgrown.trans hgrown') he hnone

/-- A loop of reads gets through if no chunk fails and none ends behind the file. -/
theorem ChunkRun.readAll {io : Nat → IoAnswer} {p : Nat} (h0 : 0 < total)
    (hB : g.ioUnit ∣ bufSize) (ht : g.ioUnit ∣ total) (h512 : 512 ∣ total) (hv : s.view.At p)
    (hrun : ChunkRun (readChunk io total) total 0 s t j)
    (hnone : NoneFailed s.view.log t.view.log) (hsize : p + total ≤ s.view.persist.fSize) :
    j = chunkCount total := by
  by_contra hne
  have hj : j < chunkCount total := Nat.lt_of_le_of_ne hrun.le.2 hne
  have hstart : ReadSoFar s.view p total 0 s.view :=
    ⟨by simpa using hv, ReadFrame.refl s.view, by omega⟩
  obtain ⟨u, t', h, ht', hret, hview, hgrown⟩ :=
    ChunkRun.cut (I := fun i a => ReadSoFar s.view p total i a.view)
      (fun i a b hi h hm => h.moved h0 hi hB ht h512 hm) (fun _ _ _ => simpleFsRead_grown)
      hrun hstart hj
  have hlt := chunk_start_lt h0 hj
  have hb0 := chunkBytes_pos hlt
  have hb1 : chunkBytes total j ≤ 65536 := chunkBytes_le
  have hnext := chunkBytes_add hlt
  have hpos := h.fPos.lt
  -- the chunk that ended the loop lies inside the file, and so it has failed
  rcases simpleFsRead_zero ht' hret (by rw [s64_chunkBytes]; omega) with hbehind | ⟨e, he, hlog⟩
  · rw [h.fPos.fPos, h.frame.persist, ← Int.natCast_add, u64_natCast (by omega)] at hbehind
    omega
  · rw [← hview, hlog] at hnone
    exact Grown.not_noneFailed hgrown he hnone

end Loop

/-! ## Requests -/

/-- A write comes back. -/
theorem monopolyWriteFile_returns (io : Nat → WriteAnswer) {v : OpenFile g} {p : Nat}
    (bounce buf : Mem) (hB : g.ioUnit ∣ bufSize) (hv : v.At p) {nbytes total : Nat}
    (h46 : nbytes < 2 ^ 46) (htot : nbytes / g.ioUnit * g.ioUnit = total) (registered : Bool) :
    ∃ r, monopolyWriteFile io v bounce buf nbytes registered = some r ∧
      (registered = false → NoneFailed v.log r.view.log → r.ret = total) := by
  have hle : total ≤ nbytes := htot ▸ total_le nbytes
  rcases Nat.eq_zero_or_pos total with rfl | h0
  · exact ⟨_, monopolyWriteFile_zero v bounce buf (units_eq_zero htot) io registered,
      fun _ _ => rfl⟩
  · cases registered with
    | false =>
        have hd : g.ioUnit ∣ total := htot ▸ dvd_total nbytes
        obtain ⟨t, j, hrun, -⟩ := exists_writeRun io h0 hB hd bounce buf hv
        have hj := Nat.lt_of_le_of_lt hrun.le.2 (chunkCount_lt (by omega))
        refine ⟨⟨t.view, t.bounce, t.buf, (min total (j * bufSize) : Nat)⟩, ?_, fun _ hnone => ?_⟩
        · rw [monopolyWriteFile_bounced v bounce buf (by omega) htot h0]
          exact (chunkLoop_start h0 fun _ _ _ => writeChunk_ret).mpr ⟨j, hrun, hj, rfl⟩
        · rw [ChunkRun.writeAll h0 hrun hnone, Nat.min_eq_left (le_chunkCount_mul total)]
    | true =>
        obtain ⟨t, ht⟩ := simpleFsWrite_isSome (io 0) v total buf
        rw [monopolyWriteFile_direct v bounce buf htot h0, ht]
        exact ⟨_, rfl, nofun⟩

/-- A read into an unregistered buffer comes back, from no further than the file can be read. -/
theorem monopolyReadFile_returns (io : Nat → IoAnswer) {v : OpenFile g} {p : Nat}
    (bounce buf : Mem) (h512 : 512 ∣ g.ioUnit) (hB : g.ioUnit ∣ bufSize) (hv : v.At p)
    {nbytes total : Nat} (h46 : nbytes < 2 ^ 46) (htot : nbytes / g.ioUnit * g.ioUnit = total) :
    ∃ r, monopolyReadFile io v bounce buf nbytes false = some r ∧
      (0 < r.ret → p + r.ret ≤ v.readable) ∧
      (NoneFailed v.log r.view.log → p + nbytes ≤ v.persist.fSize → r.ret = total) := by
  have hle : total ≤ nbytes := htot ▸ total_le nbytes
  have hd : g.ioUnit ∣ total := htot ▸ dvd_total nbytes
  rcases Nat.eq_zero_or_pos total with rfl | h0
  · exact ⟨_, monopolyReadFile_zero v bounce buf (units_eq_zero htot) io false,
      fun h => absurd h (Int.lt_irrefl 0), fun _ _ => rfl⟩
  · have h512' := Nat.dvd_trans h512 hd
    obtain ⟨t, j, hrun, hin, -⟩ := exists_readRun io h0 hB hd h512' bounce buf hv
    have hj := Nat.lt_of_le_of_lt hrun.le.2 (chunkCount_lt (by omega))
    refine ⟨⟨t.view, t.bounce, t.buf, (min total (j * bufSize) : Nat)⟩, ?_, fun hpos => ?_,
      fun hnone hsize => ?_⟩
    · rw [monopolyReadFile_bounced v bounce buf (by omega) htot h0]
      exact (chunkLoop_start h0 fun _ _ _ => readChunk_ret).mpr ⟨j, hrun, hj, rfl⟩
    · have hj0 : 0 < j := Nat.pos_of_ne_zero fun hj0 => by simp [hj0] at hpos
      exact Int.ofNat_le.mpr (OpenFile.ReadsChunk.readable hin hj0)
    · have hall := ChunkRun.readAll h0 hB hd h512' hv hrun hnone (by dsimp only; omega)
      rw [hall, Nat.min_eq_left (le_chunkCount_mul total)]

/-! ## The laws -/

namespace Fs

/-- What a request leaves of which the first `k` bytes have been stored at `p`: the file behind the
descriptor has become `w`, its position is `p + k`, and no other byte of any blob has changed. -/
structure StoredPrefix (s s' : Fs g) (fd : Int) (f : FileId) (v w : OpenFile g) (p k : Nat)
    (buf : Mem) : Prop where
  resolves : s'.Resolves fd f w
  fileBlob : w.file.blob = v.file.blob
  fPos : w.file.fPos = (p + k : Nat)
  backed : 0 < k → p + k ≤ w.blob.capacity
  stored : ∀ q, p ≤ q → q < p + k → w.blob.data q = buf (q - p)
  kept : ∀ q, ¬ (p ≤ q ∧ q < p + k) → w.blob.data q = v.blob.data q
  others : ∀ id, id ≠ v.file.blob → s'.bs.blobs id = s.bs.blobs id

/-- What a request leaves of which the first `k` bytes have been read at `p` into `buf'`, which was
`buf`: they are there, and behind them is what was there. -/
structure DeliveredPrefix (s s' : Fs g) (fd : Int) (f : FileId) (v w : OpenFile g) (p k : Nat)
    (buf buf' : Mem) : Prop where
  resolves : s'.Resolves fd f w
  data : w.blob.data = v.blob.data
  fPos : w.file.fPos = (p + k : Nat)
  within : 0 < k → p + k ≤ v.persist.fSize ∧ p + k ≤ v.blob.capacity
  delivered : ∀ q < k, buf' q = v.blob.data (p + q)
  kept : ∀ q, k ≤ q → buf' q = buf q

/-- **The prefix law of `monopoly_write`.** Whichever of its resizes and chunks SPDK fails, a write
comes back with some `k`, and the first `k` bytes are stored and no others. Through the bounce
buffer it is for all io_units asked for if no chunk fails. -/
theorem monopolyWrite_prefix {s : Fs g} {fd : Int} {f : FileId} {v : OpenFile g} {p : Nat}
    (hB : g.ioUnit ∣ bufSize) (hopen : s.Resolves fd f v) (hv : v.At p) {io : Nat → WriteAnswer}
    (hjunk : ∀ i, (io i).io.junk = none) (buf : Mem) {nbytes : Nat} (h46 : nbytes < 2 ^ 46)
    (registered : Bool) :
    ∃ (s' : Fs g) (k : Nat) (w : OpenFile g),
      monopolyWrite io fd buf nbytes registered s = some (s', buf, (k : Int)) ∧
      k ≤ nbytes ∧ g.ioUnit ∣ k ∧ s.StoredPrefix s' fd f v w p k buf ∧
      (registered = false → NoneFailed s.bs.log s'.bs.log →
        k = nbytes / g.ioUnit * g.ioUnit) := by
  obtain ⟨r, hr, hall⟩ :=
    monopolyWriteFile_returns io s.buffer buf hB hv h46 rfl registered
  obtain ⟨k, hk, hbuf, hw⟩ := monopolyWriteFile_spec hB hv (by omega) hr
  have hlog := hopen.log
  have hle := hw.le_right
  have hcall : monopolyWrite io fd buf nbytes registered s =
      some ({ s.putFile f r.view with buffer := r.bounce }, buf, (k : Int)) :=
    (monopolyWrite_eq_some hopen).mpr ⟨r, hr, rfl, hbuf.symm, hk.symm⟩
  refine ⟨_, k, r.view, hcall, Nat.le_trans hle (total_le nbytes), hw.dvd, ?_, fun hreg hnone => ?_⟩
  · refine ⟨hopen.putFile _ (hw.openRef ▸ hopen.openRef_pos), hw.fileBlob, hw.fPos.fPos, hw.backed,
      fun q hq hq' => hw.done q hq hq', fun q hq => ?_, fun id hid => ?_⟩
    · by_cases hrange : p ≤ q ∧ q < p + nbytes / g.ioUnit * g.ioUnit
      · exact hw.cut q (by omega) hrange.2 (Or.inl (hjunk _))
      · exact hw.rest q hrange
    · exact Blobstore.setBlob_of_ne _ _ (hw.fileBlob ▸ hid)
  · rw [← hlog] at hnone
    exact Int.ofNat_inj.mp (hk.symm.trans (hall hreg hnone))

/-- A write of two chunks of which SPDK fails the second. -/
theorem monopolyWrite_prefix_cut :
    ∃ (s' : Fs .malloc0) (k : Nat) (w : OpenFile .malloc0),
      monopolyWrite (fun i => if i = 0 then .done else ⟨⟨0, 0⟩, ⟨-5, none⟩⟩) 0
        (fun _ => 65) (2 * bufSize) false fileUtFs = some (s', fun _ => 65, (k : Int)) ∧
      k ≤ 2 * bufSize ∧ Geometry.malloc0.ioUnit ∣ k ∧
      fileUtFs.StoredPrefix s' 0 0 ((fileUtFs.openFile 0).get rfl) w 0 k (fun _ => 65) ∧
      (false = false → NoneFailed fileUtFs.bs.log s'.bs.log →
        k = 2 * bufSize / Geometry.malloc0.ioUnit * Geometry.malloc0.ioUnit) :=
  monopolyWrite_prefix (by decide) ⟨rfl, rfl⟩ (OpenFile.at_zero rfl)
    (fun i => by split <;> rfl) _ (by decide) false

/-- **The prefix law of `monopoly_read`.** Whichever of its chunks SPDK fails, and whatever it
leaves in the bounce buffer then, a read into an unregistered buffer comes back with some `k`, and
the first `k` bytes of the buffer are those of the file, and no others are touched. It is for all
io_units asked for if no chunk fails and the file goes on to the end of the request. -/
theorem monopolyRead_prefix {s : Fs g} {fd : Int} {f : FileId} {v : OpenFile g} {p : Nat}
    (h512 : 512 ∣ g.ioUnit) (hB : g.ioUnit ∣ bufSize) (hopen : s.Resolves fd f v) (hv : v.At p)
    (io : Nat → IoAnswer) (buf : Mem) {nbytes : Nat} (h46 : nbytes < 2 ^ 46) :
    ∃ (s' : Fs g) (buf' : Mem) (k : Nat) (w : OpenFile g),
      monopolyRead io fd buf nbytes false s = some (s', buf', (k : Int)) ∧
      k ≤ nbytes ∧ g.ioUnit ∣ k ∧ s.DeliveredPrefix s' fd f v w p k buf buf' ∧
      (NoneFailed s.bs.log s'.bs.log → p + nbytes ≤ v.persist.fSize →
        k = nbytes / g.ioUnit * g.ioUnit) := by
  obtain ⟨r, hr, hin, hall⟩ :=
    monopolyReadFile_returns io s.buffer buf h512 hB hv h46 rfl
  obtain ⟨k, hk, hread, -⟩ := monopolyReadFile_spec hB hv (by omega) hr
  have hlog := hopen.log
  have hle := hread.le_right
  have hcall : monopolyRead io fd buf nbytes false s =
      some ({ s.putFile f r.view with buffer := r.bounce }, r.buf, (k : Int)) :=
    (monopolyRead_eq_some hopen).mpr ⟨r, hr, rfl, rfl, hk.symm⟩
  refine ⟨_, r.buf, k, r.view, hcall, Nat.le_trans hle (total_le nbytes), hread.dvd, ?_,
    fun hnone hsize => ?_⟩
  · refine ⟨hopen.putFile _ (hread.frame.openRef ▸ hopen.openRef_pos), hread.frame.data,
      hread.fPos.fPos, fun hpos => ?_, fun q hq => hread.done q (Nat.zero_le q) hq, fun q hq => ?_⟩
    · have := hin (by omega)
      unfold OpenFile.readable at this
      omega
    · exact hread.rest nofun q (by omega)
  · rw [← hlog] at hnone
    exact Int.ofNat_inj.mp (hk.symm.trans (hall hnone hsize))

/-- Of a read of three chunks SPDK fails the third, and the first two are delivered. One of four
that SPDK does not fail is delivered as a whole. -/
theorem monopolyRead_prefix_cut :
    (∃ s' buf' w, monopolyRead (fun i => if i = 2 then ⟨-5, some fun _ => 99⟩ else .done) 0
          (fun _ => 66) (3 * bufSize) false writtenFs =
            some (s', buf', ((2 * bufSize : Nat) : Int)) ∧
        writtenFs.DeliveredPrefix s' 0 0 ((writtenFs.openFile 0).get rfl) w 0 (2 * bufSize)
          (fun _ => 66) buf') ∧
      ∃ s' buf' w, monopolyRead (fun _ => .done) 0 (fun _ => 66) (4 * bufSize) false writtenFs =
          some (s', buf', ((4 * bufSize : Nat) : Int)) ∧
        writtenFs.DeliveredPrefix s' 0 0 ((writtenFs.openFile 0).get rfl) w 0 (4 * bufSize)
          (fun _ => 66) buf' := by
  have hopen : writtenFs.Resolves 0 0 ((writtenFs.openFile 0).get rfl) := ⟨rfl, rfl⟩
  have hlaw := fun io nbytes (h46 : nbytes < 2 ^ 46) => monopolyRead_prefix (by decide) (by decide)
    hopen (OpenFile.at_zero rfl) io (fun _ => 66) h46
  constructor
  · obtain ⟨s', buf', k, w, hread, -, -, hdelivered, -⟩ :=
      hlaw (fun i => if i = 2 then ⟨-5, some fun _ => 99⟩ else .done) (3 * bufSize) (by decide)
    have hret : (monopolyRead (fun i => if i = 2 then ⟨-5, some fun _ => 99⟩ else .done) 0
        (fun _ => 66) (3 * bufSize) false writtenFs).map (fun r => r.2.2) =
          some ((2 * bufSize : Nat) : Int) := by decide +kernel
    rw [hread] at hret
    obtain rfl : k = 2 * bufSize := Int.ofNat_inj.mp (Option.some.inj hret)
    exact ⟨s', buf', w, hread, hdelivered⟩
  · obtain ⟨s', buf', k, w, hread, -, -, hdelivered, hall⟩ :=
      hlaw (fun _ => .done) (4 * bufSize) (by decide)
    have hlog : (monopolyRead (fun _ => .done) 0 (fun _ => 66) (4 * bufSize) false writtenFs).map
        (fun r => r.1.bs.log) = some ([3, 2, 1, 0].map (fun i =>
          ⟨.ioRead 1 (i * 128) 128 bufSize, 0⟩) ++ writtenFs.bs.log) := by decide +kernel
    rw [hread] at hlog
    have hnone : NoneFailed writtenFs.bs.log s'.bs.log := by
      refine ⟨_, Option.some.inj hlog, fun e he hfailed => ?_⟩
      obtain ⟨i, -, rfl⟩ := List.mem_map.mp he
      exact hfailed rfl
    obtain rfl : k = 4 * bufSize := hall hnone (by decide +kernel)
    exact ⟨s', buf', w, hread, hdelivered⟩

end Fs

end BlobTopFs
