import BlobTopFs.SimpleFs.TransferFrame

/-!
# What a transfer does not look at

A transfer of one file does not depend on how many references there are on its blob, on the
requests that were made before it, or on what an earlier transfer left in the bounce buffer: a
chunk is whole io_units, and so every byte of it that is copied out has just been copied in.
-/

namespace BlobTopFs

open Machine

variable {g : Geometry}

/-! ## The same file beside other requests -/

/-- The file with other references on its blob, and after other requests. -/
def OpenFile.beside (v : OpenFile g) (openRef : Nat) (log : List Event) : OpenFile g :=
  { v with blob := { v.blob with openRef := openRef }, log := log }

/-- The two are the same file object on the same blob, but for its references and the log. -/
def OpenFile.Alike (v w : OpenFile g) : Prop := ∃ openRef log, w = v.beside openRef log

namespace OpenFile

variable {u v w : OpenFile g} {openRef : Nat} {log : List Event}

theorem Alike.refl (v : OpenFile g) : v.Alike v := ⟨v.blob.openRef, v.log, rfl⟩

theorem Alike.symm (h : v.Alike w) : w.Alike v := by
  obtain ⟨openRef, log, rfl⟩ := h
  exact ⟨v.blob.openRef, v.log, rfl⟩

theorem Alike.trans (h : u.Alike v) (h' : v.Alike w) : u.Alike w := by
  obtain ⟨openRef, log, rfl⟩ := h
  obtain ⟨openRef', log', rfl⟩ := h'
  exact ⟨openRef', log', rfl⟩

theorem Alike.file (h : v.Alike w) : w.file = v.file := by
  obtain ⟨openRef, log, rfl⟩ := h
  rfl

@[simp] theorem beside_persist : (v.beside openRef log).persist = v.persist := rfl

@[simp] theorem beside_file : (v.beside openRef log).file = v.file := rfl

theorem Alike.withFile (h : v.Alike w) (file : SpdkfsFile) :
    OpenFile.Alike (g := g) { v with file := file } { w with file := file } := by
  obtain ⟨openRef, log, rfl⟩ := h
  exact ⟨openRef, log, rfl⟩

theorem Alike.setPos (h : v.Alike w) {pos pos' : Int} (hpos : pos' = pos) :
    (v.setPos pos).Alike (w.setPos pos') := by
  obtain ⟨openRef, log, rfl⟩ := h
  exact ⟨openRef, log, hpos ▸ rfl⟩

theorem Alike.storePersist (h : v.Alike w) : v.storePersist.Alike w.storePersist := by
  obtain ⟨openRef, log, rfl⟩ := h
  exact ⟨openRef, log, rfl⟩

theorem Alike.noteWrite (h : v.Alike w) : v.noteWrite.Alike w.noteWrite := by
  obtain ⟨openRef, log, rfl⟩ := h
  refine ⟨openRef, log, ?_⟩
  unfold OpenFile.noteWrite setPersist
  -- the record is the object's own or the blob's, and neither is what differs
  cases hp : v.file.filePersist with
  | own p => simp [beside, persist, hp]
  | xattr => simp [beside, persist, hp]

end OpenFile

/-! ## One transfer -/

/-- What two transfers of one file that begin with the buffers `b` and `b'` have in common. -/
structure Transfer.Alike (size : Nat) (b b' : Mem) (t t' : Transfer g) : Prop where
  view : t.view.Alike t'.view
  ret : t'.ret = t.ret
  same : b = b' → t'.buffer = t.buffer
  moved : t.ret ≠ 0 → ∀ q < size, t'.buffer q = t.buffer q

section Transfer

variable {v w : OpenFile g} {size : Nat} {b b' : Mem}

/-- Whole io_units, whatever the position. -/
theorem upperDiv_ioUnit (hd : g.ioUnit ∣ size) (h0 : 0 < size) (h64 : size < 2 ^ 64) :
    upperDiv size g.ioUnit * g.ioUnit = size :=
  (ioUnits_bytes (Nat.dvd_zero _) (by decide) hd h0 h64).2

/-- How a read ends does not depend on the buffer; on success the buffer is filled. -/
theorem ioBlob_read_ok_congr (ans : IoAnswer) (id : BlobId) (blob : Blob g) (openRef size : Nat)
    (offset : Int) (b b' : Mem) :
    (ioBlob ans id { blob with openRef := openRef } size offset b' true).ok =
      (ioBlob ans id blob size offset b true).ok := by
  have hin : Blob.inRange { blob with openRef := openRef } (u64 offset / g.ioUnit)
      (upperDiv size g.ioUnit) =
        blob.inRange (u64 offset / g.ioUnit) (upperDiv size g.ioUnit) := rfl
  simp only [ioBlob, IoDone.ok, spdkBlobIoRead, if_true, hin]
  -- out of range, failed by SPDK, or neither: the references are not looked at
  split
  · rfl
  · split
    · rfl
    · rfl

theorem ioBlob_read_filled {ans : IoAnswer} {id : BlobId} {blob : Blob g} {offset : Int}
    (hlen : upperDiv size g.ioUnit * g.ioUnit = size)
    (hok : (ioBlob ans id blob size offset b true).ok = true) :
    (ioBlob ans id blob size offset b true).buffer =
      b.write 0 size (blob.data.shift (u64 offset / g.ioUnit * g.ioUnit)) := by
  simp only [ioBlob, if_true, spdkBlobIoRead, IoDone.ok, hlen] at hok ⊢
  split at hok
  · cases hok
  · next hin =>
      split at hok
      · next he => exact absurd (beq_iff_eq.mp hok) he
      · next he => rw [if_neg hin, if_neg he]

theorem simpleFsRead_alike (ans : IoAnswer) (h : v.Alike w) (hd : g.ioUnit ∣ size)
    (h0 : 0 < size) (h64 : size < 2 ^ 64) (b b' : Mem) :
    Option.Rel (Transfer.Alike size b b') (simpleFsRead ans v size b)
      (simpleFsRead ans w size b') := by
  obtain ⟨openRef, log, rfl⟩ := h
  have hlen := upperDiv_ioUnit hd h0 h64
  unfold simpleFsRead
  by_cases h512 : size % 512 ≠ 0
  · rw [if_pos h512, if_pos h512]
    exact .none
  rw [if_neg h512, if_neg h512, OpenFile.beside_persist, OpenFile.beside_file]
  -- the assertion and the comparison with `f_size` read the record, which they share
  by_cases hend : u64 (v.file.fPos + size) > v.persist.fSize
  · rw [if_pos hend, if_pos hend]
    exact .some ⟨⟨openRef, log, rfl⟩, rfl, fun h => h.symm, fun h => absurd rfl h⟩
  rw [if_neg hend, if_neg hend]
  -- whether the request goes through does not depend on the buffer
  have hok : (ioBlob ans v.file.blob (v.beside openRef log).blob size v.file.fPos b' true).ok =
      (ioBlob ans v.file.blob v.blob size v.file.fPos b true).ok := ioBlob_read_ok_congr ..
  dsimp only [genericBlobIo]
  by_cases hd : (ioBlob ans v.file.blob v.blob size v.file.fPos b true).ok = true
  · -- then both buffers have the file's bytes, whatever they had before
    have hd' := hok.trans hd
    rw [if_pos hd, if_pos hd']
    refine .some ⟨⟨openRef, _, rfl⟩, rfl, fun h => h ▸ rfl, fun _ q hq => ?_⟩
    have hfilled := ioBlob_read_filled hlen hd
    have hfilled' := ioBlob_read_filled hlen hd'
    have hin : q < 0 + size := by rwa [Nat.zero_add]
    show (ioBlob ans v.file.blob (v.beside openRef log).blob size v.file.fPos b' true).buffer q =
      (ioBlob ans v.file.blob v.blob size v.file.fPos b true).buffer q
    rw [hfilled, hfilled', Mem.write_in (Nat.zero_le q) hin, Mem.write_in (Nat.zero_le q) hin]
    rfl
  · have hd' := fun h => hd (hok.symm.trans h)
    rw [if_neg hd, if_neg hd']
    exact .some ⟨⟨openRef, _, rfl⟩, rfl, fun h => h ▸ rfl, fun h => absurd rfl h⟩

/-- What is written is what the buffer holds up to the size. -/
theorem write_congr (m : Mem) (off : Nat) (h : ∀ q < size, b' q = b q) :
    m.write off size b' = m.write off size b := by
  funext q
  rw [Mem.write_apply, Mem.write_apply]
  split
  · next hq => exact h _ (by omega)
  · rfl

/-- How a write ends, and what it leaves, does not depend on the references. -/
theorem ioBlob_write_alike (ans : IoAnswer) (h : v.Alike w)
    (hlen : upperDiv size g.ioUnit * g.ioUnit = size) (hb : ∀ q < size, b' q = b q) :
    (ioBlob ans w.file.blob w.blob size w.file.fPos b' false).ok =
        (ioBlob ans v.file.blob v.blob size v.file.fPos b false).ok ∧
      (v.afterIo (ioBlob ans v.file.blob v.blob size v.file.fPos b false)).Alike
        (w.afterIo (ioBlob ans w.file.blob w.blob size w.file.fPos b' false)) := by
  obtain ⟨openRef, log, rfl⟩ := h
  have hin : (v.beside openRef log).blob.inRange (u64 v.file.fPos / g.ioUnit)
      (upperDiv size g.ioUnit) = v.blob.inRange (u64 v.file.fPos / g.ioUnit)
        (upperDiv size g.ioUnit) := rfl
  simp only [ioBlob, Bool.false_eq_true, if_false, spdkBlobIoWrite, OpenFile.beside_file, hin, hlen,
    write_congr _ _ hb, IoDone.ok]
  split
  · exact ⟨rfl, openRef, _, rfl⟩
  · split
    · exact ⟨rfl, openRef, _, rfl⟩
    · exact ⟨rfl, openRef, _, rfl⟩

/-- Nor does a resize. -/
theorem genericBlobResize_beside (ans : ResizeAnswer) (id : BlobId) (blob : Blob g)
    (openRef n : Nat) :
    genericBlobResize ans id { blob with openRef := openRef } n =
      (genericBlobResize ans id blob n).map fun d =>
        { d with blob := { d.blob with openRef := openRef } } := by
  unfold genericBlobResize
  split
  · rfl
  · -- SPDK refuses the resize, the device is too small, or the sync behind it fails
    by_cases he : ans.resizeErrno ≠ 0
    · simp [spdkBlobResize, he]
    · by_cases hn : upperDiv n g.clusterSize ≤ g.totalClusters
      · by_cases hs : ans.syncErrno ≠ 0
        · simp [spdkBlobResize, he, hn, spdkBlobSyncMd, hs]
        · simp [spdkBlobResize, he, hn, spdkBlobSyncMd, hs, Blob.synced]
      · simp [spdkBlobResize, he, hn, ENOSPC]

theorem grow_alike (ans : ResizeAnswer) (size : Nat) (h : v.Alike w) :
    Option.Rel OpenFile.Alike (v.grow ans size) (w.grow ans size) := by
  obtain ⟨openRef, log, rfl⟩ := h
  have hsize : getBlobSize (v.beside openRef log).blob = getBlobSize v.blob := rfl
  unfold OpenFile.grow
  simp only [hsize, OpenFile.beside_file]
  split
  · have hresize : genericBlobResize ans v.file.blob (v.beside openRef log).blob _ = _ :=
      genericBlobResize_beside ans v.file.blob v.blob openRef
        (u64 ((getBlobSize v.blob : Int) + g.clusterSize))
    rw [hresize, Option.map_map]
    cases genericBlobResize ans v.file.blob v.blob
      (u64 ((getBlobSize v.blob : Int) + g.clusterSize)) with
    | none => exact .none
    | some d => exact .some ⟨openRef, _, rfl⟩
  · exact .some ⟨openRef, log, rfl⟩

theorem simpleFsWrite_alike (ans : WriteAnswer) (h : v.Alike w) (hd : g.ioUnit ∣ size)
    (h0 : 0 < size) (h64 : size < 2 ^ 64) (hb : ∀ q < size, b' q = b q) :
    Option.Rel (Transfer.Alike size b b') (simpleFsWrite ans v size b)
      (simpleFsWrite ans w size b') := by
  have hlen := upperDiv_ioUnit hd h0 h64
  have hgrow := grow_alike ans.resize size h
  unfold simpleFsWrite
  generalize v.grow ans.resize size = o, w.grow ans.resize size = o' at hgrow
  -- both have grown in the same way, and write the same bytes from there
  cases hgrow with
  | none => exact .none
  | some hu =>
      obtain ⟨hok, hafter⟩ := ioBlob_write_alike ans.io hu.noteWrite hlen hb
      rw [Option.map_some, Option.map_some]
      dsimp only [genericBlobIo]
      rw [hok]
      split
      · refine .some ⟨?_, rfl, fun h => h.symm, fun _ => hb⟩
        apply OpenFile.Alike.storePersist
        apply hafter.setPos
        rw [hu.noteWrite.file]
      · exact .some ⟨hafter, rfl, fun h => h.symm, fun _ => hb⟩

end Transfer

/-! ## Requests -/

/-- Two requests have done the same, to alike files and the same buffer. -/
structure MonopolyIo.Alike (r r' : MonopolyIo g) : Prop where
  view : r.view.Alike r'.view
  buf : r'.buf = r.buf
  ret : r'.ret = r.ret

/-- A chunk does the same whatever the bounce buffer holds. -/
def BounceBlind (op : ChunkOp g) (total : Nat) : Prop :=
  ∀ i < chunkCount total, ∀ s u : ChunkState g, s.view.Alike u.view → u.buf = s.buf →
    ∃ b b', Option.Rel (Transfer.Alike (chunkBytes total i) b b') (op i s) (op i u)

section Request

variable {v w : OpenFile g} {total nbytes : Nat}

/-- So does a loop of chunks. -/
theorem chunkLoop_alike {op : ChunkOp g} (hblind : BounceBlind op total)
    (hop : ∀ i s t, op i s = some t → t.ret = 0 ∨ t.ret = chunkBytes total i) {left i : Nat}
    (hleft : i + left = chunkCount total) {s u : ChunkState g} (hview : s.view.Alike u.view)
    (hbuf : u.buf = s.buf) (real : Nat) :
    Option.Rel MonopolyIo.Alike (chunkLoop op left i s real) (chunkLoop op left i u real) := by
  induction left generalizing i s u real with
  | zero => exact .some ⟨hview, hbuf, rfl⟩
  | succ left ih =>
      obtain ⟨b, b', hrel⟩ := hblind i (by omega) s u hview hbuf
      rw [chunkLoop, chunkLoop]
      generalize ht : op i s = o, op i u = o' at hrel
      cases hrel with
      | none => exact .none
      | some h =>
          rename_i t t'
          rw [Option.bind_some, Option.bind_some, h.ret]
          -- the `int` that the loop looks at is 0 exactly if the chunk moved nothing
          have hret : s32 t.ret = 0 ∨ t.ret ≠ 0 ∧ s32 t.ret = chunkBytes total i := by
            by_cases h0 : t.ret = 0
            · exact Or.inl (by rw [h0]; rfl)
            · refine Or.inr ⟨h0, ?_⟩
              rw [(hop i s t ht).resolve_left h0]
              exact s32_chunkBytes total i
          split
          · -- the bytes moved are those the chunk has put into the bounce buffer
            next hmoved =>
              obtain ⟨h0, hs32⟩ := hret.resolve_left hmoved
              split
              · apply ih
                · omega
                · exact h.view
                · rw [hbuf, hs32, Int.toNat_natCast]
                  exact write_congr _ _ (h.moved h0)
              · exact .none
          · exact .some ⟨h.view, hbuf, rfl⟩

theorem readChunk_blind (io : Nat → IoAnswer) (hB : g.ioUnit ∣ bufSize) (ht : g.ioUnit ∣ total)
    (h0 : 0 < total) : BounceBlind (g := g) (readChunk io total) total := by
  intro i hi s u hview hbuf
  have hb0 := chunkBytes_pos (chunk_start_lt h0 hi)
  have hb1 : chunkBytes total i ≤ 65536 := chunkBytes_le
  exact ⟨_, _, simpleFsRead_alike _ hview (dvd_chunkBytes hB ht) hb0 (by omega) s.bounce u.bounce⟩

theorem writeChunk_blind (io : Nat → WriteAnswer) (hB : g.ioUnit ∣ bufSize) (ht : g.ioUnit ∣ total)
    (h0 : 0 < total) : BounceBlind (g := g) (writeChunk io total) total := by
  intro i hi s u hview hbuf
  have hb0 := chunkBytes_pos (chunk_start_lt h0 hi)
  have hb1 : chunkBytes total i ≤ 65536 := chunkBytes_le
  refine ⟨_, _, simpleFsWrite_alike _ hview (dvd_chunkBytes hB ht) hb0 (by omega) fun q hq => ?_⟩
  rw [Mem.write_in (Nat.zero_le q) (by omega), Mem.write_in (Nat.zero_le q) (by omega), hbuf]

/-- A read does the same whatever has been read or written through the bounce buffer before. -/
theorem monopolyReadFile_alike (hB : g.ioUnit ∣ bufSize) (h64 : nbytes < 2 ^ 64)
    (h : v.Alike w) (io : Nat → IoAnswer) (bounce bounce' buf : Mem) (registered : Bool) :
    Option.Rel MonopolyIo.Alike (monopolyReadFile io v bounce buf nbytes registered)
      (monopolyReadFile io w bounce' buf nbytes registered) := by
  have hle := total_le (g := g) nbytes
  by_cases hz : nbytes / g.ioUnit = 0
  · rw [monopolyReadFile_zero _ _ _ hz, monopolyReadFile_zero _ _ _ hz]
    exact .some ⟨h, rfl, rfl⟩
  have h0 := total_pos hz
  -- in chunks through the bounce buffer, or in one request from the caller's
  cases registered with
  | false =>
      rw [monopolyReadFile_bounced _ _ _ h64 rfl h0, monopolyReadFile_bounced _ _ _ h64 rfl h0]
      have hblind := readChunk_blind io hB (dvd_total nbytes) h0
      exact chunkLoop_alike hblind (fun _ _ _ => readChunk_ret) (Nat.zero_add _)
        (s := ⟨v, bounce, buf⟩) (u := ⟨w, bounce', buf⟩) h rfl 0
  | true =>
      rw [monopolyReadFile_direct _ _ _ rfl h0, monopolyReadFile_direct _ _ _ rfl h0]
      have hrel := simpleFsRead_alike (io 0) h (dvd_total nbytes) h0 (by omega) buf buf
      generalize simpleFsRead (io 0) v _ buf = o, simpleFsRead (io 0) w _ buf = o' at hrel
      cases hrel with
      | none => exact .none
      | some ht =>
          exact .some ⟨ht.view, ht.same rfl, congrArg (fun r : Int => s64 (u64 r)) ht.ret⟩

theorem monopolyWriteFile_alike (hB : g.ioUnit ∣ bufSize) (h64 : nbytes < 2 ^ 64)
    (h : v.Alike w) (io : Nat → WriteAnswer) (bounce bounce' buf : Mem) (registered : Bool) :
    Option.Rel MonopolyIo.Alike (monopolyWriteFile io v bounce buf nbytes registered)
      (monopolyWriteFile io w bounce' buf nbytes registered) := by
  have hle := total_le (g := g) nbytes
  by_cases hz : nbytes / g.ioUnit = 0
  · rw [monopolyWriteFile_zero _ _ _ hz, monopolyWriteFile_zero _ _ _ hz]
    exact .some ⟨h, rfl, rfl⟩
  have h0 := total_pos hz
  cases registered with
  | false =>
      rw [monopolyWriteFile_bounced _ _ _ h64 rfl h0, monopolyWriteFile_bounced _ _ _ h64 rfl h0]
      have hblind := writeChunk_blind io hB (dvd_total nbytes) h0
      exact chunkLoop_alike hblind (fun _ _ _ => writeChunk_ret) (Nat.zero_add _)
        (s := ⟨v, bounce, buf⟩) (u := ⟨w, bounce', buf⟩) h rfl 0
  | true =>
      rw [monopolyWriteFile_direct _ _ _ rfl h0, monopolyWriteFile_direct _ _ _ rfl h0]
      have hrel := simpleFsWrite_alike (io 0) h (dvd_total nbytes) h0 (by omega)
        fun q _ => (rfl : buf q = buf q)
      generalize simpleFsWrite (io 0) v _ buf = o, simpleFsWrite (io 0) w _ buf = o' at hrel
      cases hrel with
      | none => exact .none
      | some ht =>
          exact .some ⟨ht.view, ht.same rfl, congrArg (fun r : Int => s64 (u64 r)) ht.ret⟩

end Request

end BlobTopFs
