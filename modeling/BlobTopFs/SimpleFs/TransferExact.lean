import BlobTopFs.SimpleFs.TransferSpec

/-!
# How far a request gets

The prefix laws say that a request moves its first `k` bytes; here is how many that are. A
request is handed to the file layer in pieces, of which each is moved or ends the call: a read
stops before the piece that ends behind what can be read, a write before the one that ends more
than a cluster behind the blob.
-/

namespace BlobTopFs

open Machine

variable {g : Geometry}

/-! ## How far a read gets -/

/-- What chunk `i` of a read finds, if all chunks before it were read. -/
structure ReadSoFar (v : OpenFile g) (p total i : Nat) (w : OpenFile g) : Prop where
  fPos : w.At (p + min total (i * bufSize))
  frame : ReadFrame v w
  within : 0 < i → p + min total (i * bufSize) ≤ v.readable

section Read

variable {io : Nat → IoAnswer} {p total i : Nat} {v : OpenFile g} {s u : ChunkState g}

/-- Chunk `i` ends no further than the file can be read, and SPDK does not fail it. -/
def OpenFile.ReadsChunk (io : Nat → IoAnswer) (v : OpenFile g) (p total i : Nat) : Prop :=
  p + min total ((i + 1) * bufSize) ≤ v.readable ∧ (io i).bserrno = 0

variable (io) in
theorem ReadSoFar.chunk (h : ReadSoFar v p total i s.view) (h0 : 0 < total)
    (hi : i < chunkCount total) (hB : g.ioUnit ∣ bufSize) (ht : g.ioUnit ∣ total)
    (h512 : 512 ∣ total) :
    ∃ t, readChunk io total i s = some t ∧
      (t.ret = chunkBytes total i ∧ v.ReadsChunk io p total i ∧
          ReadSoFar v p total (i + 1) t.view ∨
        t.ret = 0 ∧ ¬ v.ReadsChunk io p total i) := by
  have hB' : bufSize = 65536 := rfl
  have hlt := chunk_start_lt h0 hi
  have hb0 := chunkBytes_pos hlt
  have hb1 : chunkBytes total i ≤ bufSize := chunkBytes_le
  have hbd : g.ioUnit ∣ chunkBytes total i := dvd_chunkBytes hB ht
  have hnext := chunkBytes_add hlt
  have hAt := h.fPos
  rw [Nat.min_eq_right (Nat.le_of_lt hlt)] at hAt
  obtain ⟨t, ht', hiff⟩ := simpleFsRead_exact (io i) s.bounce hAt hbd hb0 (by omega)
    (dvd_chunkBytes (by decide) h512)
  obtain ⟨hframe, -, hcase⟩ := simpleFsRead_spec hAt hbd hb0 (by omega) ht'
  rw [h.frame.readable, Nat.add_assoc, hnext] at hiff
  have hlt63 := v.readable_lt
  refine ⟨t, ht', ?_⟩
  rcases hcase with ⟨hret, hpos, -⟩ | ⟨hret, -⟩
  · have hreads := hiff.mp hret
    refine Or.inl ⟨hret, hreads, ?_, h.frame.trans hframe, fun _ => hreads.1⟩
    rw [← hnext, ← Nat.add_assoc]
    exact hAt.moved hpos hbd (by omega)
  · refine Or.inr ⟨hret, fun hreads => ?_⟩
    have := hiff.mpr hreads
    omega

/-- What a chunk that was read leaves for the next one. -/
theorem ReadSoFar.moved (h : ReadSoFar v p total i s.view) (h0 : 0 < total)
    (hi : i < chunkCount total) (hB : g.ioUnit ∣ bufSize) (ht : g.ioUnit ∣ total)
    (h512 : 512 ∣ total) (hm : ChunkMoved (readChunk io total) total i s u) :
    ReadSoFar v p total (i + 1) u.view := by
  obtain ⟨t, ht', hret, rfl⟩ := hm
  obtain ⟨t', ht'', ⟨-, -, hnext⟩ | ⟨hret', -⟩⟩ := h.chunk io h0 hi hB ht h512
  · cases ht'.symm.trans ht''
    exact hnext
  · cases ht'.symm.trans ht''
    have := chunkBytes_pos (chunk_start_lt h0 hi)
    omega

/-- A loop of reads goes as far as its chunks can be read and SPDK does not fail them. -/
theorem exists_readRun (io : Nat → IoAnswer) (h0 : 0 < total) (hB : g.ioUnit ∣ bufSize)
    (ht : g.ioUnit ∣ total) (h512 : 512 ∣ total) (bounce buf : Mem) (hv : v.At p) :
    ∃ t j, ChunkRun (readChunk io total) total 0 ⟨v, bounce, buf⟩ t j ∧
      (∀ i < j, v.ReadsChunk io p total i) ∧
      (j < chunkCount total → ¬ v.ReadsChunk io p total j) := by
  have hstart : ReadSoFar v p total 0 v := ⟨by simpa using hv, ReadFrame.refl v, by omega⟩
  obtain ⟨t, j, hrun, hin, hend⟩ := exists_chunkRun
    (fun i s hi h => ReadSoFar.chunk io h h0 hi hB ht h512) h0
    (s := ⟨v, bounce, buf⟩) hstart
  exact ⟨t, j, hrun, hin, fun hj => (hend.resolve_left fun h => by omega).2⟩

/-- The chunks that were read end where the file can be read. -/
theorem OpenFile.ReadsChunk.readable {j : Nat} (h : ∀ i < j, v.ReadsChunk io p total i)
    (hj : 0 < j) : p + min total (j * bufSize) ≤ v.readable := by
  obtain ⟨k, rfl⟩ := Nat.exists_eq_add_of_lt hj
  rw [Nat.zero_add] at *
  exact (h k (Nat.lt_succ_self k)).1

end Read

/-- How many pieces of `chunkLen` bytes a request is handed to the file layer in. -/
def pieceCount (registered : Bool) (total : Nat) : Nat :=
  if registered then 1 else chunkCount total

/-- All of them are the request. -/
theorem min_pieceCount (registered : Bool) (total : Nat) :
    min total (pieceCount registered total * chunkLen registered total) = total := by
  cases registered with
  | false => exact Nat.min_eq_left (le_chunkCount_mul total)
  | true =>
      show min total (1 * total) = total
      rw [Nat.one_mul, Nat.min_self]

theorem counterFits_iff {registered : Bool} {total : Nat} :
    CounterFits registered total ↔ registered = true ∨ pieceCount registered total < 2 ^ 31 := by
  cases registered with
  | false => exact Iff.rfl
  | true => simp [CounterFits]

/-- **What a read returns that SPDK does not fail.** The bytes of the first `j` pieces can be
read, and those of the next piece, if there is one, cannot; the call comes back if it can count
the `j` pieces. -/
theorem monopolyReadFile_exact {io : Nat → IoAnswer} {v : OpenFile g} {p nbytes total : Nat}
    (bounce buf : Mem) (registered : Bool) (hB : g.ioUnit ∣ bufSize) (hv : v.At p)
    (h64 : nbytes < 2 ^ 64) (htot : nbytes / g.ioUnit * g.ioUnit = total) (h0 : 0 < total)
    (h512 : 512 ∣ total) (hio : ∀ i, (io i).bserrno = 0) :
    ∃ j ≤ pieceCount registered total,
      (0 < j → p + min total (j * chunkLen registered total) ≤ v.readable) ∧
      (j < pieceCount registered total →
        v.readable < p + min total ((j + 1) * chunkLen registered total)) ∧
      (monopolyReadFile io v bounce buf nbytes registered).map MonopolyIo.ret =
        if registered = true ∨ j < 2 ^ 31 then
          some ((min total (j * chunkLen registered total) : Nat) : Int)
        else none := by
  have hle := total_le (g := g) nbytes
  have hd : g.ioUnit ∣ total := htot ▸ dvd_total nbytes
  cases registered with
  | false =>
      obtain ⟨t, j, hrun, hin, hout⟩ := exists_readRun io h0 hB hd h512 bounce buf hv
      refine ⟨j, hrun.le.2, OpenFile.ReadsChunk.readable hin,
        fun hj => not_le.mp fun hle => hout hj ⟨hle, hio j⟩, ?_⟩
      rw [monopolyReadFile_bounced v bounce buf h64 htot h0,
        chunkLoop_ret h0 (fun _ _ _ => readChunk_ret) hrun]
      simp [chunkLen]
  | true =>
      obtain ⟨t, ht, hiff⟩ := simpleFsRead_exact (io 0) buf hv hd h0 (by omega) h512
      rw [and_iff_left (hio 0)] at hiff
      have hlt := v.readable_lt
      rw [monopolyReadFile_direct v bounce buf htot h0, ht, Option.map_some, Option.map_some]
      by_cases hin : p + total ≤ v.readable
      · refine ⟨1, le_refl _, fun _ => by simpa [chunkLen] using hin, by simp [pieceCount], ?_⟩
        rw [if_pos (Or.inl rfl), hiff.mpr hin, s64_u64, s64_of_fits (by omega) (by omega)]
        simp [chunkLen]
      · refine ⟨0, Nat.zero_le _, by omega, fun _ => by simpa [chunkLen] using hin, ?_⟩
        have hret : t.ret = 0 := by
          obtain ⟨-, -, ⟨hret, -⟩ | ⟨hret, -⟩⟩ := simpleFsRead_spec hv hd h0 (by omega) ht
          · exact absurd (hiff.mp hret) hin
          · exact hret
        rw [if_pos (Or.inl rfl), hret, Nat.zero_mul, Nat.min_zero]
        rfl

/-- How many pieces of a request are read when `rest` bytes can be: all of them, or the whole
pieces in `rest`. -/
def servedPieces (registered : Bool) (total rest : Nat) : Nat :=
  if total ≤ rest then pieceCount registered total else rest / chunkLen registered total

/-- The same, as a function of what can be read. -/
theorem monopolyReadFile_served (io : Nat → IoAnswer) {v : OpenFile g} {p nbytes total : Nat}
    (bounce buf : Mem) (registered : Bool) (hB : g.ioUnit ∣ bufSize) (hv : v.At p)
    (h64 : nbytes < 2 ^ 64) (htot : nbytes / g.ioUnit * g.ioUnit = total) (h0 : 0 < total)
    (h512 : 512 ∣ total) (hio : ∀ i, (io i).bserrno = 0) :
    (monopolyReadFile io v bounce buf nbytes registered).map MonopolyIo.ret =
      if registered = true ∨ servedPieces registered total (v.readable - p) < 2 ^ 31 then
        some ((min total (servedPieces registered total (v.readable - p) *
          chunkLen registered total) : Nat) : Int)
      else none := by
  obtain ⟨j, hj, hin, hout, hret⟩ :=
    monopolyReadFile_exact bounce buf registered hB hv h64 htot h0 h512 hio
  have hlen := chunkLen_pos registered h0
  have hall := min_pieceCount registered total
  have hserved : j = servedPieces registered total (v.readable - p) := by
    unfold servedPieces
    rcases Nat.lt_or_eq_of_le hj with hlt | rfl
    · -- the next piece cannot be read
      have hnext := hout hlt
      have hpos : 0 < (j + 1) * chunkLen registered total := Nat.mul_pos (Nat.succ_pos j) hlen
      rw [if_neg (by omega)]
      refine (Nat.div_eq_of_lt_le ?_ ?_).symm
      · rcases Nat.eq_zero_or_pos j with rfl | hj0
        · omega
        · have := hin hj0
          omega
      · omega
    · have hpieces : 0 < pieceCount registered total := by
        cases registered with
        | false => exact Nat.succ_pos _
        | true => exact Nat.one_pos
      have := hin hpieces
      rw [if_pos (by omega)]
  rw [hret, ← hserved]

/-- A request inside the file and the blob that SPDK does not fail delivers everything. -/
theorem monopolyReadFile_ok {io : Nat → IoAnswer} {v : OpenFile g} {p nbytes : Nat}
    (bounce buf : Mem) {registered : Bool} (hB : g.ioUnit ∣ bufSize) (hv : v.At p)
    (h0 : 0 < nbytes) (hd : g.ioUnit ∣ nbytes) (h512 : 512 ∣ nbytes)
    (hint : CounterFits registered nbytes) (hio : ∀ i, (io i).bserrno = 0)
    (hsize : p + nbytes ≤ v.persist.fSize) (hcap : p + nbytes ≤ v.blob.capacity) :
    ∃ r, monopolyReadFile io v bounce buf nbytes registered = some r ∧ r.ret = nbytes := by
  have hlt := v.blob.capacity_lt
  have hreadable : p + nbytes ≤ v.readable := Nat.le_min.mpr ⟨hsize, hcap⟩
  obtain ⟨j, hj, -, hout, hret⟩ := monopolyReadFile_exact bounce buf registered hB hv (by omega)
    (Nat.div_mul_cancel hd) h0 h512 hio
  have hall : j = pieceCount registered nbytes := by
    by_contra hne
    have := hout (by omega)
    omega
  rw [hall, min_pieceCount, if_pos (counterFits_iff.mp hint)] at hret
  exact Option.map_eq_some_iff.mp hret

/-! ## How far a write gets -/

/-- A write of `size` bytes at `p` is stored: the blob reaches its end, and SPDK does not fail
it. -/
def OpenFile.Stores (ans : WriteAnswer) (v : OpenFile g) (p size : Nat) : Prop :=
  v.Reaches ans.resize (p + size) ∧ ans.io.bserrno = 0

/-- A loop of writes ends, and gets past its first chunk if that is stored. -/
theorem exists_writeRun (io : Nat → WriteAnswer) {p total : Nat} (h0 : 0 < total)
    (hB : g.ioUnit ∣ bufSize) (ht : g.ioUnit ∣ total) {v : OpenFile g} (bounce buf : Mem)
    (hv : v.At p) :
    ∃ t j, ChunkRun (writeChunk io total) total 0 ⟨v, bounce, buf⟩ t j ∧
      (0 < j ↔ v.Stores (io 0) p (min total bufSize)) := by
  have round : ∀ i (s : ChunkState g), i < chunkCount total → True →
      (∃ u, ChunkMoved (writeChunk io total) total i s u) ∨
        ∃ t, ChunkCut (writeChunk io total) i s t := by
    intro i s _ _
    obtain ⟨t, ht'⟩ := simpleFsWrite_isSome (io i) s.view (chunkBytes total i)
      (s.bounce.write 0 (chunkBytes total i) (s.buf.shift (i * bufSize)))
    rcases writeChunk_ret ht' with hret | hret
    · exact Or.inr ⟨_, t, ht', hret, rfl⟩
    · exact Or.inl ⟨_, t, ht', hret, rfl⟩
  obtain ⟨t, j, hrun⟩ := exists_chunked (I := fun _ (_ : ChunkState g) => True)
    (fun _ _ _ _ _ _ => trivial) round (Nat.zero_le _) trivial
  refine ⟨t, j, hrun, ?_⟩
  have hfirst : chunkBytes total 0 = min total bufSize := by
    unfold chunkBytes
    omega
  have hb0 : 0 < chunkBytes total 0 := chunkBytes_pos (by omega)
  have hb1 : chunkBytes total 0 ≤ 65536 := chunkBytes_le
  have hexact : ∀ {t}, writeChunk io total 0 ⟨v, bounce, buf⟩ = some t →
      (t.ret = chunkBytes total 0 ↔ v.Stores (io 0) p (min total bufSize)) := by
    intro t ht'
    rw [← hfirst]
    exact (simpleFsWrite_exact hv (dvd_chunkBytes hB ht) hb0 (by omega) ht').1
  rcases hrun.first with ⟨hn, -⟩ | ⟨-, rfl, t', ht', hret, -⟩ | ⟨-, u, ⟨t', ht', hret, -⟩, hrest⟩
  · exact absurd hn (Nat.succ_ne_zero _).symm
  · refine iff_of_false (Nat.lt_irrefl 0) fun hstores => ?_
    have := (hexact ht').mpr hstores
    omega
  · exact iff_of_true hrest.le.1 ((hexact ht').mp hret)

/-- **What a write returns.** It is stored up to some piece, past the first one exactly if the
blob reaches the end of that and SPDK does not fail it, and comes back if it can count the pieces
it has stored. -/
theorem monopolyWriteFile_exact (io : Nat → WriteAnswer) {v : OpenFile g} {p nbytes total : Nat}
    (bounce buf : Mem) (registered : Bool) (hB : g.ioUnit ∣ bufSize) (hv : v.At p)
    (h64 : nbytes < 2 ^ 64) (htot : nbytes / g.ioUnit * g.ioUnit = total) (h0 : 0 < total) :
    ∃ j ≤ pieceCount registered total,
      (0 < j ↔ v.Stores (io 0) p (min total (chunkLen registered total))) ∧
      (monopolyWriteFile io v bounce buf nbytes registered).map MonopolyIo.ret =
        if registered = true ∨ j < 2 ^ 31 then
          some ((min total (j * chunkLen registered total) : Nat) : Int)
        else none := by
  have hle := total_le (g := g) nbytes
  have hd : g.ioUnit ∣ total := htot ▸ dvd_total nbytes
  cases registered with
  | false =>
      obtain ⟨t, j, hrun, hfirst⟩ := exists_writeRun io h0 hB hd bounce buf hv
      refine ⟨j, hrun.le.2, hfirst, ?_⟩
      rw [monopolyWriteFile_bounced v bounce buf h64 htot h0,
        chunkLoop_ret h0 (fun _ _ _ => writeChunk_ret) hrun]
      simp [chunkLen]
  | true =>
      obtain ⟨t, ht⟩ := simpleFsWrite_isSome (io 0) v total buf
      obtain ⟨hiff, -⟩ := simpleFsWrite_exact hv hd h0 (by omega) ht
      have hlen : chunkLen true total = total := rfl
      rw [monopolyWriteFile_direct v bounce buf htot h0, ht, Option.map_some, Option.map_some, hlen,
        Nat.min_self]
      obtain ⟨-, -, ⟨hret, hdone⟩ | ⟨hret, -⟩⟩ := simpleFsWrite_spec hv hd h0 (by omega) ht
      · have hback := hdone.backed
        have hlt := t.view.blob.capacity_lt
        refine ⟨1, le_refl _, iff_of_true Nat.one_pos (hiff.mp hret), ?_⟩
        rw [if_pos (Or.inl rfl), hret, s64_u64, s64_of_fits (by omega) (by omega), Nat.one_mul,
          Nat.min_self]
      · refine ⟨0, Nat.zero_le _, iff_of_false (Nat.lt_irrefl 0) fun h => ?_, ?_⟩
        · have := hiff.mpr h
          omega
        · rw [if_pos (Or.inl rfl), hret, Nat.zero_mul, Nat.min_zero]
          rfl

/-- Something is stored exactly if the first piece is. -/
theorem monopolyWriteFile_pos_iff {io : Nat → WriteAnswer} {v : OpenFile g} {p nbytes : Nat}
    {bounce buf : Mem} {registered : Bool} {r : MonopolyIo g} (hB : g.ioUnit ∣ bufSize)
    (hv : v.At p) (h64 : nbytes < 2 ^ 64) {total : Nat}
    (htot : nbytes / g.ioUnit * g.ioUnit = total) (h0 : 0 < total)
    (h : monopolyWriteFile io v bounce buf nbytes registered = some r) :
    0 < r.ret ↔ v.Stores (io 0) p (min total (chunkLen registered total)) := by
  obtain ⟨j, -, hfirst, hret⟩ := monopolyWriteFile_exact io bounce buf registered hB hv h64 htot h0
  rw [h, Option.map_some] at hret
  split at hret
  · rw [← hfirst, Option.some.inj hret, Int.natCast_pos, Nat.lt_min]
    constructor
    · intro hpos
      exact Nat.pos_of_mul_pos_right hpos.2
    · intro hj
      exact ⟨h0, Nat.mul_pos hj (chunkLen_pos registered h0)⟩
  · cases hret

/-- A write whose first piece is not stored comes back with 0. -/
theorem monopolyWriteFile_of_not_stores {io : Nat → WriteAnswer} {v : OpenFile g}
    {p nbytes : Nat} (bounce buf : Mem) {registered : Bool} (hB : g.ioUnit ∣ bufSize)
    (hv : v.At p) (h64 : nbytes < 2 ^ 64) {total : Nat}
    (htot : nbytes / g.ioUnit * g.ioUnit = total) (h0 : 0 < total)
    (hno : ¬ v.Stores (io 0) p (min total (chunkLen registered total))) :
    ∃ r, monopolyWriteFile io v bounce buf nbytes registered = some r ∧ r.ret = 0 := by
  obtain ⟨j, -, hfirst, hret⟩ := monopolyWriteFile_exact io bounce buf registered hB hv h64 htot h0
  have hj : j = 0 := Nat.eq_zero_of_not_pos fun hj => hno (hfirst.mp hj)
  rw [hj, if_pos (Or.inr (by decide)), Nat.zero_mul, Nat.min_zero] at hret
  exact Option.map_eq_some_iff.mp hret

/-! ## Writes that SPDK does not fail -/

section Free

variable {io : Nat → WriteAnswer} {v : OpenFile g} {p total : Nat}

/-- What chunk `i` of a write finds, if all chunks before it were stored: a cluster more, if one of
them did not fit. -/
structure WroteSoFar (v : OpenFile g) (p total i : Nat) (w : OpenFile g) : Prop where
  fPos : w.At (p + min total (i * bufSize))
  clusters : w.blob.clusters =
    if 0 < i ∧ v.blob.capacity < p + min total (i * bufSize) then v.blob.clusters + 1
    else v.blob.clusters

/-- Where one more cluster is enough for the whole request, so it is for each chunk. -/
theorem WroteSoFar.chunk {i : Nat} {s : ChunkState g} (h : WroteSoFar v p total i s.view)
    (h0 : 0 < total) (hi : i < chunkCount total) (hB : g.ioUnit ∣ bufSize)
    (ht : g.ioUnit ∣ total) (hres : (io i).resize.resizeErrno = 0) (hio : (io i).io.bserrno = 0)
    (hfree : p + total ≤ g.totalClusters * g.clusterSize)
    (hle : p + total ≤ v.blob.capacity + g.clusterSize) :
    ∃ t, writeChunk io total i s = some t ∧ t.ret = chunkBytes total i ∧
      WroteSoFar v p total (i + 1) t.view := by
  have hlt := chunk_start_lt h0 hi
  have hb0 := chunkBytes_pos hlt
  have hb1 : chunkBytes total i ≤ 65536 := chunkBytes_le
  have hbd : g.ioUnit ∣ chunkBytes total i := dvd_chunkBytes hB ht
  have hnext := chunkBytes_add hlt
  have hgrown : (v.blob.clusters + 1) * g.clusterSize = v.blob.capacity + g.clusterSize := by
    rw [Blob.capacity, Nat.add_mul, Nat.one_mul]
  obtain ⟨hAt, hcl⟩ := h
  rw [Nat.min_eq_right (Nat.le_of_lt hlt)] at hAt hcl
  obtain ⟨t, ht', hret, hcl'⟩ := simpleFsWrite_free hres hio
    (s.bounce.write 0 (chunkBytes total i) (s.buf.shift (i * bufSize))) hAt hbd hb0 (by omega)
  obtain ⟨-, -, hcase⟩ := simpleFsWrite_spec hAt hbd hb0 (by omega) ht'
  have hcap : s.view.blob.capacity =
      if 0 < i ∧ v.blob.capacity < p + i * bufSize then v.blob.capacity + g.clusterSize
      else v.blob.capacity := by
    rw [Blob.capacity, hcl]
    split
    · exact hgrown
    · rfl
  have hmoved : t.ret = chunkBytes total i := by
    refine hret.mpr ?_
    split at hcap <;> omega
  refine ⟨t, ht', hmoved, ?_, ?_⟩
  · rcases hcase with ⟨-, hdone⟩ | ⟨hret', -⟩
    · have hback := hdone.backed
      have hcaplt := t.view.blob.capacity_lt
      rw [← hnext, ← Nat.add_assoc]
      exact hAt.moved hdone.fPos hbd (by omega)
    · omega
  · rw [hcl', ← hnext, ← Nat.add_assoc]
    split at hcap
    · next hearlier =>
        -- the cluster was added for an earlier chunk, and is enough
        rw [if_neg (by omega), hcl, if_pos hearlier, if_pos ⟨Nat.succ_pos i, by omega⟩]
    · next hnot =>
        rw [hcap, hcl, if_neg hnot]
        simp only [Nat.succ_pos, true_and]

/-- So all chunks are stored. -/
theorem exists_writeRun_all (h0 : 0 < total) (hB : g.ioUnit ∣ bufSize) (ht : g.ioUnit ∣ total)
    (hres : ∀ i, (io i).resize.resizeErrno = 0) (hio : ∀ i, (io i).io.bserrno = 0)
    (bounce buf : Mem) (hv : v.At p) (hfree : p + total ≤ g.totalClusters * g.clusterSize)
    (hle : p + total ≤ v.blob.capacity + g.clusterSize) :
    ∃ t, ChunkRun (writeChunk io total) total 0 ⟨v, bounce, buf⟩ t (chunkCount total) ∧
      t.view.blob.clusters =
        if v.blob.capacity < p + total then v.blob.clusters + 1 else v.blob.clusters := by
  have hstart : WroteSoFar v p total 0 v := ⟨by simpa using hv, by simp⟩
  obtain ⟨t, j, hrun, -, hend⟩ := exists_chunkRun (P := fun _ => True)
    (fun i s hi h => by
      obtain ⟨t, ht', hret, hnext⟩ := WroteSoFar.chunk h h0 hi hB ht (hres i) (hio i) hfree hle
      exact ⟨t, ht', Or.inl ⟨hret, trivial, hnext⟩⟩)
    h0 (s := ⟨v, bounce, buf⟩) hstart
  obtain ⟨rfl, h⟩ := hend.resolve_right fun h => h.2 trivial
  have hcl := h.clusters
  rw [Nat.min_eq_left (le_chunkCount_mul total)] at hcl
  simp only [Nat.succ_pos, true_and] at hcl
  exact ⟨t, hrun, hcl⟩

/-- A request that ends within one cluster of the end of the blob is stored, if its chunks can be
counted. -/
theorem monopolyWriteFile_fits (io : Nat → WriteAnswer) {nbytes : Nat} (bounce buf : Mem)
    (registered : Bool) (hB : g.ioUnit ∣ bufSize) (hv : v.At p)
    (htot : nbytes / g.ioUnit * g.ioUnit = total) (h64 : nbytes < 2 ^ 64) (h0 : 0 < total)
    (hres : ∀ i, (io i).resize.resizeErrno = 0)
    (hio : ∀ i, (io i).io.bserrno = 0) (hfree : p + total ≤ g.totalClusters * g.clusterSize)
    (hle : p + total ≤ v.blob.capacity + g.clusterSize) :
    (CounterFits registered total →
      ∃ r, monopolyWriteFile io v bounce buf nbytes registered = some r ∧ r.ret = total ∧
        r.view.blob.clusters =
          if v.blob.capacity < p + total then v.blob.clusters + 1 else v.blob.clusters) ∧
      (¬ CounterFits registered total →
        monopolyWriteFile io v bounce buf nbytes registered = none) := by
  have hd : g.ioUnit ∣ total := htot ▸ dvd_total nbytes
  have hdev := g.device_lt
  cases registered with
  | false =>
      obtain ⟨t, hrun, hcl⟩ := exists_writeRun_all h0 hB hd hres hio bounce buf hv hfree hle
      have hret := chunkLoop_ret h0 (fun _ _ _ => writeChunk_ret) hrun
      rw [Nat.min_eq_left (le_chunkCount_mul total)] at hret
      rw [monopolyWriteFile_bounced v bounce buf h64 htot h0]
      constructor
      · intro hcount
        exact ⟨⟨t.view, t.bounce, t.buf, total⟩,
          (chunkLoop_start h0 fun _ _ _ => writeChunk_ret).mpr ⟨_, hrun,
            hcount.resolve_left Bool.false_ne_true,
            by rw [Nat.min_eq_left (le_chunkCount_mul total)]⟩, rfl, hcl⟩
      · intro hcount
        rwa [if_neg fun h => hcount (Or.inr h), Option.map_eq_none_iff] at hret
  | true =>
      obtain ⟨t, ht, hret, hcl⟩ := simpleFsWrite_free (hres 0) (hio 0) buf hv hd h0 hfree
      rw [monopolyWriteFile_direct v bounce buf htot h0, ht]
      refine ⟨fun _ => ⟨_, rfl, ?_, hcl⟩, fun hcount => absurd (Or.inl rfl) hcount⟩
      show s64 (u64 t.ret) = total
      rw [hret.mpr hle, s64_u64, s64_of_fits (by omega) (by omega)]

/-- One whose first piece ends further behind is not, and has added a cluster all the same. -/
theorem monopolyWriteFile_behind (io : Nat → WriteAnswer) {nbytes : Nat} (bounce buf : Mem)
    (registered : Bool) (hB : g.ioUnit ∣ bufSize) (hv : v.At p)
    (htot : nbytes / g.ioUnit * g.ioUnit = total) (h64 : nbytes < 2 ^ 64) (h0 : 0 < total)
    (hres : (io 0).resize.resizeErrno = 0)
    (hio : (io 0).io.bserrno = 0) (hfree : p + total ≤ g.totalClusters * g.clusterSize)
    (hgt : v.blob.capacity + g.clusterSize < p + min total (chunkLen registered total)) :
    ∃ r, monopolyWriteFile io v bounce buf nbytes registered = some r ∧ r.ret = 0 ∧
      r.view.blob.clusters = v.blob.clusters + 1 := by
  have hd : g.ioUnit ∣ total := htot ▸ dvd_total nbytes
  cases registered with
  | false =>
      have hfirst : chunkBytes total 0 = min total bufSize := by
        unfold chunkBytes
        omega
      have hb0 : 0 < chunkBytes total 0 := chunkBytes_pos (by omega)
      have hgt' : v.blob.capacity + g.clusterSize < p + chunkBytes total 0 := by
        rw [hfirst]
        exact hgt
      obtain ⟨t, ht, hret, hcl⟩ := simpleFsWrite_free hres hio
        (bounce.write 0 (chunkBytes total 0) (buf.shift (0 * bufSize))) hv (dvd_chunkBytes hB hd)
        hb0 (by omega)
      have hzero : t.ret = 0 := (writeChunk_ret (s := ⟨v, bounce, buf⟩) ht).resolve_right
        fun h => absurd (hret.mp h) (not_le.mpr hgt')
      -- the loop ends with its first chunk, which has added the cluster
      have hrun : ChunkRun (writeChunk io total) total 0 ⟨v, bounce, buf⟩
          ⟨t.view, t.buffer, buf⟩ 0 :=
        .stop (Nat.succ_pos _) ⟨t, ht, hzero, rfl⟩
      rw [monopolyWriteFile_bounced v bounce buf h64 htot h0]
      refine ⟨⟨t.view, t.buffer, buf, 0⟩, (chunkLoop_start h0 fun _ _ _ => writeChunk_ret).mpr
        ⟨0, hrun, by decide, by simp⟩, rfl, ?_⟩
      rw [hcl, if_pos (by omega)]
  | true =>
      have hgt' : v.blob.capacity + g.clusterSize < p + total := by simpa [chunkLen] using hgt
      obtain ⟨t, ht, hret, hcl⟩ := simpleFsWrite_free hres hio buf hv hd h0 hfree
      have hdev := g.device_lt
      have hs64 : s64 (total : Int) = total := s64_of_fits (by omega) (by omega)
      have hzero : t.ret = 0 := (hs64 ▸ simpleFsWrite_ret ht).resolve_right
        fun h => absurd (hret.mp h) (not_le.mpr hgt')
      rw [monopolyWriteFile_direct v bounce buf htot h0, ht]
      refine ⟨_, rfl, ?_, ?_⟩
      · show s64 (u64 t.ret) = 0
        rw [hzero]
        rfl
      · show t.view.blob.clusters = _
        rw [hcl, if_pos (by omega)]

end Free

end BlobTopFs
