import BlobTopFs.Lib.Chunks
import BlobTopFs.SimpleFs.FileSpec
import BlobTopFs.SimpleFs.MonopolyIo

/-!
# The chunk loops as runs

The loops of `monopoly_read` and `monopoly_write` differ in what they do with one chunk, and in
nothing else. Both are runs in the sense of `Lib/Chunks`: a chunk that is moved goes to or comes
from the caller's buffer, and the loop goes on; one that is not ends it. What is returned is the
number of bytes in the chunks that were moved.
-/

namespace BlobTopFs

open Machine

variable {g : Geometry}

/-! ## Chunks -/

/-- How many chunks a request has that is not empty. -/
abbrev chunkCount (total : Nat) : Nat := (total - 1) / bufSize + 1

section Chunk

variable {total i : Nat}

/-- Every chunk starts inside the request. -/
theorem chunk_start_lt (h0 : 0 < total) (hi : i < chunkCount total) : i * bufSize < total := by
  have h1 : i * bufSize ≤ (total - 1) / bufSize * bufSize :=
    Nat.mul_le_mul_right _ (Nat.le_of_lt_succ hi)
  have h2 := Nat.div_mul_le_self (total - 1) bufSize
  omega

/-- All of them together cover it. -/
theorem le_chunkCount_mul (total : Nat) : total ≤ chunkCount total * bufSize := by
  have h := Nat.div_add_mod (total - 1) bufSize
  have h2 := Nat.mod_lt (total - 1) (show 0 < bufSize by decide)
  rw [chunkCount, Nat.add_mul, Nat.mul_comm]
  omega

/-- The chunks of a request of less than `2 ^ 46` bytes can be counted. -/
theorem chunkCount_lt (h46 : total < 2 ^ 46) : chunkCount total < 2 ^ 31 := by
  have hlt : (total - 1) / bufSize < 2 ^ 30 := by
    rw [Nat.div_lt_iff_lt_mul (by decide)]
    exact Nat.lt_of_le_of_lt (Nat.sub_le total 1) h46
  unfold chunkCount
  omega

theorem chunkBytes_pos (h : i * bufSize < total) : 0 < chunkBytes total i := by
  have : 0 < bufSize := by decide
  unfold chunkBytes
  omega

theorem chunkBytes_le : chunkBytes total i ≤ bufSize := Nat.min_le_left ..

/-- The bytes moved before chunk `i`, and the chunk, are the bytes moved before the next. -/
theorem chunkBytes_add (h : i * bufSize < total) :
    i * bufSize + chunkBytes total i = min total ((i + 1) * bufSize) := by
  unfold chunkBytes
  rw [Nat.add_mul]
  omega

theorem dvd_chunkBytes {d : Nat} (hB : d ∣ bufSize) (ht : d ∣ total) :
    d ∣ chunkBytes total i := by
  have hsub : d ∣ total - i * bufSize := Nat.dvd_sub ht (Nat.dvd_mul_left_of_dvd hB i)
  unfold chunkBytes
  rcases Nat.le_total bufSize (total - i * bufSize) with h | h
  · rwa [Nat.min_eq_left h]
  · rwa [Nat.min_eq_right h]

end Chunk

/-! ## One chunk -/

/-- A transfer moves all of its bytes or none. -/
theorem simpleFsRead_ret {ans : IoAnswer} {v : OpenFile g} {size : Nat} {buffer : Mem}
    {t : Transfer g} (h : simpleFsRead ans v size buffer = some t) :
    t.ret = 0 ∨ t.ret = s64 size := by
  unfold simpleFsRead at h
  split at h
  · cases h
  · split at h
    · cases h
      exact Or.inl rfl
    · dsimp only at h
      split at h
      · cases h
        exact Or.inr rfl
      · cases h
        exact Or.inl rfl

theorem simpleFsWrite_ret {ans : WriteAnswer} {v : OpenFile g} {size : Nat} {buffer : Mem}
    {t : Transfer g} (h : simpleFsWrite ans v size buffer = some t) :
    t.ret = 0 ∨ t.ret = s64 size := by
  obtain ⟨u, -, rfl⟩ := Option.map_eq_some_iff.mp h
  dsimp only
  split
  · exact Or.inr rfl
  · exact Or.inl rfl

/-- The size of a chunk survives being returned as a `ssize_t`. -/
theorem s64_chunkBytes (total i : Nat) : s64 (chunkBytes total i) = chunkBytes total i := by
  have hle : chunkBytes total i ≤ 65536 := chunkBytes_le
  exact s64_of_fits (by omega) (by omega)

/-- And being kept in an `int`. -/
theorem s32_chunkBytes (total i : Nat) : s32 (chunkBytes total i) = chunkBytes total i := by
  have hle : chunkBytes total i ≤ 65536 := chunkBytes_le
  exact s32_of_fits (by omega) (by omega)

/-- What a chunk finds: the file, the bounce buffer and the caller's buffer. -/
structure ChunkState (g : Geometry) where
  view : OpenFile g
  bounce : Mem
  buf : Mem

/-- What a loop does with chunk `i`. -/
abbrev ChunkOp (g : Geometry) := Nat → ChunkState g → Option (Transfer g)

/-- The chunk is read into the bounce buffer. -/
def readChunk (io : Nat → IoAnswer) (total : Nat) : ChunkOp g := fun i s =>
  simpleFsRead (io i) s.view (chunkBytes total i) s.bounce

/-- The chunk is copied to the bounce buffer and written from there. -/
def writeChunk (io : Nat → WriteAnswer) (total : Nat) : ChunkOp g := fun i s =>
  simpleFsWrite (io i) s.view (chunkBytes total i)
    (s.bounce.write 0 (chunkBytes total i) (s.buf.shift (i * bufSize)))

/-- Chunk `i` is moved. -/
def ChunkMoved (op : ChunkOp g) (total i : Nat) (s u : ChunkState g) : Prop :=
  ∃ t, op i s = some t ∧ t.ret = chunkBytes total i ∧
    u = ⟨t.view, t.buffer, s.buf.write (i * bufSize) (chunkBytes total i) t.buffer⟩

/-- Chunk `i` is not moved. A write has gone through the bounce buffer all the same. -/
def ChunkCut (op : ChunkOp g) (i : Nat) (s u : ChunkState g) : Prop :=
  ∃ t, op i s = some t ∧ t.ret = 0 ∧ u = ⟨t.view, t.buffer, s.buf⟩

/-- A loop that begins with chunk `i` and gets to chunk `j`. -/
abbrev ChunkRun (op : ChunkOp g) (total : Nat) :
    Nat → ChunkState g → ChunkState g → Nat → Prop :=
  Chunked (chunkCount total) (ChunkMoved op total) (ChunkCut op)

namespace ChunkRun

variable {op : ChunkOp g} {total i j k : Nat} {s t u : ChunkState g}

/-- A loop that has moved everything has got through. -/
theorem last_of_min_eq (h : ChunkRun op total i s t j) (h0 : 0 < total)
    (hmin : min total (j * bufSize) = total) : j = chunkCount total := by
  by_contra hne
  have hj : j < chunkCount total := Nat.lt_of_le_of_ne h.le.2 hne
  have := chunk_start_lt h0 hj
  omega

/-- The answers decide how far a loop gets. -/
theorem unique (h : ChunkRun op total i s t j) (h0 : 0 < total) (h' : ChunkRun op total i s u k) :
    t = u ∧ j = k := by
  refine Chunked.unique ?_ ?_ ?_ h h'
  · rintro i s u v ⟨t, ht, -, rfl⟩ ⟨t', ht', -, rfl⟩
    cases ht.symm.trans ht'
    rfl
  · rintro i s u v ⟨t, ht, -, rfl⟩ ⟨t', ht', -, rfl⟩
    cases ht.symm.trans ht'
    rfl
  · rintro i s u v hi ⟨t, ht, hret, -⟩ ⟨t', ht', hret', -⟩
    cases ht.symm.trans ht'
    have := chunkBytes_pos (chunk_start_lt h0 hi)
    omega

end ChunkRun

/-- Where each chunk is moved if `P` is so of it, and is cut if not, a loop goes as far as `P`. -/
theorem exists_chunkRun {op : ChunkOp g} {total : Nat} {I : Nat → OpenFile g → Prop}
    {P : Nat → Prop}
    (chunk : ∀ i s, i < chunkCount total → I i s.view →
      ∃ t, op i s = some t ∧
        (t.ret = chunkBytes total i ∧ P i ∧ I (i + 1) t.view ∨ t.ret = 0 ∧ ¬ P i))
    (h0 : 0 < total) {s : ChunkState g} (hI : I 0 s.view) :
    ∃ t j, ChunkRun op total 0 s t j ∧ (∀ i < j, P i) ∧
      (j = chunkCount total ∧ I j t.view ∨ j < chunkCount total ∧ ¬ P j) := by
  let J : Nat → ChunkState g → Prop := fun i u => I i u.view ∧ ∀ k < i, P k
  have hstart : J 0 s := ⟨hI, fun k hk => absurd hk (Nat.not_lt_zero k)⟩
  have keep : ∀ i (u w : ChunkState g), i < chunkCount total → J i u →
      ChunkMoved op total i u w → J (i + 1) w := by
    rintro i u w hi ⟨h, hP⟩ ⟨t, ht, hret, rfl⟩
    obtain ⟨t', ht', ⟨-, hPi, hnext⟩ | ⟨hret', -⟩⟩ := chunk i u hi h
    · cases ht.symm.trans ht'
      refine ⟨hnext, fun k hk => ?_⟩
      rcases Nat.lt_succ_iff_lt_or_eq.mp hk with hk | rfl
      · exact hP k hk
      · exact hPi
    · cases ht.symm.trans ht'
      have := chunkBytes_pos (chunk_start_lt h0 hi)
      omega
  have round : ∀ i (u : ChunkState g), i < chunkCount total → J i u →
      (∃ w, ChunkMoved op total i u w) ∨ ∃ w, ChunkCut op i u w := by
    rintro i u hi ⟨h, -⟩
    obtain ⟨t, ht, ⟨hret, -⟩ | ⟨hret, -⟩⟩ := chunk i u hi h
    · exact Or.inl ⟨_, t, ht, hret, rfl⟩
    · exact Or.inr ⟨_, t, ht, hret, rfl⟩
  obtain ⟨t, j, hrun⟩ := exists_chunked keep round (Nat.zero_le _) hstart
  refine ⟨t, j, hrun, ?_⟩
  rcases hrun.rule keep hstart with ⟨rfl, h, hP⟩ | ⟨hj, u, ⟨h, hP⟩, t', ht', hret, -⟩
  · exact ⟨hP, Or.inl ⟨rfl, h⟩⟩
  · refine ⟨hP, Or.inr ⟨hj, ?_⟩⟩
    obtain ⟨t'', ht'', ⟨hret', -⟩ | ⟨-, hcut⟩⟩ := chunk j u hj h
    · cases ht'.symm.trans ht''
      have := chunkBytes_pos (chunk_start_lt h0 hj)
      omega
    · exact hcut

/-! ## The loops -/

/-- The body that the two loops share. -/
def chunkLoop (op : ChunkOp g) : (left i : Nat) → ChunkState g → Nat → Option (MonopolyIo g)
  | 0, _, s, real => some ⟨s.view, s.bounce, s.buf, s64 real⟩
  | left + 1, i, s, real =>
      (op i s).bind fun t =>
        if s32 t.ret ≠ 0 then
          if i + 1 < 2 ^ 31 then
            chunkLoop op left (i + 1)
              ⟨t.view, t.buffer, s.buf.write (i * bufSize) (s32 t.ret).toNat t.buffer⟩
              (u64 (real + s32 t.ret))
          else none
        else some ⟨t.view, t.buffer, s.buf, s64 real⟩

theorem readChunks_eq (io : Nat → IoAnswer) (total left i : Nat) (v : OpenFile g)
    (bounce buf : Mem) (real : Nat) :
    readChunks io total left i v bounce buf real =
      chunkLoop (readChunk io total) left i ⟨v, bounce, buf⟩ real := by
  induction left generalizing i v bounce buf real with
  | zero => rfl
  | succ left ih =>
      simp only [readChunks, chunkLoop, readChunk, ih]

theorem writeChunks_eq (io : Nat → WriteAnswer) (total left i : Nat) (v : OpenFile g)
    (bounce buf : Mem) (real : Nat) :
    writeChunks io total left i v bounce buf real =
      chunkLoop (writeChunk io total) left i ⟨v, bounce, buf⟩ real := by
  induction left generalizing i v bounce buf real with
  | zero => rfl
  | succ left ih =>
      simp only [writeChunks, chunkLoop, writeChunk, ih]

section Loop

variable {op : ChunkOp g} {total : Nat}

/-- The bytes moved before chunk `i`, while the chunk counter is an `int`. -/
theorem moved_lt (total : Nat) {i : Nat} (hi : i < 2 ^ 31) : min total (i * bufSize) < 2 ^ 48 := by
  have h := Nat.mul_lt_mul_of_pos_right hi (show 0 < bufSize by decide)
  have hB : bufSize = 65536 := rfl
  omega

/-- A chunk that is not moved ends the loop. -/
theorem chunkLoop_cut {left i real : Nat} {s : ChunkState g} {t : Transfer g} (ht : op i s = some t)
    (hret : t.ret = 0) :
    chunkLoop op (left + 1) i s real = some ⟨t.view, t.buffer, s.buf, s64 real⟩ := by
  rw [chunkLoop, ht, Option.bind_some, hret, if_neg (show ¬ s32 0 ≠ 0 by decide)]

/-- After one that is, the counter has to stay an `int`. -/
theorem chunkLoop_moved {left i real : Nat} {s : ChunkState g} {t : Transfer g}
    (ht : op i s = some t) (hret : t.ret = chunkBytes total i) (hpos : 0 < chunkBytes total i) :
    chunkLoop op (left + 1) i s real =
      if i + 1 < 2 ^ 31 then
        chunkLoop op left (i + 1)
          ⟨t.view, t.buffer, s.buf.write (i * bufSize) (chunkBytes total i) t.buffer⟩
          (u64 (real + (chunkBytes total i : Int)))
      else none := by
  rw [chunkLoop, ht, Option.bind_some, hret, s32_chunkBytes, Int.toNat_natCast,
    if_pos (Int.natCast_ne_zero.mpr (Nat.ne_of_gt hpos))]

/-- **The loops are runs.** A loop has a result exactly when it gets to a chunk whose number is
an `int`, and it returns the number of bytes before that chunk. -/
theorem chunkLoop_eq_some (h0 : 0 < total)
    (hop : ∀ i s t, op i s = some t → t.ret = 0 ∨ t.ret = chunkBytes total i) {left i : Nat}
    (hleft : i + left = chunkCount total) (hi : i < 2 ^ 31) {s : ChunkState g}
    {r : MonopolyIo g} :
    chunkLoop op left i s (min total (i * bufSize)) = some r ↔
      ∃ j, ChunkRun op total i s ⟨r.view, r.bounce, r.buf⟩ j ∧ j < 2 ^ 31 ∧
        r.ret = (min total (j * bufSize) : Nat) := by
  have hsmall := moved_lt total hi
  have hreal : s64 (min total (i * bufSize) : Nat) = (min total (i * bufSize) : Nat) :=
    s64_of_fits (by omega) (by omega)
  obtain ⟨view, bounce, buf, ret⟩ := r
  -- by induction on the chunks to go
  induction left generalizing i s with
  | zero =>
      rw [chunkLoop, hreal]
      obtain rfl : i = chunkCount total := hleft
      constructor
      · intro h
        cases h
        exact ⟨_, .done s, hi, rfl⟩
      · rintro ⟨j, hrun, -, hret⟩
        rcases hrun.first with ⟨-, rfl, hs⟩ | ⟨hlt, -⟩ | ⟨hlt, -⟩
        · cases hs
          cases hret
          rfl
        · exact absurd hlt (Nat.lt_irrefl _)
        · exact absurd hlt (Nat.lt_irrefl _)
  | succ left ih =>
      have hlt : i < chunkCount total := by omega
      have hstart := chunk_start_lt h0 hlt
      have hb0 := chunkBytes_pos hstart
      have hb1 : chunkBytes total i ≤ 65536 := chunkBytes_le
      have hnext : u64 ((min total (i * bufSize) : Nat) + (chunkBytes total i : Int)) =
          min total ((i + 1) * bufSize) := by
        rw [← Int.natCast_add, u64_natCast (by omega), ← chunkBytes_add hstart]
        omega
      have hrest : ∀ {u : ChunkState g}, i + 1 < 2 ^ 31 →
          (chunkLoop op left (i + 1) u (min total ((i + 1) * bufSize)) =
              some ⟨view, bounce, buf, ret⟩ ↔
            ∃ j, ChunkRun op total (i + 1) u ⟨view, bounce, buf⟩ j ∧ j < 2 ^ 31 ∧
              ret = (min total (j * bufSize) : Nat)) := by
        intro u hint
        have hsmall' := moved_lt total hint
        exact ih (by omega) hint hsmall' (s64_of_fits (by omega) (by omega))
      constructor
      · intro h
        obtain ⟨t, ht, -⟩ := Option.bind_eq_some_iff.mp h
        rcases hop i s t ht with hret | hret
        · rw [chunkLoop_cut ht hret, hreal] at h
          cases h
          exact ⟨i, .stop hlt ⟨t, ht, hret, rfl⟩, hi, rfl⟩
        · rw [chunkLoop_moved ht hret hb0, hnext] at h
          split at h
          · next hint =>
              obtain ⟨j, hrun, hj, hr⟩ := (hrest hint).mp h
              exact ⟨j, .move hlt ⟨t, ht, hret, rfl⟩ hrun, hj, hr⟩
          · cases h
      · rintro ⟨j, hrun, hj, hr⟩
        rcases hrun.first with ⟨hin, -⟩ | ⟨-, rfl, t, ht, hret, hs⟩ |
          ⟨-, u, ⟨t, ht, hret, rfl⟩, hrun'⟩
        · omega
        · cases hs
          rw [chunkLoop_cut ht hret, hreal, ← hr]
        · have hint : i + 1 < 2 ^ 31 := Nat.lt_of_le_of_lt hrun'.le.1 hj
          rw [chunkLoop_moved ht hret hb0, if_pos hint, hnext]
          exact (hrest hint).mpr ⟨j, hrun', hj, hr⟩

/-- A whole loop. -/
theorem chunkLoop_start (h0 : 0 < total)
    (hop : ∀ i s t, op i s = some t → t.ret = 0 ∨ t.ret = chunkBytes total i)
    {s : ChunkState g} {r : MonopolyIo g} :
    chunkLoop op (chunkCount total) 0 s 0 = some r ↔
      ∃ j, ChunkRun op total 0 s ⟨r.view, r.bounce, r.buf⟩ j ∧ j < 2 ^ 31 ∧
        r.ret = (min total (j * bufSize) : Nat) := by
  rw [← chunkLoop_eq_some h0 hop (Nat.zero_add _) (by decide), Nat.zero_mul, Nat.min_zero]

/-- What it returns if it gets to chunk `j`. -/
theorem chunkLoop_ret (h0 : 0 < total)
    (hop : ∀ i s t, op i s = some t → t.ret = 0 ∨ t.ret = chunkBytes total i) {j : Nat}
    {s t : ChunkState g} (hrun : ChunkRun op total 0 s t j) :
    (chunkLoop op (chunkCount total) 0 s 0).map MonopolyIo.ret =
      if j < 2 ^ 31 then some ((min total (j * bufSize) : Nat) : Int) else none := by
  split
  · next hj =>
      rw [Option.map_eq_some_iff]
      exact ⟨⟨t.view, t.bounce, t.buf, _⟩, (chunkLoop_start h0 hop).mpr ⟨j, hrun, hj, rfl⟩, rfl⟩
  · next hj =>
      rw [Option.map_eq_none_iff, Option.eq_none_iff_forall_ne_some]
      intro r hr
      obtain ⟨k, hrun', hk, -⟩ := (chunkLoop_start h0 hop).mp hr
      obtain ⟨-, rfl⟩ := hrun.unique h0 hrun'
      exact hj hk

end Loop

theorem readChunk_ret {io : Nat → IoAnswer} {total i : Nat} {s : ChunkState g} {t : Transfer g}
    (h : readChunk io total i s = some t) : t.ret = 0 ∨ t.ret = chunkBytes total i :=
  s64_chunkBytes total i ▸ simpleFsRead_ret h

theorem writeChunk_ret {io : Nat → WriteAnswer} {total i : Nat} {s : ChunkState g}
    {t : Transfer g} (h : writeChunk io total i s = some t) :
    t.ret = 0 ∨ t.ret = chunkBytes total i :=
  s64_chunkBytes total i ▸ simpleFsWrite_ret h

/-! ## Requests

A request is for whole io_units. It is the loop over its chunks, or one call for all of them. -/

theorem dvd_total (nbytes : Nat) : g.ioUnit ∣ nbytes / g.ioUnit * g.ioUnit := Nat.dvd_mul_left ..

theorem total_le (nbytes : Nat) : nbytes / g.ioUnit * g.ioUnit ≤ nbytes :=
  Nat.div_mul_le_self ..

theorem total_pos {nbytes : Nat} (h : nbytes / g.ioUnit ≠ 0) :
    0 < nbytes / g.ioUnit * g.ioUnit :=
  Nat.mul_pos (Nat.pos_of_ne_zero h) g.ioUnit_pos

theorem units_ne_zero {nbytes : Nat} (h : 0 < nbytes / g.ioUnit * g.ioUnit) :
    nbytes / g.ioUnit ≠ 0 := fun hz => by rw [hz, Nat.zero_mul] at h; omega

theorem units_eq_zero {nbytes : Nat} (h : nbytes / g.ioUnit * g.ioUnit = 0) :
    nbytes / g.ioUnit = 0 :=
  (Nat.mul_eq_zero.mp h).resolve_right (Nat.ne_of_gt g.ioUnit_pos)

section Request

variable {nbytes total : Nat} (v : OpenFile g) (bounce buf : Mem)

/-- A request for no io_unit does nothing. -/
theorem monopolyReadFile_zero (h : nbytes / g.ioUnit = 0) (io : Nat → IoAnswer)
    (registered : Bool) :
    monopolyReadFile io v bounce buf nbytes registered = some ⟨v, bounce, buf, 0⟩ := if_pos h

theorem monopolyReadFile_bounced (h64 : nbytes < 2 ^ 64)
    (htot : nbytes / g.ioUnit * g.ioUnit = total) (h0 : 0 < total) (io : Nat → IoAnswer) :
    monopolyReadFile io v bounce buf nbytes false =
      chunkLoop (readChunk io total) (chunkCount total) 0 ⟨v, bounce, buf⟩ 0 := by
  have hle := total_le (g := g) nbytes
  rw [monopolyReadFile, if_neg (units_ne_zero (htot ▸ h0)), if_pos (by decide), htot,
    upperDiv_of_pos h0 (by omega), readChunks_eq]

theorem monopolyReadFile_direct (htot : nbytes / g.ioUnit * g.ioUnit = total) (h0 : 0 < total)
    (io : Nat → IoAnswer) :
    monopolyReadFile io v bounce buf nbytes true =
      (simpleFsRead (io 0) v total buf).map fun t =>
        ⟨t.view, bounce, t.buffer, s64 (u64 t.ret)⟩ := by
  rw [monopolyReadFile, if_neg (units_ne_zero (htot ▸ h0)), if_neg (by decide), htot]

theorem monopolyWriteFile_zero (h : nbytes / g.ioUnit = 0) (io : Nat → WriteAnswer)
    (registered : Bool) :
    monopolyWriteFile io v bounce buf nbytes registered = some ⟨v, bounce, buf, 0⟩ := if_pos h

theorem monopolyWriteFile_bounced (h64 : nbytes < 2 ^ 64)
    (htot : nbytes / g.ioUnit * g.ioUnit = total) (h0 : 0 < total) (io : Nat → WriteAnswer) :
    monopolyWriteFile io v bounce buf nbytes false =
      chunkLoop (writeChunk io total) (chunkCount total) 0 ⟨v, bounce, buf⟩ 0 := by
  have hle := total_le (g := g) nbytes
  rw [monopolyWriteFile, if_neg (units_ne_zero (htot ▸ h0)), if_pos (by decide), htot,
    upperDiv_of_pos h0 (by omega), writeChunks_eq]

theorem monopolyWriteFile_direct (htot : nbytes / g.ioUnit * g.ioUnit = total) (h0 : 0 < total)
    (io : Nat → WriteAnswer) :
    monopolyWriteFile io v bounce buf nbytes true =
      (simpleFsWrite (io 0) v total buf).map fun t =>
        ⟨t.view, bounce, t.buffer, s64 (u64 t.ret)⟩ := by
  rw [monopolyWriteFile, if_neg (units_ne_zero (htot ▸ h0)), if_neg (by decide), htot]

end Request

end BlobTopFs
