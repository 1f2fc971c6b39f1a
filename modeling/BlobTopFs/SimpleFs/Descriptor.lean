import BlobTopFs.SimpleFs.MonopolyOps
import BlobTopFs.SimpleFs.TransferSpec

/-!
# Reads, writes and seeks through a descriptor

The operations of `MonopolyOps` on one descriptor, taken apart into the file object it
names, what the file layer does to it, and the state it is put back into.
-/

namespace BlobTopFs

open Machine

variable {g : Geometry}

namespace Fs

/-- The descriptor `fd` names the file object `f`, which with its blob is `v`. -/
structure Resolves (s : Fs g) (fd : Int) (f : FileId) (v : OpenFile g) : Prop where
  file : s.fdtable.file fd = some f
  openFile : s.openFile f = some v

theorem openFile_eq_some {s : Fs g} {f : FileId} {v : OpenFile g} :
    s.openFile f = some v ↔
      s.files f = some v.file ∧ s.bs.blobs v.file.blob = some v.blob ∧ 0 < v.blob.openRef ∧
        v.log = s.bs.log := by
  unfold openFile
  rw [Option.bind_eq_some_iff]
  constructor
  · rintro ⟨file, hfile, h⟩
    obtain ⟨b, hb, rfl⟩ := Option.map_eq_some_iff.mp h
    obtain ⟨h1, h2⟩ := Blobstore.opened_eq_some.mp hb
    exact ⟨hfile, h1, h2, rfl⟩
  · rintro ⟨hfile, hb, href, hlog⟩
    refine ⟨v.file, hfile, ?_⟩
    rw [Blobstore.opened_eq_some.mpr ⟨hb, href⟩, ← hlog]
    rfl

/-- What was put back is what is found. -/
theorem openFile_putFile (s : Fs g) (f : FileId) {v : OpenFile g} (href : 0 < v.blob.openRef) :
    (s.putFile f v).openFile f = some v := by
  rw [openFile_eq_some]
  exact ⟨Function.update_self .., Blobstore.setBlob_self .., href, rfl⟩

theorem Resolves.unique {s : Fs g} {fd : Int} {f f' : FileId} {v v' : OpenFile g}
    (h : s.Resolves fd f v) (h' : s.Resolves fd f' v') : f = f' ∧ v = v' := by
  have hf : f = f' := Option.some.inj (h.file.symm.trans h'.file)
  subst hf
  exact ⟨rfl, Option.some.inj (h.openFile.symm.trans h'.openFile)⟩

theorem Resolves.putFile {s : Fs g} {fd : Int} {f : FileId} {v w : OpenFile g} (bounce : Mem)
    (h : s.Resolves fd f v) (href : 0 < w.blob.openRef) :
    ({ s.putFile f w with buffer := bounce } : Fs g).Resolves fd f w :=
  ⟨h.file, openFile_putFile s f href⟩

theorem Resolves.openRef_pos {s : Fs g} {fd : Int} {f : FileId} {v : OpenFile g}
    (h : s.Resolves fd f v) : 0 < v.blob.openRef :=
  (openFile_eq_some.mp h.openFile).2.2.1

theorem Resolves.log {s : Fs g} {fd : Int} {f : FileId} {v : OpenFile g}
    (h : s.Resolves fd f v) : v.log = s.bs.log :=
  (openFile_eq_some.mp h.openFile).2.2.2

/-! ## The operations -/

theorem monopolyRead_eq_some {s s' : Fs g} {io : Nat → IoAnswer} {fd : Int} {buf buf' : Mem}
    {nbytes : Nat} {registered : Bool} {ret : Int} {f : FileId} {v : OpenFile g}
    (h : s.Resolves fd f v) :
    monopolyRead io fd buf nbytes registered s = some (s', buf', ret) ↔
      ∃ r, monopolyReadFile io v s.buffer buf nbytes registered = some r ∧
        s' = { s.putFile f r.view with buffer := r.bounce } ∧ buf' = r.buf ∧ ret = r.ret := by
  rw [monopolyRead, h.file, Option.bind_some, h.openFile, Option.bind_some,
    Option.map_eq_some_iff]
  constructor
  · rintro ⟨r, hr, heq⟩
    cases heq
    exact ⟨r, hr, rfl, rfl, rfl⟩
  · rintro ⟨r, hr, rfl, rfl, rfl⟩
    exact ⟨r, hr, rfl⟩

theorem monopolyWrite_eq_some {s s' : Fs g} {io : Nat → WriteAnswer} {fd : Int} {buf buf' : Mem}
    {nbytes : Nat} {registered : Bool} {ret : Int} {f : FileId} {v : OpenFile g}
    (h : s.Resolves fd f v) :
    monopolyWrite io fd buf nbytes registered s = some (s', buf', ret) ↔
      ∃ r, monopolyWriteFile io v s.buffer buf nbytes registered = some r ∧
        s' = { s.putFile f r.view with buffer := r.bounce } ∧ buf' = r.buf ∧ ret = r.ret := by
  rw [monopolyWrite, h.file, Option.bind_some, h.openFile, Option.bind_some,
    Option.map_eq_some_iff]
  constructor
  · rintro ⟨r, hr, heq⟩
    cases heq
    exact ⟨r, hr, rfl, rfl, rfl⟩
  · rintro ⟨r, hr, rfl, rfl, rfl⟩
    exact ⟨r, hr, rfl⟩

theorem monopolyRead_cases {s s' : Fs g} {io : Nat → IoAnswer} {fd : Int} {buf buf' : Mem}
    {nbytes : Nat} {registered : Bool} {ret : Int}
    (h : monopolyRead io fd buf nbytes registered s = some (s', buf', ret)) :
    ∃ f v r, s.Resolves fd f v ∧
      monopolyReadFile io v s.buffer buf nbytes registered = some r ∧
      s' = { s.putFile f r.view with buffer := r.bounce } ∧ buf' = r.buf ∧ ret = r.ret := by
  obtain ⟨f, hf, h'⟩ := Option.bind_eq_some_iff.mp h
  obtain ⟨v, hv, -⟩ := Option.bind_eq_some_iff.mp h'
  obtain ⟨r, hr⟩ := (monopolyRead_eq_some ⟨hf, hv⟩).mp h
  exact ⟨f, v, r, ⟨hf, hv⟩, hr⟩

theorem monopolyWrite_cases {s s' : Fs g} {io : Nat → WriteAnswer} {fd : Int} {buf buf' : Mem}
    {nbytes : Nat} {registered : Bool} {ret : Int}
    (h : monopolyWrite io fd buf nbytes registered s = some (s', buf', ret)) :
    ∃ f v r, s.Resolves fd f v ∧
      monopolyWriteFile io v s.buffer buf nbytes registered = some r ∧
      s' = { s.putFile f r.view with buffer := r.bounce } ∧ buf' = r.buf ∧ ret = r.ret := by
  obtain ⟨f, hf, h'⟩ := Option.bind_eq_some_iff.mp h
  obtain ⟨v, hv, -⟩ := Option.bind_eq_some_iff.mp h'
  obtain ⟨r, hr⟩ := (monopolyWrite_eq_some ⟨hf, hv⟩).mp h
  exact ⟨f, v, r, ⟨hf, hv⟩, hr⟩

/-- The prefix law of `monopoly_write`, for the state. -/
theorem monopolyWrite_spec {s s' : Fs g} {io : Nat → WriteAnswer} {fd : Int} {buf buf' : Mem}
    {nbytes : Nat} {registered : Bool} {ret : Int} {f : FileId} {v : OpenFile g} {p : Nat}
    (hB : g.ioUnit ∣ bufSize) (hres : s.Resolves fd f v) (hv : v.At p) (h64 : nbytes < 2 ^ 64)
    (h : monopolyWrite io fd buf nbytes registered s = some (s', buf', ret)) :
    ∃ (k : Nat) (r : MonopolyIo g),
      monopolyWriteFile io v s.buffer buf nbytes registered = some r ∧ r.ret = k ∧ ret = k ∧
        s'.Resolves fd f r.view ∧
        WroteUpTo io p (nbytes / g.ioUnit * g.ioUnit) buf
          (lastChunkStart registered (nbytes / g.ioUnit * g.ioUnit) k)
          (chunkLen registered (nbytes / g.ioUnit * g.ioUnit)) v 0 k r.view := by
  obtain ⟨r, hr, rfl, -, rfl⟩ := (monopolyWrite_eq_some hres).mp h
  obtain ⟨k, hk, -, hwrote⟩ := monopolyWriteFile_spec hB hv h64 hr
  refine ⟨k, r, hr, hk, hk, hres.putFile _ ?_, hwrote⟩
  rw [hwrote.openRef]
  exact hres.openRef_pos

/-- The prefix law of `monopoly_read`, for the state. -/
theorem monopolyRead_spec {s s' : Fs g} {io : Nat → IoAnswer} {fd : Int} {buf buf' : Mem}
    {nbytes : Nat} {registered : Bool} {ret : Int} {f : FileId} {v : OpenFile g} {p : Nat}
    (hB : g.ioUnit ∣ bufSize) (hres : s.Resolves fd f v) (hv : v.At p) (h64 : nbytes < 2 ^ 64)
    (h : monopolyRead io fd buf nbytes registered s = some (s', buf', ret)) :
    ∃ (k : Nat) (r : MonopolyIo g),
      monopolyReadFile io v s.buffer buf nbytes registered = some r ∧ r.ret = k ∧ ret = k ∧
        s'.Resolves fd f r.view ∧
        ReadUpTo (registered = true → (io 0).bserrno = 0 ∨ (io 0).junk = none) p
          (nbytes / g.ioUnit * g.ioUnit) v buf 0 k r.view buf' ∧
        (0 < k → k = nbytes / g.ioUnit * g.ioUnit → 512 ∣ k ∧ CounterFits registered k) := by
  obtain ⟨r, hr, rfl, rfl, rfl⟩ := (monopolyRead_eq_some hres).mp h
  obtain ⟨k, hk, hread, hfull⟩ := monopolyReadFile_spec hB hv h64 hr
  refine ⟨k, r, hr, hk, hk, hres.putFile _ ?_, hread, hfull⟩
  rw [hread.frame.openRef]
  exact hres.openRef_pos

/-- A seek needs no blob. -/
theorem monopolyLseek_cases {s s' : Fs g} {fd offset whence ret : Int}
    (h : monopolyLseek fd offset whence s = some (s', ret)) :
    ∃ f file, s.fdtable.file fd = some f ∧ s.files f = some file ∧
      ret = (monopolyLseekFile g file offset whence).2 ∧
      s' = { s with
        files := Function.update s.files f (some (monopolyLseekFile g file offset whence).1) } := by
  obtain ⟨f, hf, h⟩ := Option.bind_eq_some_iff.mp h
  obtain ⟨file, hfile, heq⟩ := Option.map_eq_some_iff.mp h
  cases heq
  exact ⟨f, file, hf, hfile, rfl, rfl⟩

/-- A seek touches nothing of a file object but its position. -/
theorem monopolyLseekFile_frame (file : SpdkfsFile) (offset whence : Int) :
    (monopolyLseekFile g file offset whence).1.blob = file.blob ∧
      (monopolyLseekFile g file offset whence).1.filePersist = file.filePersist := by
  simp only [monopolyLseekFile]
  split <;> split <;> exact ⟨rfl, rfl⟩

/-- A seek is a seek of the file object, and leaves its blob alone. -/
theorem monopolyLseek_eq {s : Fs g} {fd : Int} {f : FileId} {v : OpenFile g}
    (h : s.Resolves fd f v) (offset whence : Int) :
    ∃ s', monopolyLseek fd offset whence s =
        some (s', (monopolyLseekFile g v.file offset whence).2) ∧
      s'.buffer = s.buffer ∧
      s'.Resolves fd f { v with file := (monopolyLseekFile g v.file offset whence).1 } := by
  obtain ⟨hfile, hb, href, hlog⟩ := openFile_eq_some.mp h.openFile
  refine ⟨{ s with
    files := Function.update s.files f (some (monopolyLseekFile g v.file offset whence).1) },
    ?_, rfl, h.file, ?_⟩
  · rw [monopolyLseek, h.file, Option.bind_some, hfile]
    rfl
  rw [openFile_eq_some]
  refine ⟨Function.update_self .., ?_, href, hlog⟩
  simp only [(monopolyLseekFile_frame v.file offset whence).1]
  exact hb

end Fs

/-! ## Seeks -/

/-- Nor does it touch the record. -/
theorem OpenFile.lseek_persist (v : OpenFile g) (offset whence : Int) :
    OpenFile.persist (g := g) { v with file := (monopolyLseekFile g v.file offset whence).1 } =
      v.persist := by
  unfold OpenFile.persist
  simp only [(Fs.monopolyLseekFile_frame v.file offset whence).2]

theorem dvd_actualSeek (offset : Int) : (g.ioUnit : Int) ∣ actualSeek g offset :=
  Int.dvd_mul_left ..

/-- An offset forward is rounded down. -/
theorem actualSeek_of_nonneg {offset : Int} (h : 0 ≤ offset) :
    0 ≤ actualSeek g offset ∧ actualSeek g offset ≤ offset ∧
      offset < actualSeek g offset + g.ioUnit := by
  have hpos : (0 : Int) < g.ioUnit := Int.natCast_pos.mpr g.ioUnit_pos
  have hdiv := Int.tmod_add_tdiv_mul offset g.ioUnit
  have hlow := Int.tmod_nonneg (g.ioUnit : Int) h
  have hhigh := Int.tmod_lt_of_pos offset hpos
  have hquot := Int.mul_nonneg (Int.tdiv_nonneg h (Int.le_of_lt hpos)) (Int.le_of_lt hpos)
  unfold actualSeek
  omega

theorem actualSeek_neg (offset : Int) : actualSeek g (-offset) = -actualSeek g offset := by
  unfold actualSeek
  rw [Int.neg_tdiv, Int.neg_mul]

/-- An offset back is rounded up. -/
theorem actualSeek_of_nonpos {offset : Int} (h : offset ≤ 0) :
    actualSeek g offset ≤ 0 ∧ offset ≤ actualSeek g offset ∧
      actualSeek g offset - g.ioUnit < offset := by
  have hneg := actualSeek_of_nonneg (g := g) (Int.neg_nonneg_of_nonpos h)
  rw [actualSeek_neg] at hneg
  omega

/-- Rounding toward zero does not leave the range of an offset. -/
theorem actualSeek_bounds {offset : Int} (h0 : -2 ^ 63 ≤ offset) (h1 : offset < 2 ^ 63) :
    -2 ^ 63 ≤ actualSeek g offset ∧ actualSeek g offset < 2 ^ 63 := by
  rcases Int.le_total 0 offset with h | h
  · obtain ⟨hlow, hhigh, -⟩ := actualSeek_of_nonneg (g := g) h
    exact ⟨by omega, Int.lt_of_le_of_lt hhigh h1⟩
  · obtain ⟨hhigh, hlow, -⟩ := actualSeek_of_nonpos (g := g) h
    exact ⟨Int.le_trans h0 hlow, by omega⟩

/-- A seek to an io_unit boundary lands there. -/
theorem actualSeek_of_dvd {p : Nat} (h : g.ioUnit ∣ p) : actualSeek g p = p := by
  unfold actualSeek
  rw [Int.tdiv_mul_cancel (Int.natCast_dvd_natCast.mpr h)]

/-- A seek whose result is non-negative leaves the file at an io_unit boundary. -/
theorem OpenFile.At.lseek {v : OpenFile g} {p : Nat} {offset whence : Int} (hv : v.At p)
    (h0 : -2 ^ 63 ≤ offset) (h1 : offset < 2 ^ 63)
    (hnonneg : 0 ≤ (monopolyLseekFile g v.file offset whence).2) :
    OpenFile.At (g := g) { v with file := (monopolyLseekFile g v.file offset whence).1 }
      (monopolyLseekFile g v.file offset whence).2.toNat := by
  have hb := actualSeek_bounds (g := g) h0 h1
  have hlt := hv.lt
  have hpd : (g.ioUnit : Int) ∣ p := Int.natCast_dvd_natCast.mpr hv.dvd
  -- the position it returns is one of three, all of them multiples of the io_unit
  have key : (g.ioUnit : Int) ∣ (monopolyLseekFile g v.file offset whence).2 ∧
      (monopolyLseekFile g v.file offset whence).2 < 2 ^ 63 := by
    simp only [monopolyLseekFile] at hnonneg ⊢
    by_cases hset : whence = SEEK_SET
    · subst hset
      have hcur : SEEK_SET ≠ SEEK_CUR := by decide
      simp only [if_pos, if_neg hcur]
      exact ⟨dvd_actualSeek offset, hb.2⟩
    · simp only [if_neg hset] at hnonneg ⊢
      by_cases hcur : whence = SEEK_CUR
      · simp only [if_pos hcur, hv.fPos] at hnonneg ⊢
        have hfit : s64 ((p : Int) + actualSeek g offset) = p + actualSeek g offset := by
          unfold s64 u64 at hnonneg ⊢
          omega
        rw [hfit]
        exact ⟨Int.dvd_add hpd (dvd_actualSeek offset), by rw [← hfit]; exact (s64_fits _).2⟩
      · simp only [if_neg hcur, hv.fPos]
        exact ⟨hpd, by omega⟩
  refine ⟨?_, ?_, ?_⟩
  · rw [Int.toNat_of_nonneg hnonneg]
    rfl
  · rw [← Int.natCast_dvd_natCast, Int.toNat_of_nonneg hnonneg]
    exact key.1
  · have := key.2
    omega

end BlobTopFs
