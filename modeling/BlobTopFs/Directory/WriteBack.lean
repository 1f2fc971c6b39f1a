import BlobTopFs.Directory.Resolution

/-!
# What a clean directory says about its blob

`simple_dir_write` clears the dirty flag and then makes its request, in a blob it does not
resize. So the flag says what it should say only if SPDK carries out the request and the
io_units it covers are in the blob and hold all entries; `simple_dir_close` resizes first.
-/

namespace BlobTopFs

open Machine Run

variable {g : Geometry}

/-! ## What a clean directory promises -/

/-- A read of the directory, in whatever object and memory, has the count, the size and the
entries of `d`. -/
def Blobstore.ReadsBack (bs : Blobstore g) (d : SpdkfsDir) : Prop :=
  ∀ (fresh : SpdkfsDir) (m : Mem), fresh.blob = d.blob →
    ∃ bs' d', simpleDirRead (some m) .done bs fresh = some (bs', d') ∧ d'.count = d.count ∧
      d'.size = d.size ∧ ∀ q < d.count * sizeofDirent, d'.dirents q = d.dirents q

/-- `simple_dir_write` returns. If the directory is clean then a read gives it back, and if the
request it made has failed then it is dirty. -/
def WritesBack (ans : IoAnswer) (bs : Blobstore g) (d : SpdkfsDir) : Prop :=
  ∃ bs' d', simpleDirWrite ans bs d = some (bs', d') ∧
    (d'.dirty = false → bs'.ReadsBack d') ∧
    ∀ e, bs'.log = e :: bs.log → e.bserrno ≠ 0 → d'.dirty = true

/-- The io_units that a request for `d_size` bytes asks for are in the blob, and cover the
entries. -/
structure SpdkfsDir.CoveredBy (d : SpdkfsDir) (b : Blob g) : Prop where
  blob : upperDiv d.size g.ioUnit * g.ioUnit ≤ b.capacity
  entries : d.count * sizeofDirent ≤ upperDiv d.size g.ioUnit * g.ioUnit

/-- The blob has the record and the entries of the directory. -/
structure Blob.Stores (b : Blob g) (d : SpdkfsDir) : Prop where
  record : ∃ p, b.xattrs.dirPersistent = some p ∧ p.dDirentCount = d.count ∧ p.dSize = d.size
  entries : d.count = 0 ∨
    d.CoveredBy b ∧ ∀ q < d.count * sizeofDirent, b.data q = d.dirents q

/-! ## Reading -/

/-- A read request for `size` bytes from the start, if SPDK does not fail it: the bytes of the
io_units it asks for if these are in the blob, and none otherwise. -/
theorem read_done (id : BlobId) (b : Blob g) (size : Nat) (m : Mem) (q : Nat) :
    (genericBlobIo .done id b size 0 m true).buffer q =
      if upperDiv size g.ioUnit * g.ioUnit ≤ b.capacity ∧ q < upperDiv size g.ioUnit * g.ioUnit then
        b.data q
      else m q := by
  have hzero : u64 0 / g.ioUnit = 0 := Nat.zero_div _
  show (spdkBlobIoRead .done b m (u64 0 / g.ioUnit) (upperDiv size g.ioUnit)).1 q = _
  rw [hzero, spdkBlobIoRead, Blob.inRange, Nat.zero_add]
  by_cases hcap : upperDiv size g.ioUnit * g.ioUnit ≤ b.capacity
  · simp [hcap, IoAnswer.done, Mem.write_apply]
  · simp [hcap]

theorem simpleDirRead_done {bs : Blobstore g} {b : Blob g} {d : SpdkfsDir} {m : Mem}
    (hb : bs.opened d.blob = some b) :
    simpleDirRead (some m) .done bs d = b.xattrs.dirPersistent.map fun p =>
      ({ bs with log := (genericBlobIo .done d.blob b p.dSize 0 m true).event :: bs.log },
        { d with
          dirPersist := p
          dirents := (genericBlobIo .done d.blob b p.dSize 0 m true).buffer
          initialized := true
          dirty := false }) := by
  rw [simpleDirRead, hb, Option.bind_some]
  cases b.xattrs.dirPersistent with
  | none => simp
  | some p => simp

/-- A read gives back exactly what the blob stores. -/
theorem readsBack_iff_stores {bs : Blobstore g} {b : Blob g} {d : SpdkfsDir}
    (hb : bs.opened d.blob = some b) : bs.ReadsBack d ↔ b.Stores d := by
  constructor
  · intro h
    -- memory that differs from the entries everywhere
    obtain ⟨bs', d', hread, hcount, hsize, hentries⟩ := h d (fun q => d.dirents q + 1) rfl
    rw [simpleDirRead_done hb] at hread
    obtain ⟨p, hp, heq⟩ := Option.map_eq_some_iff.mp hread
    cases heq
    have hsize' : p.dSize = d.size := hsize
    refine ⟨⟨p, hp, hcount, hsize'⟩, ?_⟩
    rcases Nat.eq_zero_or_pos d.count with h0 | hpos
    · exact Or.inl h0
    · apply Or.inr
      have hin : ∀ q < d.count * sizeofDirent,
          (upperDiv d.size g.ioUnit * g.ioUnit ≤ b.capacity ∧
            q < upperDiv d.size g.ioUnit * g.ioUnit) ∧ b.data q = d.dirents q := by
        intro q hq
        have hbyte := hentries q hq
        dsimp only at hbyte
        rw [read_done, hsize'] at hbyte
        split at hbyte
        · next hcovered => exact ⟨hcovered, hbyte⟩
        · exact absurd hbyte (by simp)
      have hfirst := hin 0 (Nat.mul_pos hpos (by decide))
      refine ⟨⟨hfirst.1.1, ?_⟩, fun q hq => (hin q hq).2⟩
      have hbytes : 0 < d.count * sizeofDirent := Nat.mul_pos hpos (by decide)
      have hlast := (hin (d.count * sizeofDirent - 1) (Nat.sub_one_lt_of_lt hbytes)).1.2
      exact Nat.le_of_pred_lt hlast
  · rintro ⟨⟨p, hp, hcount, hsize⟩, hentries⟩ fresh m hfresh
    rw [← hfresh] at hb
    rw [simpleDirRead_done hb, hp]
    refine ⟨_, _, rfl, hcount, hsize, fun q hq => ?_⟩
    rcases hentries with h0 | ⟨hcovered, hbytes⟩
    · rw [h0, Nat.zero_mul] at hq
      exact absurd hq (Nat.not_lt_zero q)
    · show (genericBlobIo .done fresh.blob b p.dSize 0 m true).buffer q = d.dirents q
      rw [read_done, hsize, if_pos ⟨hcovered.blob, Nat.lt_of_lt_of_le hq hcovered.entries⟩]
      exact hbytes q hq

/-! ## Writing -/

variable {ans : IoAnswer} {bs : Blobstore g} {b : Blob g} {d : SpdkfsDir}

/-- The request of `simple_dir_write`, once the attribute is set. -/
def SpdkfsDir.writeOut (ans : IoAnswer) (d : SpdkfsDir) (b : Blob g) : IoDone g :=
  genericBlobIo ans d.blob (b.setDirPersistent d.dirPersist) d.size 0 d.dirents false

variable (ans b d) in
theorem SpdkfsDir.writeOut_eq :
    ((d.writeOut ans b).blob, (d.writeOut ans b).event.bserrno) =
      spdkBlobIoWrite ans (b.setDirPersistent d.dirPersist) d.dirents 0
        (upperDiv d.size g.ioUnit) := by
  have hzero : u64 0 / g.ioUnit = 0 := Nat.zero_div _
  rw [← hzero]
  rfl

/-- It succeeds if SPDK does not fail it and the io_units it asks for are in the blob, -/
theorem SpdkfsDir.writeOut_ok_iff :
    (d.writeOut ans b).event.bserrno = 0 ↔
      ans.bserrno = 0 ∧ upperDiv d.size g.ioUnit * g.ioUnit ≤ b.capacity := by
  have herr := congrArg Prod.snd (d.writeOut_eq ans b)
  dsimp only at herr
  rw [herr, spdkBlobIoWrite, Blob.inRange, Nat.zero_add]
  show (if !decide (_ ≤ b.capacity) then _ else _ : Blob g × Int).2 = 0 ↔ _
  by_cases hcap : upperDiv d.size g.ioUnit * g.ioUnit ≤ b.capacity
  · by_cases he : ans.bserrno = 0
    · simp [hcap, he]
    · simp [hcap, he]
  · simp [hcap, EINVAL]

/-- and then the blob has the record, and the bytes of those io_units. -/
theorem SpdkfsDir.writeOut_blob (he : ans.bserrno = 0)
    (hcap : upperDiv d.size g.ioUnit * g.ioUnit ≤ b.capacity) :
    (d.writeOut ans b).blob =
      { b.setDirPersistent d.dirPersist with
        data := b.data.write 0 (upperDiv d.size g.ioUnit * g.ioUnit) d.dirents } := by
  have hblob := congrArg Prod.fst (d.writeOut_eq ans b)
  dsimp only at hblob
  rw [hblob, spdkBlobIoWrite, Blob.inRange, Nat.zero_add]
  show (if !decide (_ ≤ b.capacity) then _ else _ : Blob g × Int).1 = _
  simp [hcap, he, Blob.setDirPersistent]

variable (ans) in
/-- A dirty directory is clean afterwards, whatever became of the request. -/
theorem simpleDirWrite_dirty (hb : bs.opened d.blob = some b) (hd : d.dirty = true) :
    simpleDirWrite ans bs d =
      some (({ bs with log := (d.writeOut ans b).event :: bs.log } : Blobstore g).setBlob d.blob
        (d.writeOut ans b).blob, { d with dirty := false }) := by
  rw [simpleDirWrite, if_pos hd, hb]
  rfl

/-- The blob of a write that has succeeded stores the directory if its io_units cover the
entries. -/
theorem SpdkfsDir.writeOut_stores_iff (he : ans.bserrno = 0)
    (hcap : upperDiv d.size g.ioUnit * g.ioUnit ≤ b.capacity) :
    (d.writeOut ans b).blob.Stores { d with dirty := false } ↔
      d.count * sizeofDirent ≤ upperDiv d.size g.ioUnit * g.ioUnit := by
  rw [d.writeOut_blob he hcap]
  constructor
  · rintro ⟨-, h0 | ⟨hcovered, -⟩⟩
    · have h0' : d.count = 0 := h0
      rw [h0', Nat.zero_mul]
      exact Nat.zero_le _
    · exact hcovered.entries
  · intro hfits
    refine ⟨⟨d.dirPersist, rfl, rfl, rfl⟩, Or.inr ⟨⟨hcap, hfits⟩, fun q hq => ?_⟩⟩
    have hlt : q < 0 + upperDiv d.size g.ioUnit * g.ioUnit := by
      rw [Nat.zero_add]
      exact Nat.lt_of_lt_of_le hq hfits
    exact Mem.write_in (Nat.zero_le q) hlt

theorem writesBack_of_dirty (hb : bs.opened d.blob = some b) (hd : d.dirty = true) :
    WritesBack ans bs d ↔ ans.bserrno = 0 ∧ d.CoveredBy b := by
  have hwrite := simpleDirWrite_dirty ans hb hd
  have hstored : ∀ (_ : ans.bserrno = 0)
      (_ : upperDiv d.size g.ioUnit * g.ioUnit ≤ b.capacity),
      (({ bs with log := (d.writeOut ans b).event :: bs.log } : Blobstore g).setBlob d.blob
        (d.writeOut ans b).blob).ReadsBack { d with dirty := false } ↔
        d.count * sizeofDirent ≤ upperDiv d.size g.ioUnit * g.ioUnit := by
    intro he hcap
    rw [← d.writeOut_stores_iff he hcap]
    apply readsBack_iff_stores
    apply Blobstore.opened_eq_some.mpr
    refine ⟨Blobstore.setBlob_self .., ?_⟩
    rw [d.writeOut_blob he hcap]
    exact (Blobstore.opened_eq_some.mp hb).2
  constructor
  · rintro ⟨bs', d', hret, hclean, hfailed⟩
    cases hwrite.symm.trans hret
    obtain ⟨he, hcap⟩ : ans.bserrno = 0 ∧ upperDiv d.size g.ioUnit * g.ioUnit ≤ b.capacity := by
      apply d.writeOut_ok_iff.mp
      by_contra herr
      exact absurd (hfailed _ rfl herr) (by simp)
    exact ⟨he, hcap, (hstored he hcap).mp (hclean rfl)⟩
  · rintro ⟨he, hcovered⟩
    refine ⟨_, _, hwrite, fun _ => (hstored he hcovered.blob).mpr hcovered.entries, ?_⟩
    intro e hlog herr
    cases (List.cons.inj hlog).1
    exact absurd (d.writeOut_ok_iff.mpr ⟨he, hcovered.blob⟩) herr

theorem writesBack_of_clean (hb : bs.opened d.blob = some b) (hd : d.dirty = false) :
    WritesBack ans bs d ↔ b.Stores d := by
  have hwrite : simpleDirWrite ans bs d = some (bs, d) := by
    rw [simpleDirWrite, hd]
    rfl
  rw [← readsBack_iff_stores hb]
  constructor
  · rintro ⟨bs', d', hret, hclean, -⟩
    cases hwrite.symm.trans hret
    exact hclean hd
  · intro h
    refine ⟨bs, d, hwrite, fun _ => h, fun e hlog => ?_⟩
    exact absurd hlog (List.cons_ne_self e bs.log).symm

/-- **Clean means saved.** After `simple_dir_write` a clean directory can be read back, and a
failed request leaves it dirty, exactly if the request of a dirty directory succeeds and covers
the entries, and a clean directory was stored already. -/
theorem writesBack_iff (hb : bs.opened d.blob = some b) :
    WritesBack ans bs d ↔
      (d.dirty = true → ans.bserrno = 0 ∧ d.CoveredBy b) ∧ (d.dirty = false → b.Stores d) := by
  cases hd : d.dirty with
  | true =>
      rw [writesBack_of_dirty hb hd]
      simp
  | false =>
      rw [writesBack_of_clean hb hd]
      simp

/-- A blob of one cluster, in use. -/
def oneCluster : Blob .malloc4k :=
  { Blob.fresh (g := .malloc4k) (fun _ => 0) with
    openRef := 1, clusters := 1, clusters_le := by decide }

/-- A root directory, the blob 7, with one entry that is not saved. -/
def oneEntry : SpdkfsDir :=
  ⟨7, true, ⟨0, 1, 4096, 7⟩, writeDirent (fun _ => 0) 0 3 nameA, true⟩

/-- With a cluster in the blob the entry is saved. -/
theorem writesBack_oneEntry :
    WritesBack .done ((Blobstore.formatted 7).setBlob 7 oneCluster) oneEntry := by
  have hopen : ((Blobstore.formatted 7).setBlob 7 oneCluster).opened oneEntry.blob =
      some oneCluster :=
    Blobstore.opened_eq_some.mpr ⟨Blobstore.setBlob_self .., Nat.one_pos⟩
  apply (writesBack_iff hopen).mpr
  refine ⟨fun _ => ⟨rfl, ?_, ?_⟩, fun h => ?_⟩
  · decide +kernel
  · decide +kernel
  · cases h

/-- The first file on a formatted device: the directory's blob has no cluster, and the entry is
lost under a cleared flag. -/
theorem not_writesBack_created :
    ∃ s : Fs .malloc4k, exec (fsStep findByLookup) (.formatted .done 7)
        [.create (.done 3) nameA] = some s ∧ ¬ WritesBack .done s.bs s.workdir := by
  have hrun : ((exec (fsStep findByLookup) (.formatted .done 7 : Fs .malloc4k)
      [.create (.done 3) nameA]).bind fun s => (simpleDirWrite .done s.bs s.workdir).map fun r =>
        (r.1.log.head?.map Event.bserrno, decide (r.1.log.tail = s.bs.log), r.2.dirty)) =
      some (some (-22), true, false) := by
    decide +kernel
  obtain ⟨s, hs, hrun⟩ := Option.bind_eq_some_iff.mp hrun
  obtain ⟨r, hr, heq⟩ := Option.map_eq_some_iff.mp hrun
  simp only [Prod.mk.injEq, Option.map_eq_some_iff, decide_eq_true_eq] at heq
  obtain ⟨⟨e, hhead, herr⟩, htail, hdirty⟩ := heq
  refine ⟨s, hs, ?_⟩
  rintro ⟨bs', d', hret, -, hfailed⟩
  cases hr.symm.trans hret
  have hlog := List.eq_cons_of_mem_head? hhead
  rw [htail] at hlog
  have hset := hfailed e hlog (by simp [herr])
  rw [hdirty] at hset
  cases hset

end BlobTopFs
