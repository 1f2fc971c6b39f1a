import BlobTopFs.Files.ClosedFiles

/-!
# One file through several descriptors

Each descriptor has a position of its own, and the one a file was created through a record of
its own; the bytes they share. So there is one answer to what a file holds, and it is followed
here for all files and descriptors of an application at once: what some write has stored, every
read finds from then on, whichever descriptors the two went through.
-/

namespace BlobTopFs

open Machine Run PartialMap

variable {g : Geometry}

/-! ## What an application knows of its files -/

/-- The file system, the descriptors handed out, and the bytes of each blob that are known from
the values of the writes, through whatever descriptor they went. -/
structure FilesWorld (g : Geometry) extends FdWorld g where
  known : BlobId → Nat → Option UInt8

/-- No descriptor is open, and nothing is known. -/
def FilesWorld.start (s : Fs g) : FilesWorld g := ⟨⟨s, fun _ => none⟩, fun _ _ => none⟩

/-- What a call says of the contents. Of a blob that it may have made nothing is known. -/
def FsCall.noteContents (w : FilesWorld g) (ret : Int) : FsCall → BlobId → Nat → Option UInt8
  | .create ans _ => Function.update w.known ans.id fun _ => none
  | .write io fd buf nbytes registered =>
      match w.fs.blobOf fd, w.opened fd.toNat with
      | some id, some o =>
          let total := nbytes / g.ioUnit * g.ioUnit
          let k := ret.toNat
          Function.update w.known id
            (noteStored o.pos.toNat total k (chunkLen registered total) buf
              (io (k / bufSize)).io.junk.isSome (w.known id))
      | _, _ => w.known
  | _ => w.known

def filesStep (findDir : FindDir) (w : FilesWorld g) (call : FsCall) : Option (FilesWorld g) :=
  (call.run findDir w.fs).map fun r =>
    ⟨⟨r.1, call.noteOpened w.fs.nextFile w.opened r.2⟩, call.noteContents w r.2⟩

/-- Descriptors that are passed in are open ones, offsets and lengths are values of their types,
and no seek goes below 0. -/
def FsCall.Proper (w : FilesWorld g) : FsCall → Prop
  | .close _ fd => 0 ≤ fd ∧ (w.opened fd.toNat).isSome
  | .lseek fd offset whence => 0 ≤ fd ∧ (w.opened fd.toNat).isSome ∧ FitsOff offset ∧
      ∀ s pos, monopolyLseek fd offset whence w.fs = some (s, pos) → 0 ≤ pos
  | .read _ fd _ nbytes _ | .write _ fd _ nbytes _ =>
      0 ≤ fd ∧ (w.opened fd.toNat).isSome ∧ nbytes < 2 ^ 64
  | .create .. | .openName .. | .stat .. | .unlink .. => True

/-- If the call is a read, each byte it delivers is the one known to be there, if one is. -/
def FsCall.DeliversKnown (w : FilesWorld g) : FsCall → Prop
  | .read io fd buf nbytes registered =>
      ∀ s' buf' ret id o, monopolyRead io fd buf nbytes registered w.fs = some (s', buf', ret) →
        w.fs.blobOf fd = some id → w.opened fd.toNat = some o →
        ∀ q < ret.toNat, ∀ byte, w.known id (o.pos.toNat + q) = some byte → buf' q = byte
  | _ => True

theorem FsCall.Proper.usesOpen {w : FilesWorld g} {call : FsCall} (h : call.Proper w) :
    call.UsesOpen w.opened := by
  cases call with
  | close closeErrno fd => exact h
  | lseek fd offset whence => exact ⟨h.1, h.2.1, h.2.2.1⟩
  | read io fd buf nbytes registered => exact ⟨h.1, h.2.1⟩
  | write io fd buf nbytes registered => exact ⟨h.1, h.2.1⟩
  | _ => trivial

theorem filesStep_fdStep {findDir : FindDir} {w w' : FilesWorld g} {call : FsCall}
    (h : filesStep findDir w call = some w') :
    fdStep findDir w.toFdWorld call = some w'.toFdWorld := by
  obtain ⟨r, hr, rfl⟩ := Option.map_eq_some_iff.mp h
  exact Option.map_eq_some_iff.mpr ⟨r, hr, rfl⟩

/-! ## Bytes of blobs -/

/-- The blob has the bytes that are known. -/
def Blob.Has (b : Blob g) (known : Nat → Option UInt8) : Prop :=
  ∀ q byte, known q = some byte → q < b.capacity ∧ b.data q = byte

theorem Blob.Has.congr {b b' : Blob g} {known : Nat → Option UInt8} (h : b.Has known)
    (hclusters : b'.clusters = b.clusters) (hdata : b'.data = b.data) : b'.Has known := by
  intro q byte hq
  rw [Blob.capacity, hclusters, hdata]
  exact h q byte hq

/-- The blobs of the second state are those of the first, with the bytes they had, but for one
that may be new. -/
def Blobstore.KeepsBytes (bs bs' : Blobstore g) (new : Option BlobId) : Prop :=
  ∀ id b', bs'.blobs id = some b' → some id = new ∨
    ∃ b, bs.blobs id = some b ∧ b'.clusters = b.clusters ∧ b'.data = b.data

section KeepsBytes

variable {bs bs' : Blobstore g} {id : BlobId} {b b' : Blob g} {new : Option BlobId}

theorem Blobstore.keepsBytes_of_eq (h : bs'.blobs = bs.blobs) : bs.KeepsBytes bs' new := by
  intro id b hb
  rw [h] at hb
  exact Or.inr ⟨b, hb, rfl, rfl⟩

theorem Blobstore.KeepsBytes.trans {bs'' : Blobstore g} (h : bs.KeepsBytes bs' new)
    (h' : bs'.KeepsBytes bs'' new) : bs.KeepsBytes bs'' new := by
  intro id b'' hb''
  rcases h' id b'' hb'' with hnew | ⟨b', hb', hc', hd'⟩
  · exact Or.inl hnew
  · rcases h id b' hb' with hnew | ⟨b, hb, hc, hd⟩
    · exact Or.inl hnew
    · exact Or.inr ⟨b, hb, hc'.trans hc, hd'.trans hd⟩

theorem Blobstore.keepsBytes_update (h : bs'.blobs = Function.update bs.blobs id (some b'))
    (hb : bs.blobs id = some b) (hclusters : b'.clusters = b.clusters) (hdata : b'.data = b.data) :
    bs.KeepsBytes bs' new := by
  intro id' b'' hb''
  rw [h] at hb''
  rcases update_some_cases hb'' with ⟨rfl, rfl⟩ | ⟨-, hold⟩
  · exact Or.inr ⟨b, hb, hclusters, hdata⟩
  · exact Or.inr ⟨b'', hold, rfl, rfl⟩

theorem Blobstore.keepsBytes_delete (h : bs'.blobs = Function.update bs.blobs id none) :
    bs.KeepsBytes bs' new := by
  intro id' b' hb'
  rw [h] at hb'
  exact Or.inr ⟨b', (update_none_eq_some hb').2, rfl, rfl⟩

theorem blobCreate_keepsBytes {createErrno openErrno : Int} {content : Mem}
    {garbage : Option BlobId} {blob : BlobId} {ok : Bool}
    (hc : blobCreate createErrno openErrno id content garbage bs = some (bs', blob, ok)) :
    bs.KeepsBytes bs' (some id) := by
  rcases blobCreate_blobs hc with hblobs | ⟨b, -, hblobs⟩
  · exact Blobstore.keepsBytes_of_eq hblobs
  · intro id' b' hb'
    rw [hblobs] at hb'
    rcases update_some_cases hb' with ⟨rfl, -⟩ | ⟨-, hold⟩
    · exact Or.inl rfl
    · exact Or.inr ⟨b', hold, rfl, rfl⟩

end KeepsBytes

/-- The blob a create may make. -/
def FsCall.newBlob : FsCall → Option BlobId
  | .create ans _ => some ans.id
  | _ => none

theorem FsCall.noteContents_eq {w : FilesWorld g} {call : FsCall} {ret : Int} {id : BlobId}
    (hwrite : ∀ io fd buf nbytes registered, call ≠ .write io fd buf nbytes registered) :
    call.noteContents w ret id =
      if some id = call.newBlob then fun _ => none else w.known id := by
  cases call with
  | create ans name =>
      by_cases hid : id = ans.id
      · rw [hid, FsCall.noteContents, Function.update_self]
        exact (if_pos rfl).symm
      · rw [FsCall.noteContents, Function.update_of_ne hid, if_neg]
        exact fun h => hid (Option.some.inj h)
  | write io fd buf nbytes registered => exact absurd rfl (hwrite io fd buf nbytes registered)
  | _ => exact (if_neg nofun).symm

/-- Only transfers get at the bytes of a blob. -/
theorem FsCall.run_keepsBytes {findDir : FindDir} {s s' : Fs g} {call : FsCall} {ret : Int}
    (hread : ∀ io fd buf nbytes registered, call ≠ .read io fd buf nbytes registered)
    (hwrite : ∀ io fd buf nbytes registered, call ≠ .write io fd buf nbytes registered)
    (hrun : call.run findDir s = some (s', ret)) : s.bs.KeepsBytes s'.bs call.newBlob := by
  cases call with
  | create ans name =>
      rcases monopolyCreate_cases hrun with
        ⟨-, rfl, -⟩ | ⟨bs, blob, ok, b, dir, t, -, hc, hb, -, -, rfl⟩
      · exact Blobstore.keepsBytes_of_eq rfl
      · have hblobs : (bs.setBlob blob (b.setFilePersistent (ans.record blob))).blobs =
            Function.update bs.blobs blob (some (b.setFilePersistent (ans.record blob))) := rfl
        have hb' := (Blobstore.opened_eq_some.mp hb).1
        exact (blobCreate_keepsBytes hc).trans (Blobstore.keepsBytes_update hblobs hb' rfl rfl)
  | openName openErrno name =>
      rcases monopolyOpen_cases hrun with ⟨-, rfl, -⟩ | ⟨i, -, b, t, -, hb, -, hblobs, -⟩
      · exact Blobstore.keepsBytes_of_eq rfl
      · exact Blobstore.keepsBytes_update hblobs hb rfl rfl
  | close closeErrno fd =>
      obtain ⟨f, file, -, hfile, -, -, -, -, -, hblobs⟩ := monopolyClose_cases hrun
      rcases hblobs with ⟨-, hblobs⟩ | ⟨v, hv, hblobs⟩
      · exact Blobstore.keepsBytes_of_eq hblobs
      · obtain ⟨hvfile, hvblob, -, -⟩ := Fs.openFile_eq_some.mp hv
        obtain rfl : v.file = file := Option.some.inj (hvfile.symm.trans hfile)
        refine Blobstore.keepsBytes_update hblobs hvblob ?_ ?_
        · split
          · exact Blob.closing_clusters _
          · rfl
        · split
          · exact Blob.closing_data _
          · rfl
  | lseek fd offset whence =>
      obtain ⟨f, file, -, -, -, rfl⟩ := Fs.monopolyLseek_cases hrun
      exact Blobstore.keepsBytes_of_eq rfl
  | read io fd buf nbytes registered => exact absurd rfl (hread io fd buf nbytes registered)
  | write io fd buf nbytes registered => exact absurd rfl (hwrite io fd buf nbytes registered)
  | stat openErrno name =>
      obtain ⟨⟨s'', st, ret'⟩, hstat, heq⟩ := Option.map_eq_some_iff.mp hrun
      cases heq
      obtain ⟨-, -, -, -, ⟨hblobs, -⟩ | ⟨-, b, hb, hblobs⟩⟩ := monopolyStat_cases hstat
      · exact Blobstore.keepsBytes_of_eq hblobs
      · exact Blobstore.keepsBytes_update hblobs hb rfl rfl
  | unlink deleteErrno undef name =>
      rcases monopolyUnlink_cases hrun with ⟨-, rfl, -⟩ | ⟨i, -, -, hbs, -⟩
      · exact Blobstore.keepsBytes_of_eq rfl
      · rw [hbs]
        rcases blobUnlink_cases deleteErrno (s.workdir.direntId i) s.bs with
          ⟨hblobs, -⟩ | ⟨-, -, hblobs⟩
        · exact Blobstore.keepsBytes_of_eq hblobs
        · exact Blobstore.keepsBytes_delete hblobs

/-! ## What holds of all files at once -/

/-- The position is that of an io_unit. -/
def Opened.Aligned (g : Geometry) (o : Opened) : Prop := 0 ≤ o.pos ∧ (g.ioUnit : Int) ∣ o.pos

/-- The descriptors are the caller's, at io_units, and the blobs have what is known of them. -/
structure FilesWorld.Inv (w : FilesWorld g) : Prop where
  descriptors : w.toFdWorld.Inv
  aligned : ∀ fd o, w.opened fd = some o → o.Aligned g
  contents : ∀ id b, w.fs.bs.blobs id = some b → b.Has (w.known id)

theorem moveTo_eq {opened : Nat → Option Opened} {fd : Int} {o : Opened} (pos : Int → Int)
    (ho : opened fd.toNat = some o) :
    moveTo opened fd pos = Function.update opened fd.toNat (some ⟨o.object, pos o.pos⟩) := by
  rw [moveTo, ho]
  rfl

section Inv

variable {findDir : FindDir} {w w' : FilesWorld g} {s : Fs g} {call : FsCall} {ret fd : Int}
  {f : FileId} {v : OpenFile g} {o : Opened}

namespace FilesWorld.Inv

/-- The object of an open descriptor, at the position its caller knows. -/
theorem object (hw : w.Inv) (h0 : 0 ≤ fd) (hf : w.fs.fdtable.file fd = some f)
    (ho : w.opened fd.toNat = some o) :
    ∃ file, w.fs.files f = some file ∧ file.fPos = (o.pos.toNat : Nat) ∧
      g.ioUnit ∣ o.pos.toNat ∧ o.pos.toNat < 2 ^ 63 := by
  obtain ⟨o', ho', rfl⟩ := hw.descriptors.file_eq h0 (Option.isSome_iff_exists.mpr ⟨o, ho⟩) hf
  cases ho.symm.trans ho'
  obtain ⟨file, hfile, hpos⟩ := hw.descriptors.object _ o ho
  obtain ⟨hnonneg, hdvd⟩ := hw.aligned _ o ho
  have hlt := (hw.descriptors.fits _ o ho).2
  have hnat : ((o.pos.toNat : Nat) : Int) = o.pos := Int.toNat_of_nonneg hnonneg
  refine ⟨file, hfile, hpos.trans hnat.symm, ?_, by omega⟩
  rw [← Int.natCast_dvd_natCast, hnat]
  exact hdvd

/-- If its blob is open, the file is there with the bytes that are known. -/
theorem resolves (hw : w.Inv) (h0 : 0 ≤ fd) (hres : w.fs.Resolves fd f v)
    (ho : w.opened fd.toNat = some o) :
    v.At o.pos.toNat ∧ v.blob.Has (w.known v.file.blob) := by
  obtain ⟨hvfile, hvblob, -, -⟩ := Fs.openFile_eq_some.mp hres.openFile
  obtain ⟨file, hfile, hpos, hdvd, hlt⟩ := hw.object h0 hres.file ho
  cases hvfile.symm.trans hfile
  exact ⟨⟨hpos, hdvd, hlt⟩, hw.contents _ _ hvblob⟩

/-- A position that has moved by `k` bytes. -/
theorem moved (hw : w.Inv) (ho : w.opened fd.toNat = some o) {k : Nat} (hk : g.ioUnit ∣ k)
    (hlt : o.pos.toNat + k < 2 ^ 63) :
    ∀ fd' o', moveTo w.opened fd (fun pos => s64 (pos + k)) fd' = some o' → o'.Aligned g := by
  intro fd' o' ho'
  rw [moveTo_eq _ ho] at ho'
  obtain ⟨hnonneg, hdvd⟩ := hw.aligned _ o ho
  rcases update_some_cases ho' with ⟨-, rfl⟩ | ⟨-, hold⟩
  · have hfits : s64 (o.pos + k) = o.pos + k := s64_of_fits (by omega) (by omega)
    show 0 ≤ s64 (o.pos + k) ∧ (g.ioUnit : Int) ∣ s64 (o.pos + k)
    rw [hfits]
    exact ⟨by omega, Int.dvd_add hdvd (Int.natCast_dvd_natCast.mpr hk)⟩
  · exact hw.aligned fd' o' hold

/-- A new descriptor starts at 0. -/
theorem opened_aligned (hw : w.Inv) (next : FileId) :
    ∀ fd' o', (if 0 ≤ ret then Function.update w.opened ret.toNat (some ⟨next, 0⟩)
      else w.opened) fd' = some o' → o'.Aligned g := by
  intro fd' o' ho'
  split at ho'
  · rcases update_some_cases ho' with ⟨-, rfl⟩ | ⟨-, hold⟩
    · exact ⟨le_refl _, Int.dvd_zero _⟩
    · exact hw.aligned fd' o' hold
  · exact hw.aligned fd' o' ho'

/-- Every call leaves the descriptors at io_units. -/
theorem noteOpened_aligned (hw : w.Inv) (hB : g.ioUnit ∣ bufSize) (hcall : call.Proper w)
    (hrun : call.run findDir w.fs = some (s, ret)) :
    ∀ fd o, call.noteOpened w.fs.nextFile w.opened ret fd = some o → o.Aligned g := by
  cases call with
  | create ans name => exact hw.opened_aligned w.fs.nextFile
  | openName openErrno name => exact hw.opened_aligned w.fs.nextFile
  | close closeErrno fd =>
      intro fd' o ho
      exact hw.aligned fd' o (update_none_eq_some ho).2
  | lseek fd offset whence =>
      obtain ⟨h0, hopen, hoff, hnonneg⟩ := hcall
      obtain ⟨o, ho⟩ := Option.isSome_iff_exists.mp hopen
      obtain ⟨f, file, hf, hfile, rfl, -⟩ := Fs.monopolyLseek_cases hrun
      obtain ⟨file', hfile', hpos, hdvd, hlt⟩ := hw.object h0 hf ho
      cases hfile.symm.trans hfile'
      have hAt : OpenFile.At (g := g) ⟨file, Blob.fresh fun _ => 0, []⟩ o.pos.toNat :=
        ⟨hpos, hdvd, hlt⟩
      have hret := hnonneg _ _ hrun
      have hseek := hAt.lseek hoff.1 hoff.2 hret
      intro fd' o' ho'
      rw [FsCall.noteOpened, moveTo_eq _ ho] at ho'
      rcases update_some_cases ho' with ⟨-, rfl⟩ | ⟨-, hold⟩
      · refine ⟨hret, ?_⟩
        have hd := Int.natCast_dvd_natCast.mpr hseek.dvd
        rwa [Int.toNat_of_nonneg hret] at hd
      · exact hw.aligned fd' o' hold
  | read io fd buf nbytes registered =>
      obtain ⟨h0, hopen, h64⟩ := hcall
      obtain ⟨o, ho⟩ := Option.isSome_iff_exists.mp hopen
      obtain ⟨⟨s', buf', ret'⟩, hread, heq⟩ := Option.map_eq_some_iff.mp hrun
      cases heq
      obtain ⟨f, v, -, hres, -⟩ := Fs.monopolyRead_cases hread
      obtain ⟨hAt, -⟩ := hw.resolves h0 hres ho
      obtain ⟨k, r, -, -, rfl, -, hupto, -⟩ := Fs.monopolyRead_spec hB hres hAt h64 hread
      exact hw.moved ho hupto.dvd hupto.fPos.lt
  | write io fd buf nbytes registered =>
      obtain ⟨h0, hopen, h64⟩ := hcall
      obtain ⟨o, ho⟩ := Option.isSome_iff_exists.mp hopen
      obtain ⟨⟨s', buf', ret'⟩, hwrite, heq⟩ := Option.map_eq_some_iff.mp hrun
      cases heq
      obtain ⟨f, v, -, hres, -⟩ := Fs.monopolyWrite_cases hwrite
      obtain ⟨hAt, -⟩ := hw.resolves h0 hres ho
      obtain ⟨k, r, -, -, rfl, -, hupto⟩ := Fs.monopolyWrite_spec hB hres hAt h64 hwrite
      exact hw.moved ho hupto.dvd hupto.fPos.lt
  | stat openErrno name => exact hw.aligned
  | unlink deleteErrno undef name => exact hw.aligned

/-- A call that stores nothing leaves what is known. -/
theorem kept (hw : w.Inv)
    (hwrite : ∀ io fd buf nbytes registered, call ≠ .write io fd buf nbytes registered)
    (hkeeps : w.fs.bs.KeepsBytes s.bs call.newBlob) :
    ∀ id b, s.bs.blobs id = some b → b.Has (call.noteContents w ret id) := by
  intro id b hb
  rw [FsCall.noteContents_eq hwrite]
  split
  · exact fun _ _ h => nomatch h
  · next hold =>
      obtain ⟨b₀, hb₀, hclusters, hdata⟩ := (hkeeps id b hb).resolve_left hold
      exact (hw.contents id b₀ hb₀).congr hclusters hdata

/-- Every call leaves the blobs with what is known of them. -/
theorem noteContents_has (hw : w.Inv) (hB : g.ioUnit ∣ bufSize) (hcall : call.Proper w)
    (hrun : call.run findDir w.fs = some (s, ret)) :
    ∀ id b, s.bs.blobs id = some b → b.Has (call.noteContents w ret id) := by
  cases call with
  | read io fd buf nbytes registered =>
      obtain ⟨h0, hopen, h64⟩ := hcall
      obtain ⟨o, ho⟩ := Option.isSome_iff_exists.mp hopen
      obtain ⟨⟨s', buf', ret'⟩, hread, heq⟩ := Option.map_eq_some_iff.mp hrun
      cases heq
      obtain ⟨f, v, r, hres, hr, rfl, -⟩ := Fs.monopolyRead_cases hread
      obtain ⟨hAt, -⟩ := hw.resolves h0 hres ho
      obtain ⟨k, -, hupto, -⟩ := monopolyReadFile_spec hB hAt h64 hr
      have hblob := (Fs.openFile_eq_some.mp hres.openFile).2.1
      rw [← hupto.frame.fileBlob] at hblob
      refine hw.kept (by simp) (Blobstore.keepsBytes_update ?_ hblob hupto.frame.clusters
        hupto.frame.data)
      rfl
  | write io fd buf nbytes registered =>
      obtain ⟨h0, hopen, h64⟩ := hcall
      obtain ⟨o, ho⟩ := Option.isSome_iff_exists.mp hopen
      obtain ⟨⟨s', buf', ret'⟩, hwrite, heq⟩ := Option.map_eq_some_iff.mp hrun
      cases heq
      obtain ⟨f, v, r, hres, hr, rfl, -, rfl⟩ := Fs.monopolyWrite_cases hwrite
      obtain ⟨hAt, hhas⟩ := hw.resolves h0 hres ho
      obtain ⟨k, hk, -, hwrote⟩ := monopolyWriteFile_spec hB hAt h64 hr
      intro id b hb
      simp only [FsCall.noteContents, hres.blobOf, ho]
      rcases update_some_cases (show Function.update w.fs.bs.blobs r.view.file.blob
        (some r.view.blob) id = some b from hb) with ⟨rfl, rfl⟩ | ⟨hne, hold⟩
      · rw [hwrote.fileBlob, Function.update_self, hk, Int.toNat_natCast]
        exact hwrote.known hhas
      · rw [hwrote.fileBlob] at hne
        rw [Function.update_of_ne hne]
        exact hw.contents id b hold
  | _ => exact hw.kept (by simp) (FsCall.run_keepsBytes (by simp) (by simp) hrun)

end FilesWorld.Inv

theorem filesStep_inv (hB : g.ioUnit ∣ bufSize) (hw : w.Inv) (hcall : call.Proper w)
    (h : filesStep findDir w call = some w') : w'.Inv := by
  have hdescriptors := fdStep_inv hw.descriptors hcall.usesOpen (filesStep_fdStep h)
  obtain ⟨⟨s, ret⟩, hrun, rfl⟩ := Option.map_eq_some_iff.mp h
  exact ⟨hdescriptors, hw.noteOpened_aligned hB hcall hrun, hw.noteContents_has hB hcall hrun⟩

/-- Whatever is read is what is known. -/
theorem FilesWorld.Inv.deliversKnown (hB : g.ioUnit ∣ bufSize) (hw : w.Inv)
    (hcall : call.Proper w) : call.DeliversKnown w := by
  cases call with
  | read io fd buf nbytes registered =>
      obtain ⟨h0, -, h64⟩ := hcall
      intro s' buf' ret id o hread hid ho q hq byte hbyte
      obtain ⟨f, v, -, hres, -⟩ := Fs.monopolyRead_cases hread
      obtain ⟨hAt, hhas⟩ := hw.resolves h0 hres ho
      obtain ⟨k, r, -, -, rfl, -, hupto, -⟩ := Fs.monopolyRead_spec hB hres hAt h64 hread
      obtain rfl : v.file.blob = id := Option.some.inj (hres.blobOf.symm.trans hid)
      rw [Int.toNat_natCast] at hq
      rw [hupto.done q (Nat.zero_le _) hq]
      exact (hhas _ byte hbyte).2
  | _ => trivial

end Inv

/-! ## Whole sessions -/

/-- A session starts with nothing known. -/
theorem FilesWorld.start_inv {ans : LoadAnswer} {superBlob : BlobId} {bs : Blobstore g} {s : Fs g}
    (h : loadRoot ans superBlob bs = some s) : (FilesWorld.start s).Inv where
  descriptors := loadRoot_inv h
  aligned := fun _ _ ho => nomatch ho
  contents := fun _ _ _ _ _ hq => nomatch hq

section Sessions

variable {findDir : FindDir} {ans : LoadAnswer} {superBlob : BlobId} {bs : Blobstore g} {s : Fs g}
  {calls : List FsCall}

/-- **No stale read.** In every run of a session, on any number of files and descriptors and
whatever SPDK answers, a read delivers at each offset the byte that the last write there has
stored, through whichever descriptor of the file that was. -/
theorem reads_never_stale (hB : g.ioUnit ∣ bufSize) (hload : loadRoot ans superBlob bs = some s)
    (hproper : EachStep (filesStep findDir) (fun w call => call.Proper w) (.start s) calls) :
    EachStep (filesStep findDir) (fun w call => call.DeliversKnown w) (.start s) calls :=
  eachStep_of_step (fun _ _ _ hw hcall h => filesStep_inv hB hw hcall h)
    (fun _ _ hw hcall => hw.deliversKnown hB hcall) (FilesWorld.start_inv hload) hproper

/-- The file as the caller of one descriptor knows it. -/
def FilesWorld.through (w : FilesWorld g) (o : Opened) (v : OpenFile g) : IoWorld g :=
  ⟨w.fs, o.pos.toNat, w.known v.file.blob, v.persist.fSize⟩

/-- **The round trip between descriptors.** After every such run, what is known of a file is
read back through any descriptor of it exactly if that descriptor's record has a size that
reaches as far. -/
theorem anyDescriptor_readsBack_iff (hB : g.ioUnit ∣ bufSize)
    (hload : loadRoot ans superBlob bs = some s)
    (hproper : EachStep (filesStep findDir) (fun w call => call.Proper w) (.start s) calls)
    {w : FilesWorld g} (hrun : exec (filesStep findDir) (.start s) calls = some w) {fd : Int}
    {f : FileId} {v : OpenFile g} {o : Opened} (hfd : 0 ≤ fd) (ho : w.opened fd.toNat = some o)
    (hres : w.fs.Resolves fd f v) {p n : Nat} (hp : g.ioUnit ∣ p) (hn : g.ioUnit ∣ n) (h0 : 0 < n)
    (hcov : ∀ q, p ≤ q → q < p + n → (w.known v.file.blob q).isSome) {io : Nat → IoAnswer}
    (hio : ∀ i, (io i).bserrno = 0) (buf : Mem) (registered : Bool) :
    ReadsBack io fd p n buf registered (w.through o v) ↔
      p + n ≤ v.persist.fSize ∧ 512 ∣ n ∧ CounterFits registered n := by
  have hw : w.Inv := exec_inv (fun _ _ _ hw hcall h => filesStep_inv hB hw hcall h)
    (FilesWorld.start_inv hload) hproper hrun
  obtain ⟨hAt, hhas⟩ := hw.resolves hfd hres ho
  have hinv : (w.through o v).Inv fd := ⟨f, v, hres, hAt, rfl, hhas⟩
  exact hinv.readsBack_iff_top hB hp hn h0 hcov hio buf registered

end Sessions

/-- A file is written to through the descriptor it was created through, and then through a
second one. -/
def twoWriters : List FsCall :=
  [.create (.done 1) nameA, .write (fun _ => .done) 0 (fun _ => 65) (2 * bufSize) false,
    .openName 0 nameA, .write (fun _ => .done) 1 (fun _ => 66) 4096 false]

theorem twoWriters_proper : EachStep (filesStep fun _ _ => -1) (fun w call => call.Proper w)
    (.start (.empty .malloc4k)) twoWriters := by
  refine EachStep.cons rfl trivial ?_
  refine EachStep.cons rfl ⟨by decide, rfl, by decide⟩ ?_
  refine EachStep.cons rfl trivial ?_
  exact EachStep.cons rfl ⟨by decide, rfl, by decide⟩ trivial

/-- Then the first descriptor is put back to the start, and read from. -/
def rereads : List FsCall :=
  [.lseek 0 0 SEEK_SET, .read (fun _ => .done) 0 (fun _ => 0) 8192 false]

theorem rereads_proper : EachStep (filesStep fun _ _ => -1) (fun w call => call.Proper w)
    (.start (.empty .malloc4k)) (twoWriters ++ rereads) := by
  refine EachStep.append twoWriters_proper (t := (exec (filesStep fun _ _ => -1)
    (.start (.empty .malloc4k)) twoWriters).get rfl) (Option.some_get _).symm ?_
  refine EachStep.cons rfl ⟨by decide, rfl, ⟨by decide, by decide⟩, fun s pos h => ?_⟩ ?_
  · cases h
    decide
  · exact EachStep.cons rfl ⟨by decide, rfl, by decide⟩ trivial

/-- The first page that is read is the one the second descriptor has stored. -/
theorem twoWriters_never_stale :
    EachStep (filesStep fun _ _ => -1) (fun w call => call.DeliversKnown w)
        (.start (.empty .malloc4k)) (twoWriters ++ rereads) ∧
      ∃ w, exec (filesStep fun _ _ => -1) (.start (.empty .malloc4k))
          (twoWriters ++ [.lseek 0 0 SEEK_SET]) = some w ∧
        ∃ s' buf', monopolyRead (fun _ => .done) 0 (fun _ => 0) 8192 false w.fs =
            some (s', buf', 8192) ∧ ∀ q < 4096, buf' q = 66 := by
  have hserved := reads_never_stale (by decide) (loadRoot_formatted .done 0) rereads_proper
  refine ⟨hserved, _, rfl, _, _, rfl, fun q hq => ?_⟩
  have hlast : EachStep (filesStep fun _ _ => -1) (fun w call => call.DeliversKnown w)
      (.start (.empty .malloc4k)) ((twoWriters ++ [.lseek 0 0 SEEK_SET]) ++
        [.read (fun _ => .done) 0 (fun _ => 0) 8192 false]) := hserved
  refine (hlast.drop rfl).1 _ _ _ 1 _ rfl rfl rfl q (by show q < 8192; omega) 66 ?_
  show noteStored 0 4096 4096 bufSize (fun _ => 66) false _ (0 + q) = some 66
  unfold noteStored
  rw [if_pos (by omega)]

/-- What is left then. -/
def twoWritersWorld : FilesWorld .malloc4k :=
  (exec (filesStep fun _ _ => -1) (.start (.empty .malloc4k)) twoWriters).get rfl

theorem twoWritersWorld_open : ∃ o v, twoWritersWorld.opened (0 : Int).toNat = some o ∧
    twoWritersWorld.fs.Resolves 0 0 v ∧ v.file.blob = 1 ∧ v.persist.fSize = bufSize :=
  ⟨_, _, rfl, ⟨rfl, rfl⟩, rfl, rfl⟩

/-- The first descriptor reads back what the second has stored. -/
theorem twoWriters_readsBack :
    ∃ o v, twoWritersWorld.fs.Resolves 0 0 v ∧ twoWritersWorld.known 1 0 = some 66 ∧
      ReadsBack (fun _ => .done) 0 0 4096 (fun _ => 0) false (twoWritersWorld.through o v) := by
  obtain ⟨o, v, ho, hres, hblob, hsize⟩ := twoWritersWorld_open
  have hknown : ∀ q < 4096, twoWritersWorld.known 1 q = some 66 := by
    intro q hq
    show noteStored 0 4096 4096 bufSize (fun _ => 66) false _ q = some 66
    unfold noteStored
    rw [if_pos (by omega)]
  have hcov : ∀ q, 0 ≤ q → q < 0 + 4096 → (twoWritersWorld.known v.file.blob q).isSome := by
    intro q _ hq
    rw [hblob, hknown q (by omega)]
    rfl
  have hrun : exec (filesStep fun _ _ => -1) (.start (.empty .malloc4k)) twoWriters =
      some twoWritersWorld := (Option.some_get _).symm
  have hio : ∀ i, ((fun _ => .done : Nat → IoAnswer) i).bserrno = 0 := fun _ => rfl
  have hiff := anyDescriptor_readsBack_iff (by decide) (loadRoot_formatted .done 0)
    twoWriters_proper hrun (by decide) ho hres (by decide) (by decide) (by decide) hcov hio
    (fun _ => 0) false
  refine ⟨o, v, hres, hknown 0 (by decide), hiff.mpr ⟨?_, by decide, Or.inr (by decide)⟩⟩
  rw [hsize]
  decide

end BlobTopFs
