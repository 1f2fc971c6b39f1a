import BlobTopFs.SimpleFs.Descriptor
import BlobTopFs.SimpleFs.DirSpec
import BlobTopFs.SimpleFs.FdTable
import BlobTopFs.SimpleFs.TransferFrame

/-!
# The calls of an application

An application uses the file system through a sequence of calls. `FsCall.run` is one of
them, with everything it is answered; the lemmas say once, for each kind of call, what a
call that comes back has done to each part of the state.
-/

namespace BlobTopFs

open Machine

variable {g : Geometry}

/-- One call and the answers it gets. -/
inductive FsCall where
  | create (ans : CreateAnswer) (name : CStr)
  | openName (openErrno : Int) (name : CStr)
  | close (closeErrno : Int) (fd : Int)
  | lseek (fd offset whence : Int)
  | read (io : Nat → IoAnswer) (fd : Int) (buf : Mem) (nbytes : Nat) (registered : Bool)
  | write (io : Nat → WriteAnswer) (fd : Int) (buf : Mem) (nbytes : Nat) (registered : Bool)
  | stat (openErrno : Int) (name : CStr)
  | unlink (deleteErrno undef : Int) (name : CStr)

/-- The state after the call and the value it returns. -/
def FsCall.run (findDir : FindDir) (s : Fs g) : FsCall → Option (Fs g × Int)
  | .create ans name => monopolyCreate ans name s
  | .openName openErrno name => monopolyOpen openErrno name s
  | .close closeErrno fd => monopolyClose closeErrno fd s
  | .lseek fd offset whence => monopolyLseek fd offset whence s
  | .read io fd buf nbytes registered =>
      (monopolyRead io fd buf nbytes registered s).map fun r => (r.1, r.2.2)
  | .write io fd buf nbytes registered =>
      (monopolyWrite io fd buf nbytes registered s).map fun r => (r.1, r.2.2)
  | .stat openErrno name => (monopolyStat findDir openErrno name s).map fun r => (r.1, r.2.2)
  | .unlink deleteErrno undef name => monopolyUnlink findDir deleteErrno undef name s

/-- The step of a run: the state after a call. -/
def fsStep (findDir : FindDir) (s : Fs g) (call : FsCall) : Option (Fs g) :=
  (call.run findDir s).map Prod.fst

theorem fsStep_eq_some {findDir : FindDir} {s s' : Fs g} {call : FsCall} :
    fsStep findDir s call = some s' ↔ ∃ ret, call.run findDir s = some (s', ret) := by
  rw [fsStep, Option.map_eq_some_iff]
  constructor
  · rintro ⟨⟨s', ret⟩, h, rfl⟩
    exact ⟨ret, h⟩
  · rintro ⟨ret, h⟩
    exact ⟨(s', ret), h, rfl⟩

def FsCall.isCreate : FsCall → Bool
  | .create .. => true
  | _ => false

def FsCall.isUnlink : FsCall → Bool
  | .unlink .. => true
  | _ => false

/-- No blob has the id. -/
def Fs.Unused (s : Fs g) (id : BlobId) : Prop := s.bs.blobs id = none ∧ id ≠ s.workdir.blob

/-- The blob is that of a file: it exists, and is not the directory's own. -/
def Fs.FileBlob (s : Fs g) (id : BlobId) : Prop :=
  id ≠ s.workdir.blob ∧ (s.bs.blobs id).isSome = true

/-- If the call is a create, the blobstore does not fail it, and the new blob gets an id that
is not in use. -/
def FsCall.CreatesFresh (s : Fs g) : FsCall → Prop
  | .create ans _ => ans.createErrno = 0 ∧ ans.openErrno = 0 ∧ s.Unused ans.id
  | _ => True

/-- The blobstore does not fail the call. A delete that is refused because the blob is open is
no such failure. -/
def FsCall.NoError (s : Fs g) : FsCall → Prop
  | .create ans _ => ans.createErrno = 0 ∧ ans.openErrno = 0 ∧ s.Unused ans.id
  | .openName openErrno _ | .stat openErrno _ => openErrno = 0
  | .close closeErrno _ => closeErrno = 0
  | .unlink deleteErrno _ _ => deleteErrno = 0
  | .lseek .. | .read .. | .write .. => True

/-! ## New descriptors -/

/-- The table with the file object `f` at a slot it has just handed out. -/
def Fdtable.install (t : Fdtable) (fd : Int) (f : FileId) : Fdtable :=
  if fd = -1 then t
  else { t with openFiles := Function.update t.openFiles fd.toNat (some f) }

/-- The table with a slot it has just handed out counts as before the object is put there. -/
theorem Fdtable.Counted.install {t : Fdtable} (h : t.Counted) (fd : Int) (f : FileId) :
    (t.install fd f).Counted := by
  unfold Fdtable.install
  split
  · exact h
  · exact h

/-- A slot that has been handed out holds what is put there. -/
theorem Fdtable.install_file {t t' : Fdtable} {fd : Int} (h : getFdFromTable t = some (t', fd))
    (hne : fd ≠ -1) (f : FileId) : (t'.install fd f).file fd = some f := by
  obtain ⟨i, rfl, hi, -, -, rfl⟩ := (getFdFromTable_cases h).resolve_left fun h => hne h.1
  rw [install, if_neg hne, file, if_pos (by omega), Int.toNat_natCast]
  exact Function.update_self ..

theorem Fs.installFile_eq_some {s s' : Fs g} {file : SpdkfsFile} {ret : Int} :
    s.installFile file = some (s', ret) ↔
      ∃ t, getFdFromTable s.fdtable = some (t, ret) ∧
        s' = { s.addFile file with fdtable := t.install ret s.nextFile } := by
  unfold Fs.installFile
  rw [Option.map_eq_some_iff]
  constructor
  · rintro ⟨⟨t, fd⟩, ht, heq⟩
    dsimp only at heq
    split at heq
    · next hfd =>
        cases heq
        refine ⟨t, hfd ▸ ht, ?_⟩
        rw [Fdtable.install, if_pos rfl]
    · next hfd =>
        cases heq
        refine ⟨t, ht, ?_⟩
        rw [Fdtable.install, if_neg hfd]
  · rintro ⟨t, ht, rfl⟩
    refine ⟨(t, ret), ht, ?_⟩
    dsimp only [Fdtable.install]
    split
    · next hfd => rw [hfd]
    · rfl

/-! ## `monopoly_create` -/

/-- The record of a new file. -/
def CreateAnswer.record (ans : CreateAnswer) (h : BlobId) : SpdkfsFilePersistCtx :=
  { ans.raw with fSize := 0, blobId := h, iWritecount := 0, iCtime := ans.now }

/-- A create that finds the name does nothing; one that does not makes a file object on the
blob `blob_create` left, appends an entry for it and asks for a descriptor. -/
theorem monopolyCreate_cases {ans : CreateAnswer} {name : CStr} {s s' : Fs g} {ret : Int}
    (h : monopolyCreate ans name s = some (s', ret)) :
    (spdkfsDirLookup s.workdir name ≠ -1 ∧ s' = s ∧ ret = -1) ∨
      ∃ bs blob ok b dir t, spdkfsDirLookup s.workdir name = -1 ∧
        blobCreate ans.createErrno ans.openErrno ans.id ans.content ans.garbage s.bs =
          some (bs, blob, ok) ∧
        bs.opened blob = some b ∧
        addDirent g ans.mem blob name s.workdir = some dir ∧
        getFdFromTable s.fdtable = some (t, ret) ∧
        s' = { bs := bs.setBlob blob (b.setFilePersistent (ans.record blob))
               files := Function.update s.files s.nextFile
                 (some ⟨blob, .own (ans.record blob), 0⟩)
               nextFile := s.nextFile + 1
               fdtable := t.install ret s.nextFile
               workdir := dir
               buffer := s.buffer } := by
  unfold monopolyCreate at h
  split at h
  · cases h
  · split at h
    · next hfound =>
        cases h
        exact Or.inl ⟨hfound, rfl, rfl⟩
    · next hfound =>
        obtain ⟨⟨bs, blob, ok⟩, hc, h⟩ := Option.bind_eq_some_iff.mp h
        obtain ⟨n, hn, h⟩ := Option.bind_eq_some_iff.mp h
        obtain ⟨b, hb, rfl⟩ := Option.map_eq_some_iff.mp hn
        obtain ⟨dir, hdir, h⟩ := Option.bind_eq_some_iff.mp h
        obtain ⟨t, ht, rfl⟩ := Fs.installFile_eq_some.mp h
        exact Or.inr ⟨bs, blob, ok, b, dir, t, not_not.mp hfound, hc, hb, hdir, ht, rfl⟩

/-- A new blob, open, with the record of its file as its attribute. -/
def CreateAnswer.newBlob (ans : CreateAnswer) : Blob g :=
  (Blob.opening (Blob.fresh ans.content)).setFilePersistent (ans.record ans.id)

/-- A create that SPDK does not fail. -/
theorem monopolyCreate_done {ans : CreateAnswer} {name : CStr} {s s' : Fs g} {ret : Int}
    (he : ans.createErrno = 0) (he' : ans.openErrno = 0)
    (h : monopolyCreate ans name s = some (s', ret)) :
    (spdkfsDirLookup s.workdir name ≠ -1 ∧ s' = s ∧ ret = -1) ∨
      ∃ t, spdkfsDirLookup s.workdir name = -1 ∧
        addDirent g ans.mem ans.id name s.workdir = some s'.workdir ∧
        s'.bs.blobs = Function.update s.bs.blobs ans.id (some ans.newBlob) ∧
        getFdFromTable s.fdtable = some (t, ret) ∧ s'.fdtable = t.install ret s.nextFile ∧
        s'.nextFile = s.nextFile + 1 ∧
        s'.files = Function.update s.files s.nextFile
          (some ⟨ans.id, .own (ans.record ans.id), 0⟩) := by
  rcases monopolyCreate_cases h with hfound | ⟨bs, blob, ok, b, dir, t, hl, hc, hb, hd, ht, rfl⟩
  · exact Or.inl hfound
  · obtain ⟨rfl, hopen, hblobs⟩ := blobCreate_done he he' hc
    cases hopen.symm.trans hb
    refine Or.inr ⟨t, hl, hd, ?_, ht, rfl, rfl, rfl⟩
    show Function.update bs.blobs _ _ = _
    rw [hblobs, Function.update_idem]
    rfl

/-! ## `monopoly_open` -/

/-- An open that finds the name takes a reference on the blob of the entry. -/
theorem monopolyOpen_cases {openErrno : Int} {name : CStr} {s s' : Fs g} {ret : Int}
    (h : monopolyOpen openErrno name s = some (s', ret)) :
    (spdkfsDirLookup s.workdir name = -1 ∧ s' = s ∧ ret = -1) ∨
      ∃ i < s.workdir.count, ∃ b t, spdkfsDirLookup s.workdir name = i ∧
        s.bs.blobs (s.workdir.direntId i) = some b ∧
        (b.opening.xattrs.filePersistent).isSome ∧
        s'.bs.blobs = Function.update s.bs.blobs (s.workdir.direntId i) (some b.opening) ∧
        getFdFromTable s.fdtable = some (t, ret) ∧ s'.fdtable = t.install ret s.nextFile ∧
        s'.nextFile = s.nextFile + 1 ∧ s'.workdir = s.workdir ∧
        s'.files = Function.update s.files s.nextFile
          (some ⟨s.workdir.direntId i, .xattr, 0⟩) := by
  unfold monopolyOpen at h
  dsimp only at h
  split at h
  · next hl =>
      cases h
      exact Or.inl ⟨hl, rfl, rfl⟩
  · next hl =>
      obtain ⟨i, hi, hidx, -⟩ := (lookup_cases s.workdir name).resolve_left hl
      rw [hidx, Int.toNat_natCast] at h
      obtain ⟨blob, hblob, h⟩ := Option.bind_eq_some_iff.mp h
      obtain ⟨file, hfile, h⟩ := Option.bind_eq_some_iff.mp h
      obtain ⟨t, ht, rfl⟩ := Fs.installFile_eq_some.mp h
      rcases blobOpen_cases openErrno (s.workdir.direntId i) s.bs with
        ⟨hnone, -⟩ | ⟨hsome, b, hb, hblobs⟩
      · rw [hnone] at hblob
        cases hblob
      · cases hsome.symm.trans hblob
        obtain ⟨b', hb', hfile⟩ := Option.bind_eq_some_iff.mp hfile
        obtain ⟨p, hp, rfl⟩ := Option.map_eq_some_iff.mp hfile
        -- the attribute that is read is that of the blob just opened
        have hsame : b' = b.opening := by
          have hb'' := (Blobstore.opened_eq_some.mp hb').1
          rw [hblobs, Function.update_self] at hb''
          exact (Option.some.inj hb'').symm
        exact Or.inr ⟨i, hi, b, t, hidx, hb, Option.isSome_iff_exists.mpr ⟨p, hsame ▸ hp⟩, hblobs,
          ht, rfl, rfl, rfl, rfl⟩

/-! ## `monopoly_close` -/

/-- A close stores the record, drops a reference and gives the descriptor back. The file
object stays. -/
theorem monopolyClose_cases {closeErrno fd : Int} {s s' : Fs g} {ret : Int}
    (h : monopolyClose closeErrno fd s = some (s', ret)) :
    ∃ f file, s.fdtable.file fd = some f ∧ s.files f = some file ∧ ret = 0 ∧
      s'.files = s.files ∧ s'.nextFile = s.nextFile ∧ s'.workdir = s.workdir ∧
      s'.fdtable = returnFdToTable fd.toNat s.fdtable ∧
      ((s.openFile f = none ∧ s'.bs.blobs = s.bs.blobs) ∨
        ∃ v, s.openFile f = some v ∧ s'.bs.blobs = Function.update s.bs.blobs file.blob
          (some (if closeErrno = 0 then v.storePersist.blob.closing
            else v.storePersist.blob))) := by
  obtain ⟨f, hf, h⟩ := Option.bind_eq_some_iff.mp h
  obtain ⟨file, hfile, heq⟩ := Option.map_eq_some_iff.mp h
  cases heq
  refine ⟨f, file, hf, hfile, rfl, ?_⟩
  unfold simpleFsClose
  cases hv : s.openFile f with
  | none =>
      have hopen : s.bs.opened file.blob = none := by
        rwa [Fs.openFile, hfile, Option.bind_some, Option.map_eq_none_iff] at hv
      refine ⟨rfl, rfl, rfl, rfl, Or.inl ⟨rfl, ?_⟩⟩
      rcases blobClose_cases closeErrno file.blob s.bs with ⟨hsame, -⟩ | ⟨-, b, hb, -⟩
      · exact hsame
      · cases hopen.symm.trans hb
  | some v =>
      obtain ⟨hvfile, -, href, -⟩ := Fs.openFile_eq_some.mp hv
      have hfv : v.file = file := Option.some.inj (hvfile.symm.trans hfile)
      -- the record is stored first, and the blob that is closed is the one that has it
      have hputs : (s.putFile f v.storePersist).bs.blobs =
          Function.update s.bs.blobs file.blob (some v.storePersist.blob) := hfv ▸ rfl
      have hopen : (s.putFile f v.storePersist).bs.opened file.blob = some v.storePersist.blob := by
        rw [Blobstore.opened_eq_some, hputs]
        exact ⟨Function.update_self .., href⟩
      refine ⟨?_, rfl, rfl, rfl, Or.inr ⟨v, rfl, ?_⟩⟩
      · show Function.update s.files f (some v.file) = s.files
        rw [← hvfile, Function.update_eq_self]
      · rcases blobClose_cases closeErrno file.blob (s.putFile f v.storePersist).bs with
          ⟨hsame, hnone | he⟩ | ⟨he, b, hb, hblobs⟩
        · cases hnone.symm.trans hopen
        · rw [if_neg he]
          exact hsame.trans hputs
        · cases hopen.symm.trans hb
          rw [if_pos he]
          refine hblobs.trans ?_
          rw [hputs, Function.update_idem]

/-! ## `monopoly_unlink` and `monopoly_stat` -/

/-- An unlink that finds the name asks for the delete of the blob, and removes the entry
whatever came of that. -/
theorem monopolyUnlink_cases {findDir : FindDir} {deleteErrno undef : Int} {name : CStr}
    {s s' : Fs g} {ret : Int}
    (h : monopolyUnlink findDir deleteErrno undef name s = some (s', ret)) :
    (findDir name s.workdir = -1 ∧ s' = s ∧ ret = -1) ∨
      ∃ i : Nat, findDir name s.workdir = i ∧ removeDirent i s.workdir = some s'.workdir ∧
        s'.bs = (blobUnlink deleteErrno (s.workdir.direntId i) s.bs).1 ∧ s'.files = s.files ∧
        s'.nextFile = s.nextFile ∧ s'.fdtable = s.fdtable := by
  unfold monopolyUnlink at h
  dsimp only at h
  split at h
  · next hneg =>
      cases h
      exact Or.inl ⟨hneg, rfl, rfl⟩
  · split at h
    · cases h
    · next hneg =>
        obtain ⟨i, hi⟩ := Int.eq_ofNat_of_zero_le (not_lt.mp hneg)
        obtain ⟨dir, hdir, heq⟩ := Option.map_eq_some_iff.mp h
        cases heq
        rw [hi, Int.toNat_natCast] at hdir
        refine Or.inr ⟨i, hi, hdir, ?_, rfl, rfl, rfl⟩
        rw [hi, Int.toNat_natCast]

/-- An unlink that finds the name comes back. -/
theorem monopolyUnlink_isSome {findDir : FindDir} {name : CStr} {s : Fs g} {i : Nat}
    (deleteErrno undef : Int) (hi : findDir name s.workdir = i) (hc : s.workdir.count ≠ 0) :
    (monopolyUnlink findDir deleteErrno undef name s).isSome = true := by
  have hne : (i : Int) ≠ -1 := by omega
  unfold monopolyUnlink
  simp only [hi, if_neg hne, if_neg (Int.not_lt.mpr (Int.natCast_nonneg i)), removeDirent,
    if_neg hc, Option.map_some, Option.isSome_some]

/-- The id that `monopoly_stat` makes of what `find_dir` returned. -/
abbrev statId (findDir : FindDir) (name : CStr) (s : Fs g) : BlobId :=
  UInt64.ofNat (u64 (findDir name s.workdir))

/-- A stat that gets as far as opening a blob leaves it open. -/
theorem monopolyStat_cases {findDir : FindDir} {openErrno : Int} {name : CStr} {s s' : Fs g}
    {st : Option Stat} {ret : Int}
    (h : monopolyStat findDir openErrno name s = some (s', st, ret)) :
    s'.files = s.files ∧ s'.nextFile = s.nextFile ∧ s'.fdtable = s.fdtable ∧
      s'.workdir = s.workdir ∧
      ((s'.bs.blobs = s.bs.blobs ∧
          (findDir name s.workdir = -1 ∨ s.bs.blobs (statId findDir name s) = none ∨
            openErrno ≠ 0)) ∨
        findDir name s.workdir ≠ -1 ∧ ∃ b, s.bs.blobs (statId findDir name s) = some b ∧
          s'.bs.blobs = Function.update s.bs.blobs (statId findDir name s) (some b.opening)) := by
  unfold monopolyStat at h
  dsimp only at h
  split at h
  · next hnot =>
      cases h
      exact ⟨rfl, rfl, rfl, rfl, Or.inl ⟨rfl, Or.inl hnot⟩⟩
  · next hfound =>
      rcases blobOpen_cases openErrno (statId findDir name s) s.bs with
        ⟨hnone, hsame, hwhy⟩ | ⟨hsome, b, hb, hblobs⟩
      · rw [hnone] at h
        cases h
        exact ⟨rfl, rfl, rfl, rfl, Or.inl ⟨hsame, Or.inr hwhy⟩⟩
      · rw [hsome] at h
        obtain ⟨b', -, h⟩ := Option.bind_eq_some_iff.mp h
        obtain ⟨p, -, heq⟩ := Option.map_eq_some_iff.mp h
        cases heq
        exact ⟨rfl, rfl, rfl, rfl, Or.inr ⟨hfound, b, hb, hblobs⟩⟩

/-! ## Seeks, reads and writes -/

/-- What a seek, a read or a write through `fd` touches: its file object, whose position `pos`
gives and whose blob stays, and the blob, whose references stay. -/
structure Fs.Through (s s' : Fs g) (fd : Int) (pos : Int → Int) : Prop where
  fdtable : s'.fdtable = s.fdtable
  nextFile : s'.nextFile = s.nextFile
  workdir : s'.workdir = s.workdir
  files : ∃ f file file', s.fdtable.file fd = some f ∧ s.files f = some file ∧
    s'.files = Function.update s.files f (some file') ∧ file'.blob = file.blob ∧
    (FitsOff file.fPos → file'.fPos = pos file.fPos ∧ FitsOff file'.fPos)
  blobs : s'.bs.blobs = s.bs.blobs ∨ ∃ id b b', s.bs.blobs id = some b ∧
    b'.openRef = b.openRef ∧ s'.bs.blobs = Function.update s.bs.blobs id (some b')

/-- The position a seek returns is the one it leaves, and fits its type. -/
theorem monopolyLseekFile_fits {file : SpdkfsFile} {offset : Int} (whence : Int)
    (hoff : FitsOff offset) (hfile : FitsOff file.fPos) :
    FitsOff (monopolyLseekFile g file offset whence).2 := by
  have hset : FitsOff (actualSeek g offset) := actualSeek_bounds hoff.1 hoff.2
  simp only [monopolyLseekFile]
  split
  · exact s64_fits _
  · split
    · exact hset
    · exact hfile

theorem monopolyLseek_through {fd offset whence : Int} {s s' : Fs g} {ret : Int}
    (hoff : FitsOff offset) (h : monopolyLseek fd offset whence s = some (s', ret)) :
    s.Through s' fd fun _ => ret := by
  obtain ⟨f, file, hf, hfile, rfl, rfl⟩ := Fs.monopolyLseek_cases h
  refine ⟨rfl, rfl, rfl, ⟨f, file, _, hf, hfile, rfl, ?_, fun hfits => ⟨rfl, ?_⟩⟩, Or.inl rfl⟩
  · exact (Fs.monopolyLseekFile_frame file offset whence).1
  · exact monopolyLseekFile_fits whence hoff hfits

/-- A transfer moves the position by what it returns. -/
theorem Fs.Resolves.through {s : Fs g} {fd : Int} {f : FileId} {v w : OpenFile g} {k ret : Int}
    (hres : s.Resolves fd f v) (hadv : Advanced v w k) (hret : ret = s64 k) (bounce : Mem) :
    s.Through { s.putFile f w with buffer := bounce } fd fun pos => s64 (pos + ret) := by
  obtain ⟨hfile, hblob, -, -⟩ := Fs.openFile_eq_some.mp hres.openFile
  refine ⟨rfl, rfl, rfl, ⟨f, v.file, w.file, hres.file, hfile, rfl, hadv.fileBlob, fun hfits => ?_⟩,
    Or.inr ⟨w.file.blob, v.blob, w.blob, hadv.fileBlob ▸ hblob, hadv.openRef, rfl⟩⟩
  exact ⟨hadv.fPos hret hfits, hadv.fits hfits⟩

theorem monopolyRead_through {io : Nat → IoAnswer} {fd : Int} {buf buf' : Mem} {nbytes : Nat}
    {registered : Bool} {s s' : Fs g} {ret : Int}
    (h : monopolyRead io fd buf nbytes registered s = some (s', buf', ret)) :
    s.Through s' fd fun pos => s64 (pos + ret) := by
  obtain ⟨f, v, r, hres, hr, rfl, -, rfl⟩ := Fs.monopolyRead_cases h
  obtain ⟨k, hret, hadv⟩ := monopolyReadFile_composes Advanced.composes
    (fun _ _ _ _ _ h => simpleFsRead_advanced h) hr
  exact hres.through hadv hret r.bounce

theorem monopolyWrite_through {io : Nat → WriteAnswer} {fd : Int} {buf buf' : Mem} {nbytes : Nat}
    {registered : Bool} {s s' : Fs g} {ret : Int}
    (h : monopolyWrite io fd buf nbytes registered s = some (s', buf', ret)) :
    s.Through s' fd fun pos => s64 (pos + ret) := by
  obtain ⟨f, v, r, hres, hr, rfl, -, rfl⟩ := Fs.monopolyWrite_cases h
  obtain ⟨k, hret, hadv⟩ := monopolyWriteFile_composes Advanced.composes
    (fun _ _ _ _ _ h => simpleFsWrite_advanced h) hr
  exact hres.through hadv hret r.bounce

/-! ## The table under a call -/

/-- A call leaves the table and sets at most one file object, or installs a new object in it, or
closes one of its descriptors. -/
theorem FsCall.run_fdtable {findDir : FindDir} {s s' : Fs g} {call : FsCall} {ret : Int}
    (h : call.run findDir s = some (s', ret)) :
    (s'.fdtable = s.fdtable ∧ (s'.files = s.files ∨
        ∃ f file file', s.files f = some file ∧
          s'.files = Function.update s.files f (some file'))) ∨
      (∃ t file, getFdFromTable s.fdtable = some (t, ret) ∧
        s'.fdtable = t.install ret s.nextFile ∧
        s'.files = Function.update s.files s.nextFile (some file)) ∨
      ∃ closeErrno fd f, call = .close closeErrno fd ∧ s.fdtable.file fd = some f ∧
        s'.fdtable = returnFdToTable fd.toNat s.fdtable ∧ s'.files = s.files := by
  cases call with
  | create ans name =>
      rcases monopolyCreate_cases h with ⟨-, rfl, -⟩ | ⟨_, _, _, _, _, t, -, -, -, -, ht, rfl⟩
      · exact Or.inl ⟨rfl, Or.inl rfl⟩
      · exact Or.inr (Or.inl ⟨t, _, ht, rfl, rfl⟩)
  | openName openErrno name =>
      rcases monopolyOpen_cases h with
        ⟨-, rfl, -⟩ | ⟨i, -, b, t, -, -, -, -, ht, htable, -, -, hfiles⟩
      · exact Or.inl ⟨rfl, Or.inl rfl⟩
      · exact Or.inr (Or.inl ⟨t, _, ht, htable, hfiles⟩)
  | close closeErrno fd =>
      obtain ⟨f, file, hf, -, -, hfiles, -, -, htable, -⟩ := monopolyClose_cases h
      exact Or.inr (Or.inr ⟨closeErrno, fd, f, rfl, hf, htable, hfiles⟩)
  | lseek fd offset whence =>
      obtain ⟨f, file, -, hfile, -, rfl⟩ := Fs.monopolyLseek_cases h
      exact Or.inl ⟨rfl, Or.inr ⟨f, file, _, hfile, rfl⟩⟩
  | read io fd buf nbytes registered =>
      obtain ⟨⟨s'', buf', ret'⟩, hread, heq⟩ := Option.map_eq_some_iff.mp h
      cases heq
      have hthrough := monopolyRead_through hread
      obtain ⟨f, file, file', -, hfile, hfiles, -⟩ := hthrough.files
      exact Or.inl ⟨hthrough.fdtable, Or.inr ⟨f, file, file', hfile, hfiles⟩⟩
  | write io fd buf nbytes registered =>
      obtain ⟨⟨s'', buf', ret'⟩, hwrite, heq⟩ := Option.map_eq_some_iff.mp h
      cases heq
      have hthrough := monopolyWrite_through hwrite
      obtain ⟨f, file, file', -, hfile, hfiles, -⟩ := hthrough.files
      exact Or.inl ⟨hthrough.fdtable, Or.inr ⟨f, file, file', hfile, hfiles⟩⟩
  | stat openErrno name =>
      obtain ⟨⟨s'', st, ret'⟩, hstat, heq⟩ := Option.map_eq_some_iff.mp h
      obtain ⟨hfiles, -, htable, -⟩ := monopolyStat_cases hstat
      cases heq
      exact Or.inl ⟨htable, Or.inl hfiles⟩
  | unlink deleteErrno undef name =>
      rcases monopolyUnlink_cases h with ⟨-, rfl, -⟩ | ⟨i, -, -, -, hfiles, -, htable⟩
      · exact Or.inl ⟨rfl, Or.inl rfl⟩
      · exact Or.inl ⟨htable, Or.inl hfiles⟩

/-- The count of used slots stays right if a descriptor that is closed is open. -/
theorem FsCall.run_counted {findDir : FindDir} {s s' : Fs g} {call : FsCall} {ret : Int}
    (hs : s.fdtable.Counted) (hclose : ∀ closeErrno fd f, call = .close closeErrno fd →
      s.fdtable.file fd = some f → s.fdtable.used fd.toNat = true)
    (h : call.run findDir s = some (s', ret)) : s'.fdtable.Counted := by
  rcases FsCall.run_fdtable h with
    ⟨htable, -⟩ | ⟨t, file, ht, htable, -⟩ | ⟨closeErrno, fd, f, hcall, hf, htable, -⟩
  · exact htable ▸ hs
  · rw [htable]
    exact (hs.getFd ht).install _ _
  · have hused := hclose closeErrno fd f hcall hf
    unfold Fdtable.file at hf
    split at hf
    · rw [htable]
      exact hs.returnFd (by omega) hused
    · cases hf

/-! ## The directory under a call -/

/-- Only two calls change the directory: a create that does not find its name appends an
entry, an unlink that does removes one. -/
theorem FsCall.run_workdir {findDir : FindDir} {s s' : Fs g} {call : FsCall} {ret : Int}
    (h : call.run findDir s = some (s', ret)) :
    s'.workdir = s.workdir ∨
      (∃ ans name blob, call = .create ans name ∧ spdkfsDirLookup s.workdir name = -1 ∧
        addDirent g ans.mem blob name s.workdir = some s'.workdir) ∨
      ∃ deleteErrno undef name, ∃ i : Nat, call = .unlink deleteErrno undef name ∧
        findDir name s.workdir = i ∧ removeDirent i s.workdir = some s'.workdir := by
  cases call with
  | create ans name =>
      rcases monopolyCreate_cases h with ⟨-, rfl, -⟩ |
        ⟨bs, blob, ok, b, dir, t, hl, -, -, hd, -, rfl⟩
      · exact Or.inl rfl
      · exact Or.inr (Or.inl ⟨ans, name, blob, rfl, hl, hd⟩)
  | openName openErrno name =>
      rcases monopolyOpen_cases h with ⟨-, rfl, -⟩ | ⟨i, -, b, t, -, -, -, -, -, -, -, hw, -⟩
      · exact Or.inl rfl
      · exact Or.inl hw
  | close closeErrno fd =>
      obtain ⟨f, file, -, -, -, -, -, hw, -⟩ := monopolyClose_cases h
      exact Or.inl hw
  | lseek fd offset whence =>
      obtain ⟨f, file, -, -, -, rfl⟩ := Fs.monopolyLseek_cases h
      exact Or.inl rfl
  | read io fd buf nbytes registered =>
      obtain ⟨⟨s'', buf', ret'⟩, hread, heq⟩ := Option.map_eq_some_iff.mp h
      cases heq
      exact Or.inl (monopolyRead_through hread).workdir
  | write io fd buf nbytes registered =>
      obtain ⟨⟨s'', buf', ret'⟩, hwrite, heq⟩ := Option.map_eq_some_iff.mp h
      cases heq
      exact Or.inl (monopolyWrite_through hwrite).workdir
  | stat openErrno name =>
      obtain ⟨⟨s'', st, ret'⟩, hstat, heq⟩ := Option.map_eq_some_iff.mp h
      obtain ⟨-, -, -, hw, -⟩ := monopolyStat_cases hstat
      cases heq
      exact Or.inl hw
  | unlink deleteErrno undef name =>
      rcases monopolyUnlink_cases h with ⟨-, rfl, -⟩ | ⟨i, hi, hd, -⟩
      · exact Or.inl rfl
      · exact Or.inr (Or.inr ⟨deleteErrno, undef, name, i, rfl, hi, hd⟩)

/-- It stays the directory of the same blob. -/
theorem FsCall.run_root {findDir : FindDir} {s s' : Fs g} {call : FsCall} {ret : Int}
    (h : call.run findDir s = some (s', ret)) : s'.workdir.blob = s.workdir.blob := by
  rcases FsCall.run_workdir h with hw | ⟨_, _, _, -, -, hd⟩ | ⟨_, _, _, _, -, -, hd⟩
  · rw [hw]
  · obtain ⟨m, happ⟩ := addDirent_spec hd
    exact happ.blob
  · exact (removeDirent_spec hd).blob

end BlobTopFs
