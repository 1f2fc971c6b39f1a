import BlobTopFs.Directory.NameMap
import BlobTopFs.Files.CreateAtomic
import BlobTopFs.SimpleFs.Interface

/-!
# What an open creates

`__spdk_open` asks whether any bit of `oflag | O_CREAT` is set, and so tries to create whatever
the flags are. An open of a missing path without `O_CREAT` therefore adds an entry, and leaves
things as they are only where the table's count stops it beforehand. Where a path is there, or a
create is asked for, it does what it should as long as nothing on the way fails.
-/

namespace BlobTopFs

open Run

variable {g : Geometry}

/-! ## What an open should do -/

/-- Some entry has the path. -/
def SpdkfsDir.Has (d : SpdkfsDir) (file : CStr) : Prop := ∃ i < d.count, d.Spells file i

/-- The call gives a descriptor of the blob of an entry with the path. -/
def Fs.OpensEntry (s s' : Fs g) (ret : Int) (file : CStr) : Prop :=
  s'.workdir = s.workdir ∧ ∃ i < s.workdir.count, s.workdir.Spells file i ∧
    ∃ fd f v, ret = TESTFD + fd ∧ s'.Resolves fd f v ∧ v.file.blob = s.workdir.direntId i

/-- One entry is added behind the others, and it has the path. -/
structure Fs.AddsEntry (s s' : Fs g) (file : CStr) : Prop where
  count : s'.workdir.count = s.workdir.count + 1
  old : ∀ i < s.workdir.count, SameDirent s.workdir.dirents i s'.workdir.dirents i
  new : s'.workdir.Spells file s.workdir.count

/-- Directory, set of blobs and descriptor table are as they were. -/
structure Fs.SameSets (s s' : Fs g) : Prop where
  workdir : s'.workdir = s.workdir
  blobs : ∀ id, (s'.bs.blobs id).isSome = (s.bs.blobs id).isSome
  fdtable : s'.fdtable = s.fdtable

/-- What an open that returned `ret` has done. -/
structure Fs.OpenedAsAsked (s s' : Fs g) (ret : Int) (file : CStr) (oflag : BitVec 32) : Prop where
  existing : s.workdir.Has file → s.OpensEntry s' ret file
  created : ¬ s.workdir.Has file → oflag &&& O_CREAT ≠ 0 → s.AddsEntry s' file
  refused : ¬ s.workdir.Has file → oflag &&& O_CREAT = 0 → ret < 0 ∧ s.SameSets s'

/-- The open returns, and has created only on request. -/
def OpensOnRequest (kernelFd : Int) (ans : CreateAnswer) (openErrno : Int) (file : CStr)
    (oflag : BitVec 32) (s : Fs g) : Prop :=
  ∃ s' ret, spdkOpen kernelFd ans openErrno file oflag s = some (s', ret) ∧
    s.OpenedAsAsked s' ret file oflag

/-! ## When it does -/

/-- The byte at `q` of the buffer that `add_dirent` fills the entry in: new memory where the
buffer is made or grown, and else what is there. -/
def SpdkfsDir.slotByte (g : Geometry) (mem : DirentMem) (d : SpdkfsDir) (q : Nat) : UInt8 :=
  let size := if d.size = 0 then g.ioUnit else d.size
  let old := if d.size = 0 then mem.malloc else some d.dirents
  if size / g.ioUnit ≤ d.count * sizeofDirent ∧ (size ≤ q ∨ old.isNone) then
    mem.realloc.getD (fun _ => 0) q
  else old.getD (fun _ => 0) q

/-- The directory has memory for an entry with the path: the path fits the name field, the byte
behind it is NUL, and the entries that are there keep their bytes. -/
structure SpdkfsDir.TakesName (g : Geometry) (mem : DirentMem) (file : CStr) (d : SpdkfsDir) :
    Prop where
  memory : d.HasMemory g mem
  fits : file.strlen < spdkMaxNameCount
  ends : d.slotByte g mem (direntOff d.count + file.strlen) = 0
  kept : ∀ q < direntOff d.count, d.slotByte g mem q = d.dirents q

/-- `blob_create` leaves a pointer to an open blob: the new one's, or, where it fails, what
`malloc` left. -/
def CreateAnswer.LeavesOpen (ans : CreateAnswer) (bs : Blobstore g) : Prop :=
  (ans.createErrno = 0 ∧ ans.openErrno = 0) ∨
    ∃ h, ans.garbage = some h ∧ (bs.opened h).isSome = true

/-- Where the new blob is made but not opened, `malloc` has not left its handle. -/
def CreateAnswer.Apart (ans : CreateAnswer) : Prop :=
  ans.createErrno = 0 → ans.openErrno ≠ 0 → ans.garbage ≠ some ans.id

/-- The blob with the id can be opened as a file. -/
def Blobstore.OpensFile (openErrno : Int) (id : BlobId) (bs : Blobstore g) : Prop :=
  openErrno = 0 ∧ ∃ b, bs.blobs id = some b ∧ b.opening.xattrs.filePersistent.isSome = true

/-- An entry with the path is there, and its blob and a slot of the table can be had. Or a create
is asked for, what it needs can be had, and the search for a slot ends: with one, or with the
open of the new entry, which is tried next. Or the count has passed the size of the table. -/
def Fs.ServesOpen (ans : CreateAnswer) (openErrno : Int) (file : CStr) (oflag : BitVec 32)
    (s : Fs g) : Prop :=
  (s.workdir.Has file ∧ s.fdtable.Offers ∧ ∃ i : Nat, spdkfsDirLookup s.workdir file = i ∧
      s.bs.OpensFile openErrno (s.workdir.direntId i)) ∨
    (¬ s.workdir.Has file ∧ oflag &&& O_CREAT ≠ 0 ∧ s.fdtable.fileCount ≤ spdkMaxFileCnt ∧
      ans.LeavesOpen s.bs ∧ s.workdir.TakesName g ans.mem file ∧
      (s.fdtable.Offers ∨ 2 ≤ s.fdtable.fileCount ∧ openErrno = 0)) ∨
    (¬ s.workdir.Has file ∧ oflag &&& O_CREAT = 0 ∧ s.fdtable.fileCount > spdkMaxFileCnt)

/-! ## Lookups and new entries -/

theorem SpdkfsDir.Has.lookup_ne {d : SpdkfsDir} {file : CStr} (h : d.Has file) :
    spdkfsDirLookup d file ≠ -1 := by
  obtain ⟨i, hi, -, his⟩ := h
  intro hl
  rw [lookup_eq_neg_one_iff.mp hl i hi] at his
  cases his

/-- A path that fits the name field is in the directory if a lookup finds it. -/
theorem SpdkfsDir.has_iff {d : SpdkfsDir} {file : CStr} (hlen : file.strlen < spdkMaxNameCount) :
    d.Has file ↔ spdkfsDirLookup d file ≠ -1 := by
  refine ⟨SpdkfsDir.Has.lookup_ne, fun hl => ?_⟩
  obtain ⟨i, hi, -, his⟩ := (lookup_cases d file).resolve_left hl
  exact ⟨i, hi, hlen, his⟩

/-- The buffer into which `add_dirent` fills the entry. -/
theorem addDirent_slot {mem : DirentMem} {id : BlobId} {name : CStr} {d d' : SpdkfsDir}
    (h : addDirent g mem id name d = some d') :
    d'.dirents = writeDirent (d.slotByte g mem) d.count id name := by
  obtain ⟨m, hm, rfl⟩ := Option.map_eq_some_iff.mp h
  obtain ⟨hac, has⟩ := allocate_size (g := g) mem d
  obtain ⟨hgc, -⟩ := growDirents_size (g := g) (d.allocate g mem).1 mem (d.allocate g mem).2
  have hold : (d.allocate g mem).1 = if d.size = 0 then mem.malloc else some d.dirents := by
    unfold SpdkfsDir.allocate
    split <;> rfl
  suffices hslot : m = d.slotByte g mem by
    show writeDirent m _ id name = _
    rw [hgc, hac, hslot]
  rw [hold] at hm
  funext q
  unfold growDirents at hm
  rw [hac, has] at hm
  unfold SpdkfsDir.slotByte
  dsimp only
  generalize (if d.size = 0 then mem.malloc else some d.dirents) = old at hm ⊢
  generalize (if d.size = 0 then g.ioUnit else d.size) = size at hm ⊢
  split at hm
  · next hgrow =>
      obtain ⟨r, hr, rfl⟩ := Option.map_eq_some_iff.mp hm
      rw [hr]
      cases old with
      | none =>
          rw [if_pos ⟨hgrow, Or.inr rfl⟩]
          rfl
      | some m₀ =>
          by_cases hq : size ≤ q
          · rw [if_pos ⟨hgrow, Or.inl hq⟩]
            exact Mem.write_out (by omega)
          · rw [if_neg (by simp [hq])]
            exact Mem.write_in (by omega) (by omega)
  · next hgrow =>
      rw [if_neg fun h => hgrow h.1, show old = some m from hm]
      rfl

/-- An append adds just the entry if there is memory for it. -/
theorem addsEntry_iff {mem : DirentMem} {id : BlobId} {file : CStr} {s s' : Fs g}
    (h : addDirent g mem id file s.workdir = some s'.workdir) :
    s.AddsEntry s' file ↔ s.workdir.TakesName g mem file := by
  obtain ⟨m, happ⟩ := addDirent_spec h
  have hslot := addDirent_slot h
  have hbefore : ∀ q < direntOff s.workdir.count,
      s'.workdir.dirents q = s.workdir.slotByte g mem q := by
    intro q hq
    rw [hslot]
    exact writeDirent_before hq
  constructor
  · intro hadds
    obtain ⟨hlen, his⟩ := hadds.new
    refine ⟨addDirent_isSome_iff.mp (by rw [h]; rfl), hlen, ?_, fun q hq => ?_⟩
    · rw [SpdkfsDir.direntIs, hslot] at his
      exact (writeDirent_is hlen).mp his
    · -- the byte is in the entry with the index `q / 520`
      have hpos : 0 < sizeofDirent := by decide
      have hi : q / sizeofDirent < s.workdir.count := by
        rw [Nat.div_lt_iff_lt_mul hpos]
        exact hq
      have hsame := hadds.old _ hi (q % sizeofDirent) (Nat.mod_lt q hpos)
      rw [show direntOff (q / sizeofDirent) + q % sizeofDirent = q from
        Nat.div_add_mod' q sizeofDirent] at hsame
      rw [← hbefore q hq]
      exact hsame
  · intro htakes
    refine ⟨happ.count, fun i hi q hq => ?_, htakes.fits, ?_⟩
    · have hoff := direntOff_le hi
      rw [hbefore _ (by omega)]
      exact htakes.kept _ (by omega)
    · rw [SpdkfsDir.direntIs, hslot]
      exact (writeDirent_is htakes.fits).mpr htakes.ends

/-! ## When open and create return -/

section Calls

variable {ans : CreateAnswer} {openErrno : Int} {file : CStr} {s s' : Fs g} {ret : Int}

theorem Fs.installFile_isSome (s : Fs g) (file : SpdkfsFile) :
    (s.installFile file).isSome = (getFdFromTable s.fdtable).isSome := Option.isSome_map

/-- An open of an entry returns if its blob can be opened as a file and the search for a slot
ends. -/
theorem monopolyOpen_isSome_iff {i : Nat} (hl : spdkfsDirLookup s.workdir file = i) :
    (monopolyOpen openErrno file s).isSome = true ↔
      s.bs.OpensFile openErrno (s.workdir.direntId i) ∧
        (getFdFromTable s.fdtable).isSome = true := by
  constructor
  · intro hsome
    obtain ⟨⟨s', ret⟩, hopen⟩ := Option.isSome_iff_exists.mp hsome
    rcases monopolyOpen_cases hopen with ⟨hnone, -⟩ | ⟨j, -, b, t, hj, hb, hattr, -, ht, -⟩
    · omega
    · cases Int.ofNat.inj (hl.symm.trans hj)
      refine ⟨⟨?_, b, hb, hattr⟩, by rw [ht]; rfl⟩
      unfold monopolyOpen at hopen
      dsimp only at hopen
      rw [hl, if_neg (by omega)] at hopen
      obtain ⟨h, hh, -⟩ := Option.bind_eq_some_iff.mp hopen
      exact (blobOpen_eq_some_iff.mp hh).2.1
  · rintro ⟨⟨he, b, hb, hattr⟩, hfd⟩
    obtain ⟨p, hp⟩ := Option.isSome_iff_exists.mp hattr
    obtain ⟨bs, hopened, hblob⟩ : ∃ bs : Blobstore g,
        blobOpen openErrno (s.workdir.direntId i) s.bs = (bs, some (s.workdir.direntId i)) ∧
          bs.opened (s.workdir.direntId i) = some b.opening := by
      refine ⟨(s.bs.setBlob (s.workdir.direntId i) b.opening).record
        (.openBlob (s.workdir.direntId i)) 0, ?_, ?_⟩
      · rw [he, blobOpen_done hb]
      · exact Blobstore.opened_eq_some.mpr ⟨Blobstore.setBlob_self .., Nat.succ_pos _⟩
    have hfile : simpleFsOpen (s.workdir.direntId i) bs =
        some ⟨s.workdir.direntId i, .xattr, 0⟩ := by
      rw [simpleFsOpen, hblob, Option.bind_some, hp, Option.map_some]
    obtain ⟨r, hr⟩ := Option.isSome_iff_exists.mp <|
      (Fs.installFile_isSome { s with bs := bs } ⟨s.workdir.direntId i, .xattr, 0⟩).trans hfd
    have hopen : monopolyOpen openErrno file s = some r := by
      unfold monopolyOpen
      dsimp only
      rw [hl, if_neg (by omega), Int.toNat_natCast, hopened]
      exact Option.bind_eq_some_iff.mpr ⟨_, rfl, Option.bind_eq_some_iff.mpr ⟨_, hfile, hr⟩⟩
    rw [hopen]
    rfl

/-- A `blob_create` that fails returns the pointer it was given. It opens nothing, and a blob that
it has made is not open. -/
theorem blobCreate_failed_opened (he : ¬ (ans.createErrno = 0 ∧ ans.openErrno = 0)) :
    ∃ bs : Blobstore g, blobCreate ans.createErrno ans.openErrno ans.id ans.content ans.garbage
        s.bs = ans.garbage.map (fun h => (bs, h, false)) ∧
      ∀ h, bs.opened h =
        if ans.createErrno = 0 ∧ h = ans.id then none else s.bs.opened h := by
  by_cases hc : ans.createErrno = 0
  · have ho : ans.openErrno ≠ 0 := fun ho => he ⟨hc, ho⟩
    refine ⟨((s.bs.setBlob ans.id (Blob.fresh ans.content)).record .createBlob 0).record
      (.openBlob ans.id) ans.openErrno, ?_, fun h => ?_⟩
    · simp [blobCreate, spdkBsCreateBlob, spdkBsOpenBlob, hc, ho]
    · show ((s.bs.setBlob ans.id (Blob.fresh ans.content)).blobs h).filter _ = _
      by_cases hid : h = ans.id
      · rw [if_pos ⟨hc, hid⟩, hid, Blobstore.setBlob_self]
        rfl
      · rw [if_neg fun h => hid h.2, Blobstore.setBlob_of_ne _ _ hid]
        rfl
  · refine ⟨s.bs.record .createBlob ans.createErrno, ?_, fun _ => (if_neg fun h => hc h.1).symm⟩
    simp [blobCreate, spdkBsCreateBlob, hc]

theorem blobCreate_of_failed (hfresh : s.bs.blobs ans.id = none)
    (he : ¬ (ans.createErrno = 0 ∧ ans.openErrno = 0)) :
    ∃ bs : Blobstore g, blobCreate ans.createErrno ans.openErrno ans.id ans.content ans.garbage
        s.bs = ans.garbage.map (fun h => (bs, h, false)) ∧
      ∀ h, bs.opened h = s.bs.opened h := by
  obtain ⟨bs, hc, hopened⟩ := blobCreate_failed_opened (s := s) he
  refine ⟨bs, hc, fun h => ?_⟩
  rw [hopened]
  split
  · next hid =>
      rw [hid.2, Blobstore.opened, hfresh]
      rfl
  · rfl

/-- An id that no blob had is not that of an open one. -/
theorem CreateAnswer.LeavesOpen.apart {bs : Blobstore g} (h : ans.LeavesOpen bs)
    (hfresh : bs.blobs ans.id = none) : ans.Apart := by
  intro _ ho hgarb
  obtain ⟨-, ho'⟩ | ⟨h, hh, hopen⟩ := h
  · exact ho ho'
  · cases hgarb.symm.trans hh
    rw [Blobstore.opened, hfresh] at hopen
    cases hopen

theorem blobCreate_opened_iff :
    (∃ bs blob ok b, blobCreate ans.createErrno ans.openErrno ans.id ans.content ans.garbage s.bs =
        some (bs, blob, ok) ∧ bs.opened blob = some b) ↔ ans.LeavesOpen s.bs ∧ ans.Apart := by
  by_cases he : ans.createErrno = 0 ∧ ans.openErrno = 0
  · refine iff_of_true ?_ ⟨Or.inl he, fun _ ho => absurd he.2 ho⟩
    obtain ⟨⟨bs, blob, ok⟩, hc⟩ : ∃ c, blobCreate ans.createErrno ans.openErrno ans.id
        ans.content ans.garbage s.bs = some c := by
      rw [he.1, he.2]
      simp [blobCreate, spdkBsCreateBlob, spdkBsOpenBlob]
    obtain ⟨rfl, hb, -⟩ := blobCreate_done he.1 he.2 hc
    exact ⟨bs, ans.id, ok, _, hc, hb⟩
  · obtain ⟨bs, hc, hopened⟩ := blobCreate_failed_opened (s := s) he
    rw [CreateAnswer.LeavesOpen, or_iff_right he, hc]
    constructor
    · rintro ⟨_, blob, _, b, heq, hb⟩
      obtain ⟨h, hgarb, heq⟩ := Option.map_eq_some_iff.mp heq
      cases heq
      rw [hopened] at hb
      split at hb
      · cases hb
      · next hid =>
          refine ⟨⟨blob, hgarb, by rw [hb]; rfl⟩, fun hc _ hown => hid ⟨hc, ?_⟩⟩
          exact Option.some.inj (hgarb.symm.trans hown)
    · rintro ⟨⟨h, hgarb, hsome⟩, hapart⟩
      obtain ⟨b, hb⟩ := Option.isSome_iff_exists.mp hsome
      refine ⟨bs, h, false, b, by rw [hgarb]; rfl, ?_⟩
      rw [hopened, if_neg ?_, hb]
      rintro ⟨hc, rfl⟩
      exact hapart hc (fun ho => he ⟨hc, ho⟩) hgarb

/-- A create of a name that is not there returns if it is left an open blob, memory for the entry,
and a search for a slot that ends. -/
theorem monopolyCreate_isSome_iff (hinit : s.workdir.initialized = true)
    (hl : spdkfsDirLookup s.workdir file = -1) :
    (monopolyCreate ans file s).isSome = true ↔
      (ans.LeavesOpen s.bs ∧ ans.Apart) ∧ s.workdir.HasMemory g ans.mem ∧
        (getFdFromTable s.fdtable).isSome = true := by
  rw [← blobCreate_opened_iff]
  constructor
  · intro hsome
    obtain ⟨⟨s', ret⟩, hcreate⟩ := Option.isSome_iff_exists.mp hsome
    rcases monopolyCreate_cases hcreate with
      ⟨hfound, -⟩ | ⟨bs, blob, ok, b, dir, t, -, hc, hb, hd, ht, -⟩
    · exact absurd hl hfound
    · exact ⟨⟨bs, blob, ok, b, hc, hb⟩, addDirent_isSome_iff.mp (by rw [hd]; rfl), by rw [ht]; rfl⟩
  · rintro ⟨⟨bs, blob, ok, b, hc, hb⟩, hmem, hfd⟩
    obtain ⟨dir, hdir⟩ : ∃ dir, addDirent g ans.mem blob file s.workdir = some dir :=
      Option.isSome_iff_exists.mp (addDirent_isSome_iff.mpr hmem)
    unfold monopolyCreate
    rw [hinit, if_neg (by decide), if_neg (not_not.mpr hl), hc]
    simp only [Option.bind_some, simpleFsCreate, hb, Option.map_some, hdir]
    rw [Fs.installFile_isSome]
    exact hfd

/-- What a create of a name that is not there has done: an entry is appended for an open blob with
a file's attribute. -/
theorem monopolyCreate_appended (hl : spdkfsDirLookup s.workdir file = -1)
    (h : monopolyCreate ans file s = some (s', ret)) :
    ∃ id b t, addDirent g ans.mem id file s.workdir = some s'.workdir ∧
      s'.bs.blobs id = some b ∧ b.opening.xattrs.filePersistent.isSome = true ∧
      getFdFromTable s.fdtable = some (t, ret) ∧ s'.fdtable = t.install ret s.nextFile := by
  rcases monopolyCreate_cases h with
    ⟨hfound, -⟩ | ⟨bs, blob, ok, b, dir, t, -, -, hb, hd, ht, rfl⟩
  · exact absurd hl hfound
  · obtain ⟨-, href⟩ := Blobstore.opened_eq_some.mp hb
    refine ⟨blob, b.setFilePersistent (ans.record blob), t, hd, Blobstore.setBlob_self .., ?_, ht,
      rfl⟩
    -- an open blob keeps the attributes it has when it is opened again
    rw [Blob.opening, if_neg (show (b.setFilePersistent (ans.record blob)).openRef ≠ 0 from
      Nat.ne_of_gt href)]
    rfl

/-! ## The three cases -/

variable {kernelFd : Int} {oflag : BitVec 32}

/-- An open of a name that is there is a `monopoly_open`. -/
theorem spdkOpen_found (hblob : spdkPtopBlobfile file = true)
    (hinit : s.workdir.initialized = true) (hle : s.fdtable.fileCount ≤ spdkMaxFileCnt)
    (hl : spdkfsDirLookup s.workdir file ≠ -1) :
    spdkOpen kernelFd ans openErrno file oflag s =
      (monopolyOpen openErrno file s).map fun o => (o.1, TESTFD + o.2) := by
  have hcreate : monopolyCreate ans file s = some (s, -1) := by
    unfold monopolyCreate
    rw [hinit, if_neg (by decide), if_pos hl]
  rw [spdkOpen_eq hblob, if_neg (not_lt.mpr hle), hcreate, Option.bind_some, if_pos rfl]

theorem monopolyOpen_workdir (h : monopolyOpen openErrno file s = some (s', ret)) :
    s'.workdir = s.workdir := by
  rcases monopolyOpen_cases h with ⟨-, rfl, -⟩ | ⟨_, -, _, _, -, -, -, -, -, -, -, hw, -⟩
  · rfl
  · exact hw

/-- An open of a name that is not there creates it first. -/
theorem spdkOpen_missing (hblob : spdkPtopBlobfile file = true)
    (hle : s.fdtable.fileCount ≤ spdkMaxFileCnt)
    (h : spdkOpen kernelFd ans openErrno file oflag s = some (s', ret)) :
    ∃ s₁ fd, monopolyCreate ans file s = some (s₁, fd) ∧ s'.workdir = s₁.workdir ∧
      (fd = -1 → (monopolyOpen openErrno file s₁).isSome = true) := by
  rw [spdkOpen_eq hblob, if_neg (not_lt.mpr hle)] at h
  obtain ⟨⟨s₁, fd⟩, hcreate, h⟩ := Option.bind_eq_some_iff.mp h
  refine ⟨s₁, fd, hcreate, ?_⟩
  split at h
  · next hfd =>
      obtain ⟨⟨s₂, fd'⟩, hopen, heq⟩ := Option.map_eq_some_iff.mp h
      cases heq
      exact ⟨monopolyOpen_workdir hopen, fun _ => by rw [hopen]; rfl⟩
  · next hfd =>
      cases h
      exact ⟨rfl, fun h => absurd h hfd⟩

/-- The lookup finds the entry just added, the others being as they were. -/
theorem Fs.AddsEntry.lookup {s₁ : Fs g} (hadds : s.AddsEntry s₁ file)
    (hl : spdkfsDirLookup s.workdir file = -1) :
    spdkfsDirLookup s₁.workdir file = s.workdir.count := by
  have hold : ∀ i < s.workdir.count, s₁.workdir.direntIs file i = s.workdir.direntIs file i :=
    fun i hi => (hadds.old i hi).is hadds.new.1
  rw [lookup_appended hadds.count hold, hl, if_neg (not_not.mpr rfl), if_pos hadds.new.2]

/-- Behind a create that has added the entry, an open goes through if it has a descriptor, or the
name can be opened again without one. -/
theorem spdkOpen_created (kernelFd : Int) (oflag : BitVec 32) {s₁ : Fs g} {fd : Int}
    (hblob : spdkPtopBlobfile file = true) (hle : s.fdtable.fileCount ≤ spdkMaxFileCnt)
    (hl : spdkfsDirLookup s.workdir file = -1)
    (hcreate : monopolyCreate ans file s = some (s₁, fd)) (hadds : s.AddsEntry s₁ file)
    (hslot : s.fdtable.Offers ∨ 2 ≤ s.fdtable.fileCount ∧ openErrno = 0) :
    ∃ s' ret, spdkOpen kernelFd ans openErrno file oflag s = some (s', ret) ∧
      s'.workdir = s₁.workdir := by
  obtain ⟨id, b, t, hd, hb, hattr, ht, htable⟩ := monopolyCreate_appended hl hcreate
  rw [spdkOpen_eq hblob, if_neg (not_lt.mpr hle), hcreate, Option.bind_some]
  by_cases hret : fd = -1
  · have he : openErrno = 0 := by
      rcases hslot with hoff | ⟨-, he⟩
      · obtain ⟨t', fd', ht', hne⟩ := hoff.getFd
        cases ht'.symm.trans ht
        exact absurd hret hne
      · exact he
    have hsame : s₁.fdtable = s.fdtable := by
      rcases getFdFromTable_cases ht with ⟨-, rfl⟩ | ⟨i, hi, -⟩
      · rw [htable, Fdtable.install, if_pos hret]
      · omega
    have hid : s₁.workdir.direntId s.workdir.count = id := by
      obtain ⟨m, happ⟩ := addDirent_spec hd
      exact happ.newId
    obtain ⟨⟨s₂, fd'⟩, hopen⟩ : ∃ r, monopolyOpen openErrno file s₁ = some r := by
      rw [← Option.isSome_iff_exists, monopolyOpen_isSome_iff (hadds.lookup hl), hid, hsame]
      exact ⟨⟨he, b, hb, hattr⟩, by rw [ht]; rfl⟩
    refine ⟨s₂, TESTFD + fd', ?_, monopolyOpen_workdir hopen⟩
    rw [if_pos hret, hopen]
    rfl
  · exact ⟨s₁, TESTFD + fd, if_neg hret, rfl⟩

theorem opensExisting_iff (hblob : spdkPtopBlobfile file = true)
    (hinit : s.workdir.initialized = true) (hhas : s.workdir.Has file) :
    OpensOnRequest kernelFd ans openErrno file oflag s ↔
      s.fdtable.Offers ∧ ∃ i : Nat, spdkfsDirLookup s.workdir file = i ∧
        s.bs.OpensFile openErrno (s.workdir.direntId i) := by
  have hmax : spdkMaxFileCnt = 256 := rfl
  constructor
  · rintro ⟨s', ret, hopen, hdone⟩
    obtain ⟨-, -, -, -, fd, f, v, rfl, hres, -⟩ := hdone.existing hhas
    have hfd : 0 ≤ fd := by
      by_contra hneg
      have hslot := hres.file
      rw [Fdtable.file, if_neg (by omega)] at hslot
      cases hslot
    rcases spdkOpen_cases hblob hopen with ⟨-, hret⟩ | ⟨-, -, hret⟩ | ⟨hoff, -⟩
    · unfold TESTFD at hret
      omega
    · omega
    · obtain ⟨i, -, hl, -⟩ := (lookup_cases s.workdir file).resolve_left hhas.lookup_ne
      rw [spdkOpen_found hblob hinit (Nat.le_of_lt hoff.1) hhas.lookup_ne] at hopen
      obtain ⟨r, hr, -⟩ := Option.map_eq_some_iff.mp hopen
      exact ⟨hoff, i, hl, ((monopolyOpen_isSome_iff hl).mp (by rw [hr]; rfl)).1⟩
  · rintro ⟨hoff, i, hl, hfile⟩
    obtain ⟨⟨s', fd⟩, hopen⟩ := Option.isSome_iff_exists.mp <|
      (monopolyOpen_isSome_iff hl).mpr ⟨hfile, Fdtable.getFd_isSome_iff.mpr (Or.inl hoff)⟩
    refine ⟨s', TESTFD + fd, ?_, ⟨fun _ => ?_, fun hno => absurd hhas hno,
      fun hno => absurd hhas hno⟩⟩
    · rw [spdkOpen_found hblob hinit (Nat.le_of_lt hoff.1) hhas.lookup_ne, hopen]
      rfl
    · rcases monopolyOpen_cases hopen with
        ⟨hnone, -⟩ | ⟨j, hj, b, t, hlj, -, -, hblobs, ht, htable, -, hw, hfiles⟩
      · omega
      · obtain ⟨-, -, hlen, -⟩ := hhas
        obtain ⟨t', fd', ht', hne⟩ := hoff.getFd
        cases ht'.symm.trans ht
        refine ⟨hw, j, hj, ⟨hlen, (lookup_eq_natCast hlj).2⟩, fd, s.nextFile,
          ⟨⟨s.workdir.direntId j, .xattr, 0⟩, b.opening, s'.bs.log⟩, rfl, ⟨?_, ?_⟩, rfl⟩
        · rw [htable]
          exact Fdtable.install_file ht hne s.nextFile
        · refine Fs.openFile_eq_some.mpr ⟨?_, ?_, Nat.succ_pos _, rfl⟩
          · rw [hfiles]
            exact Function.update_self ..
          · rw [hblobs]
            exact Function.update_self ..

/-- An open that should create does when what it needs can be had. -/
theorem createsMissing_iff (hblob : spdkPtopBlobfile file = true)
    (hinit : s.workdir.initialized = true) (hhas : ¬ s.workdir.Has file)
    (hflag : oflag &&& O_CREAT ≠ 0) (hfresh : s.bs.blobs ans.id = none) :
    OpensOnRequest kernelFd ans openErrno file oflag s ↔
      s.fdtable.fileCount ≤ spdkMaxFileCnt ∧ ans.LeavesOpen s.bs ∧
        s.workdir.TakesName g ans.mem file ∧
        (s.fdtable.Offers ∨ 2 ≤ s.fdtable.fileCount ∧ openErrno = 0) := by
  constructor
  · rintro ⟨s', ret, hopen, hdone⟩
    have hadds := hdone.created hhas hflag
    have hlen := hadds.new.1
    have hl : spdkfsDirLookup s.workdir file = -1 := by
      by_contra hl
      exact hhas ((SpdkfsDir.has_iff hlen).mpr hl)
    have hle : s.fdtable.fileCount ≤ spdkMaxFileCnt := by
      by_contra hgt
      rw [spdkOpen_eq hblob, if_pos (not_le.mp hgt)] at hopen
      cases hopen
      exact absurd hadds.count (by omega)
    obtain ⟨s₁, fd, hcreate, hdir, hagain⟩ := spdkOpen_missing hblob hle hopen
    obtain ⟨id, b, t, hd, -, -, ht, -⟩ := monopolyCreate_appended hl hcreate
    obtain ⟨⟨hleaves, -⟩, -, hfd⟩ :=
      (monopolyCreate_isSome_iff hinit hl).mp (by rw [hcreate]; rfl)
    rw [← hdir] at hd
    refine ⟨hle, hleaves, (addsEntry_iff hd).mp hadds, ?_⟩
    rcases Fdtable.getFd_isSome_iff.mp hfd with hoff | htwo
    · exact Or.inl hoff
    · by_cases hret : fd = -1
      · -- the entry that was added is opened next
        have hi := hadds.lookup hl
        rw [hdir] at hi
        exact Or.inr ⟨htwo, ((monopolyOpen_isSome_iff hi).mp (hagain hret)).1.1⟩
      · exact Or.inl (Fdtable.Offers.of_getFd ht hret)
  · rintro ⟨hle, hleaves, htakes, hslot⟩
    have hl : spdkfsDirLookup s.workdir file = -1 := by
      by_contra hl
      exact hhas ((SpdkfsDir.has_iff htakes.fits).mpr hl)
    have hfd : (getFdFromTable s.fdtable).isSome = true := by
      rw [Fdtable.getFd_isSome_iff]
      rcases hslot with hoff | ⟨htwo, -⟩
      · exact Or.inl hoff
      · exact Or.inr htwo
    obtain ⟨⟨s₁, fd⟩, hcreate⟩ := Option.isSome_iff_exists.mp <|
      (monopolyCreate_isSome_iff hinit hl).mpr ⟨⟨hleaves, hleaves.apart hfresh⟩, htakes.memory, hfd⟩
    obtain ⟨id, b, t, hd, -⟩ := monopolyCreate_appended hl hcreate
    have hadds : s.AddsEntry s₁ file := (addsEntry_iff hd).mpr htakes
    obtain ⟨s', ret, hopen, hdir⟩ :=
      spdkOpen_created kernelFd oflag hblob hle hl hcreate hadds hslot
    refine ⟨s', ret, hopen, ⟨fun h => absurd h hhas, fun _ _ => ?_, fun _ h => absurd h hflag⟩⟩
    refine ⟨?_, ?_, ?_⟩
    · rw [hdir]
      exact hadds.count
    · rw [hdir]
      exact hadds.old
    · rw [hdir]
      exact hadds.new

/-- An open that should not create does not only where the count stops it. -/
theorem refusesMissing_iff (hblob : spdkPtopBlobfile file = true)
    (hinit : s.workdir.initialized = true) (hhas : ¬ s.workdir.Has file)
    (hflag : oflag &&& O_CREAT = 0) :
    OpensOnRequest kernelFd ans openErrno file oflag s ↔
      s.fdtable.fileCount > spdkMaxFileCnt := by
  constructor
  · rintro ⟨s', ret, hopen, hdone⟩
    obtain ⟨hneg, hsame⟩ := hdone.refused hhas hflag
    by_contra hle
    by_cases hl : spdkfsDirLookup s.workdir file = -1
    · obtain ⟨s₁, fd, hcreate, hdir, -⟩ := spdkOpen_missing hblob (not_lt.mp hle) hopen
      obtain ⟨id, b, t, hd, -⟩ := monopolyCreate_appended hl hcreate
      obtain ⟨m, happ⟩ := addDirent_spec hd
      have hcount := happ.count
      rw [← hdir, hsame.workdir] at hcount
      omega
    · -- a path too long for the name field can be found; its open returns `TESTFD - 1` or more
      rw [spdkOpen_found hblob hinit (not_lt.mp hle) hl] at hopen
      obtain ⟨⟨s₁, fd⟩, hr, heq⟩ := Option.map_eq_some_iff.mp hopen
      cases heq
      dsimp only at hneg
      unfold TESTFD at hneg
      rcases monopolyOpen_entry hr with ⟨rfl, -⟩ | ⟨i, rfl, -⟩
      · omega
      · omega
  · intro hgt
    refine ⟨s, -1, ?_, ⟨fun h => absurd h hhas, fun _ h => absurd hflag h,
      fun _ _ => ⟨by decide, rfl, fun _ => rfl, rfl⟩⟩⟩
    rw [spdkOpen_eq hblob, if_pos hgt]

end Calls

/-! ## Reachable states -/

/-- **Open creates only on request.** In any state that a session reaches, an open of a blob file
opens an entry that is there, adds one if it is asked to and none is there, and fails with
everything as it was otherwise, exactly when the state serves it. -/
theorem open_creates_iff {findDir : FindDir} {load : LoadAnswer} {superBlob : BlobId}
    {bs : Blobstore g} {s₀ s : Fs g} {calls : List FsCall}
    (hload : loadRoot load superBlob bs = some s₀)
    (hrun : exec (fsStep findDir) s₀ calls = some s) {kernelFd : Int} {ans : CreateAnswer}
    {openErrno : Int} {file : CStr} {oflag : BitVec 32} (hblob : spdkPtopBlobfile file = true)
    (hfresh : s.bs.blobs ans.id = none) :
    OpensOnRequest kernelFd ans openErrno file oflag s ↔
      s.ServesOpen ans openErrno file oflag := by
  have hinit := exec_initialized hload hrun
  unfold Fs.ServesOpen
  by_cases hhas : s.workdir.Has file
  · rw [opensExisting_iff hblob hinit hhas]
    simp only [hhas, true_and, not_true_eq_false, false_and, or_false]
  · by_cases hflag : oflag &&& O_CREAT = 0
    · rw [refusesMissing_iff hblob hinit hhas hflag]
      simp only [hhas, hflag, false_and, ne_eq, not_true_eq_false, not_false_eq_true, and_false,
        true_and, false_or]
    · rw [createsMissing_iff hblob hinit hhas hflag hfresh]
      simp only [hhas, hflag, false_and, ne_eq, not_false_eq_true, true_and, or_false,
        false_or]

/-- A create on a formatted device. -/
theorem open_creates_first :
    OpensOnRequest (-1) (.done 1) 0 pathA O_CREAT (Fs.empty .malloc4k) := by
  have hrun : exec (fsStep fun _ _ => -1) (Fs.empty .malloc4k) [] = some (.empty .malloc4k) := rfl
  have hmem : (Fs.empty .malloc4k).workdir.HasMemory .malloc4k (CreateAnswer.done 1).mem :=
    addDirent_isSome_iff.mp (show (addDirent .malloc4k _ 1 pathA _).isSome = true from rfl)
  have hempty : ¬ (Fs.empty .malloc4k).workdir.Has pathA := fun ⟨i, hi, _⟩ => Nat.not_lt_zero i hi
  have hoff : (Fs.empty .malloc4k).fdtable.Offers := ⟨by decide, 0, by decide, rfl, fun _ => rfl⟩
  exact (open_creates_iff (loadRoot_formatted .done 0) hrun rfl rfl).mpr
    (Or.inr (Or.inl ⟨hempty, by decide, by decide, Or.inl ⟨rfl, rfl⟩,
      ⟨hmem, by decide, rfl, fun q hq => absurd hq (by decide +revert)⟩, Or.inl hoff⟩))

/-- Without `O_CREAT` the path is created all the same. -/
theorem open_creates_unasked :
    ¬ OpensOnRequest (-1) (.done 1) 0 pathA 0 (Fs.empty .malloc4k) := by
  rintro ⟨s', ret, hopen, hdone⟩
  have hcount : (spdkOpen (-1) (.done 1) 0 pathA 0 (Fs.empty .malloc4k)).map
      (fun r => r.1.workdir.count) = some 1 := by decide +kernel
  rw [hopen] at hcount
  have hempty : ¬ (Fs.empty .malloc4k).workdir.Has pathA := fun ⟨i, hi, _⟩ => Nat.not_lt_zero i hi
  obtain ⟨-, hsame⟩ := hdone.refused hempty (by decide)
  rw [Option.map_some, hsame.workdir] at hcount
  cases hcount

end BlobTopFs
