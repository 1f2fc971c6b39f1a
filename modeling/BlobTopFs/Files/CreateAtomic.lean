import BlobTopFs.Lib.Run
import BlobTopFs.SimpleFs.Calls
import BlobTopFs.SimpleFs.Super

/-!
# A create that fails

`monopoly_create` makes the blob, appends the entry and asks for a descriptor, in that order,
and takes nothing back. So it leaves everything as it was only where it fails before the first
of the three, because the name is there; every later failure leaves an entry behind, or ends the
process.
-/

namespace BlobTopFs

open Run

variable {g : Geometry}

/-- The descriptor stands for a file object with an open blob that was not there before. -/
def NewDescriptor (s s' : Fs g) (fd : Int) : Prop :=
  ∃ f v, s'.Resolves fd f v ∧ s.bs.blobs v.file.blob = none

/-- Directory and descriptor table, the blobs and the references to them are as they were. -/
structure Fs.Unchanged (s s' : Fs g) : Prop where
  workdir : s'.workdir = s.workdir
  fdtable : s'.fdtable = s.fdtable
  blobs : ∀ id, (s'.bs.blobs id).map Blob.openRef = (s.bs.blobs id).map Blob.openRef

/-- The create returns a new descriptor, or it returns -1 and has changed nothing. -/
def CreateAtomic (ans : CreateAnswer) (name : CStr) (s : Fs g) : Prop :=
  (∃ s' fd, monopolyCreate ans name s = some (s', fd) ∧ NewDescriptor s s' fd) ∨
    ∃ s', monopolyCreate ans name s = some (s', -1) ∧ s.Unchanged s'

/-- The allocator returns the memory that `add_dirent` needs for one more entry. -/
def SpdkfsDir.HasMemory (g : Geometry) (mem : DirentMem) (d : SpdkfsDir) : Prop :=
  let a := d.allocate g mem
  if a.2.dSize / g.ioUnit ≤ a.2.dDirentCount * sizeofDirent then mem.realloc.isSome = true
  else a.1.isSome = true

theorem addDirent_isSome_iff {mem : DirentMem} {id : BlobId} {name : CStr} {d : SpdkfsDir} :
    (addDirent g mem id name d).isSome = true ↔ d.HasMemory g mem := by
  unfold addDirent SpdkfsDir.HasMemory growDirents
  dsimp only
  split
  · simp
  · simp

/-! ## What fails and what does not -/

section Create

variable {ans : CreateAnswer} {name : CStr} {s s' : Fs g} {ret : Int}

/-- With no failure on the way the create returns what the table offers. -/
theorem monopolyCreate_of_offers (hinit : s.workdir.initialized = true)
    (hl : spdkfsDirLookup s.workdir name = -1) (he : ans.createErrno = 0) (he' : ans.openErrno = 0)
    (hmem : s.workdir.HasMemory g ans.mem) (hoff : s.fdtable.Offers) :
    ∃ s' fd, monopolyCreate ans name s = some (s', fd) ∧ fd ≠ -1 := by
  obtain ⟨t, fd, hfd, hne⟩ := hoff.getFd
  obtain ⟨dir, hdir⟩ : ∃ dir, addDirent g ans.mem ans.id name s.workdir = some dir :=
    Option.isSome_iff_exists.mp (addDirent_isSome_iff.mpr hmem)
  have hmade : ∃ c, blobCreate ans.createErrno ans.openErrno ans.id ans.content ans.garbage s.bs =
      some c := by
    rw [he, he']
    simp [blobCreate, spdkBsCreateBlob, spdkBsOpenBlob]
  obtain ⟨⟨bs, blob, ok⟩, hc⟩ := hmade
  obtain ⟨rfl, hopen, -⟩ := blobCreate_done he he' hc
  have hinstall : monopolyCreate ans name s =
      ({ s with
        bs := bs.setBlob ans.id
          ((Blob.fresh ans.content).opening.setFilePersistent (ans.record ans.id))
        workdir := dir } : Fs g).installFile ⟨ans.id, .own (ans.record ans.id), 0⟩ := by
    unfold monopolyCreate
    rw [hinit, if_neg (by decide), if_neg (not_not.mpr hl), hc]
    simp only [Option.bind_some, simpleFsCreate, hopen, Option.map_some, hdir]
    rfl
  exact ⟨_, fd, hinstall.trans (Fs.installFile_eq_some.mpr ⟨t, hfd, rfl⟩), hne⟩

/-- A descriptor that a create returns, when the blobstore has not failed it, is new. -/
theorem newDescriptor_of_done (hfresh : s.bs.blobs ans.id = none)
    (hl : spdkfsDirLookup s.workdir name = -1) (he : ans.createErrno = 0) (he' : ans.openErrno = 0)
    (h : monopolyCreate ans name s = some (s', ret)) (hret : ret ≠ -1) :
    NewDescriptor s s' ret := by
  rcases monopolyCreate_done he he' h with ⟨hfound, -⟩ | ⟨t, -, -, hblobs, ht, htable, -, hfiles⟩
  · exact absurd hl hfound
  · have hslot : s'.fdtable.file ret = some s.nextFile := by
      rw [htable]
      exact Fdtable.install_file ht hret s.nextFile
    refine ⟨s.nextFile, ⟨⟨ans.id, .own (ans.record ans.id), 0⟩, ans.newBlob, s'.bs.log⟩,
      ⟨hslot, Fs.openFile_eq_some.mpr ⟨?_, ?_, Nat.one_pos, rfl⟩⟩, hfresh⟩
    · rw [hfiles]
      exact Function.update_self ..
    · rw [hblobs]
      exact Function.update_self ..

/-- The blob pointer that a failed `blob_create` leaves is no new blob, if it is that of an open
one. -/
theorem blobCreate_failed {createErrno openErrno : Int} {id blob : BlobId} {content : Mem}
    {garbage : Option BlobId} {bs bs' : Blobstore g} {ok : Bool} {b : Blob g}
    (he : createErrno ≠ 0 ∨ openErrno ≠ 0)
    (h : blobCreate createErrno openErrno id content garbage bs = some (bs', blob, ok))
    (hb : bs'.opened blob = some b) : (bs.blobs blob).isSome = true := by
  obtain ⟨hb, href⟩ := Blobstore.opened_eq_some.mp hb
  by_cases hc : createErrno = 0
  · have ho : openErrno ≠ 0 := he.resolve_left (not_not.mpr hc)
    simp only [blobCreate, spdkBsCreateBlob, hc, ne_eq, not_true_eq_false, if_false,
      spdkBsOpenBlob, Blobstore.record_blobs, Blobstore.setBlob_self, ho, not_false_eq_true,
      if_true] at h
    obtain ⟨_, -, heq⟩ := Option.map_eq_some_iff.mp h
    cases heq
    simp only [Blobstore.record_blobs, Blobstore.setBlob_blobs] at hb
    -- the blob that was made has no reference yet
    split at hb
    · cases hb
      exact absurd href (Nat.lt_irrefl 0)
    · rw [hb]
      rfl
  · simp only [blobCreate, spdkBsCreateBlob, ne_eq, hc, not_false_eq_true, if_true] at h
    obtain ⟨_, -, heq⟩ := Option.map_eq_some_iff.mp h
    cases heq
    rw [Blobstore.record_blobs] at hb
    rw [hb]
    rfl

/-- A new descriptor was made without a failure. -/
theorem NewDescriptor.no_failure (h : monopolyCreate ans name s = some (s', ret))
    (hnew : NewDescriptor s s' ret) (hl : spdkfsDirLookup s.workdir name = -1) :
    ans.createErrno = 0 ∧ ans.openErrno = 0 ∧ s.workdir.HasMemory g ans.mem ∧
      s.fdtable.Offers := by
  obtain ⟨f, v, hres, hnone⟩ := hnew
  have hslot := hres.file
  have hne : ret ≠ -1 := by
    rintro rfl
    rw [Fdtable.file, if_neg (by omega)] at hslot
    cases hslot
  rcases monopolyCreate_cases h with ⟨hfound, -⟩ | ⟨bs, blob, ok, b, dir, t, -, hc, hb, hd, ht, rfl⟩
  · exact absurd hl hfound
  · have hobj : f = s.nextFile :=
      Option.some.inj (hslot.symm.trans (Fdtable.install_file ht hne s.nextFile))
    have hblob : v.file.blob = blob := by
      have hfile := (Fs.openFile_eq_some.mp hres.openFile).1
      rw [hobj] at hfile
      change Function.update s.files s.nextFile _ s.nextFile = _ at hfile
      rw [Function.update_self] at hfile
      exact (congrArg SpdkfsFile.blob (Option.some.inj hfile)).symm
    rw [hblob] at hnone
    refine ⟨?_, ?_, addDirent_isSome_iff.mp (by rw [hd]; rfl), Fdtable.Offers.of_getFd ht hne⟩
    · by_contra he
      have := blobCreate_failed (Or.inl he) hc hb
      rw [hnone] at this
      cases this
    · by_contra he
      have := blobCreate_failed (Or.inr he) hc hb
      rw [hnone] at this
      cases this

end Create

/-! ## Reachable states -/

/-- The directory that a session has loaded stays initialized. -/
theorem exec_initialized {findDir : FindDir} {ans : LoadAnswer} {superBlob : BlobId}
    {bs : Blobstore g} {s₀ s : Fs g} {calls : List FsCall}
    (hload : loadRoot ans superBlob bs = some s₀)
    (hrun : exec (fsStep findDir) s₀ calls = some s) : s.workdir.initialized = true := by
  refine exec_inv (I := fun s => s.workdir.initialized = true) (C := fun _ _ => True) ?_ ?_
    (eachStep_of_forall fun _ _ => trivial) hrun
  · intro s call s' hs _ h
    obtain ⟨ret, hcall⟩ := fsStep_eq_some.mp h
    rcases FsCall.run_workdir hcall with hw | ⟨_, _, _, -, -, hd⟩ | ⟨_, _, _, _, -, -, hd⟩
    · rw [hw]
      exact hs
    · obtain ⟨m, happ⟩ := addDirent_spec hd
      exact happ.initialized.trans hs
    · exact (removeDirent_spec hd).initialized.trans hs
  · obtain ⟨b, -, hload⟩ := Option.bind_eq_some_iff.mp hload
    obtain ⟨r, hr, rfl⟩ := Option.map_eq_some_iff.mp hload
    split at hr
    · obtain ⟨b', -, rfl⟩ := Option.map_eq_some_iff.mp hr
      rfl
    · obtain ⟨b', -, hr⟩ := Option.bind_eq_some_iff.mp hr
      obtain ⟨p, -, hr⟩ := Option.bind_eq_some_iff.mp hr
      obtain ⟨m, -, rfl⟩ := Option.map_eq_some_iff.mp hr
      rfl

/-- **Create is atomic.** In any state that a session reaches, a create returns a new descriptor
or returns -1 with everything as it was, exactly when the name is there, or neither the
blobstore nor the allocator fails it and the table has a slot to offer. -/
theorem create_atomic_iff {findDir : FindDir} {load : LoadAnswer} {superBlob : BlobId}
    {bs : Blobstore g} {s₀ s : Fs g} {calls : List FsCall}
    (hload : loadRoot load superBlob bs = some s₀)
    (hrun : exec (fsStep findDir) s₀ calls = some s) {ans : CreateAnswer} {name : CStr}
    (hfresh : s.bs.blobs ans.id = none) :
    CreateAtomic ans name s ↔ spdkfsDirLookup s.workdir name ≠ -1 ∨
      (ans.createErrno = 0 ∧ ans.openErrno = 0 ∧ s.workdir.HasMemory g ans.mem ∧
        s.fdtable.Offers) := by
  have hinit := exec_initialized hload hrun
  constructor
  · intro h
    by_cases hl : spdkfsDirLookup s.workdir name = -1
    · right
      rcases h with ⟨s', fd, hcreate, hnew⟩ | ⟨s', hcreate, hsame⟩
      · exact hnew.no_failure hcreate hl
      · -- the entry has been appended by the time a slot is asked for
        rcases monopolyCreate_cases hcreate with
          ⟨hfound, -⟩ | ⟨_, _, _, _, dir, t, -, -, -, hd, -, rfl⟩
        · exact absurd hl hfound
        · obtain ⟨m, happ⟩ := addDirent_spec hd
          have hcount := happ.count
          rw [show dir = s.workdir from hsame.workdir] at hcount
          omega
    · exact Or.inl hl
  -- a name that is there is refused before anything is touched
  · rintro (hfound | ⟨he, he', hmem, hoff⟩)
    · refine Or.inr ⟨s, ?_, ⟨rfl, rfl, fun _ => rfl⟩⟩
      unfold monopolyCreate
      rw [hinit, if_neg (by decide), if_pos hfound]
    · by_cases hl : spdkfsDirLookup s.workdir name = -1
      · obtain ⟨s', fd, hcreate, hne⟩ := monopolyCreate_of_offers hinit hl he he' hmem hoff
        exact Or.inl ⟨s', fd, hcreate, newDescriptor_of_done hfresh hl he he' hcreate hne⟩
      · refine Or.inr ⟨s, ?_, ⟨rfl, rfl, fun _ => rfl⟩⟩
        unfold monopolyCreate
        rw [hinit, if_neg (by decide), if_pos hl]

/-- A first create on a formatted device, and one of the same name after it, which fails. -/
theorem create_atomic_twice :
    CreateAtomic (.done 1) nameA (Fs.empty .malloc4k) ∧
      ∃ s, exec (fsStep fun _ _ => -1) (.empty .malloc4k) [.create (.done 1) nameA] = some s ∧
        (monopolyCreate (.done 2) nameA s).map Prod.snd = some (-1) ∧
        CreateAtomic (.done 2) nameA s := by
  have hload := loadRoot_formatted (g := .malloc4k) .done 0
  constructor
  · have hrun : exec (fsStep fun _ _ => -1) (Fs.empty .malloc4k) [] = some (.empty .malloc4k) := rfl
    have hmem : (Fs.empty .malloc4k).workdir.HasMemory .malloc4k (CreateAnswer.done 1).mem :=
      addDirent_isSome_iff.mp (show (addDirent .malloc4k _ 1 nameA _).isSome = true from rfl)
    have hoff : (Fs.empty .malloc4k).fdtable.Offers :=
      ⟨by decide, 0, by decide, rfl, fun _ => rfl⟩
    exact (create_atomic_iff hload hrun rfl).mpr (Or.inr ⟨rfl, rfl, hmem, hoff⟩)
  · have hfound : ((exec (fsStep fun _ _ => -1) (.empty .malloc4k) [.create (.done 1) nameA]).map
        fun s => ((monopolyCreate (.done 2) nameA s).map Prod.snd, spdkfsDirLookup s.workdir nameA,
          (s.bs.blobs 2).isNone)) = some (some (-1), 0, true) := by decide +kernel
    obtain ⟨s, hs, h⟩ := Option.map_eq_some_iff.mp hfound
    obtain ⟨hret, hl, hfresh⟩ : _ ∧ _ ∧ _ := by simpa only [Prod.mk.injEq] using h
    refine ⟨s, hs, hret, (create_atomic_iff hload hs (Option.isNone_iff_eq_none.mp hfresh)).mpr ?_⟩
    exact Or.inl (by omega)

/-- One file, opened as often as the table allows. -/
def fillTable : List FsCall :=
  .create (.done 1) nameA :: List.replicate 255 (.openName 0 nameA)

/-- Then a second file gets no descriptor, but its entry stays. -/
theorem create_not_atomic_full :
    ∃ s, exec (fsStep fun _ _ => -1) (.empty .malloc4k) fillTable = some s ∧
      ¬ CreateAtomic (.done 2) ⟨[98], by decide⟩ s := by
  have hrun : ((exec (fsStep fun _ _ => -1) (.empty .malloc4k) fillTable).bind fun s =>
      (monopolyCreate (.done 2) ⟨[98], by decide⟩ s).map fun r =>
        (r.2, s.workdir.count, r.1.workdir.count)) = some (-1, 1, 2) := by decide +kernel
  obtain ⟨s, hs, h⟩ := Option.bind_eq_some_iff.mp hrun
  obtain ⟨⟨s', fd⟩, hcreate, heq⟩ := Option.map_eq_some_iff.mp h
  simp only [Prod.mk.injEq] at heq
  obtain ⟨rfl, hcount, hcount'⟩ := heq
  refine ⟨s, hs, ?_⟩
  rintro (⟨t, fd, h, f, v, hres, -⟩ | ⟨t, h, hsame⟩)
  · cases hcreate.symm.trans h
    cases hres.file
  · cases hcreate.symm.trans h
    rw [hsame.workdir, hcount] at hcount'
    cases hcount'

end BlobTopFs
