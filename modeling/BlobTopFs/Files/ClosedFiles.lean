import BlobTopFs.Directory.Persistence
import BlobTopFs.Files.Isolation

/-!
# Files between sessions

A blob whose last reference has been dropped has its metadata on disk, whatever was done to
it before: the last close of a file sets the attribute, and closing the blob syncs it and the number
of clusters. So the next session finds it as it was. Of a file that is still open when the process
ends it finds the clusters and the record of the last sync, and no clusters that came after it.
-/

namespace BlobTopFs

open Machine Run

variable {g : Geometry}

/-! ## Closed blobs are on disk -/

/-- Without references, the metadata is that on disk. -/
def Blob.OnDisk (b : Blob g) : Prop :=
  b.openRef = 0 → b.disk = b.xattrs ∧ b.xattrDirty = false ∧ b.diskClusters = b.clusters

def Blobstore.OnDisk (bs : Blobstore g) : Prop := ∀ id b, bs.blobs id = some b → b.OnDisk

section Blobs

variable {b : Blob g} {bs bs' : Blobstore g} {id : BlobId}

theorem Blob.onDisk_of_pos (h : 0 < b.openRef) : b.OnDisk :=
  fun h0 => absurd h0 (Nat.ne_of_gt h)

theorem Blob.onDisk_fresh (content : Mem) : (Blob.fresh (g := g) content).OnDisk :=
  fun _ => ⟨rfl, rfl, rfl⟩

/-- A close of a blob with an attribute that has been set. -/
theorem Blob.onDisk_closing (hdirty : b.xattrDirty = true) : b.closing.OnDisk :=
  fun _ => ⟨if_pos hdirty, rfl, rfl⟩

theorem Blobstore.OnDisk.update (h : bs.OnDisk) (hb : b.OnDisk)
    (hblobs : bs'.blobs = Function.update bs.blobs id (some b)) : bs'.OnDisk := by
  intro id' b' hb'
  rw [hblobs] at hb'
  rcases PartialMap.update_some_cases hb' with ⟨-, rfl⟩ | ⟨-, hold⟩
  · exact hb
  · exact h id' b' hold

theorem Blobstore.OnDisk.delete (h : bs.OnDisk)
    (hblobs : bs'.blobs = Function.update bs.blobs id none) : bs'.OnDisk := by
  intro id' b' hb'
  rw [hblobs] at hb'
  exact h id' b' (PartialMap.update_none_eq_some hb').2

theorem Blobstore.OnDisk.congr (h : bs.OnDisk) (hblobs : bs'.blobs = bs.blobs) :
    bs'.OnDisk := by
  intro id b hb
  rw [hblobs] at hb
  exact h id b hb

/-- A create changes no blob but the new one. -/
theorem blobCreate_blobs {createErrno openErrno : Int} {content : Mem}
    {garbage : Option BlobId} {blob : BlobId} {ok : Bool}
    (hc : blobCreate createErrno openErrno id content garbage bs = some (bs', blob, ok)) :
    bs'.blobs = bs.blobs ∨
      ∃ b : Blob g, b.OnDisk ∧ bs'.blobs = Function.update bs.blobs id (some b) := by
  by_cases he : createErrno = 0
  · by_cases ho : openErrno = 0
    · obtain ⟨-, -, hblobs⟩ := blobCreate_done he ho hc
      exact Or.inr ⟨_, Blob.onDisk_of_pos (Nat.succ_pos _), hblobs⟩
    · simp only [blobCreate, spdkBsCreateBlob, he, ne_eq, not_true_eq_false, if_false,
        spdkBsOpenBlob, Blobstore.record_blobs, Blobstore.setBlob_self, ho, not_false_eq_true,
        if_true] at hc
      obtain ⟨_, -, heq⟩ := Option.map_eq_some_iff.mp hc
      cases heq
      exact Or.inr ⟨_, Blob.onDisk_fresh content, rfl⟩
  · simp only [blobCreate, spdkBsCreateBlob, ne_eq, he, not_false_eq_true, if_true] at hc
    obtain ⟨_, -, heq⟩ := Option.map_eq_some_iff.mp hc
    cases heq
    exact Or.inl rfl

theorem blobCreate_onDisk {createErrno openErrno : Int} {content : Mem}
    {garbage : Option BlobId} {blob : BlobId} {ok : Bool} (h : bs.OnDisk)
    (hc : blobCreate createErrno openErrno id content garbage bs = some (bs', blob, ok)) :
    bs'.OnDisk := by
  rcases blobCreate_blobs hc with hblobs | ⟨b, hb, hblobs⟩
  · exact h.congr hblobs
  · exact h.update hb hblobs

theorem blobCreate_other {createErrno openErrno : Int} {content : Mem}
    {garbage : Option BlobId} {blob id' : BlobId} {ok : Bool} (hne : id' ≠ id)
    (hc : blobCreate createErrno openErrno id content garbage bs = some (bs', blob, ok)) :
    bs'.blobs id' = bs.blobs id' := by
  rcases blobCreate_blobs hc with hblobs | ⟨b, -, hblobs⟩
  · rw [hblobs]
  · rw [hblobs, Function.update_of_ne hne]

end Blobs

/-! ## The calls -/

section Calls

variable {findDir : FindDir} {s s' : Fs g} {call : FsCall} {ret : Int}

/-- What is put back after a transfer is open. -/
theorem Fs.putFile_onDisk (f : FileId) {v : OpenFile g} (h : s.bs.OnDisk)
    (href : 0 < v.blob.openRef) : (s.putFile f v).bs.OnDisk :=
  h.update (Blob.onDisk_of_pos href) rfl

theorem FsCall.run_onDisk (h : s.bs.OnDisk) (hrun : call.run findDir s = some (s', ret)) :
    s'.bs.OnDisk := by
  cases call with
  | create ans name =>
      rcases monopolyCreate_cases hrun with
        ⟨-, rfl, -⟩ | ⟨bs, blob, ok, b, dir, t, -, hc, hb, -, -, rfl⟩
      · exact h
      · have href : 0 < (b.setFilePersistent (ans.record blob)).openRef :=
          (Blobstore.opened_eq_some.mp hb).2
        exact (blobCreate_onDisk h hc).update (Blob.onDisk_of_pos href) rfl
  | openName openErrno name =>
      rcases monopolyOpen_cases hrun with ⟨-, rfl, -⟩ | ⟨i, -, b, t, -, -, -, hblobs, -⟩
      · exact h
      · exact h.update (Blob.onDisk_of_pos (Nat.succ_pos _)) hblobs
  | close closeErrno fd =>
      obtain ⟨f, file, -, -, -, -, -, -, -, hblobs⟩ := monopolyClose_cases hrun
      rcases hblobs with ⟨-, hblobs⟩ | ⟨v, hv, hblobs⟩
      · exact h.congr hblobs
      · have href : 0 < v.storePersist.blob.openRef := (Fs.openFile_eq_some.mp hv).2.2.1
        refine h.update ?_ hblobs
        split
        · exact Blob.onDisk_closing rfl
        · exact Blob.onDisk_of_pos href
  | lseek fd offset whence =>
      obtain ⟨f, file, -, -, -, rfl⟩ := Fs.monopolyLseek_cases hrun
      exact h
  | read io fd buf nbytes registered =>
      obtain ⟨⟨s'', buf', ret'⟩, hread, heq⟩ := Option.map_eq_some_iff.mp hrun
      cases heq
      obtain ⟨f, v, r, hres, hr, rfl, -, -⟩ := Fs.monopolyRead_cases hread
      obtain ⟨k, -, hadv⟩ := monopolyReadFile_composes Advanced.composes
        (fun _ _ _ _ _ h => simpleFsRead_advanced h) hr
      exact Fs.putFile_onDisk f h (hadv.openRef ▸ hres.openRef_pos)
  | write io fd buf nbytes registered =>
      obtain ⟨⟨s'', buf', ret'⟩, hwrite, heq⟩ := Option.map_eq_some_iff.mp hrun
      cases heq
      obtain ⟨f, v, r, hres, hr, rfl, -, -⟩ := Fs.monopolyWrite_cases hwrite
      obtain ⟨k, -, hadv⟩ := monopolyWriteFile_composes Advanced.composes
        (fun _ _ _ _ _ h => simpleFsWrite_advanced h) hr
      exact Fs.putFile_onDisk f h (hadv.openRef ▸ hres.openRef_pos)
  | stat openErrno name =>
      obtain ⟨⟨s'', st, ret'⟩, hstat, heq⟩ := Option.map_eq_some_iff.mp hrun
      cases heq
      obtain ⟨-, -, -, -, ⟨hblobs, -⟩ | ⟨-, b, -, hblobs⟩⟩ := monopolyStat_cases hstat
      · exact h.congr hblobs
      · exact h.update (Blob.onDisk_of_pos (Nat.succ_pos _)) hblobs
  | unlink deleteErrno undef name =>
      rcases monopolyUnlink_cases hrun with ⟨-, rfl, -⟩ | ⟨i, -, -, hbs, -⟩
      · exact h
      · rw [hbs]
        rcases blobUnlink_cases deleteErrno (s.workdir.direntId i) s.bs with
          ⟨hblobs, -⟩ | ⟨-, -, hblobs⟩
        · exact h.congr hblobs
        · exact h.delete hblobs

/-- The call does not get to the blob by a name. -/
def FsCall.Spares (findDir : FindDir) (id : BlobId) (s : Fs g) : FsCall → Prop
  | .create ans _ => s.bs.blobs ans.id = none
  | .openName _ name => ∀ i : Nat, spdkfsDirLookup s.workdir name = i → s.workdir.direntId i ≠ id
  | .stat _ name => findDir name s.workdir ≠ -1 → statId findDir name s ≠ id
  | .unlink _ _ name => ∀ i : Nat, findDir name s.workdir = i → s.workdir.direntId i ≠ id
  | .close .. | .lseek .. | .read .. | .write .. => True

/-- A closed blob is safe from every call on a descriptor: none of them is on an open file of
that blob. -/
theorem FsCall.run_spares_closed {id : BlobId} {b : Blob g} (hb : s.bs.blobs id = some b)
    (href : b.openRef = 0) (hcall : call.Spares findDir id s)
    (hrun : call.run findDir s = some (s', ret)) : s'.bs.blobs id = some b := by
  have hopen : ∀ f v, s.openFile f = some v → id ≠ v.file.blob := by
    rintro f v hv rfl
    obtain ⟨-, hb', hpos, -⟩ := Fs.openFile_eq_some.mp hv
    cases hb.symm.trans hb'
    exact absurd hpos (Nat.not_lt.mpr (Nat.le_of_eq href))
  cases call with
  | create ans name =>
      rcases monopolyCreate_cases hrun with
        ⟨-, rfl, -⟩ | ⟨bs, blob, ok, b', dir, t, -, hc, hb', -, -, rfl⟩
      · exact hb
      · have hkept : bs.blobs id = some b := by
          rw [blobCreate_other ?_ hc, hb]
          rintro rfl
          cases hb.symm.trans hcall
        -- the blob the file object is made on is an open one
        have hne : id ≠ blob := by
          rintro rfl
          obtain ⟨hb', hpos⟩ := Blobstore.opened_eq_some.mp hb'
          cases hkept.symm.trans hb'
          exact absurd hpos (Nat.not_lt.mpr (Nat.le_of_eq href))
        exact (Blobstore.setBlob_of_ne _ _ hne).trans hkept
  | openName openErrno name =>
      rcases monopolyOpen_cases hrun with ⟨-, rfl, -⟩ | ⟨i, -, b', t, hl, -, -, hblobs, -⟩
      · exact hb
      · rw [hblobs, Function.update_of_ne (hcall i hl).symm, hb]
  | close closeErrno fd =>
      obtain ⟨f, file, -, hfile, -, -, -, -, -, hblobs⟩ := monopolyClose_cases hrun
      rcases hblobs with ⟨-, hblobs⟩ | ⟨v, hv, hblobs⟩
      · rw [hblobs, hb]
      · have hvfile := (Fs.openFile_eq_some.mp hv).1
        obtain rfl : v.file = file := Option.some.inj (hvfile.symm.trans hfile)
        rw [hblobs, Function.update_of_ne (hopen f v hv), hb]
  | lseek fd offset whence =>
      obtain ⟨f, file, -, -, -, rfl⟩ := Fs.monopolyLseek_cases hrun
      exact hb
  | read io fd buf nbytes registered =>
      obtain ⟨⟨s'', buf', ret'⟩, hread, heq⟩ := Option.map_eq_some_iff.mp hrun
      cases heq
      obtain ⟨f, v, r, hres, hr, rfl, -, -⟩ := Fs.monopolyRead_cases hread
      obtain ⟨k, -, hadv⟩ := monopolyReadFile_composes Advanced.composes
        (fun _ _ _ _ _ h => simpleFsRead_advanced h) hr
      have hne := hopen f v hres.openFile
      rw [← hadv.fileBlob] at hne
      exact (Function.update_of_ne hne ..).trans hb
  | write io fd buf nbytes registered =>
      obtain ⟨⟨s'', buf', ret'⟩, hwrite, heq⟩ := Option.map_eq_some_iff.mp hrun
      cases heq
      obtain ⟨f, v, r, hres, hr, rfl, -, -⟩ := Fs.monopolyWrite_cases hwrite
      obtain ⟨k, -, hadv⟩ := monopolyWriteFile_composes Advanced.composes
        (fun _ _ _ _ _ h => simpleFsWrite_advanced h) hr
      have hne := hopen f v hres.openFile
      rw [← hadv.fileBlob] at hne
      exact (Function.update_of_ne hne ..).trans hb
  | stat openErrno name =>
      obtain ⟨⟨s'', st, ret'⟩, hstat, heq⟩ := Option.map_eq_some_iff.mp hrun
      cases heq
      obtain ⟨-, -, -, -, ⟨hblobs, -⟩ | ⟨hfound, b', -, hblobs⟩⟩ := monopolyStat_cases hstat
      · rw [hblobs, hb]
      · rw [hblobs, Function.update_of_ne (hcall hfound).symm, hb]
  | unlink deleteErrno undef name =>
      rcases monopolyUnlink_cases hrun with ⟨-, rfl, -⟩ | ⟨i, hi, -, hbs, -⟩
      · exact hb
      · rw [hbs]
        rcases blobUnlink_cases deleteErrno (s.workdir.direntId i) s.bs with
          ⟨hblobs, -⟩ | ⟨-, -, hblobs⟩
        · rw [hblobs, hb]
        · rw [hblobs, Function.update_of_ne (hcall i hi).symm, hb]

end Calls

/-! ## Between two sessions -/

/-- What the next session finds of a blob: all of it, if it was closed, and else the clusters and
attributes of the last sync, with the bytes that these clusters held in the end. -/
structure Blob.Back (b b' : Blob g) : Prop where
  closed : b.openRef = 0 → b' = b
  clusters : b'.clusters = b.diskClusters
  data : ∀ q < b'.capacity, b'.data q = b.data q
  xattrs : b'.xattrs = b.disk
  openRef : b'.openRef = 0

theorem Blob.OnDisk.back {b : Blob g} (h : b.OnDisk) (lost : Mem) : b.Back (b.loaded 0 lost) := by
  refine ⟨fun h0 => ?_, rfl, fun q hq => Blob.loaded_data hq, rfl, rfl⟩
  obtain ⟨hdisk, hclean, hclusters⟩ := h h0
  have hdata : (b.loaded 0 lost).data = b.data := by
    funext q
    refine if_neg fun hq => ?_
    rw [Blob.diskCapacity, hclusters] at hq
    exact absurd hq.2 (Nat.not_lt.mpr hq.1)
  cases b
  dsimp only [Blob.loaded] at h0 hdisk hclean hclusters hdata ⊢
  subst h0 hdisk hclean hclusters
  rw [hdata]

/-- What is loaded is as it is on disk, whatever the last session left. -/
theorem loadSession_onDisk {ans : LoadAnswer} {superBlob : BlobId} {bs : Blobstore g} {s : Fs g}
    (h : loadSession ans superBlob bs = some s) : s.bs.OnDisk := by
  have hreload : (bs.reload superBlob ans.lost).OnDisk := by
    intro id b hb
    obtain ⟨b', -, rfl⟩ := Option.map_eq_some_iff.mp hb
    exact fun _ => ⟨rfl, rfl, rfl⟩
  obtain ⟨b, hb, h⟩ := Option.bind_eq_some_iff.mp h
  obtain ⟨r, hr, rfl⟩ := Option.map_eq_some_iff.mp h
  split at hr
  · obtain ⟨b', hb', rfl⟩ := Option.map_eq_some_iff.mp hr
    have href : ∀ p, 0 < (b'.setDirPersistent p).openRef :=
      fun _ => (Blobstore.opened_eq_some.mp hb').2
    exact hreload.update (Blob.onDisk_of_pos (href _)) rfl
  · obtain ⟨b', -, hr⟩ := Option.bind_eq_some_iff.mp hr
    obtain ⟨p, -, hr⟩ := Option.bind_eq_some_iff.mp hr
    obtain ⟨m, -, rfl⟩ := Option.map_eq_some_iff.mp hr
    exact hreload

/-- The directory close touches the blob of the directory. -/
theorem simpleDirClose_other {ans : DirCloseAnswer} {bs bs' : Blobstore g} {d : SpdkfsDir}
    {id : BlobId} (hid : id ≠ d.blob) (h : simpleDirClose ans bs d = some bs') :
    bs'.blobs id = bs.blobs id := by
  have hclose : ∀ bs₁ : Blobstore g,
      (blobClose ans.closeErrno d.blob bs₁).1.blobs id = bs₁.blobs id := by
    intro bs₁
    rcases blobClose_cases ans.closeErrno d.blob bs₁ with ⟨hblobs, -⟩ | ⟨-, b, -, hblobs⟩
    · rw [hblobs]
    · rw [hblobs, Function.update_of_ne hid]
  unfold simpleDirClose at h
  split at h
  · obtain ⟨b, -, h⟩ := Option.bind_eq_some_iff.mp h
    obtain ⟨r, -, rfl⟩ := Option.map_eq_some_iff.mp h
    exact (hclose _).trans (Blobstore.setBlob_of_ne _ _ hid)
  · cases h
    exact hclose bs

section Sessions

variable {findDir : FindDir} {superBlob : BlobId} {bs bs' : Blobstore g} {x : Session} {t : Fs g}

theorem exec_onDisk {s t : Fs g} {calls : List FsCall} (h : s.bs.OnDisk)
    (hrun : exec (fsStep findDir) s calls = some t) : t.bs.OnDisk := by
  refine exec_inv (I := fun s => s.bs.OnDisk) (C := fun _ _ => True) ?_ h
    (eachStep_of_forall fun _ _ => trivial) hrun
  intro s call s' hs _ hstep
  obtain ⟨ret, hrun⟩ := fsStep_eq_some.mp hstep
  exact FsCall.run_onDisk hs hrun

/-- The working directory stays that of the super blob. -/
theorem exec_root {s t : Fs g} {calls : List FsCall}
    (hrun : exec (fsStep findDir) s calls = some t) : t.workdir.blob = s.workdir.blob := by
  refine exec_inv (I := fun u => u.workdir.blob = s.workdir.blob) (C := fun _ _ => True) ?_ rfl
    (eachStep_of_forall fun _ _ => trivial) hrun
  intro u call u' hu _ hstep
  obtain ⟨ret, hrun⟩ := fsStep_eq_some.mp hstep
  exact (FsCall.run_root hrun).trans hu

/-- **Closed files survive.** Whatever a session does and however SPDK answers it, the next one
finds each blob but the super blob that nothing had open in the end as it was, with its clusters,
bytes and record; and of one that was open, what the last sync of its metadata covers. -/
theorem closed_files_survive (hrun : x.run findDir superBlob bs = some (t, bs'))
    {ans : LoadAnswer} {s : Fs g} (hload : loadSession ans superBlob bs' = some s) {id : BlobId}
    (hid : id ≠ superBlob) : Option.Rel Blob.Back (t.bs.blobs id) (s.bs.blobs id) := by
  obtain ⟨s₀, hs₀, hcalls, hclose⟩ := Session.run_eq_some.mp hrun
  obtain ⟨hroot, -, -, -⟩ := loadRoot_spec hs₀
  obtain ⟨-, -, -, hloaded⟩ := loadRoot_spec hload
  have honDisk := exec_onDisk (loadSession_onDisk hs₀) hcalls
  have hdir : id ≠ t.workdir.blob := by
    rw [exec_root hcalls, hroot]
    exact hid
  have hback : s.bs.blobs id = (t.bs.blobs id).map fun b => b.loaded 0 (ans.lost id) := by
    rw [hloaded id hid, ← simpleDirClose_other hdir hclose]
    simp only [Blobstore.reload, if_neg hid]
  rw [hback]
  cases hb : t.bs.blobs id with
  | none => exact .none
  | some b => exact .some ((honDisk id b hb).back _)

end Sessions

/-- A session that writes to a file and closes it, and leaves another one open that it has written
to, after a resize of which the sync has failed. -/
def leftOpen : Session where
  load := .done
  calls := [.create (.done 1) nameA, .write (fun _ => .done) 0 (fun _ => 65) 4096 false,
    .close 0 0, .create (.done 2) nameB,
    .write (fun _ => ⟨⟨0, -5⟩, .done⟩) 0 (fun _ => 66) 4096 false]
  close := .done

/-- The first file comes back, and the second without its cluster. -/
theorem leftOpen_survives :
    ∃ t bs' s, leftOpen.run (g := .malloc4k) (fun n d => spdkfsDirLookup d n) 0
        (.formatted 0) = some (t, bs') ∧ loadSession .done 0 bs' = some s ∧
      ((t.bs.blobs 1).map (fun b => (b.openRef, b.clusters)) = some (0, 1) ∧
        Option.Rel Blob.Back (t.bs.blobs 1) (s.bs.blobs 1)) ∧
      (t.bs.blobs 2).map (fun b => (b.openRef, b.clusters)) = some (1, 1) ∧
      (s.bs.blobs 2).map (fun b => b.clusters) = some 0 ∧
      Option.Rel Blob.Back (t.bs.blobs 2) (s.bs.blobs 2) := by
  obtain ⟨t, bs', s, hrun, hload, hclosed, hopen, hlost⟩ : ∃ t bs' s,
      leftOpen.run (g := .malloc4k) (fun n d => spdkfsDirLookup d n) 0 (.formatted 0) =
          some (t, bs') ∧
        loadSession .done 0 bs' = some s ∧
        (t.bs.blobs 1).map (fun b => (b.openRef, b.clusters)) = some (0, 1) ∧
        (t.bs.blobs 2).map (fun b => (b.openRef, b.clusters)) = some (1, 1) ∧
        (s.bs.blobs 2).map (fun b => b.clusters) = some 0 :=
    ⟨_, _, _, rfl, rfl, rfl, rfl, rfl⟩
  have hback := fun {id} (hid : id ≠ 0) => closed_files_survive hrun hload hid
  exact ⟨t, bs', s, hrun, hload, ⟨hclosed, hback (by decide)⟩, hopen, hlost, hback (by decide)⟩

end BlobTopFs
