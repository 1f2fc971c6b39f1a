import BlobTopFs.Lib.PartialMap
import BlobTopFs.Lib.Run
import BlobTopFs.SimpleFs.Calls
import BlobTopFs.SimpleFs.Super

/-!
# What a session leaves on disk

`simple_dir_close` writes the directory only if it is marked dirty, and of the two operations
that change it only `add_dirent` marks it. A session that has added an entry is saved as a
whole, removals included; one that has only removed entries is forgotten, and the next session
finds them again.
-/

namespace BlobTopFs

open Machine Run KeyTable PartialMap

variable {g : Geometry}

/-! ## Sessions -/

/-- One life of the process: the answers while loading, the calls, and the answers while
closing the directory. -/
structure Session where
  load : LoadAnswer
  calls : List FsCall
  close : DirCloseAnswer

/-- A session from loading to unloading: the file system when it is unloaded, and the
blobstore that leaves. -/
def Session.run (findDir : FindDir) (superBlob : BlobId) (bs : Blobstore g) (x : Session) :
    Option (Fs g × Blobstore g) :=
  (loadSession x.load superBlob bs).bind fun s =>
    (exec (fsStep findDir) s x.calls).bind fun t =>
      (simpleDirClose x.close t.bs t.workdir).map fun bs' => (t, bs')

def sessionStep (findDir : FindDir) (superBlob : BlobId) (bs : Blobstore g) (x : Session) :
    Option (Blobstore g) :=
  (x.run findDir superBlob bs).map Prod.snd

/-- The directory is read without an error, into memory that was there to be had. -/
structure LoadAnswer.NoError (ans : LoadAnswer) : Prop where
  io : ans.io.bserrno = 0
  mem : ans.mem.isSome

structure DirCloseAnswer.NoError (ans : DirCloseAnswer) : Prop where
  resize : ans.resize.resizeErrno = 0
  sync : ans.resize.syncErrno = 0
  io : ans.io.bserrno = 0
  close : ans.closeErrno = 0

/-- The calls of a session. -/
def FsCall.OnNames : FsCall → Prop
  | .create .. | .openName .. | .close .. | .unlink .. => True
  | _ => False

/-- A session that comes to its end without a blobstore error, a full device being one. -/
structure Session.Legal (findDir : FindDir) (superBlob : BlobId) (bs : Blobstore g)
    (x : Session) : Prop where
  load : x.load.NoError
  calls : ∀ s, loadSession x.load superBlob bs = some s →
    EachStep (fsStep findDir) (fun s call => call.OnNames ∧ call.NoError s) s x.calls
  close : x.close.NoError
  ends : ∃ t bs', x.run findDir superBlob bs = some (t, bs') ∧
    t.workdir.size ≤ g.totalClusters * g.clusterSize

/-- The same number of entries, with the same names and ids. -/
structure SpdkfsDir.Same (d d' : SpdkfsDir) : Prop where
  count : d'.count = d.count
  entries : ∀ i < d.count, SameDirent d.dirents i d'.dirents i

/-- The next session finds the directory as this one had it. -/
def Session.Persists (findDir : FindDir) (superBlob : BlobId) (bs : Blobstore g)
    (x : Session) : Prop :=
  ∀ t bs', x.run findDir superBlob bs = some (t, bs') → ∀ ans : LoadAnswer, ans.NoError →
    ∃ s, loadSession ans superBlob bs' = some s ∧ t.workdir.Same s.workdir

/-- The call appends an entry. -/
def FsCall.Appends (s : Fs g) : FsCall → Prop
  | .create _ name => spdkfsDirLookup s.workdir name = -1
  | _ => False

/-- The call removes an entry. -/
def FsCall.Removes (s : Fs g) : FsCall → Prop
  | .unlink _ _ name => spdkfsDirLookup s.workdir name ≠ -1
  | _ => False

/-- Some call of the session appends an entry, or none removes one. -/
def Session.Saves (findDir : FindDir) (superBlob : BlobId) (bs : Blobstore g) (x : Session) :
    Prop :=
  ∀ s, loadSession x.load superBlob bs = some s →
    SomeStep (fsStep findDir) (fun s call => call.Appends s) s x.calls ∨
      EachStep (fsStep findDir) (fun s call => ¬ call.Removes s) s x.calls

/-! ## The directory on disk -/

/-- On disk the blob holds the directory `d`: it has no clusters and `d` is empty, or its record
counts the entries of `d` and its bytes are these. -/
structure Blob.HoldsDir (b : Blob g) (d : SpdkfsDir) : Prop where
  empty : b.diskClusters = 0 → d.count = 0
  stored : b.diskClusters ≠ 0 → ∃ p, b.disk.dirPersistent = some p ∧ p.dDirentCount = d.count ∧
    SpdkfsDir.Sized g { d with dirPersist := p } ∧ p.dSize ≤ b.diskCapacity ∧
    ∀ i < d.count, SameDirent d.dirents i b.data i

/-- The super blob holds the directory, and no entry names the super blob. -/
structure Blobstore.Keeps (superBlob : BlobId) (bs : Blobstore g) (d : SpdkfsDir) : Prop where
  blob : ∃ b, bs.blobs superBlob = some b ∧ b.HoldsDir d
  apart : ∀ i < d.count, d.direntId i ≠ superBlob

/-- A session in progress: the directory is that of the super blob, which has one reference
and which nothing else refers to. -/
structure Fs.Rooted (superBlob : BlobId) (b : Blob g) (s : Fs g) : Prop where
  root : s.workdir.blob = superBlob
  sized : s.workdir.Sized g
  super : s.bs.blobs superBlob = some b
  entries : ∀ i < s.workdir.count, s.workdir.direntId i ≠ superBlob
  objects : ∀ f file, s.files f = some file → file.blob ≠ superBlob

/-! ## Loading -/

/-- The entries, read from a blob that has their bytes. -/
theorem read_entries {ans : IoAnswer} {id : BlobId} {b : Blob g} {d : SpdkfsDir} {m : Mem}
    (hg : sizeofDirent ≤ g.ioUnit) (hs : d.Sized g) (hcap : d.size ≤ b.capacity)
    (hio : ans.bserrno = 0) {i : Nat} (hi : i < d.count) :
    SameDirent b.data i (genericBlobIo ans id b d.size 0 m true).buffer i := by
  have hfits := (hs.fits hg).inside hi
  have hlt := b.capacity_lt
  have hpos : 0 < d.size := Nat.lt_of_lt_of_le (by decide) (Nat.le_of_add_left_le hfits)
  have hok := (ioBlob_read_ok_iff ans id b m (Nat.dvd_zero _) (by decide) hs.dvd hpos
    (by omega)).mpr ⟨by rwa [Nat.zero_add], hio⟩
  have hbuf := ioBlob_read_buffer (Nat.dvd_zero _) (by decide) hs.dvd hpos (by omega) hok
  intro q hq
  refine (congrFun hbuf _).trans ?_
  rw [Mem.write_in (Nat.zero_le _) (by omega), Mem.shift_apply, Nat.sub_zero, Nat.zero_add]

/-- A session that has just been loaded: the directory is `d` and not dirty, and if the super
blob is closed as it is, it holds that directory. -/
structure Fs.Loaded (superBlob : BlobId) (b : Blob g) (d : SpdkfsDir) (s : Fs g) : Prop
    extends s.Rooted superBlob b where
  ref : b.openRef = 1
  same : d.Same s.workdir
  clean : s.workdir.dirty = false
  holds : b.closing.HoldsDir s.workdir

theorem reload_opened {superBlob : BlobId} {lost : BlobId → Mem} {bs : Blobstore g} {b : Blob g}
    (hb : bs.blobs superBlob = some b) :
    (bs.reload superBlob lost).opened superBlob = some (b.loaded 1 (lost superBlob)) := by
  rw [Blobstore.opened_eq_some]
  simp [Blobstore.reload, hb, Blob.loaded]

/-- A super blob without clusters gets an empty directory. -/
theorem load_of_empty {ans : LoadAnswer} {superBlob : BlobId} {bs : Blobstore g} {b : Blob g}
    {d : SpdkfsDir} (hb : bs.blobs superBlob = some b) (hc : b.diskClusters = 0)
    (hd : d.count = 0) :
    ∃ s b, loadSession ans superBlob bs = some s ∧ s.Loaded superBlob b d := by
  have hc' : (b.loaded 1 (ans.lost superBlob)).clusters = 0 := hc
  simp only [loadSession, loadRoot, reload_opened hb, Option.bind_some, if_pos hc',
    simpleDirCreate, Option.map_some]
  refine ⟨_, _, rfl, ⟨rfl, ⟨0, (Nat.zero_mul _).symm, Nat.le_refl _⟩, Function.update_self ..,
    fun i hi => absurd hi (Nat.not_lt_zero i),
    fun _ _ hf => absurd hf.symm (Option.some_ne_none _)⟩, rfl,
    ⟨hd.symm, fun i hi => ?_⟩, rfl, ⟨fun _ => rfl, fun hne => absurd hc hne⟩⟩
  omega

/-- Any other is read. -/
theorem load_of_stored {ans : LoadAnswer} {superBlob : BlobId} {bs : Blobstore g} {b : Blob g}
    {d : SpdkfsDir} (hg : sizeofDirent ≤ g.ioUnit) (hb : bs.blobs superBlob = some b)
    (hc : b.diskClusters ≠ 0) (hdir : b.HoldsDir d)
    (hapart : ∀ i < d.count, d.direntId i ≠ superBlob) (hans : ans.NoError) :
    ∃ s b, loadSession ans superBlob bs = some s ∧ s.Loaded superBlob b d := by
  obtain ⟨p, hp, hcount, ⟨k, hk, hle⟩, hcap, hdata⟩ := hdir.stored hc
  obtain ⟨m, hm⟩ := Option.isSome_iff_exists.mp hans.mem
  obtain ⟨b', hb'⟩ : ∃ b', b' = b.loaded 1 (ans.lost superBlob) := ⟨_, rfl⟩
  have hc' : b'.clusters ≠ 0 := hb' ▸ hc
  have hcap' : p.dSize ≤ b'.capacity := hb' ▸ hcap
  have hxattr : b'.xattrs.dirPersistent = some p := hb' ▸ hp
  -- the entries are within the clusters on disk
  have hkept : ∀ i < d.count, SameDirent d.dirents i b'.data i := by
    intro i hi
    have hfits := (SpdkfsDir.Sized.fits (d := { d with dirPersist := p }) ⟨k, hk, hle⟩ hg).inside
      (show i < p.dDirentCount from hcount.symm ▸ hi)
    have hsize : SpdkfsDir.size { d with dirPersist := p } = p.dSize := rfl
    intro q hq
    rw [hb', Blob.loaded_data (by omega)]
    exact hdata i hi q hq
  have hsame : ∀ i < d.count, SameDirent d.dirents i
      (genericBlobIo ans.io superBlob b' p.dSize 0 m true).buffer i := fun i hi =>
    (hkept i hi).trans (read_entries (d := { d with dirPersist := p }) hg
      ⟨k, hk, hle⟩ hcap' hans.io (show i < p.dDirentCount from hcount.symm ▸ hi))
  simp only [loadSession, loadRoot, reload_opened hb, ← hb', Option.bind_some, if_neg hc',
    simpleDirRead, hxattr, hm, Option.map_some]
  refine ⟨_, b', rfl, ⟨rfl, ⟨k, hk, hle⟩, ?_, ?_,
    fun _ _ hf => absurd hf.symm (Option.some_ne_none _)⟩, hb' ▸ rfl,
    ⟨hcount, hsame⟩, rfl,
    ⟨fun h => absurd h hc', fun _ => ⟨p, hb' ▸ hp, rfl, ⟨k, hk, hle⟩, hcap', ?_⟩⟩⟩
  · show (bs.blobs superBlob).map _ = some b'
    rw [hb, Option.map_some, if_pos rfl, hb']
  · intro i hi
    have hi' : i < d.count := hcount ▸ hi
    rw [SameDirent.id (d := d) (hsame i hi')]
    exact hapart i hi'
  · intro i hi q hq
    have hi' : i < d.count := hcount ▸ hi
    exact (hkept i hi' q hq).trans (hsame i hi' q hq).symm

theorem load_of_keeps {ans : LoadAnswer} {superBlob : BlobId} {bs : Blobstore g} {d : SpdkfsDir}
    (hg : sizeofDirent ≤ g.ioUnit) (hkeeps : bs.Keeps superBlob d) (hans : ans.NoError) :
    ∃ s b, loadSession ans superBlob bs = some s ∧ s.Loaded superBlob b d := by
  obtain ⟨⟨b, hb, hdir⟩, hapart⟩ := hkeeps
  by_cases hc : b.diskClusters = 0
  · exact load_of_empty hb hc (hdir.empty hc)
  · exact load_of_stored hg hb hc hdir hapart hans

/-! ## The calls -/

section Calls

variable {findDir : FindDir} {superBlob : BlobId} {b : Blob g} {s s' : Fs g} {call : FsCall}

/-- A call appends an entry and marks the directory dirty, or removes one and does not, or
leaves the directory alone. -/
theorem run_dir_cases (hfind : ∀ n d, findDir n d = spdkfsDirLookup d n)
    (hcall : call.NoError s) (h : fsStep findDir s call = some s') :
    (call.Appends s ∧ ∃ mem id name m, s.bs.blobs id = none ∧
        Appended g mem id name s.workdir s'.workdir m) ∨
      (¬ call.Appends s ∧ call.Removes s ∧ ∃ idx, Removed idx s.workdir s'.workdir) ∨
      (¬ call.Appends s ∧ ¬ call.Removes s ∧ s'.workdir = s.workdir) := by
  obtain ⟨ret, hrun⟩ := fsStep_eq_some.mp h
  cases call with
  | create ans name =>
      obtain ⟨he, he', hfresh⟩ := hcall
      rcases monopolyCreate_done he he' hrun with ⟨hfound, rfl, -⟩ | ⟨_, habsent, hd, -⟩
      · exact Or.inr (Or.inr ⟨hfound, id, rfl⟩)
      · obtain ⟨m, happ⟩ := addDirent_spec hd
        exact Or.inl ⟨habsent, _, _, _, m, hfresh.1, happ⟩
  | unlink deleteErrno undef name =>
      rcases monopolyUnlink_cases hrun with ⟨hneg, rfl, -⟩ | ⟨i, hi, hd, -⟩
      · exact Or.inr (Or.inr ⟨id, fun hne => hne ((hfind _ _).symm.trans hneg), rfl⟩)
      · refine Or.inr (Or.inl ⟨id, fun hneg => ?_, i, removeDirent_spec hd⟩)
        rw [hfind, hneg] at hi
        omega
  | _ =>
      rcases FsCall.run_workdir hrun with hsame | ⟨_, _, _, hcreate, -⟩ | ⟨_, _, _, _, hunlink, -⟩
      · exact Or.inr (Or.inr ⟨id, id, hsame⟩)
      · cases hcreate
      · cases hunlink

/-- A blob that is not there is not the super blob. -/
theorem Fs.Rooted.ne_super (hs : s.Rooted superBlob b) {id : BlobId}
    (hnone : s.bs.blobs id = none) : id ≠ superBlob := by
  rintro rfl
  cases hnone.symm.trans hs.super

/-- No entry of the directory after a call is on the super blob. -/
theorem fsStep_rootedDir (hg : sizeofDirent ≤ g.ioUnit)
    (hfind : ∀ n d, findDir n d = spdkfsDirLookup d n) (hs : s.Rooted superBlob b)
    (hcall : call.NoError s) (h : fsStep findDir s call = some s') :
    s'.workdir.blob = superBlob ∧ s'.workdir.Sized g ∧
      ∀ i < s'.workdir.count, s'.workdir.direntId i ≠ superBlob := by
  rcases run_dir_cases hfind hcall h with
    ⟨-, mem, id, name, m, hfresh, happ⟩ | ⟨-, -, idx, hrem⟩ | ⟨-, -, hsame⟩
  · refine ⟨happ.blob.trans hs.root, happ.sized hs.sized, fun i hi => ?_⟩
    rw [happ.count] at hi
    rcases Nat.lt_succ_iff_lt_or_eq.mp hi with hlt | rfl
    · rw [(happ.entries hs.sized (hs.sized.fits hg) hlt).id]
      exact hs.entries i hlt
    · rw [happ.newId]
      exact hs.ne_super hfresh
  · refine ⟨hrem.blob.trans hs.root, hrem.sized hs.sized, fun i hi => ?_⟩
    rw [(hrem.moved i hi).id]
    exact hs.entries _ (hrem.count ▸ skip_lt hi)
  · rw [hsame]
    exact ⟨hs.root, hs.sized, hs.entries⟩

/-- No call touches the super blob, and none makes it the blob of an entry or of a file
object. -/
theorem fsStep_rooted (hg : sizeofDirent ≤ g.ioUnit)
    (hfind : ∀ n d, findDir n d = spdkfsDirLookup d n) (hs : s.Rooted superBlob b)
    (hcall : call.OnNames ∧ call.NoError s) (h : fsStep findDir s call = some s') :
    s'.Rooted superBlob b := by
  obtain ⟨hroot, hsized, hentries⟩ := fsStep_rootedDir hg hfind hs hcall.2 h
  obtain ⟨ret, hrun⟩ := fsStep_eq_some.mp h
  cases call with
  | create ans name =>
      obtain ⟨-, he, he', hfresh⟩ := hcall
      rcases monopolyCreate_done he he' hrun with ⟨-, rfl, -⟩ | ⟨_, -, -, hb, -, -, -, hf⟩
      · exact hs
      · refine ⟨hroot, hsized, ?_, hentries, fun f file hfile => ?_⟩
        · rw [hb, Function.update_of_ne (hs.ne_super hfresh.1).symm]
          exact hs.super
        · rw [hf] at hfile
          rcases update_some_cases hfile with ⟨-, rfl⟩ | ⟨-, hold⟩
          · exact hs.ne_super hfresh.1
          · exact hs.objects f file hold
  | openName openErrno name =>
      rcases monopolyOpen_cases hrun with ⟨-, rfl, -⟩ | ⟨i, hi, b', _, -, -, -, hb, -, -, -, -, hf⟩
      · exact hs
      · refine ⟨hroot, hsized, ?_, hentries, fun f file hfile => ?_⟩
        · rw [hb, Function.update_of_ne (hs.entries i hi).symm]
          exact hs.super
        · rw [hf] at hfile
          rcases update_some_cases hfile with ⟨-, rfl⟩ | ⟨-, hold⟩
          · exact hs.entries i hi
          · exact hs.objects f file hold
  | close closeErrno fd =>
      obtain ⟨f, file, -, hfile, -, hfiles, -, -, -, hb⟩ := monopolyClose_cases hrun
      refine ⟨hroot, hsized, ?_, hentries, hfiles ▸ hs.objects⟩
      rcases hb with ⟨-, hb⟩ | ⟨v, -, hb⟩
      · rw [hb]
        exact hs.super
      · rw [hb, Function.update_of_ne (hs.objects f file hfile).symm]
        exact hs.super
  | unlink deleteErrno undef name =>
      rcases monopolyUnlink_cases hrun with ⟨-, rfl, -⟩ | ⟨i, hi, -, hb, hfiles, -⟩
      · exact hs
      · refine ⟨hroot, hsized, ?_, hentries, hfiles ▸ hs.objects⟩
        rw [hb]
        rcases blobUnlink_cases deleteErrno (s.workdir.direntId i) s.bs with
          ⟨hb, -⟩ | ⟨-, -, hb⟩
        · rw [hb]
          exact hs.super
        · obtain ⟨hlt, -⟩ := lookup_eq_natCast ((hfind _ _).symm.trans hi)
          rw [hb, Function.update_of_ne (hs.entries i hlt).symm]
          exact hs.super
  | _ => exact hcall.1.elim

variable {t : Fs g} {calls : List FsCall}

/-- After an append the directory is dirty, whatever comes before and after it. -/
theorem dirty_of_appends (hfind : ∀ n d, findDir n d = spdkfsDirLookup d n)
    (hcalls : EachStep (fsStep findDir) (fun s call => call.NoError s) s calls)
    (hsome : SomeStep (fsStep findDir) (fun s call => call.Appends s) s calls)
    (hrun : exec (fsStep findDir) s calls = some t) : t.workdir.dirty = true := by
  refine hsome.last (I := fun _ => True) (Q := fun s => s.workdir.dirty = true)
    (fun _ _ _ _ _ _ => trivial) ?_ ?_ trivial hcalls hrun
  · intro s call t _ hcall happends h
    rcases run_dir_cases hfind hcall h with ⟨-, _, _, _, _, -, happ⟩ | ⟨hno, -⟩ | ⟨hno, -⟩
    · exact happ.dirty
    · exact absurd happends hno
    · exact absurd happends hno
  · intro s call t hdirty hcall h
    rcases run_dir_cases hfind hcall h with
      ⟨-, _, _, _, _, -, happ⟩ | ⟨-, -, _, hrem⟩ | ⟨-, -, hsame⟩
    · exact happ.dirty
    · exact hrem.dirty.trans hdirty
    · rw [hsame]
      exact hdirty

/-- Calls that append nothing and remove nothing leave the directory alone. -/
theorem dir_of_neither (hfind : ∀ n d, findDir n d = spdkfsDirLookup d n)
    (hcalls : EachStep (fsStep findDir) (fun s call => call.NoError s) s calls)
    (happ : EachStep (fsStep findDir) (fun s call => ¬ call.Appends s) s calls)
    (hrem : EachStep (fsStep findDir) (fun s call => ¬ call.Removes s) s calls)
    (hrun : exec (fsStep findDir) s calls = some t) : t.workdir = s.workdir := by
  refine exec_inv (I := fun u => u.workdir = s.workdir) ?_ rfl (hcalls.and (happ.and hrem)) hrun
  rintro u call u' hu ⟨hcall, hnoapp, hnorem⟩ h
  rcases run_dir_cases hfind hcall h with ⟨happ, -⟩ | ⟨-, hrem, -⟩ | ⟨-, -, hsame⟩
  · exact absurd happ hnoapp
  · exact absurd hrem hnorem
  · exact hsame.trans hu

/-- Calls that remove something and append nothing leave fewer entries, and a directory as
dirty as it was. -/
theorem dir_of_removes (hfind : ∀ n d, findDir n d = spdkfsDirLookup d n)
    (hcalls : EachStep (fsStep findDir) (fun s call => call.NoError s) s calls)
    (happ : EachStep (fsStep findDir) (fun s call => ¬ call.Appends s) s calls)
    (hsome : SomeStep (fsStep findDir) (fun s call => call.Removes s) s calls)
    (hrun : exec (fsStep findDir) s calls = some t) :
    t.workdir.dirty = s.workdir.dirty ∧ t.workdir.count < s.workdir.count := by
  have hstep : ∀ (u : Fs g) call u', call.NoError u ∧ ¬ call.Appends u →
      fsStep findDir u call = some u' → u'.workdir.dirty = u.workdir.dirty ∧
        u'.workdir.count ≤ u.workdir.count ∧
        (call.Removes u → u'.workdir.count < u.workdir.count) := by
    rintro u call u' ⟨hcall, hnoapp⟩ h
    rcases run_dir_cases hfind hcall h with ⟨happ, -⟩ | ⟨-, -, _, hrem⟩ | ⟨-, hnorem, hsame⟩
    · exact absurd happ hnoapp
    · have hcount := hrem.count
      exact ⟨hrem.dirty, by omega, fun _ => by omega⟩
    · rw [hsame]
      exact ⟨rfl, Nat.le_refl _, fun hrem => absurd hrem hnorem⟩
  refine hsome.last
    (I := fun u => u.workdir.dirty = s.workdir.dirty ∧ u.workdir.count ≤ s.workdir.count)
    (Q := fun u => u.workdir.dirty = s.workdir.dirty ∧ u.workdir.count < s.workdir.count)
    ?_ ?_ ?_ ⟨rfl, Nat.le_refl _⟩ (hcalls.and happ) hrun
  · intro u call u' hu hcall h
    obtain ⟨hdirty, hle, -⟩ := hstep u call u' hcall h
    exact ⟨hdirty.trans hu.1, Nat.le_trans hle hu.2⟩
  · intro u call u' hu hcall hrem h
    obtain ⟨hdirty, -, hlt⟩ := hstep u call u' hcall h
    exact ⟨hdirty.trans hu.1, Nat.lt_of_lt_of_le (hlt hrem) hu.2⟩
  · intro u call u' hu hcall h
    obtain ⟨hdirty, hle, -⟩ := hstep u call u' hcall h
    exact ⟨hdirty.trans hu.1, Nat.lt_of_le_of_lt hle hu.2⟩

end Calls

/-! ## Closing -/

/-- A resize that is not refused makes room. -/
theorem makeRoom_done {ans : ResizeAnswer} {d : SpdkfsDir} {b : Blob g}
    (hr : ans.resizeErrno = 0) (hfull : d.size ≤ g.totalClusters * g.clusterSize) :
    ∃ r, d.makeRoom ans b = some r ∧ Blob.Kept b r.1 ∧ d.size ≤ r.1.capacity := by
  unfold SpdkfsDir.makeRoom
  rw [getBlobSize_eq]
  split
  · next hgrow =>
      have hpos : 0 < d.size := Nat.lt_of_le_of_lt (Nat.zero_le _) hgrow
      have hlt : d.size < 2 ^ 64 := by
        have := g.device_lt
        omega
      have hn : upperDiv d.size g.clusterSize ≤ g.totalClusters := by
        rw [upperDiv_of_pos hpos hlt]
        refine Nat.succ_le_of_lt ((Nat.div_lt_iff_lt_mul g.clusterSize_pos).mpr ?_)
        omega
      obtain ⟨r, hr, hkept, hclusters⟩ := genericBlobResize_done d.blob b hr hpos hn
      refine ⟨(r.blob, r.events), by rw [hr, Option.map_some], hkept, ?_⟩
      show d.size ≤ r.blob.clusters * g.clusterSize
      rw [hclusters]
      exact le_upperDiv_mul g.clusterSize_pos hpos hlt
  · next hfits => exact ⟨(b, []), rfl, Blob.Kept.refl b, not_lt.mp hfits⟩

/-- The entries, written to a blob with room for them. -/
theorem write_entries {ans : IoAnswer} {id : BlobId} {b : Blob g} {d : SpdkfsDir}
    (hg : sizeofDirent ≤ g.ioUnit) (hs : d.Sized g) (hcap : d.size ≤ b.capacity)
    (hio : ans.bserrno = 0) {i : Nat} (hi : i < d.count) :
    SameDirent d.dirents i (genericBlobIo ans id b d.size 0 d.dirents false).blob.data i := by
  have hfits := (hs.fits hg).inside hi
  have hlt := b.capacity_lt
  have hpos : 0 < d.size := Nat.lt_of_lt_of_le (by decide) (Nat.le_of_add_left_le hfits)
  have hok := (ioBlob_write_ok_iff ans id b d.dirents (Nat.dvd_zero _) (by decide) hs.dvd hpos
    (by omega)).mpr ⟨by rwa [Nat.zero_add], hio⟩
  obtain ⟨-, -, hdata⟩ := ioBlob_write_ok (Nat.dvd_zero _) (by decide) hs.dvd hpos (by omega) hok
  intro q hq
  refine (congrFun hdata _).trans ?_
  rw [Mem.write_in (Nat.zero_le _) (by omega), Nat.sub_zero]

/-- A close of the last reference, with an attribute that has been set. -/
theorem close_last {e : Int} {id : BlobId} {bs : Blobstore g} {b : Blob g} (he : e = 0)
    (hb : bs.blobs id = some b) (href : b.openRef = 1) :
    (blobClose e id bs).1.blobs id = some b.closing := by
  have hopen : bs.opened id = some b := by
    rw [Blobstore.opened_eq_some, href]
    exact ⟨hb, Nat.one_pos⟩
  rcases blobClose_cases e id bs with ⟨-, hnone | he'⟩ | ⟨-, b', hb', hblobs⟩
  · cases hnone.symm.trans hopen
  · exact absurd he he'
  · cases hb'.symm.trans hopen
    rw [hblobs]
    exact Function.update_self ..

/-- A dirty directory is written, and its record with it. -/
theorem close_of_dirty {ans : DirCloseAnswer} {superBlob : BlobId} {b : Blob g} {t : Fs g}
    (hg : sizeofDirent ≤ g.ioUnit) (hans : ans.NoError) (ht : t.Rooted superBlob b)
    (href : b.openRef = 1) (hdirty : t.workdir.dirty = true)
    (hfull : t.workdir.size ≤ g.totalClusters * g.clusterSize) :
    ∃ bs', simpleDirClose ans t.bs t.workdir = some bs' ∧ bs'.Keeps superBlob t.workdir := by
  have hopen : t.bs.opened superBlob = some b := by
    rw [Blobstore.opened_eq_some, href]
    exact ⟨ht.super, Nat.one_pos⟩
  obtain ⟨⟨b', events⟩, hr, hkept, hcap⟩ := makeRoom_done (b := b) hans.resize hfull
  obtain ⟨hcl, href', -, -⟩ := ioBlob_write_frame ans.io superBlob b' t.workdir.size 0
    t.workdir.dirents
  have hlast := href'.trans (hkept.openRef.trans href)
  unfold simpleDirClose
  simp only [hdirty, ht.root, hopen, Option.bind_some, hr, Option.map_some, if_true]
  refine ⟨_, rfl, ⟨_, close_last hans.close (Blobstore.setBlob_self ..) hlast, ?_, ?_⟩, ht.entries⟩
  · intro hzero
    rw [Blob.closing_diskClusters] at hzero
    have hc : b'.clusters = 0 := hcl.symm.trans hzero
    rw [Blob.capacity, hc, Nat.zero_mul] at hcap
    exact ht.sized.count_eq_zero (Nat.eq_zero_of_le_zero hcap)
  · intro _
    refine ⟨t.workdir.dirPersist, ?_, rfl, ht.sized, ?_, ?_⟩
    · rw [Blob.closing_disk]
      rfl
    · rw [Blob.diskCapacity, Blob.closing_diskClusters]
      exact (Nat.mul_le_mul_right _ (Nat.le_of_eq hcl.symm)).trans' hcap
    · intro i hi
      rw [Blob.closing_data]
      exact write_entries hg ht.sized hcap hans.io hi

/-- One that is not is left on disk as it was. -/
theorem close_of_clean {ans : DirCloseAnswer} {superBlob : BlobId} {b : Blob g} {t : Fs g}
    (hans : ans.NoError) (ht : t.Rooted superBlob b) (href : b.openRef = 1)
    (hclean : t.workdir.dirty = false) :
    ∃ bs', simpleDirClose ans t.bs t.workdir = some bs' ∧
      bs'.blobs superBlob = some b.closing := by
  unfold simpleDirClose
  rw [if_neg (by simp [hclean]), ht.root]
  exact ⟨_, rfl, close_last hans.close ht.super href⟩

/-! ## One session, and any number of them -/

section Session

variable {findDir : FindDir} {superBlob : BlobId} {bs bs' : Blobstore g} {x : Session}
  {d : SpdkfsDir} {t : Fs g}

theorem Session.run_eq_some :
    x.run findDir superBlob bs = some (t, bs') ↔
      ∃ s, loadSession x.load superBlob bs = some s ∧ exec (fsStep findDir) s x.calls = some t ∧
        simpleDirClose x.close t.bs t.workdir = some bs' := by
  unfold Session.run
  simp only [Option.bind_eq_some_iff, Option.map_eq_some_iff, Prod.mk.injEq]
  constructor
  · rintro ⟨s, hs, t, ht, bs', hbs, rfl, rfl⟩
    exact ⟨s, hs, ht, hbs⟩
  · rintro ⟨s, hs, ht, hbs⟩
    exact ⟨s, hs, t, ht, bs', hbs, rfl, rfl⟩

/-- What the blobstore keeps, the next session finds. -/
theorem Keeps.found (hg : sizeofDirent ≤ g.ioUnit) (h : bs.Keeps superBlob d)
    {ans : LoadAnswer} (hans : ans.NoError) :
    ∃ s, loadSession ans superBlob bs = some s ∧ d.Same s.workdir := by
  obtain ⟨s, b, hs, hloaded⟩ := load_of_keeps hg h hans
  exact ⟨s, hs, hloaded.same⟩

/-- A session from a kept directory ends with a blobstore that keeps the directory it has in
memory if it saves, and with one that keeps more entries if it does not. -/
theorem Session.run_cases (hg : sizeofDirent ≤ g.ioUnit)
    (hfind : ∀ n d, findDir n d = spdkfsDirLookup d n) (hkeeps : bs.Keeps superBlob d)
    (hlegal : x.Legal findDir superBlob bs)
    (hrun : x.run findDir superBlob bs = some (t, bs')) :
    (x.Saves findDir superBlob bs ∧ bs'.Keeps superBlob t.workdir) ∨
      (¬ x.Saves findDir superBlob bs ∧
        ∃ d', bs'.Keeps superBlob d' ∧ t.workdir.count < d'.count) := by
  obtain ⟨s, b, hload, hs⟩ := load_of_keeps hg hkeeps hlegal.load
  obtain ⟨s', hload', hcalls, hclose⟩ := Session.run_eq_some.mp hrun
  cases hload.symm.trans hload'
  obtain ⟨t', bs'', hrun', hfull⟩ := hlegal.ends
  cases hrun.symm.trans hrun'
  have hlegal' := hlegal.calls s hload
  have hnoError := hlegal'.mono fun _ _ h => h.2
  have ht : t.Rooted superBlob b :=
    exec_inv (fun _ _ _ hs hcall h => fsStep_rooted hg hfind hs hcall h) hs.toRooted hlegal' hcalls
  by_cases happ : SomeStep (fsStep findDir) (fun s call => call.Appends s) s x.calls
  · obtain ⟨bs₁, hclose₁, hkeeps₁⟩ := close_of_dirty hg hlegal.close ht hs.ref
      (dirty_of_appends hfind hnoError happ hcalls) hfull
    cases hclose.symm.trans hclose₁
    refine Or.inl ⟨fun u hu => ?_, hkeeps₁⟩
    cases hload.symm.trans hu
    exact Or.inl happ
  · have hnoapp := not_someStep.mp happ
    by_cases hrem : SomeStep (fsStep findDir) (fun s call => call.Removes s) s x.calls
    · -- the super blob is closed as it was loaded, and still has the removed entries
      obtain ⟨hdirty, hlt⟩ := dir_of_removes hfind hnoError hnoapp hrem hcalls
      obtain ⟨bs₁, hclose₁, hb⟩ := close_of_clean hlegal.close ht hs.ref (hdirty.trans hs.clean)
      cases hclose.symm.trans hclose₁
      refine Or.inr ⟨fun hsaves => ?_, s.workdir, ⟨⟨_, hb, hs.holds⟩, hs.entries⟩, hlt⟩
      rcases hsaves s hload with h | h
      · exact happ h
      · exact not_someStep.mpr h hrem
    · have hnorem := not_someStep.mp hrem
      have hsame := dir_of_neither hfind hnoError hnoapp hnorem hcalls
      obtain ⟨bs₁, hclose₁, hb⟩ := close_of_clean hlegal.close ht hs.ref
        (hsame ▸ hs.clean)
      cases hclose.symm.trans hclose₁
      refine Or.inl ⟨fun u hu => ?_, ?_⟩
      · cases hload.symm.trans hu
        exact Or.inr hnorem
      · rw [hsame]
        exact ⟨⟨_, hb, hs.holds⟩, hs.entries⟩

end Session

/-- A device that has just been formatted keeps an empty directory. -/
theorem formatted_keeps (superBlob : BlobId) :
    (Blobstore.formatted superBlob : Blobstore g).Keeps superBlob LoadAnswer.done.raw where
  blob := ⟨_, (Blobstore.opened_eq_some.mp (formatted_opened superBlob)).1,
    ⟨fun _ => rfl, fun hne => absurd rfl hne⟩⟩
  apart := fun i hi => absurd hi (Nat.not_lt_zero i)

/-- **Persistence.** Over any number of sessions on a device, from its formatting on, each
session finds the directory as the one before had it, exactly if every session appends an
entry or removes none. -/
theorem directory_persists_iff {findDir : FindDir} (hg : sizeofDirent ≤ g.ioUnit)
    (hfind : ∀ n d, findDir n d = spdkfsDirLookup d n) {superBlob : BlobId}
    {sessions : List Session}
    (hlegal : EachStep (sessionStep (g := g) findDir superBlob)
      (fun bs x => x.Legal findDir superBlob bs) (.formatted superBlob) sessions) :
    EachStep (sessionStep (g := g) findDir superBlob)
        (fun bs x => x.Persists findDir superBlob bs) (.formatted superBlob) sessions ↔
      EachStep (sessionStep (g := g) findDir superBlob)
        (fun bs x => x.Saves findDir superBlob bs) (.formatted superBlob) sessions := by
  refine eachStep_congr (I := fun bs => ∃ d, Blobstore.Keeps superBlob bs d) ?_ ?_
    ⟨_, formatted_keeps superBlob⟩ hlegal
  · rintro bs x bs' ⟨d, hkeeps⟩ ⟨hx, -⟩ h
    obtain ⟨⟨t, bs'⟩, hrun, rfl⟩ := Option.map_eq_some_iff.mp h
    rcases Session.run_cases hg hfind hkeeps hx hrun with ⟨-, h⟩ | ⟨-, d', h, -⟩
    · exact ⟨_, h⟩
    · exact ⟨d', h⟩
  · rintro bs x ⟨d, hkeeps⟩ hx
    constructor
    · intro hpersists
      by_contra hno
      obtain ⟨t, bs', hrun, -⟩ := hx.ends
      rcases Session.run_cases hg hfind hkeeps hx hrun with ⟨hsaves, -⟩ | ⟨-, d', hd', hlt⟩
      · exact hno hsaves
      · -- what is found is what was kept, which is more than what there was
        obtain ⟨s, hs, hsame⟩ := hpersists t bs' hrun x.load hx.load
        obtain ⟨s', hs', hsame'⟩ := Keeps.found hg hd' hx.load
        cases hs.symm.trans hs'
        have h1 := hsame.count
        have h2 := hsame'.count
        omega
    · intro hsaves t bs' hrun ans hans
      rcases Session.run_cases hg hfind hkeeps hx hrun with ⟨-, h⟩ | ⟨hno, -⟩
      · exact Keeps.found hg h hans
      · exact absurd hsaves hno

/-- Every request of a close goes through. -/
def DirCloseAnswer.done : DirCloseAnswer := ⟨⟨0, 0⟩, .done, 0⟩

/-- A first session that creates a file and closes it. -/
def firstSession : Session where
  load := .done
  calls := [.create (.done 1) nameA, .close 0 0]
  close := .done

/-- A second one that unlinks it. -/
def unlinkSession : Session where
  load := .done
  calls := [.unlink 0 0 nameA]
  close := .done

theorem done_legal {findDir : FindDir} {bs : Blobstore g} {x : Session} {t : Fs g}
    {bs' : Blobstore g} (hl : x.load = .done) (hc : x.close = .done)
    (hcalls : ∀ s, loadSession .done 0 bs = some s →
      EachStep (fsStep findDir) (fun s call => call.OnNames ∧ call.NoError s) s x.calls)
    (hrun : x.run findDir 0 bs = some (t, bs'))
    (hfull : t.workdir.size ≤ g.totalClusters * g.clusterSize) : x.Legal findDir 0 bs where
  load := by
    rw [hl]
    exact ⟨rfl, rfl⟩
  calls := by
    rw [hl]
    exact hcalls
  close := by
    rw [hc]
    exact ⟨rfl, rfl, rfl, rfl⟩
  ends := ⟨t, bs', hrun, hfull⟩

/-- A file that was created is there in the next session. -/
theorem directory_persists_created :
    EachStep (sessionStep (g := .malloc4k) (fun n d => spdkfsDirLookup d n) 0)
      (fun bs x => x.Persists (fun n d => spdkfsDirLookup d n) 0 bs) (.formatted 0)
      [firstSession] := by
  refine (directory_persists_iff (by decide) (fun _ _ => rfl) ?_).mpr ?_
  · refine EachStep.cons rfl (done_legal rfl rfl ?_ rfl (by decide)) trivial
    intro s hs
    cases hs
    refine EachStep.cons rfl ⟨trivial, rfl, rfl, rfl, by decide⟩ ?_
    exact EachStep.cons rfl ⟨trivial, rfl⟩ trivial
  · refine EachStep.cons rfl ?_ trivial
    intro s hs
    cases hs
    exact Or.inl (Or.inl rfl)

/-- A file that was unlinked in a session of its own is there again. -/
theorem directory_forgets_unlink :
    ∃ bs t bs' s, sessionStep (g := .malloc4k) (fun n d => spdkfsDirLookup d n) 0 (.formatted 0)
        firstSession = some bs ∧
      unlinkSession.run (fun n d => spdkfsDirLookup d n) 0 bs = some (t, bs') ∧
      t.workdir.count = 0 ∧ loadSession .done 0 bs' = some s ∧ s.workdir.count = 1 ∧
      ¬ unlinkSession.Persists (fun n d => spdkfsDirLookup d n) 0 bs := by
  refine ⟨_, _, _, _, rfl, rfl, rfl, rfl, rfl, ?_⟩
  intro h
  obtain ⟨s, hs, hsame⟩ := h _ _ rfl .done ⟨rfl, rfl⟩
  cases hs
  exact absurd hsame.count (by decide)

end BlobTopFs
