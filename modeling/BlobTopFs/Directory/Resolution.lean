import BlobTopFs.Lib.Run
import BlobTopFs.SimpleFs.Calls
import BlobTopFs.SimpleFs.FindPath
import BlobTopFs.SimpleFs.Super

/-!
# Which blob a name stands for

Four operations look a name up and go on to a blob: `monopoly_open` and `monopoly_unlink` by the
id in the entry they find, `monopoly_stat` and `find_path` by the index of that entry, taken for
an id. They mean the same blob exactly when the entry's id is its index.

Which blob an operation goes on to is read off the requests it makes.
-/

namespace BlobTopFs

open Machine Run

variable {g : Geometry}

/-! ## The blobs an operation asks for -/

/-- The blob a request opens or deletes. -/
def Request.target : Request → Option BlobId
  | .openBlob id | .deleteBlob id => some id
  | .createBlob | .closeBlob _ | .resize .. | .syncMd _ | .ioRead .. | .ioWrite .. => none

/-- From `bs` to `bs'` the blobs `ids` were asked for, the latest first. -/
def AsksFor (bs bs' : Blobstore g) (ids : List BlobId) : Prop :=
  ∃ es, bs'.log = es ++ bs.log ∧ es.filterMap (fun e => e.request.target) = ids

namespace AsksFor

theorem refl (bs : Blobstore g) : AsksFor bs bs [] := ⟨[], rfl, rfl⟩

theorem trans {a b c : Blobstore g} {ids ids' : List BlobId} (h : AsksFor a b ids)
    (h' : AsksFor b c ids') : AsksFor a c (ids' ++ ids) := by
  obtain ⟨es, hes, rfl⟩ := h
  obtain ⟨es', hes', rfl⟩ := h'
  exact ⟨es' ++ es, by rw [hes', hes, List.append_assoc], List.filterMap_append⟩

/-- The requests of a run are what they are. -/
theorem unique {bs bs' : Blobstore g} {ids ids' : List BlobId} (h : AsksFor bs bs' ids)
    (h' : AsksFor bs bs' ids') : ids = ids' := by
  obtain ⟨es, hes, rfl⟩ := h
  obtain ⟨es', hes', rfl⟩ := h'
  rw [List.append_cancel_right (hes.symm.trans hes')]

theorem of_log_cons {bs bs' : Blobstore g} {r : Request} {e : Int}
    (h : bs'.log = ⟨r, e⟩ :: bs.log) : AsksFor bs bs' r.target.toList :=
  ⟨[⟨r, e⟩], h, by cases hr : r.target <;> simp [hr]⟩

/-- Requests on the blobs at hand ask for no other. -/
theorem of_events {bs bs' : Blobstore g} {es : List Event} (h : bs'.log = es ++ bs.log)
    (hes : ∀ e ∈ es, e.request.target = none) : AsksFor bs bs' [] :=
  ⟨es, h, List.filterMap_eq_nil_iff.mpr hes⟩

end AsksFor

theorem blobOpen_asks (e : Int) (id : BlobId) (bs : Blobstore g) :
    AsksFor bs (blobOpen e id bs).1 [id] := by
  have hlog : ∃ e', (blobOpen e id bs).1.log = ⟨.openBlob id, e'⟩ :: bs.log := by
    unfold blobOpen spdkBsOpenBlob
    cases bs.blobs id with
    | none => exact ⟨_, rfl⟩
    | some b =>
        by_cases he : e = 0
        · simp only [he, ne_eq, not_true_eq_false, if_false]
          exact ⟨0, rfl⟩
        · simp only [ne_eq, he, not_false_eq_true, if_true]
          exact ⟨e, rfl⟩
  obtain ⟨e', h⟩ := hlog
  exact AsksFor.of_log_cons h

theorem blobUnlink_asks (e : Int) (id : BlobId) (bs : Blobstore g) :
    AsksFor bs (blobUnlink e id bs).1 [id] := by
  have hlog : ∃ e', (blobUnlink e id bs).1.log = ⟨.deleteBlob id, e'⟩ :: bs.log := by
    unfold blobUnlink spdkBsDeleteBlob
    cases bs.blobs id with
    | none => exact ⟨_, rfl⟩
    | some b =>
        dsimp only
        split
        · exact ⟨_, rfl⟩
        · split <;> exact ⟨_, rfl⟩
  obtain ⟨e', h⟩ := hlog
  exact AsksFor.of_log_cons h

theorem blobClose_log (e : Int) (id : BlobId) (bs : Blobstore g) :
    ∃ e', (blobClose e id bs).1.log = ⟨.closeBlob id, e'⟩ :: bs.log := by
  unfold blobClose spdkBlobClose
  cases bs.opened id with
  | none => exact ⟨_, rfl⟩
  | some b =>
      dsimp only
      split <;> exact ⟨_, rfl⟩

/-- A resize makes requests on the blob it resizes. -/
theorem genericBlobResize_asks {ans : ResizeAnswer} {id : BlobId} {b : Blob g} {size : Nat}
    {d : ResizeDone g} (h : genericBlobResize ans id b size = some d) :
    ∀ e ∈ d.events, e.request.target = none := by
  unfold genericBlobResize at h
  split at h
  · cases h
  · dsimp only at h
    split at h <;> cases h <;> simp [Request.target]

/-- A close of a directory closes its blob, after requests on that blob. -/
theorem simpleDirClose_log {ans : DirCloseAnswer} {bs bs' : Blobstore g} {d : SpdkfsDir}
    (h : simpleDirClose ans bs d = some bs') :
    ∃ e es, bs'.log = ⟨.closeBlob d.blob, e⟩ :: (es ++ bs.log) ∧
      ∀ e ∈ es, e.request.target = none := by
  unfold simpleDirClose at h
  split at h
  · obtain ⟨b, -, h⟩ := Option.bind_eq_some_iff.mp h
    obtain ⟨r, hroom, rfl⟩ := Option.map_eq_some_iff.mp h
    have hroom' : ∀ e ∈ r.2, e.request.target = none := by
      unfold SpdkfsDir.makeRoom at hroom
      split at hroom
      · obtain ⟨d', hd', rfl⟩ := Option.map_eq_some_iff.mp hroom
        exact genericBlobResize_asks hd'
      · cases hroom
        exact fun e he => nomatch he
    obtain ⟨e, hlog⟩ := blobClose_log ans.closeErrno d.blob _
    exact ⟨e, _, hlog.trans (congrArg _ (List.cons_append ..).symm),
      List.forall_mem_cons.mpr ⟨rfl, hroom'⟩⟩
  · cases h
    obtain ⟨e, hlog⟩ := blobClose_log ans.closeErrno d.blob bs
    exact ⟨e, [], hlog, fun e he => nomatch he⟩

theorem simpleDirClose_asks {ans : DirCloseAnswer} {bs bs' : Blobstore g} {d : SpdkfsDir}
    (h : simpleDirClose ans bs d = some bs') : AsksFor bs bs' [] := by
  obtain ⟨e, es, hlog, hes⟩ := simpleDirClose_log h
  exact AsksFor.of_events (hlog.trans (List.cons_append ..).symm)
    (List.forall_mem_cons.mpr ⟨rfl, hes⟩)

theorem simpleDirRead_asks {mem : Option Mem} {ans : IoAnswer} {bs : Blobstore g}
    {d : SpdkfsDir} {r : Blobstore g × SpdkfsDir} (h : simpleDirRead mem ans bs d = some r) :
    AsksFor bs r.1 [] := by
  obtain ⟨b, -, h⟩ := Option.bind_eq_some_iff.mp h
  obtain ⟨p, -, h⟩ := Option.bind_eq_some_iff.mp h
  obtain ⟨m, -, rfl⟩ := Option.map_eq_some_iff.mp h
  exact AsksFor.of_log_cons (r := .ioRead d.blob _ _ p.dSize) rfl

/-! ## The four operations -/

theorem monopolyOpen_asks {openErrno : Int} {name : CStr} {s s' : Fs g} {ret : Int} {i : Nat}
    (hl : spdkfsDirLookup s.workdir name = i) (h : monopolyOpen openErrno name s = some (s', ret)) :
    AsksFor s.bs s'.bs [s.workdir.direntId i] := by
  unfold monopolyOpen at h
  rw [hl, if_neg (by omega), Int.toNat_natCast] at h
  obtain ⟨blob, -, h⟩ := Option.bind_eq_some_iff.mp h
  obtain ⟨file, -, h⟩ := Option.bind_eq_some_iff.mp h
  obtain ⟨t, -, rfl⟩ := Fs.installFile_eq_some.mp h
  exact blobOpen_asks ..

theorem monopolyUnlink_asks {findDir : FindDir} {deleteErrno undef : Int} {name : CStr}
    {s s' : Fs g} {ret : Int} {i : Nat} (hf : findDir name s.workdir = i)
    (h : monopolyUnlink findDir deleteErrno undef name s = some (s', ret)) :
    AsksFor s.bs s'.bs [s.workdir.direntId i] := by
  rcases monopolyUnlink_cases h with ⟨hneg, -⟩ | ⟨j, hj, -, hbs, -⟩
  · omega
  · cases Int.ofNat.inj (hf.symm.trans hj)
    rw [hbs]
    exact blobUnlink_asks ..

theorem monopolyStat_asks {findDir : FindDir} {openErrno : Int} {name : CStr} {s s' : Fs g}
    {st : Option Stat} {ret : Int} {i : Nat} (hf : findDir name s.workdir = i)
    (h : monopolyStat findDir openErrno name s = some (s', st, ret)) :
    AsksFor s.bs s'.bs [UInt64.ofNat i] := by
  rw [← ofNat_u64]
  unfold monopolyStat at h
  rw [hf, if_neg (by omega)] at h
  dsimp only at h
  split at h
  · cases h
    exact blobOpen_asks ..
  · obtain ⟨b, -, h⟩ := Option.bind_eq_some_iff.mp h
    obtain ⟨p, -, heq⟩ := Option.map_eq_some_iff.mp h
    cases heq
    exact blobOpen_asks ..

theorem findPathStep_asks {ans : PathAnswer} {dir now : DirPtr} {name : CStr} {d : SpdkfsDir}
    {s s' : PathState g} {i : Nat} (hd : s.dirs now = some d) (hl : spdkfsDirLookup d name = i)
    (h : findPathStep ans dir now name s = some (some s')) :
    AsksFor s.bs s'.bs [UInt64.ofNat i] := by
  unfold findPathStep at h
  rw [hd, Option.bind_some, hl, ofNat_u64] at h
  dsimp only at h
  split at h
  · cases h
  · obtain ⟨bs, hclose, h⟩ := Option.bind_eq_some_iff.mp h
    obtain ⟨blob, -, h⟩ := Option.bind_eq_some_iff.mp h
    obtain ⟨r, hr, heq⟩ := Option.map_eq_some_iff.mp h
    cases heq
    have hbs : AsksFor s.bs bs [] := by
      split at hclose
      · exact simpleDirClose_asks hclose
      · cases hclose
        exact AsksFor.refl _
    exact (hbs.trans (blobOpen_asks ..)).trans (simpleDirRead_asks hr)

/-! ## Agreement -/

/-- All four operations go on from `name` to the blob `id`, and to that one only: an open, a stat
and an unlink in the working directory, and a round of `find_path` in a directory object with its
contents. -/
structure ResolvesTo (findDir : FindDir) (s : Fs g) (name : CStr) (id : BlobId) : Prop where
  openName : ∀ openErrno s' ret, monopolyOpen openErrno name s = some (s', ret) →
    AsksFor s.bs s'.bs [id]
  stat : ∀ openErrno s' st ret, monopolyStat findDir openErrno name s = some (s', st, ret) →
    AsksFor s.bs s'.bs [id]
  unlink : ∀ deleteErrno undef s' ret,
    monopolyUnlink findDir deleteErrno undef name s = some (s', ret) → AsksFor s.bs s'.bs [id]
  step : ∀ ans dir now dirs p, dirs now = some s.workdir →
    findPathStep ans dir now name ⟨s.bs, dirs⟩ = some (some p) → AsksFor s.bs p.bs [id]

/-- An open that SPDK fails hands out no blob. -/
theorem blobOpen_failed {e : Int} (he : e ≠ 0) (id : BlobId) (bs : Blobstore g) :
    (blobOpen e id bs).2 = none := by
  unfold blobOpen spdkBsOpenBlob
  cases bs.blobs id with
  | none =>
      refine if_pos ?_
      rw [if_pos he]
      exact he
  | some b =>
      simp only [ne_eq, he, not_false_eq_true, if_true]

/-- So a stat whose open fails returns. -/
theorem monopolyStat_failed {findDir : FindDir} {name : CStr} {s : Fs g} {i : Nat} {e : Int}
    (he : e ≠ 0) (hf : findDir name s.workdir = i) :
    ∃ s', monopolyStat findDir e name s = some (s', none, -1) := by
  unfold monopolyStat
  rw [hf, if_neg (by omega)]
  dsimp only
  rw [blobOpen_failed he]
  exact ⟨_, rfl⟩

/-- **Name resolution.** The four operations mean the blob whose id is in the entry that the
lookup finds exactly when that id is the index of the entry. -/
theorem resolvesTo_iff {findDir : FindDir} (hfind : ∀ n d, findDir n d = spdkfsDirLookup d n)
    {s : Fs g} {name : CStr} {i : Nat} (hl : spdkfsDirLookup s.workdir name = i) :
    ResolvesTo findDir s name (s.workdir.direntId i) ↔ s.workdir.direntId i = UInt64.ofNat i := by
  have hf : findDir name s.workdir = i := (hfind name s.workdir).trans hl
  constructor
  · intro h
    obtain ⟨s', hstat⟩ := monopolyStat_failed (show (-EINVAL : Int) ≠ 0 by decide) hf
    have hids := (h.stat _ _ _ _ hstat).unique (monopolyStat_asks hf hstat)
    exact (List.cons.inj hids).1
  · intro hid
    refine ⟨?_, ?_, ?_, ?_⟩
    · intro openErrno s' ret h
      exact monopolyOpen_asks hl h
    · intro openErrno s' st ret h
      rw [hid]
      exact monopolyStat_asks hf h
    · intro deleteErrno undef s' ret h
      exact monopolyUnlink_asks hf h
    · intro ans dir now dirs p hd h
      rw [hid]
      exact findPathStep_asks (s := ⟨s.bs, dirs⟩) hd hl h

/-- `find_dir`, if it is `spdkfs_dir_lookup`. -/
def findByLookup : FindDir := fun n d => spdkfsDirLookup d n

/-- The file system on a formatted device whose root directory is the blob `superBlob`, with the
files `a` and `b`. -/
def twoFiles (superBlob a b : BlobId) : Option (Fs .malloc4k) :=
  exec (fsStep findByLookup) (.formatted .done superBlob)
    [.create (.done a) nameA, .create (.done b) nameB]

/-- The second file is at index 1, under its id. -/
theorem twoFiles_second (superBlob a b : BlobId)
    (h : ((twoFiles superBlob a b).map fun s =>
      (spdkfsDirLookup s.workdir ⟨[98], by decide⟩, s.workdir.direntId 1)) = some (1, b)) :
    ∃ s, twoFiles superBlob a b = some s ∧
      spdkfsDirLookup s.workdir ⟨[98], by decide⟩ = (1 : Nat) ∧ s.workdir.direntId 1 = b := by
  obtain ⟨s, hs, heq⟩ := Option.map_eq_some_iff.mp h
  simp only [Prod.mk.injEq] at heq
  exact ⟨s, hs, heq⟩

/-- It gets the id 1, which is its index. -/
theorem resolvesTo_one :
    ∃ s, twoFiles 7 3 1 = some s ∧
      ResolvesTo findByLookup s ⟨[98], by decide⟩ (s.workdir.direntId 1) := by
  obtain ⟨s, hs, hl, hid⟩ := twoFiles_second 7 3 1 (by decide +kernel)
  exact ⟨s, hs, (resolvesTo_iff (fun _ _ => rfl) hl).mpr hid⟩

/-- The files get the ids 1 and 2, and a stat of the second asks for the first. -/
theorem not_resolvesTo_two :
    ∃ s, twoFiles 0 1 2 = some s ∧ spdkfsDirLookup s.workdir ⟨[98], by decide⟩ = (1 : Nat) ∧
      ¬ ResolvesTo findByLookup s ⟨[98], by decide⟩ (s.workdir.direntId 1) := by
  obtain ⟨s, hs, hl, hid⟩ := twoFiles_second 0 1 2 (by decide +kernel)
  refine ⟨s, hs, hl, fun h => ?_⟩
  have hf : findByLookup ⟨[98], by decide⟩ s.workdir = (1 : Nat) := hl
  obtain ⟨s', hstat⟩ := monopolyStat_failed (show (-EINVAL : Int) ≠ 0 by decide) hf
  have hids := (h.stat _ _ _ _ hstat).unique (monopolyStat_asks hf hstat)
  rw [hid] at hids
  exact absurd (List.cons.inj hids).1 (by decide)

end BlobTopFs
