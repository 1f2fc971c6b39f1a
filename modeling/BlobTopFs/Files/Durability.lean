import Mathlib.Data.List.Find
import BlobTopFs.Files.ClosedFiles

/-!
# Written, closed, and read back in the next session

The round trip of one descriptor, the isolation from other files, what a close leaves on disk
and the persistence of the directory together: what the caller of a descriptor knows of its file
when it closes it is what the next session reads, under the same condition as before.
-/

namespace BlobTopFs

open Machine Run

variable {g : Geometry}

/-! ## Sessions with reads and writes -/

/-- SPDK does not fail the call, and it does not open the super blob for a `stat`. -/
def FsCall.SparesRoot (findDir : FindDir) (superBlob : BlobId) (s : Fs g) (call : FsCall) :
    Prop :=
  call.NoError s ∧ ∀ openErrno name, call = .stat openErrno name →
    findDir name s.workdir ≠ -1 → statId findDir name s ≠ superBlob

section Rooted

variable {findDir : FindDir} {superBlob : BlobId} {b : Blob g} {s s' : Fs g} {call : FsCall}

/-- A transfer of a file leaves the super blob, which is none. -/
theorem Fs.Rooted.putFile (hs : s.Rooted superBlob b) {fd : Int} {f : FileId} {v w : OpenFile g}
    (hres : s.Resolves fd f v) (hw : w.file.blob = v.file.blob) (bounce : Mem) :
    ({ s.putFile f w with buffer := bounce } : Fs g).Rooted superBlob b := by
  have hne : w.file.blob ≠ superBlob := by
    rw [hw]
    exact hs.objects f v.file (Fs.openFile_eq_some.mp hres.openFile).1
  refine ⟨hs.root, hs.sized, ?_, hs.entries, fun f' file hfile => ?_⟩
  · exact (Function.update_of_ne hne.symm ..).trans hs.super
  · rcases PartialMap.update_some_cases hfile with ⟨-, rfl⟩ | ⟨-, hold⟩
    · exact hne
    · exact hs.objects f' file hold

/-- So no call of such a session touches the super blob. -/
theorem fsStep_sparesRoot (hg : sizeofDirent ≤ g.ioUnit)
    (hfind : ∀ n d, findDir n d = spdkfsDirLookup d n) (hs : s.Rooted superBlob b)
    (hcall : call.SparesRoot findDir superBlob s) (h : fsStep findDir s call = some s') :
    s'.Rooted superBlob b := by
  obtain ⟨ret, hrun⟩ := fsStep_eq_some.mp h
  cases call with
  | lseek fd offset whence =>
      obtain ⟨f, file, -, hfile, -, rfl⟩ := Fs.monopolyLseek_cases hrun
      refine ⟨hs.root, hs.sized, hs.super, hs.entries, fun f' file' hfile' => ?_⟩
      rcases PartialMap.update_some_cases hfile' with ⟨-, rfl⟩ | ⟨-, hold⟩
      · rw [(Fs.monopolyLseekFile_frame file offset whence).1]
        exact hs.objects f file hfile
      · exact hs.objects f' file' hold
  | read io fd buf nbytes registered =>
      obtain ⟨⟨s'', buf', ret'⟩, hread, heq⟩ := Option.map_eq_some_iff.mp hrun
      cases heq
      obtain ⟨f, v, r, hres, hr, rfl, -, -⟩ := Fs.monopolyRead_cases hread
      obtain ⟨k, -, hadv⟩ := monopolyReadFile_composes Advanced.composes
        (fun _ _ _ _ _ h => simpleFsRead_advanced h) hr
      exact hs.putFile hres hadv.fileBlob r.bounce
  | write io fd buf nbytes registered =>
      obtain ⟨⟨s'', buf', ret'⟩, hwrite, heq⟩ := Option.map_eq_some_iff.mp hrun
      cases heq
      obtain ⟨f, v, r, hres, hr, rfl, -, -⟩ := Fs.monopolyWrite_cases hwrite
      obtain ⟨k, -, hadv⟩ := monopolyWriteFile_composes Advanced.composes
        (fun _ _ _ _ _ h => simpleFsWrite_advanced h) hr
      exact hs.putFile hres hadv.fileBlob r.bounce
  | stat openErrno name =>
      obtain ⟨⟨s'', st, ret'⟩, hstat, heq⟩ := Option.map_eq_some_iff.mp hrun
      cases heq
      obtain ⟨hfiles, -, -, hw, hblobs⟩ := monopolyStat_cases hstat
      refine ⟨hw ▸ hs.root, hw ▸ hs.sized, ?_, hw ▸ hs.entries, hfiles ▸ hs.objects⟩
      rcases hblobs with ⟨hblobs, -⟩ | ⟨hfound, b', -, hblobs⟩
      · rw [hblobs, hs.super]
      · rw [hblobs, Function.update_of_ne (hcall.2 _ _ rfl hfound).symm, hs.super]
  | _ =>
      apply fsStep_rooted hg hfind hs ?_ h
      exact ⟨trivial, hcall.1⟩

end Rooted

/-- A session of any calls that comes to its end without a blobstore error. -/
structure Session.Sound (findDir : FindDir) (superBlob : BlobId) (bs : Blobstore g)
    (x : Session) : Prop where
  load : x.load.NoError
  calls : ∀ s, loadSession x.load superBlob bs = some s →
    EachStep (fsStep findDir) (fun s call => call.SparesRoot findDir superBlob s) s x.calls
  close : x.close.NoError
  ends : ∃ t bs', x.run findDir superBlob bs = some (t, bs') ∧
    t.workdir.size ≤ g.totalClusters * g.clusterSize

section Directory

variable {findDir : FindDir} {superBlob : BlobId} {bs bs' : Blobstore g} {x : Session}
  {d : SpdkfsDir} {t : Fs g}

/-- If it saves its directory, the blobstore keeps that. -/
theorem Session.Sound.keeps (hlegal : x.Sound findDir superBlob bs)
    (hg : sizeofDirent ≤ g.ioUnit) (hfind : ∀ n d, findDir n d = spdkfsDirLookup d n)
    (hkeeps : bs.Keeps superBlob d) (hsaves : x.Saves findDir superBlob bs)
    (hrun : x.run findDir superBlob bs = some (t, bs')) : bs'.Keeps superBlob t.workdir := by
  obtain ⟨s, b, hload, hs⟩ := load_of_keeps hg hkeeps hlegal.load
  obtain ⟨s', hload', hcalls, hclose⟩ := Session.run_eq_some.mp hrun
  cases hload.symm.trans hload'
  obtain ⟨t', bs'', hrun', hfull⟩ := hlegal.ends
  cases hrun.symm.trans hrun'
  have hlegal' := hlegal.calls s hload
  have hnoError := hlegal'.mono fun _ _ h => h.1
  have ht : t.Rooted superBlob b :=
    exec_inv (fun _ _ _ hs hcall h => fsStep_sparesRoot hg hfind hs hcall h) hs.toRooted hlegal'
      hcalls
  by_cases happ : SomeStep (fsStep findDir) (fun s call => call.Appends s) s x.calls
  · obtain ⟨bs₁, hclose₁, hkeeps₁⟩ := close_of_dirty hg hlegal.close ht hs.ref
      (dirty_of_appends hfind hnoError happ hcalls) hfull
    cases hclose.symm.trans hclose₁
    exact hkeeps₁
  · -- nothing is appended, and so nothing is removed
    have hsame := dir_of_neither hfind hnoError (not_someStep.mp happ)
      ((hsaves s hload).resolve_left happ) hcalls
    obtain ⟨bs₁, hclose₁, hb⟩ := close_of_clean hlegal.close ht hs.ref (hsame ▸ hs.clean)
    cases hclose.symm.trans hclose₁
    rw [hsame]
    exact ⟨⟨_, hb, hs.holds⟩, hs.entries⟩

/-- The same entries are found. -/
theorem SpdkfsDir.Same.lookup {d d' : SpdkfsDir} (h : d.Same d') {name : CStr}
    (hlen : name.strlen < sizeofDirent) :
    spdkfsDirLookup d' name = spdkfsDirLookup d name := by
  have hfind : (List.range d.count).find? (d'.direntIs name) =
      (List.range d.count).find? (d.direntIs name) := by
    apply List.find?_congr
    intro i hi
    exact (h.entries i (List.mem_range.mp hi)).is_of_lt hlen
  unfold spdkfsDirLookup
  rw [show d'.dirPersist.dDirentCount = d.dirPersist.dDirentCount from h.count, hfind]

end Directory

/-! ## The life of a file in a session -/

def FdCall.toFs (fd : Int) : FdCall → FsCall
  | .lseek offset whence => .lseek fd offset whence
  | .write io buf nbytes registered => .write io fd buf nbytes registered
  | .read io buf nbytes registered => .read io fd buf nbytes registered

def SharedCall.toFs (fd : Int) : SharedCall → FsCall
  | .own call => call.toFs fd
  | .other call => call

section Shared

variable {findDir : FindDir} {fd : Int} {w w' : IoWorld g}

/-- A step of the caller of the descriptor is a step of the file system. -/
theorem sharedStep_fs {call : SharedCall} (h : sharedStep findDir fd w call = some w') :
    fsStep findDir w.fs (call.toFs fd) = some w'.fs := by
  cases call with
  | own call =>
      cases call with
      | lseek offset whence =>
          obtain ⟨r, hr, rfl⟩ := Option.map_eq_some_iff.mp h
          exact fsStep_eq_some.mpr ⟨r.2, hr⟩
      | write io buf nbytes registered =>
          obtain ⟨r, hr, rfl⟩ := Option.map_eq_some_iff.mp h
          exact fsStep_eq_some.mpr ⟨r.2.2, Option.map_eq_some_iff.mpr ⟨r, hr, rfl⟩⟩
      | read io buf nbytes registered =>
          obtain ⟨r, hr, rfl⟩ := Option.map_eq_some_iff.mp h
          exact fsStep_eq_some.mpr ⟨r.2.2, Option.map_eq_some_iff.mpr ⟨r, hr, rfl⟩⟩
  | other call =>
      obtain ⟨r, hr, rfl⟩ := Option.map_eq_some_iff.mp h
      exact fsStep_eq_some.mpr ⟨r.2, hr⟩

theorem exec_sharedStep_fs {calls : List SharedCall}
    (h : exec (sharedStep findDir fd) w calls = some w') :
    exec (fsStep findDir) w.fs (calls.map (SharedCall.toFs fd)) = some w'.fs := by
  induction calls generalizing w with
  | nil =>
      cases h
      rfl
  | cons call calls ih =>
      obtain ⟨u, hu, huw⟩ := exec_cons_eq_some.mp h
      rw [List.map_cons, exec_cons_eq_some]
      exact ⟨u.fs, sharedStep_fs hu, ih huw⟩

end Shared

/-- A file in a session: some calls open it, its caller uses it through `fd` beside other calls,
closes it as the last to have it open, and from there on nothing gets to it by name. In the end
the directory has it under `name`. -/
structure FileLife (findDir : FindDir) (superBlob : BlobId) (bs : Blobstore g) (x : Session)
    (name : CStr) where
  fd : Int
  opening : List FsCall
  shared : List SharedCall
  after : List FsCall
  calls : x.calls = opening ++ (shared.map (SharedCall.toFs fd) ++ .close 0 fd :: after)
  loaded : Fs g
  load : loadSession x.load superBlob bs = some loaded
  opened : Fs g
  opens : exec (fsStep findDir) loaded opening = some opened
  object : FileId
  file : OpenFile g
  holds : opened.Holds fd object file
  pos : Nat
  isAt : file.At pos
  known : IoWorld g
  uses : exec (sharedStep findDir fd) (.start opened pos file.persist.fSize) shared = some known
  legal : EachStep (sharedStep findDir fd) (fun w call => call.Legal fd w)
    (.start opened pos file.persist.fSize) shared
  blob : BlobId
  isBlob : known.fs.blobOf fd = some blob
  last : (known.fs.bs.blobs blob).map (fun b => b.openRef) = some 1
  spared : ∀ closed, fsStep findDir known.fs (.close 0 fd) = some closed →
    EachStep (fsStep findDir) (fun s call => call.Spares findDir blob s) closed after
  named : ∀ t bs', x.run findDir superBlob bs = some (t, bs') →
    ∃ i : Nat, spdkfsDirLookup t.workdir name = i ∧ t.workdir.direntId i = blob

/-! ## What a close leaves on disk, and what an open finds -/

/-- The blob has on disk a record of size `top`, and the known bytes. -/
structure Blob.Knows (b : Blob g) (shadow : Nat → Option UInt8) (top : Nat) : Prop where
  closed : b.openRef = 0
  record : ∃ p, b.disk.filePersistent = some p ∧ p.fSize = top
  known : ∀ q byte, shadow q = some byte → q < b.capacity ∧ b.data q = byte

section Ends

variable {findDir : FindDir} {fd : Int} {w : IoWorld g} {s s' : Fs g} {b : Blob g}
  {shadow : Nat → Option UInt8} {top : Nat}

/-- The last close of a file leaves all that its caller knows on disk. -/
theorem IoWorld.Held.close (hw : w.Held fd) {id : BlobId} (hid : w.fs.blobOf fd = some id)
    (hlast : (w.fs.bs.blobs id).map (fun b => b.openRef) = some 1)
    (h : fsStep findDir w.fs (.close 0 fd) = some s') :
    ∃ b, s'.bs.blobs id = some b ∧ b.Knows w.shadow w.top := by
  obtain ⟨f, v, hv, hagree⟩ := hw
  obtain ⟨ret, hrun⟩ := fsStep_eq_some.mp h
  obtain ⟨f', file, hf, hfile, -, -, -, -, -, hblobs⟩ := monopolyClose_cases hrun
  obtain rfl : f = f' := Option.some.inj (hv.file.symm.trans hf)
  obtain rfl : v.file = file :=
    Option.some.inj ((Fs.openFile_eq_some.mp hv.openFile).1.symm.trans hfile)
  obtain rfl : v.file.blob = id := Option.some.inj (hv.blobOf.symm.trans hid)
  rcases hblobs with ⟨hnone, -⟩ | ⟨v', hv', hblobs⟩
  · cases hnone.symm.trans hv.openFile
  · obtain rfl : v = v' := Option.some.inj (hv.openFile.symm.trans hv')
    have href : v.storePersist.blob.openRef = 1 := by
      rw [hv.blob] at hlast
      exact Option.some.inj hlast
    refine ⟨v.storePersist.blob.closing, ?_, ?_, ⟨v.persist, ?_, hagree.size⟩, ?_⟩
    · rw [hblobs, Function.update_self, if_pos rfl]
    · show v.storePersist.blob.openRef - 1 = 0
      rw [href]
    · rw [Blob.closing_disk]
      rfl
    · intro q byte hq
      rw [Blob.capacity, Blob.closing_clusters, Blob.closing_data]
      exact hagree.known q byte hq

/-- An open of the name that finds such a blob is one of a file of which the same is known. -/
theorem Blob.Knows.reopened (h : b.Knows shadow top) {name : CStr} {i : Nat}
    (hl : spdkfsDirLookup s.workdir name = i) (hb : s.bs.blobs (s.workdir.direntId i) = some b)
    (htable : s.fdtable = .zero) :
    ∃ s' fd, monopolyOpen 0 name s = some (s', fd) ∧ 0 ≤ fd ∧
      IoWorld.Inv fd ⟨s', 0, shadow, top⟩ := by
  obtain ⟨p, hp, hsize⟩ := h.record
  have hattr : b.opening.xattrs.filePersistent = some p := by
    rw [Blob.opening, if_pos h.closed]
    exact hp
  have hslot : s.fdtable.HasSlot := htable ▸ Or.inl (by decide)
  obtain ⟨t, fd, ht, hne⟩ := hslot.getFd (htable ▸ Fdtable.Counted.zero)
  obtain ⟨⟨s', fd'⟩, hopen⟩ := Option.isSome_iff_exists.mp <|
    (monopolyOpen_isSome_iff hl).mpr
      ⟨⟨rfl, b, hb, by rw [hattr]; rfl⟩, by rw [ht]; rfl⟩
  rcases monopolyOpen_cases hopen with
    ⟨hneg, -⟩ | ⟨j, -, b', t', hj, hb', -, hblobs, ht', hinstall, -, -, hfiles⟩
  · omega
  · obtain rfl : i = j := Int.ofNat.inj (hl.symm.trans hj)
    cases hb.symm.trans hb'
    cases ht.symm.trans ht'
    have h0 : 0 ≤ fd := by
      rcases getFdFromTable_cases ht with ⟨hneg, -⟩ | ⟨k, rfl, -⟩
      · exact absurd hneg hne
      · exact Int.natCast_nonneg k
    refine ⟨s', fd, hopen, h0, s.nextFile,
      ⟨⟨s.workdir.direntId i, .xattr, 0⟩, b.opening, s'.bs.log⟩, ⟨?_, ?_⟩, ?_, ?_, h.known⟩
    · rw [hinstall]
      exact Fdtable.install_file ht hne s.nextFile
    · rw [Fs.openFile_eq_some, hfiles, hblobs]
      exact ⟨Function.update_self .., Function.update_self .., Nat.succ_pos _, rfl⟩
    · exact OpenFile.at_zero rfl
    · show (b.opening.xattrs.filePersistent.getD .unset).fSize = top
      rw [hattr]
      exact hsize

end Ends

/-! ## The round trip between sessions -/

namespace FileLife

variable {findDir : FindDir} {superBlob : BlobId} {bs bs' : Blobstore g} {x : Session}
  {name : CStr} {t : Fs g}

/-- When the session ends, the file is closed and known. -/
theorem knows (life : FileLife findDir superBlob bs x name) (hB : g.ioUnit ∣ bufSize)
    (hrun : x.run findDir superBlob bs = some (t, bs')) :
    ∃ b, t.bs.blobs life.blob = some b ∧ b.Knows life.known.shadow life.known.top := by
  obtain ⟨s, hload, hcalls, -⟩ := Session.run_eq_some.mp hrun
  cases hload.symm.trans life.load
  rw [life.calls, exec_append, life.opens, Option.bind_some, exec_append,
    show exec (fsStep findDir) life.opened _ = some life.known.fs from
      exec_sharedStep_fs life.uses, Option.bind_some] at hcalls
  obtain ⟨closed, hclosed, hafter⟩ := exec_cons_eq_some.mp hcalls
  have hstart : (IoWorld.start life.opened life.pos life.file.persist.fSize).Held life.fd :=
    ⟨life.object, life.file, life.holds, life.isAt, rfl, fun _ _ h => nomatch h⟩
  have hheld : life.known.Held life.fd :=
    exec_inv (fun _ _ _ hI hC h => sharedStep_held hB hI hC h) hstart life.legal life.uses
  obtain ⟨b, hb, hknows⟩ := hheld.close life.isBlob life.last hclosed
  refine ⟨b, ?_, hknows⟩
  refine exec_inv (I := fun s => s.bs.blobs life.blob = some b) ?_ hb (life.spared closed hclosed)
    hafter
  intro s call s' hs hcall hstep
  obtain ⟨ret, hrun⟩ := fsStep_eq_some.mp hstep
  exact FsCall.run_spares_closed hs hknows.closed hcall hrun

end FileLife

/-- **Durable round trip.** After a session without blobstore errors that saves its directory, the
next one finds the name, opens it, and reads back a range that its caller knew when it closed the
file exactly when a chunk of some write had started at or past the end of the range. -/
theorem durable_readsBack_iff {findDir : FindDir} (hg : sizeofDirent ≤ g.ioUnit)
    (hB : g.ioUnit ∣ bufSize) (hfind : ∀ n d, findDir n d = spdkfsDirLookup d n)
    {superBlob : BlobId} {bs bs' : Blobstore g} {d : SpdkfsDir} (hkeeps : bs.Keeps superBlob d)
    {x : Session} (hlegal : x.Sound findDir superBlob bs) (hsaves : x.Saves findDir superBlob bs)
    {name : CStr} (hlen : name.strlen < sizeofDirent)
    (life : FileLife findDir superBlob bs x name) {t : Fs g}
    (hrun : x.run findDir superBlob bs = some (t, bs')) {ans : LoadAnswer} (hans : ans.NoError) :
    ∃ s s' fd, loadSession ans superBlob bs' = some s ∧ monopolyOpen 0 name s = some (s', fd) ∧
      0 ≤ fd ∧ ∀ {p n : Nat} {io : Nat → IoAnswer} (buf : Mem) (registered : Bool),
        g.ioUnit ∣ p → g.ioUnit ∣ n → 0 < n →
        (∀ q, p ≤ q → q < p + n → (life.known.shadow q).isSome) → (∀ i, (io i).bserrno = 0) →
        (ReadsBack io fd p n buf registered ⟨s', 0, life.known.shadow, life.known.top⟩ ↔
          p + n ≤ life.known.top ∧ 512 ∣ n ∧ CounterFits registered n) := by
  have hkept := hlegal.keeps hg hfind hkeeps hsaves hrun
  obtain ⟨s, hload, hsame⟩ := Keeps.found hg hkept hans
  obtain ⟨b, hb, hknows⟩ := life.knows hB hrun
  obtain ⟨i, hl, hid⟩ := life.named t bs' hrun
  have hi : i < t.workdir.count := (lookup_eq_natCast hl).1
  have hne : life.blob ≠ superBlob := hid ▸ hkept.apart i hi
  -- the next session finds the blob as it was closed
  have hback := closed_files_survive hrun hload hne
  rw [hb] at hback
  generalize hb' : s.bs.blobs life.blob = o at hback
  cases hback with
  | some hback =>
      rw [hback.closed hknows.closed, ← hid, ← (hsame.entries i hi).id] at hb'
      obtain ⟨s', fd, hopen, h0, hinv⟩ := hknows.reopened ((hsame.lookup hlen).trans hl) hb'
        (loadRoot_spec hload).2.1
      refine ⟨s, s', fd, hload, hopen, h0, fun buf registered hp hn hpos hcov hio => ?_⟩
      exact hinv.readsBack_iff_top hB hp hn hpos hcov hio buf registered

/-- A session that creates a file, writes two chunks and closes it. -/
def writeSession : Session where
  load := .done
  calls := [.create (.done 1) nameA, .write (fun _ => .done) 0 (fun _ => 65) (2 * bufSize) false,
    .close 0 0]
  close := .done

/-- The file of that session. -/
def writeLife : FileLife (g := .malloc4k) (fun n d => spdkfsDirLookup d n) 0 (.formatted 0)
    writeSession nameA where
  fd := 0
  opening := [.create (.done 1) nameA]
  shared := [.own (.write (fun _ => .done) (fun _ => 65) (2 * bufSize) false)]
  after := []
  calls := rfl
  loaded := (loadSession .done 0 (.formatted 0)).get rfl
  load := rfl
  opened := (exec (fsStep fun n d => spdkfsDirLookup d n)
    ((loadSession .done 0 (.formatted 0)).get rfl) [.create (.done 1) nameA]).get rfl
  opens := rfl
  object := 0
  file := _
  holds := ⟨⟨rfl, rfl⟩, rfl, Nat.one_pos⟩
  pos := 0
  isAt := OpenFile.at_zero rfl
  known := _
  uses := rfl
  legal := ⟨show 2 * bufSize < 2 ^ 64 by decide, fun _ _ => trivial⟩
  blob := 1
  isBlob := rfl
  last := rfl
  spared := fun _ _ => trivial
  named := by
    intro t bs' h
    cases h
    exact ⟨0, rfl, rfl⟩

/-- Its first chunk is read back in the next session. -/
theorem durable_firstChunk :
    ∃ t bs' s s' fd, writeSession.run (g := .malloc4k) (fun n d => spdkfsDirLookup d n) 0
        (.formatted 0) = some (t, bs') ∧
      loadSession .done 0 bs' = some s ∧ monopolyOpen 0 nameA s = some (s', fd) ∧
      ReadsBack (fun _ => .done) fd 0 bufSize (fun _ => 0) false
        ⟨s', 0, writeLife.known.shadow, writeLife.known.top⟩ := by
  obtain ⟨r, hrun⟩ : ∃ r, writeSession.run (g := .malloc4k) (fun n d => spdkfsDirLookup d n) 0
      (.formatted 0) = some r := ⟨_, rfl⟩
  have hsound : writeSession.Sound (g := .malloc4k) (fun n d => spdkfsDirLookup d n) 0
      (.formatted 0) := by
    refine ⟨⟨rfl, rfl⟩, ?_, ⟨rfl, rfl, rfl, rfl⟩, _, _, rfl, by decide⟩
    intro s hs
    cases hs
    refine EachStep.cons rfl ⟨⟨rfl, rfl, rfl, by decide⟩, fun _ _ h => nomatch h⟩ ?_
    refine EachStep.cons rfl ⟨trivial, fun _ _ h => nomatch h⟩ ?_
    exact EachStep.cons rfl ⟨rfl, fun _ _ h => nomatch h⟩ trivial
  have hsaves : writeSession.Saves (g := .malloc4k) (fun n d => spdkfsDirLookup d n) 0
      (.formatted 0) := by
    intro s hs
    cases hs
    exact Or.inl (Or.inl rfl)
  obtain ⟨s, s', fd, hload, hopen, -, hread⟩ := durable_readsBack_iff (by decide) (by decide)
    (fun _ _ => rfl) (formatted_keeps 0) hsound hsaves (show nameA.strlen < sizeofDirent by decide)
    writeLife hrun (show LoadAnswer.done.NoError from ⟨rfl, rfl⟩)
  refine ⟨r.1, r.2, s, s', fd, hrun, hload, hopen, (hread _ _ (by decide) (by decide) (by decide)
    ?_ fun _ => rfl).mpr ⟨by decide, by decide, Or.inr (by decide)⟩⟩
  intro q _ hq
  show (noteStored 0 (2 * bufSize) (2 * bufSize) bufSize (fun _ => 65) false
    (fun _ => none) q).isSome
  unfold noteStored
  rw [if_pos (by omega)]
  rfl

end BlobTopFs
