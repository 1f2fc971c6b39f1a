import BlobTopFs.Files.OpenFlags
import BlobTopFs.Files.Ownership
import BlobTopFs.Files.RoundTrip
import BlobTopFs.Lib.Simulation
import BlobTopFs.SimpleFs.TransferAlike

/-!
# Descriptors of different files do not interfere

All transfers of unregistered buffers go through one bounce buffer, and all calls through one
table and one directory. What a caller sees of one descriptor is nevertheless what it would see
if the calls on all other files had not been made.
-/

namespace BlobTopFs

open Machine Run

variable {g : Geometry}

/-! ## What a caller sees -/

/-- What a call gives back: its value, and the buffer of a read or a write. -/
structure Reply where
  ret : Int
  buf : Option Mem

/-- The state after the call, and its reply. -/
def FsCall.answer (findDir : FindDir) (s : Fs g) : FsCall → Option (Fs g × Reply)
  | .read io fd buf nbytes registered =>
      (monopolyRead io fd buf nbytes registered s).map fun r => (r.1, ⟨r.2.2, some r.2.1⟩)
  | .write io fd buf nbytes registered =>
      (monopolyWrite io fd buf nbytes registered s).map fun r => (r.1, ⟨r.2.2, some r.2.1⟩)
  | call => (call.run findDir s).map fun r => (r.1, ⟨r.2, none⟩)

theorem FsCall.answer_run {findDir : FindDir} {s s' : Fs g} {call : FsCall} {reply : Reply}
    (h : call.answer findDir s = some (s', reply)) :
    call.run findDir s = some (s', reply.ret) := by
  cases call with
  | read io fd buf nbytes registered =>
      obtain ⟨r, hr, heq⟩ := Option.map_eq_some_iff.mp h
      cases heq
      exact Option.map_eq_some_iff.mpr ⟨r, hr, rfl⟩
  | write io fd buf nbytes registered =>
      obtain ⟨r, hr, heq⟩ := Option.map_eq_some_iff.mp h
      cases heq
      exact Option.map_eq_some_iff.mpr ⟨r, hr, rfl⟩
  | _ =>
      obtain ⟨r, hr, heq⟩ := Option.map_eq_some_iff.mp h
      cases heq
      exact hr

/-- A seek, a read or a write on the descriptor. -/
def FsCall.on (fd : Int) : FsCall → Bool
  | .lseek fd' _ _ | .read _ fd' _ _ _ | .write _ fd' _ _ _ => fd' == fd
  | _ => false

/-- The file system, and the replies to the calls on one descriptor so far. -/
structure Watched (g : Geometry) where
  fs : Fs g
  seen : List Reply

def Watched.step (findDir : FindDir) (fd : Int) (w : Watched g) (call : FsCall) :
    Option (Watched g) :=
  (call.answer findDir w.fs).map fun r =>
    ⟨r.1, if call.on fd then w.seen ++ [r.2] else w.seen⟩

/-! ## Calls on other files -/

/-- The blob of the file a descriptor stands for. -/
def Fs.blobOf (s : Fs g) (fd : Int) : Option BlobId :=
  (s.fdtable.file fd).bind fun f => (s.files f).map fun file => file.blob

/-- The call leaves the file of `fd` alone: what it reads, writes, seeks or closes has another
blob. A blob that is created gets an id that is not in use, and a create that SPDK fails does
not come upon the file's blob in an uninitialised pointer. Calls on `fd` itself have a length of
type `size_t`. -/
def FsCall.Apart (fd : Int) (s : Fs g) : FsCall → Prop
  | .create ans _ => s.bs.blobs ans.id = none ∧
      (ans.createErrno = 0 ∧ ans.openErrno = 0 ∨ ans.garbage ≠ s.blobOf fd)
  | .close _ fd' => s.blobOf fd' ≠ s.blobOf fd
  | .lseek fd' _ _ => fd' = fd ∨ s.blobOf fd' ≠ s.blobOf fd
  | .read _ fd' _ nbytes _ | .write _ fd' _ nbytes _ =>
      (fd' = fd ∧ nbytes < 2 ^ 64) ∨ s.blobOf fd' ≠ s.blobOf fd
  | .openName .. | .stat .. | .unlink .. => True

/-- The descriptor is in use for the file object `f`, which is not a new one. -/
structure Fs.Holds (s : Fs g) (fd : Int) (f : FileId) (v : OpenFile g) : Prop
    extends s.Resolves fd f v where
  used : s.fdtable.used fd.toNat = true
  old : f < s.nextFile

namespace Fs

variable {s s' : Fs g} {fd fd' : Int} {f f' : FileId} {v w : OpenFile g}

theorem Resolves.blobOf (h : s.Resolves fd f v) : s.blobOf fd = some v.file.blob := by
  rw [Fs.blobOf, h.file, Option.bind_some, (openFile_eq_some.mp h.openFile).1]
  rfl

theorem blobOf_eq (hf : s.fdtable.file fd = some f) {file : SpdkfsFile}
    (hfile : s.files f = some file) : s.blobOf fd = some file.blob := by
  rw [Fs.blobOf, hf, Option.bind_some, hfile]
  rfl

/-- The blob of an open file. -/
theorem Holds.blob (h : s.Holds fd f v) : s.bs.blobs v.file.blob = some v.blob :=
  (openFile_eq_some.mp h.openFile).2.1

/-- A state that still has the descriptor, the object, and the blob with some reference. -/
theorem Holds.keep (h : s.Holds fd f v) (hfile : s'.fdtable.file fd = s.fdtable.file fd)
    (hused : s'.fdtable.used fd.toNat = true) (hnext : s.nextFile ≤ s'.nextFile)
    (hobject : s'.files f = s.files f)
    (hblob : ∃ openRef, 0 < openRef ∧
      s'.bs.blobs v.file.blob = some { v.blob with openRef := openRef }) :
    ∃ v', s'.Holds fd f v' ∧ v.Alike v' := by
  obtain ⟨openRef, href, hblob⟩ := hblob
  refine ⟨v.beside openRef s'.bs.log, ⟨⟨hfile.trans h.file, ?_⟩, hused, ?_⟩, _, _, rfl⟩
  · rw [openFile_eq_some, hobject]
    exact ⟨(openFile_eq_some.mp h.openFile).1, hblob, href, rfl⟩
  · exact Nat.lt_of_lt_of_le h.old hnext

/-- One where the table has not changed. -/
theorem Holds.same (h : s.Holds fd f v) (htable : s'.fdtable = s.fdtable)
    (hnext : s'.nextFile = s.nextFile) (hobject : s'.files f = s.files f)
    (hblob : ∃ openRef, 0 < openRef ∧
      s'.bs.blobs v.file.blob = some { v.blob with openRef := openRef }) :
    ∃ v', s'.Holds fd f v' ∧ v.Alike v' :=
  h.keep (congrArg (fun t => Fdtable.file t fd) htable) (htable ▸ h.used) (Nat.le_of_eq hnext.symm)
    hobject hblob

/-- One with a new file object, which gets another descriptor. -/
theorem Holds.install (h : s.Holds fd f v) {t : Fdtable} {ret : Int} {file : SpdkfsFile}
    (ht : getFdFromTable s.fdtable = some (t, ret)) (htable : s'.fdtable = t.install ret s.nextFile)
    (hnext : s'.nextFile = s.nextFile + 1)
    (hfiles : s'.files = Function.update s.files s.nextFile (some file))
    (hblob : ∃ openRef, 0 < openRef ∧
      s'.bs.blobs v.file.blob = some { v.blob with openRef := openRef }) :
    ∃ v', s'.Holds fd f v' ∧ v.Alike v' := by
  have hnext' : s.nextFile ≤ s'.nextFile := hnext ▸ Nat.le_succ _
  have hobject : s'.files f = s.files f := by
    rw [hfiles, Function.update_of_ne (Nat.ne_of_lt h.old)]
  rcases install_cases ht s.nextFile with ⟨-, hsame⟩ | ⟨i, -, -, hfree, hused, hopen⟩
  · rw [hsame] at htable
    refine h.keep ?_ ?_ hnext' hobject hblob
    · rw [htable]
    · rw [htable]
      exact h.used
  · have hne : fd.toNat ≠ i := by
      rintro rfl
      cases h.used.symm.trans hfree
    refine h.keep ?_ ?_ hnext' hobject hblob
    · rw [htable, Fdtable.file, Fdtable.file, hopen, Function.update_of_ne hne]
    · rw [htable, hused, Function.update_of_ne hne]
      exact h.used

/-! The blob of the file after a change of some blob. -/

theorem Holds.blob_kept (h : s.Holds fd f v)
    (hblob : s'.bs.blobs v.file.blob = s.bs.blobs v.file.blob) :
    ∃ openRef, 0 < openRef ∧
      s'.bs.blobs v.file.blob = some { v.blob with openRef := openRef } :=
  ⟨v.blob.openRef, h.openRef_pos, hblob.trans h.blob⟩

theorem Holds.blob_other (h : s.Holds fd f v) {id : BlobId} {o : Option (Blob g)}
    (hne : v.file.blob ≠ id) (hblobs : s'.bs.blobs = Function.update s.bs.blobs id o) :
    ∃ openRef, 0 < openRef ∧
      s'.bs.blobs v.file.blob = some { v.blob with openRef := openRef } := by
  apply h.blob_kept
  rw [hblobs, Function.update_of_ne hne]

/-- If it is the one that is opened, it has one more reference. -/
theorem Holds.blob_opening (h : s.Holds fd f v) {id : BlobId} {b : Blob g}
    (hb : s.bs.blobs id = some b)
    (hblobs : s'.bs.blobs = Function.update s.bs.blobs id (some b.opening)) :
    ∃ openRef, 0 < openRef ∧
      s'.bs.blobs v.file.blob = some { v.blob with openRef := openRef } := by
  by_cases hid : v.file.blob = id
  · subst hid
    cases hb.symm.trans h.blob
    refine ⟨v.blob.openRef + 1, Nat.succ_pos _, ?_⟩
    rw [hblobs, Function.update_self, Blob.opening, if_neg (Nat.ne_of_gt h.openRef_pos)]
  · exact h.blob_other hid hblobs

/-- A file with another blob is another object. -/
theorem Holds.other (h : s.Holds fd f v) (hne : s.blobOf fd' ≠ s.blobOf fd) {file : SpdkfsFile}
    (hf : s.fdtable.file fd' = some f') (hfile : s.files f' = some file) :
    f ≠ f' ∧ v.file.blob ≠ file.blob := by
  rw [blobOf_eq hf hfile, h.blobOf] at hne
  have hblob : v.file.blob ≠ file.blob := fun heq => hne (congrArg some heq.symm)
  refine ⟨fun hff => hblob ?_, hblob⟩
  subst hff
  rw [Option.some.inj ((openFile_eq_some.mp h.openFile).1.symm.trans hfile)]

/-- So a transfer of it leaves this one. -/
theorem Holds.putFile_other (h : s.Holds fd f v) (hne : s.blobOf fd' ≠ s.blobOf fd)
    (hres : s.Resolves fd' f' w) {w' : OpenFile g} (hw : w'.file.blob = w.file.blob)
    (bounce : Mem) :
    ∃ v', ({ s.putFile f' w' with buffer := bounce } : Fs g).Holds fd f v' ∧ v.Alike v' := by
  obtain ⟨hff, hblob⟩ := h.other hne hres.file (openFile_eq_some.mp hres.openFile).1
  rw [← hw] at hblob
  exact h.same rfl rfl (Function.update_of_ne hff ..) (h.blob_other hblob rfl)

end Fs

/-- What `blob_create` and the record of the new file leave of the other blobs. -/
theorem blobCreate_spares {ans : CreateAnswer} {s : Fs g} {fd : Int} {f : FileId} {v : OpenFile g}
    (h : s.Holds fd f v) (hfresh : s.bs.blobs ans.id = none)
    (hdone : ans.createErrno = 0 ∧ ans.openErrno = 0 ∨ ans.garbage ≠ s.blobOf fd)
    {bs : Blobstore g} {blob : BlobId} {ok : Bool}
    (hc : blobCreate ans.createErrno ans.openErrno ans.id ans.content ans.garbage s.bs =
      some (bs, blob, ok)) :
    v.file.blob ≠ blob ∧ bs.blobs v.file.blob = s.bs.blobs v.file.blob := by
  have hid : v.file.blob ≠ ans.id := by
    intro heq
    cases (heq ▸ h.blob).symm.trans hfresh
  by_cases he : ans.createErrno = 0 ∧ ans.openErrno = 0
  · obtain ⟨rfl, -, hblobs⟩ := blobCreate_done he.1 he.2 hc
    rw [hblobs]
    exact ⟨hid, Function.update_of_ne hid ..⟩
  · obtain ⟨bs', hc', hopened⟩ := blobCreate_of_failed hfresh he
    rw [hc'] at hc
    obtain ⟨b, hb, heq⟩ := Option.map_eq_some_iff.mp hc
    cases heq
    rw [hb, h.blobOf] at hdone
    refine ⟨fun heq => hdone.resolve_left he (congrArg some heq.symm), ?_⟩
    have hopen : bs.opened v.file.blob = some v.blob :=
      (hopened _).trans (Blobstore.opened_eq_some.mpr ⟨h.blob, h.openRef_pos⟩)
    rw [(Blobstore.opened_eq_some.mp hopen).1, h.blob]

/-- Descriptors are not negative. -/
theorem Fdtable.file_nonneg {t : Fdtable} {fd : Int} {f : FileId} (h : t.file fd = some f) :
    0 ≤ fd := by
  unfold Fdtable.file at h
  split at h
  · next hfd => exact hfd.1
  · cases h

/-- A call on other files leaves the file as it was, but for references and the log. -/
theorem FsCall.run_spares {findDir : FindDir} {s s' : Fs g} {call : FsCall} {ret fd : Int}
    {f : FileId} {v : OpenFile g} (h : s.Holds fd f v) (hapart : call.Apart fd s)
    (hon : call.on fd = false) (hrun : call.run findDir s = some (s', ret)) :
    ∃ v', s'.Holds fd f v' ∧ v.Alike v' := by
  cases call with
  | create ans name =>
      rcases monopolyCreate_cases hrun with
        ⟨-, rfl, -⟩ | ⟨bs, blob, ok, b, dir, t, -, hc, -, -, ht, rfl⟩
      · exact ⟨v, h, .refl v⟩
      · obtain ⟨hne, hblob⟩ := blobCreate_spares h hapart.1 hapart.2 hc
        refine h.install ht rfl rfl rfl (h.blob_kept ?_)
        exact (Blobstore.setBlob_of_ne _ _ hne).trans hblob
  | openName openErrno name =>
      rcases monopolyOpen_cases hrun with
        ⟨-, rfl, -⟩ | ⟨i, -, b, t, -, hb, -, hblobs, ht, htable, hnext, -, hfiles⟩
      · exact ⟨v, h, .refl v⟩
      · exact h.install ht htable hnext hfiles (h.blob_opening hb hblobs)
  | close closeErrno fd' =>
      obtain ⟨f', file, hf, hfile, -, hfiles, hnext, -, htable, hblobs⟩ := monopolyClose_cases hrun
      obtain ⟨-, hne⟩ := h.other hapart hf hfile
      have hfd : fd.toNat ≠ fd'.toNat := by
        have h0 := Fdtable.file_nonneg h.file
        have h0' := Fdtable.file_nonneg hf
        intro heq
        obtain rfl : fd = fd' := by omega
        exact hapart rfl
      refine h.keep ?_ ?_ (Nat.le_of_eq hnext.symm) (congrFun hfiles f) ?_
      · rw [htable]
        rfl
      · rw [htable]
        exact (Function.update_of_ne hfd ..).trans h.used
      · rcases hblobs with ⟨-, hblobs⟩ | ⟨w, -, hblobs⟩
        · exact h.blob_kept (congrFun hblobs _)
        · exact h.blob_other hne hblobs
  | lseek fd' offset whence =>
      obtain ⟨f', file, hf, hfile, -, rfl⟩ := Fs.monopolyLseek_cases hrun
      have hne := hapart.resolve_left (by simpa [FsCall.on] using hon)
      exact h.same rfl rfl (Function.update_of_ne (h.other hne hf hfile).1 ..) (h.blob_kept rfl)
  | read io fd' buf nbytes registered =>
      obtain ⟨⟨s'', buf', ret'⟩, hread, heq⟩ := Option.map_eq_some_iff.mp hrun
      cases heq
      have hne := hapart.resolve_left fun hfd => by simp [FsCall.on, hfd.1] at hon
      obtain ⟨f', w, r, hres, hr, rfl, -, -⟩ := Fs.monopolyRead_cases hread
      obtain ⟨k, -, hadv⟩ := monopolyReadFile_composes Advanced.composes
        (fun _ _ _ _ _ h => simpleFsRead_advanced h) hr
      exact h.putFile_other hne hres hadv.fileBlob r.bounce
  | write io fd' buf nbytes registered =>
      obtain ⟨⟨s'', buf', ret'⟩, hwrite, heq⟩ := Option.map_eq_some_iff.mp hrun
      cases heq
      have hne := hapart.resolve_left fun hfd => by simp [FsCall.on, hfd.1] at hon
      obtain ⟨f', w, r, hres, hr, rfl, -, -⟩ := Fs.monopolyWrite_cases hwrite
      obtain ⟨k, -, hadv⟩ := monopolyWriteFile_composes Advanced.composes
        (fun _ _ _ _ _ h => simpleFsWrite_advanced h) hr
      exact h.putFile_other hne hres hadv.fileBlob r.bounce
  | stat openErrno name =>
      obtain ⟨⟨s'', st, ret'⟩, hstat, heq⟩ := Option.map_eq_some_iff.mp hrun
      cases heq
      obtain ⟨hfiles, hnext, htable, -, hblobs⟩ := monopolyStat_cases hstat
      refine h.same htable hnext (congrFun hfiles f) ?_
      rcases hblobs with ⟨hblobs, -⟩ | ⟨-, b, hb, hblobs⟩
      · exact h.blob_kept (congrFun hblobs _)
      · exact h.blob_opening hb hblobs
  | unlink deleteErrno undef name =>
      rcases monopolyUnlink_cases hrun with ⟨-, rfl, -⟩ | ⟨i, -, -, hbs, hfiles, hnext, htable⟩
      · exact ⟨v, h, .refl v⟩
      · refine h.same htable hnext (congrFun hfiles f) ?_
        rcases blobUnlink_cases deleteErrno (s.workdir.direntId i) s.bs with
          ⟨hblobs, -⟩ | ⟨-, ⟨b, hb, href⟩, hblobs⟩
        · exact h.blob_kept (congrFun (hbs ▸ hblobs) _)
        · -- a blob that is deleted has no reference
          refine h.blob_other (fun heq => ?_) (hbs ▸ hblobs)
          cases (heq ▸ h.blob).symm.trans hb
          exact absurd h.openRef_pos (Nat.not_lt.mpr (Nat.le_of_eq href))

/-! ## Calls on the file -/

section Own

variable {s t : Fs g} {fd : Int} {f : FileId} {v w : OpenFile g}

/-- After a transfer or a seek the descriptor is still in use for its object. -/
theorem Fs.Holds.putFile (h : s.Holds fd f v) {v' : OpenFile g} (href : 0 < v'.blob.openRef)
    (bounce : Mem) : ({ s.putFile f v' with buffer := bounce } : Fs g).Holds fd f v' :=
  ⟨h.toResolves.putFile bounce href, h.used, h.old⟩

/-- Two answers give back the same and leave alike files. -/
def AlikeAnswers (fd : Int) (f : FileId) (r r' : Fs g × Reply) : Prop :=
  r'.2 = r.2 ∧ ∃ v w, r.1.Holds fd f v ∧ r'.1.Holds fd f w ∧ v.Alike w

/-- A request to alike files has the same answer. -/
theorem alikeAnswers_of_request (h : s.Holds fd f v) (h' : t.Holds fd f w)
    {o o' : Option (MonopolyIo g)} (hrel : Option.Rel MonopolyIo.Alike o o')
    (href : ∀ r, o = some r → r.view.blob.openRef = v.blob.openRef)
    (href' : ∀ r, o' = some r → r.view.blob.openRef = w.blob.openRef) :
    Option.Rel (AlikeAnswers fd f)
      (o.map fun r => (({ s.putFile f r.view with buffer := r.bounce } : Fs g),
        (⟨r.ret, some r.buf⟩ : Reply)))
      (o'.map fun r => (({ t.putFile f r.view with buffer := r.bounce } : Fs g),
        (⟨r.ret, some r.buf⟩ : Reply))) := by
  cases hrel with
  | none => exact .none
  | @some r r' hr =>
      refine .some ⟨?_, r.view, r'.view, h.putFile ?_ _, h'.putFile ?_ _, hr.view⟩
      · dsimp only
        rw [hr.ret, hr.buf]
      · rw [href r rfl]
        exact h.openRef_pos
      · rw [href' r' rfl]
        exact h'.openRef_pos

/-- A call on alike files has the same answer. -/
theorem FsCall.answer_alike (findDir : FindDir) (hB : g.ioUnit ∣ bufSize) {call : FsCall}
    (h : s.Holds fd f v) (h' : t.Holds fd f w) (hvw : v.Alike w) (hapart : call.Apart fd s)
    (hon : call.on fd = true) :
    Option.Rel (AlikeAnswers fd f) (call.answer findDir s) (call.answer findDir t) := by
  cases call with
  | lseek fd' offset whence =>
      obtain rfl : fd' = fd := by simpa [FsCall.on] using hon
      obtain ⟨s', hs', -, hres⟩ := Fs.monopolyLseek_eq h.toResolves offset whence
      obtain ⟨t', ht', -, hres'⟩ := Fs.monopolyLseek_eq h'.toResolves offset whence
      simp only [FsCall.answer, FsCall.run, hs', ht']
      obtain ⟨_, _, _, _, _, rfl⟩ := Fs.monopolyLseek_cases hs'
      obtain ⟨_, _, _, _, _, rfl⟩ := Fs.monopolyLseek_cases ht'
      refine .some ⟨?_, _, _, ⟨hres, h.used, h.old⟩, ⟨hres', h'.used, h'.old⟩, ?_⟩
      · rw [hvw.file]
      · rw [hvw.file]
        exact hvw.withFile _
  | read io fd' buf nbytes registered =>
      obtain rfl : fd' = fd := by simpa [FsCall.on] using hon
      obtain ⟨-, h64⟩ := hapart.resolve_right fun hne => hne rfl
      have hrel := monopolyReadFile_alike hB h64 hvw io s.buffer t.buffer buf registered
      have hkeep : ∀ (v : OpenFile g) (bounce : Mem) r,
          monopolyReadFile io v bounce buf nbytes registered = some r →
            r.view.blob.openRef = v.blob.openRef := by
        intro v bounce r hr
        obtain ⟨k, -, hadv⟩ := monopolyReadFile_composes Advanced.composes
          (fun _ _ _ _ _ h => simpleFsRead_advanced h) hr
        exact hadv.openRef
      simp only [FsCall.answer, monopolyRead, h.file, h.openFile, h'.file, h'.openFile,
        Option.bind_some, Option.map_map]
      exact alikeAnswers_of_request h h' hrel (hkeep v _) (hkeep w _)
  | write io fd' buf nbytes registered =>
      obtain rfl : fd' = fd := by simpa [FsCall.on] using hon
      obtain ⟨-, h64⟩ := hapart.resolve_right fun hne => hne rfl
      have hrel := monopolyWriteFile_alike hB h64 hvw io s.buffer t.buffer buf registered
      have hkeep : ∀ (v : OpenFile g) (bounce : Mem) r,
          monopolyWriteFile io v bounce buf nbytes registered = some r →
            r.view.blob.openRef = v.blob.openRef := by
        intro v bounce r hr
        obtain ⟨k, -, hadv⟩ := monopolyWriteFile_composes Advanced.composes
          (fun _ _ _ _ _ h => simpleFsWrite_advanced h) hr
        exact hadv.openRef
      simp only [FsCall.answer, monopolyWrite, h.file, h.openFile, h'.file, h'.openFile,
        Option.bind_some, Option.map_map]
      exact alikeAnswers_of_request h h' hrel (hkeep v _) (hkeep w _)
  | _ => exact Bool.noConfusion hon

end Own

/-! ## Runs -/

/-- The same replies so far, and alike files. -/
def Watched.Alike (fd : Int) (f : FileId) (w w' : Watched g) : Prop :=
  w'.seen = w.seen ∧ ∃ v v', w.fs.Holds fd f v ∧ w'.fs.Holds fd f v' ∧ v.Alike v'

section Runs

variable {findDir : FindDir} {fd : Int} {f : FileId} {w w' u : Watched g} {call : FsCall}

theorem Watched.step_own (hB : g.ioUnit ∣ bufSize) (h : w.Alike fd f w')
    (hapart : call.Apart fd w.fs) (hon : call.on fd = true) :
    Option.Rel (Watched.Alike fd f) (w.step findDir fd call) (w'.step findDir fd call) := by
  obtain ⟨hseen, v, v', hv, hv', halike⟩ := h
  have hrel := FsCall.answer_alike findDir hB hv hv' halike hapart hon
  unfold Watched.step
  generalize call.answer findDir w.fs = o, call.answer findDir w'.fs = o' at hrel
  cases hrel with
  | none => exact .none
  | some hr =>
      obtain ⟨hreply, hfiles⟩ := hr
      refine .some ⟨?_, hfiles⟩
      dsimp only
      rw [if_pos hon, if_pos hon, hseen, hreply]

theorem Watched.step_other (h : w.Alike fd f w') (hapart : call.Apart fd w.fs)
    (hon : call.on fd = false) (hstep : w.step findDir fd call = some u) : u.Alike fd f w' := by
  obtain ⟨hseen, v, v', hv, hv', halike⟩ := h
  obtain ⟨⟨s', reply⟩, hanswer, rfl⟩ := Option.map_eq_some_iff.mp hstep
  obtain ⟨v'', hv'', halike'⟩ := FsCall.run_spares hv hapart hon (FsCall.answer_run hanswer)
  refine ⟨?_, v'', v', hv'', hv', halike'.symm.trans halike⟩
  rw [hon]
  exact hseen

end Runs

/-- **Isolation.** What the calls on one descriptor return in a run, the bytes they deliver
included, and the file they leave, are what they would be with the same answers of SPDK had all
the other calls been left out: those on other files, and every create, open, stat and unlink.
That the device is out of clusters is an answer of SPDK's. -/
theorem descriptor_isolated (findDir : FindDir) (hB : g.ioUnit ∣ bufSize) {s : Fs g} {fd : Int}
    {f : FileId} {v : OpenFile g} (h : s.Holds fd f v) (calls : List FsCall) {w : Watched g}
    (hapart : EachStep (Watched.step findDir fd) (fun w call => call.Apart fd w.fs) ⟨s, []⟩ calls)
    (hrun : exec (Watched.step findDir fd) ⟨s, []⟩ calls = some w) :
    ∃ w', exec (Watched.step findDir fd) ⟨s, []⟩ (calls.filter (FsCall.on fd)) = some w' ∧
      w.Alike fd f w' :=
  exec_filter (fun _ _ _ h hapart hon => Watched.step_own hB h hapart hon)
    (fun _ _ _ _ h hapart hon hstep => Watched.step_other h hapart hon hstep)
    ⟨rfl, v, v, h, h, .refl v⟩ hapart hrun

/-- The file system of `file_ut.c` with a second file open, at descriptor 1. -/
def twoFilesFs : Fs .malloc0 :=
  ((monopolyCreate (.done 2) nameB fileUtFs).get rfl).1

theorem twoFilesFs_holds : ∃ v : OpenFile .malloc0, twoFilesFs.Holds 0 0 v ∧ v.At 0 ∧
    v.persist.fSize = 0 :=
  ⟨_, ⟨⟨rfl, rfl⟩, rfl, by decide⟩, OpenFile.at_zero rfl, rfl⟩

/-- Two writes, through the same bounce buffer. -/
theorem two_writes_isolated :
    ∃ w w' : Watched .malloc0,
      exec (Watched.step (fun _ _ => -1) 0) ⟨twoFilesFs, []⟩
        [.write (fun _ => .done) 1 (fun _ => 66) 4096 false,
          .write (fun _ => .done) 0 (fun _ => 65) 4096 false] = some w ∧
      exec (Watched.step (fun _ _ => -1) 0) ⟨twoFilesFs, []⟩
        [.write (fun _ => .done) 0 (fun _ => 65) 4096 false] = some w' ∧ w.Alike 0 0 w' := by
  obtain ⟨v, hv, -⟩ := twoFilesFs_holds
  obtain ⟨w', hw', halike⟩ := descriptor_isolated (fun _ _ => -1) (by decide) hv
    [.write (fun _ => .done) 1 (fun _ => 66) 4096 false,
      .write (fun _ => .done) 0 (fun _ => 65) 4096 false]
    ⟨Or.inr (by decide), fun _ _ => ⟨Or.inl ⟨rfl, by decide⟩, fun _ _ => trivial⟩⟩ rfl
  exact ⟨_, w', rfl, hw', halike⟩

/-! ## The round trip among other calls -/

/-- A call on the descriptor, or any other call of the application. -/
inductive SharedCall where
  | own (call : FdCall)
  | other (call : FsCall)

/-- The caller of the descriptor learns nothing from the other calls. -/
def sharedStep (findDir : FindDir) (fd : Int) (w : IoWorld g) : SharedCall → Option (IoWorld g)
  | .own call => ioStep fd w call
  | .other call => (call.run findDir w.fs).map fun r => { w with fs := r.1 }

/-- The caller's own calls are legal, and the other calls are on other files. -/
def SharedCall.Legal (fd : Int) (w : IoWorld g) : SharedCall → Prop
  | .own call => call.Legal fd w
  | .other call => call.Apart fd w.fs ∧ call.on fd = false

section Shared

variable {findDir : FindDir} {fd : Int} {w w' : IoWorld g}

/-- What its caller knows of a file does not depend on references and the log. -/
theorem IoWorld.Agrees.alike {v v' : OpenFile g} (h : w.Agrees v) (halike : v.Alike v') :
    w.Agrees v' := by
  obtain ⟨openRef, log, rfl⟩ := halike
  exact ⟨⟨h.pos.fPos, h.pos.dvd, h.pos.lt⟩, h.size, h.known⟩

/-- The descriptor is in use, and its file agrees with what its caller knows. -/
def IoWorld.Held (fd : Int) (w : IoWorld g) : Prop :=
  ∃ f v, w.fs.Holds fd f v ∧ w.Agrees v

/-- The calls on one descriptor leave the table. -/
theorem ioStep_table {call : FdCall} (h : ioStep fd w call = some w') :
    w'.fs.fdtable = w.fs.fdtable ∧ w'.fs.nextFile = w.fs.nextFile := by
  cases call with
  | lseek offset whence =>
      obtain ⟨⟨s', ret⟩, hs', rfl⟩ := Option.map_eq_some_iff.mp h
      obtain ⟨_, _, _, _, _, rfl⟩ := Fs.monopolyLseek_cases hs'
      exact ⟨rfl, rfl⟩
  | write io buf nbytes registered =>
      obtain ⟨⟨s', buf', ret⟩, hs', rfl⟩ := Option.map_eq_some_iff.mp h
      have hthrough := monopolyWrite_through hs'
      exact ⟨hthrough.fdtable, hthrough.nextFile⟩
  | read io buf nbytes registered =>
      obtain ⟨⟨s', buf', ret⟩, hs', rfl⟩ := Option.map_eq_some_iff.mp h
      have hthrough := monopolyRead_through hs'
      exact ⟨hthrough.fdtable, hthrough.nextFile⟩

theorem sharedStep_held (hB : g.ioUnit ∣ bufSize) {call : SharedCall} (hw : w.Held fd)
    (hcall : call.Legal fd w) (h : sharedStep findDir fd w call = some w') : w'.Held fd := by
  obtain ⟨f, v, hv, hagree⟩ := hw
  cases call with
  | own call =>
      obtain ⟨f', v', hres, hagree'⟩ := ioStep_inv hB ⟨f, v, hv.toResolves, hagree⟩ hcall h
      obtain ⟨htable, hnext⟩ := ioStep_table h
      obtain rfl : f' = f := Option.some.inj (hres.file.symm.trans (htable ▸ hv.file))
      refine ⟨f', v', ⟨hres, ?_, ?_⟩, hagree'⟩
      · rw [htable]
        exact hv.used
      · rw [hnext]
        exact hv.old
  | other call =>
      obtain ⟨⟨s', ret⟩, hs', rfl⟩ := Option.map_eq_some_iff.mp h
      obtain ⟨v', hv', halike⟩ := FsCall.run_spares hv hcall.1 hcall.2 hs'
      have hagree' := hagree.alike halike
      exact ⟨f, v', hv', ⟨hagree'.pos, hagree'.size, hagree'.known⟩⟩

end Shared

/-- **The round trip, in an application with other open files.** Whatever the calls on other
files are, a known range is read back exactly when a chunk of some write started at or past
its end. -/
theorem shared_readsBack_iff (findDir : FindDir) {fd : Int} (hB : g.ioUnit ∣ bufSize) {s : Fs g}
    {f : FileId} {v : OpenFile g} {pos : Nat} (hopen : s.Holds fd f v) (hpos : v.At pos)
    (calls : List SharedCall) {w : IoWorld g}
    (hlegal : EachStep (sharedStep findDir fd) (fun w call => call.Legal fd w)
      (IoWorld.start s pos v.persist.fSize) calls)
    (hrun : exec (sharedStep findDir fd) (IoWorld.start s pos v.persist.fSize) calls = some w)
    {p n : Nat} (hp : g.ioUnit ∣ p) (hn : g.ioUnit ∣ n) (h0 : 0 < n)
    (hcov : ∀ q, p ≤ q → q < p + n → (w.shadow q).isSome) {io : Nat → IoAnswer}
    (hio : ∀ i, (io i).bserrno = 0) (buf : Mem) (registered : Bool) :
    ReadsBack io fd p n buf registered w ↔
      p + n ≤ w.top ∧ 512 ∣ n ∧ CounterFits registered n := by
  have hstart : (IoWorld.start s pos v.persist.fSize).Held fd :=
    ⟨f, v, hopen, hpos, rfl, fun _ _ h => nomatch h⟩
  obtain ⟨f', v', hv', hagree⟩ : w.Held fd :=
    exec_inv (fun _ _ _ hI hC h => sharedStep_held hB hI hC h) hstart hlegal hrun
  have hinv : w.Inv fd := ⟨f', v', hv'.toResolves, hagree⟩
  exact hinv.readsBack_iff_top hB hp hn h0 hcov hio buf registered

/-- What was written to one file is read back after a write to another. -/
theorem shared_firstChunk :
    ∃ w, exec (sharedStep (fun _ _ => -1) 0) (.start twoFilesFs 0 0)
        [.own (.write (fun _ => .done) (fun _ => 65) (2 * bufSize) false),
          .other (.write (fun _ => .done) 1 (fun _ => 66) 4096 false)] = some w ∧
      ReadsBack (fun _ => .done) 0 0 bufSize (fun _ => 0) false w := by
  have hlen : 2 * bufSize < 2 ^ 64 := by decide
  obtain ⟨v, hv, hpos, hsize⟩ := twoFilesFs_holds
  refine ⟨_, rfl, (shared_readsBack_iff (fun _ _ => -1) (by decide) hv hpos
    [.own (.write (fun _ => .done) (fun _ => 65) (2 * bufSize) false),
      .other (.write (fun _ => .done) 1 (fun _ => 66) 4096 false)]
    ?_ (by rw [hsize]; rfl) (by decide) (by decide) (by decide) ?_
    (fun _ => rfl) _ _).mpr ⟨by decide, by decide, Or.inr (by decide)⟩⟩
  · refine ⟨hlen, fun w hw => ⟨⟨Or.inr ?_, rfl⟩, fun _ _ => trivial⟩⟩
    rw [hsize] at hw
    cases hw
    decide
  intro q _ hq
  show (noteStored 0 (2 * bufSize) (2 * bufSize) bufSize (fun _ => 65) false
    (fun _ => none) q).isSome
  unfold noteStored
  rw [if_pos (by omega)]
  rfl

end BlobTopFs
