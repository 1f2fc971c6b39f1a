import BlobTopFs.Lib.Run
import BlobTopFs.SimpleFs.Calls
import BlobTopFs.SimpleFs.Super

/-!
# The stored file size under several descriptors

Every read, write and close stores the whole record of its file object. A file object made by
an open has the stored record itself and loses nothing; one made by a create has a copy of its
own, and stores an old `f_size` again once a write through another descriptor has raised the
stored one past it.
-/

namespace BlobTopFs

open Machine Run

variable {g : Geometry}

/-- The `f_size` in the blob's `file_persistent` attribute. -/
def Blob.storedSize (b : Blob g) : Nat := (b.xattrs.filePersistent.map (·.fSize)).getD 0

/-- That of the blob `id`. -/
def Fs.storedSize (s : Fs g) (id : BlobId) : Nat := ((s.bs.blobs id).map Blob.storedSize).getD 0

/-- The `f_size` the file object refers to has not fallen behind the stored one. A write first
raises it to the position. -/
def FsCall.Current (s : Fs g) : FsCall → Prop
  | .close _ fd | .read _ fd _ _ _ => ∀ f v, s.Resolves fd f v → v.blob.storedSize ≤ v.persist.fSize
  | .write _ fd _ _ _ => ∀ f v, s.Resolves fd f v →
      v.blob.storedSize ≤ max v.persist.fSize (u64 v.file.fPos)
  | _ => True

/-- The calls on a descriptor. -/
def FsCall.OnDescriptor : FsCall → Prop
  | .close .. | .lseek .. | .read .. | .write .. => True
  | _ => False

namespace OpenFile

/-! ## One transfer -/

/-- The record behind an opened file is the stored one. -/
theorem persist_fSize_xattr {v : OpenFile g} (h : v.file.filePersist = .xattr) :
    v.persist.fSize = v.blob.storedSize := by
  unfold persist Blob.storedSize
  rw [h]
  cases v.blob.xattrs.filePersistent with
  | none => rfl
  | some p => rfl

@[simp] theorem storePersist_storedSize (v : OpenFile g) :
    v.storePersist.blob.storedSize = v.persist.fSize := rfl

/-- File and attributes decide on the record. -/
theorem persist_congr {v w : OpenFile g} (hfile : w.file = v.file)
    (hx : w.blob.xattrs = v.blob.xattrs) : w.persist = v.persist := by
  unfold persist
  rw [hfile, hx]

theorem noteWrite_raises (v : OpenFile g) :
    v.noteWrite.persist.fSize = max v.persist.fSize (u64 v.file.fPos) := by
  simp only [noteWrite, setPersist_persist]
  split
  · omega
  · omega

/-- Noting a write raises the stored size if it is the one the record is. -/
theorem noteWrite_storedSize (v : OpenFile g) :
    v.noteWrite.blob.storedSize = v.blob.storedSize ∨
      v.noteWrite.blob.storedSize = v.noteWrite.persist.fSize := by
  cases hp : v.file.filePersist with
  | own p =>
      left
      simp [noteWrite, setPersist, hp]
  | xattr =>
      right
      have hx : v.noteWrite.file.filePersist = .xattr := by simp [noteWrite, setPersist, hp]
      exact (persist_fSize_xattr hx).symm

end OpenFile

/-- The stored size does not go down, and the record keeps up with it, if it has so far. -/
def KeepsUp (size : OpenFile g → Nat) (v w : OpenFile g) (_ : Int) : Prop :=
  v.blob.storedSize ≤ size v →
    v.blob.storedSize ≤ w.blob.storedSize ∧ w.blob.storedSize ≤ size w

theorem KeepsUp.composes (size : OpenFile g → Nat) : Composes (KeepsUp size) where
  refl := fun v h => ⟨Nat.le_refl _, h⟩
  trans := by
    intro u v w a b huv hvw hu
    obtain ⟨hle, hv⟩ := huv hu
    obtain ⟨hle', hw⟩ := hvw hv
    exact ⟨Nat.le_trans hle hle', hw⟩

theorem simpleFsRead_keepsUp {ans : IoAnswer} {v : OpenFile g} {size : Nat} {buffer : Mem}
    {t : Transfer g} (h : simpleFsRead ans v size buffer = some t) :
    KeepsUp (fun v => v.persist.fSize) v t.view t.ret := by
  unfold simpleFsRead at h
  split at h
  · cases h
  · split at h
    · cases h
      exact (KeepsUp.composes _).refl v
    · dsimp only at h
      split at h
      · cases h
        intro hv
        simp only [OpenFile.storePersist_storedSize, OpenFile.storePersist_persist]
        exact ⟨hv, Nat.le_refl _⟩
      · cases h
        exact fun hv => ⟨Nat.le_refl _, hv⟩

theorem simpleFsWrite_keepsUp {ans : WriteAnswer} {v : OpenFile g} {size : Nat} {buffer : Mem}
    {t : Transfer g} (h : simpleFsWrite ans v size buffer = some t) :
    KeepsUp (fun v => max v.persist.fSize (u64 v.file.fPos)) v t.view t.ret := by
  obtain ⟨u, hu, rfl⟩ := Option.map_eq_some_iff.mp h
  obtain ⟨hfile, hkept, -⟩ := OpenFile.grow_spec hu
  obtain ⟨-, -, hx, -⟩ := ioBlob_write_frame ans.io u.noteWrite.file.blob u.noteWrite.blob
    size u.noteWrite.file.fPos buffer
  change (genericBlobIo ans.io u.noteWrite.file.blob u.noteWrite.blob size
    u.noteWrite.file.fPos buffer false).blob.xattrs = _ at hx
  unfold KeepsUp
  dsimp only
  generalize genericBlobIo ans.io u.noteWrite.file.blob u.noteWrite.blob size
    u.noteWrite.file.fPos buffer false = d at hx ⊢
  intro hv
  -- the resize leaves the record and the stored size, and the request both as they are noted
  have hpersist : u.persist = v.persist := OpenFile.persist_congr hfile hkept.xattrs
  have hstored : u.blob.storedSize = v.blob.storedSize := by
    rw [Blob.storedSize, hkept.xattrs, Blob.storedSize]
  have hraised := u.noteWrite_raises
  rw [hpersist, hfile] at hraised
  rw [← hraised] at hv
  have hwpersist : (u.noteWrite.afterIo d).persist = u.noteWrite.persist :=
    OpenFile.persist_congr rfl hx
  have hwstored : (u.noteWrite.afterIo d).blob.storedSize = u.noteWrite.blob.storedSize := by
    rw [Blob.storedSize, OpenFile.afterIo_blob, hx, Blob.storedSize]
  split
  · simp only [OpenFile.storePersist_storedSize, OpenFile.storePersist_persist,
      OpenFile.setPos_persist, hwpersist]
    exact ⟨hv, Nat.le_max_left ..⟩
  · simp only [hwpersist, hwstored]
    rcases u.noteWrite_storedSize with h | h
    · rw [h, hstored]
      exact ⟨Nat.le_refl _, Nat.le_trans hv (Nat.le_max_left ..)⟩
    · rw [h]
      exact ⟨hv, Nat.le_max_left ..⟩

/-! ## One call, and a run -/

section Run

variable {findDir : FindDir} {s s' : Fs g} {call : FsCall}

theorem storedSize_le_of_update {id : BlobId} {b b' : Blob g} (hb : s.bs.blobs id = some b)
    (hblobs : s'.bs.blobs = Function.update s.bs.blobs id (some b'))
    (hle : b.storedSize ≤ b'.storedSize) (id' : BlobId) : s.storedSize id' ≤ s'.storedSize id' := by
  unfold Fs.storedSize
  rw [hblobs]
  by_cases h : id' = id
  · subst h
    simpa [hb] using hle
  · simp [h]

/-- A call whose record is current lowers no stored size. -/
theorem fsStep_storedSize (hcall : call.OnDescriptor ∧ call.Current s)
    (h : fsStep findDir s call = some s') : s.storedSize ≤ s'.storedSize := by
  obtain ⟨ret, hrun⟩ := fsStep_eq_some.mp h
  obtain ⟨hkind, hcurrent⟩ := hcall
  intro id
  cases call with
  | close closeErrno fd =>
      obtain ⟨f, file, hf, hfile, -, -, -, -, -, hblobs⟩ := monopolyClose_cases hrun
      rcases hblobs with ⟨-, hblobs⟩ | ⟨v, hv, hblobs⟩
      · simp [Fs.storedSize, hblobs]
      · obtain ⟨hvfile, hvblob, -⟩ := Fs.openFile_eq_some.mp hv
        cases hvfile.symm.trans hfile
        refine storedSize_le_of_update hvblob hblobs ?_ id
        have hle := hcurrent f v ⟨hf, hv⟩
        split
        · refine Nat.le_trans hle (Nat.le_of_eq ?_)
          rw [Blob.storedSize, Blob.closing_xattrs]
          rfl
        · exact hle
  | lseek fd offset whence =>
      obtain ⟨f, file, -, -, -, rfl⟩ := Fs.monopolyLseek_cases hrun
      exact Nat.le_refl _
  | read io fd buf nbytes registered =>
      obtain ⟨⟨s'', buf', ret'⟩, hread, heq⟩ := Option.map_eq_some_iff.mp hrun
      cases heq
      obtain ⟨f, v, r, hres, hr, rfl, -, rfl⟩ := Fs.monopolyRead_cases hread
      obtain ⟨-, hvblob, -⟩ := Fs.openFile_eq_some.mp hres.openFile
      obtain ⟨k, -, hkeeps⟩ := monopolyReadFile_composes (KeepsUp.composes _)
        (fun _ _ _ _ _ h => simpleFsRead_keepsUp h) hr
      obtain ⟨k', -, hadv⟩ := monopolyReadFile_composes Advanced.composes
        (fun _ _ _ _ _ h => simpleFsRead_advanced h) hr
      exact storedSize_le_of_update (hadv.fileBlob ▸ hvblob) rfl (hkeeps (hcurrent f v hres)).1 id
  | write io fd buf nbytes registered =>
      obtain ⟨⟨s'', buf', ret'⟩, hwrite, heq⟩ := Option.map_eq_some_iff.mp hrun
      cases heq
      obtain ⟨f, v, r, hres, hr, rfl, -, rfl⟩ := Fs.monopolyWrite_cases hwrite
      obtain ⟨-, hvblob, -⟩ := Fs.openFile_eq_some.mp hres.openFile
      obtain ⟨k, -, hkeeps⟩ := monopolyWriteFile_composes (KeepsUp.composes _)
        (fun _ _ _ _ _ h => simpleFsWrite_keepsUp h) hr
      obtain ⟨k', -, hadv⟩ := monopolyWriteFile_composes Advanced.composes
        (fun _ _ _ _ _ h => simpleFsWrite_advanced h) hr
      exact storedSize_le_of_update (hadv.fileBlob ▸ hvblob) rfl (hkeeps (hcurrent f v hres)).1 id
  | _ => exact hkind.elim

end Run

/-- **No lost size update.** In a run of calls through any number of descriptors, in any order,
no stored `f_size` is smaller at a later point than at an earlier one, if every read, write and
close finds its record not behind the stored one. -/
theorem storedSize_monotone {findDir : FindDir} {s t u : Fs g} {before after : List FsCall}
    (hcalls : EachStep (fsStep findDir) (fun s call => call.OnDescriptor ∧ call.Current s) s
      (before ++ after))
    (hbefore : exec (fsStep findDir) s before = some t)
    (hafter : exec (fsStep findDir) t after = some u) (id : BlobId) :
    t.storedSize id ≤ u.storedSize id :=
  exec_le (fun _ _ _ hcall h => fsStep_storedSize hcall h) (hcalls.drop hbefore) hafter id

/-- A file that is open twice: the descriptor 0 is that of its create, 1 that of an open. -/
def openTwice : Fs .malloc4k :=
  (exec (fsStep fun _ _ => -1) (.empty .malloc4k)
    [.create (.done 1) nameA, .openName 0 nameA]).get (by decide +kernel)

/-- The creator writes at 4096 and closes. -/
def creatorWrites : List FsCall :=
  [.lseek 0 4096 SEEK_SET, .write (fun _ => .done) 0 (fun _ => 65) 4096 false, .close 0 0]

/-- Then the other descriptor is used. -/
def otherWrites : List FsCall :=
  [.lseek 1 8192 SEEK_SET, .write (fun _ => .done) 1 (fun _ => 66) 4096 false, .close 0 1]

theorem storedSize_monotone_raised :
    ∃ t u, exec (fsStep fun _ _ => -1) openTwice creatorWrites = some t ∧
      exec (fsStep fun _ _ => -1) t otherWrites = some u ∧
      t.storedSize 1 = 4096 ∧ t.storedSize 1 ≤ u.storedSize 1 := by
  -- the second record is the stored one
  have hother : ∀ {s : Fs .malloc4k} {f v}, s.Resolves 1 f v →
      ((s.fdtable.file 1).bind s.files).map SpdkfsFile.filePersist = some .xattr →
      v.blob.storedSize ≤ v.persist.fSize := by
    intro s f v hv hx
    obtain ⟨hfile, -⟩ := Fs.openFile_eq_some.mp hv.openFile
    rw [hv.file, Option.bind_some, hfile, Option.map_some] at hx
    exact Nat.le_of_eq (OpenFile.persist_fSize_xattr (Option.some.inj hx)).symm
  have hcalls : EachStep (fsStep fun _ _ => -1)
      (fun s call => call.OnDescriptor ∧ call.Current s) openTwice
      (creatorWrites ++ otherWrites) := by
    refine EachStep.cons rfl ⟨trivial, trivial⟩ ?_
    refine EachStep.cons rfl ⟨trivial, fun f v hv => ?_⟩ ?_
    · cases hv.file
      cases hv.openFile
      exact Nat.zero_le _
    refine EachStep.cons rfl ⟨trivial, fun f v hv => ?_⟩ ?_
    · cases hv.file
      cases hv.openFile
      decide
    refine EachStep.cons rfl ⟨trivial, trivial⟩ ?_
    refine EachStep.cons rfl ⟨trivial, fun f v hv => ?_⟩ ?_
    · exact Nat.le_trans (hother hv rfl) (Nat.le_max_left _ _)
    exact EachStep.cons rfl ⟨trivial, fun f v hv => hother hv rfl⟩ trivial
  exact ⟨_, _, rfl, rfl, by decide +kernel, storedSize_monotone hcalls rfl rfl 1⟩

/-- The other descriptor has stored 4096 when the creator, whose copy says 0, closes. -/
theorem storedSize_lost :
    ((exec (fsStep fun _ _ => -1) openTwice [.lseek 1 4096 SEEK_SET,
        .write (fun _ => .done) 1 (fun _ => 65) 4096 false]).map (·.storedSize 1) = some 4096) ∧
      ((exec (fsStep fun _ _ => -1) openTwice [.lseek 1 4096 SEEK_SET,
        .write (fun _ => .done) 1 (fun _ => 65) 4096 false, .close 0 0]).map (·.storedSize 1) =
          some 0) := by
  decide +kernel

end BlobTopFs
