import BlobTopFs.Lib.PartialMap
import BlobTopFs.Lib.Run
import BlobTopFs.SimpleFs.Calls
import BlobTopFs.SimpleFs.Super

/-!
# The descriptor count

`_file_count` is the number of used slots as long as every close closes a descriptor that is
open. A close takes one off without a look at `used`, and its file object is still there when
the descriptor has been closed before, so a second close goes through and leaves the count one
too small, or at `2 ^ 32 - 1`.
-/

namespace BlobTopFs

open Run PartialMap

variable {g : Geometry}

/-- The count is right; so the table appears full only if it is, and the next scan ends. -/
structure Fdtable.Accounted (t : Fdtable) : Prop where
  count : t.Counted
  full : spdkMaxFileCnt ≤ t.fileCount → ∀ fd < spdkMaxFileCnt, t.used fd = true
  scan : (getFdFromTable t).isSome

/-- A descriptor that is closed, and stands for some file object, is open. -/
def FsCall.ClosesUsed (s : Fs g) : FsCall → Prop
  | .close _ fd => ∀ f, s.fdtable.file fd = some f → s.fdtable.used fd.toNat = true
  | _ => True

/-- The slots refer to file objects. -/
def Fs.ObjectsExist (s : Fs g) : Prop :=
  ∀ fd f, s.fdtable.openFiles fd = some f → (s.files f).isSome

theorem Fdtable.Counted.accounted {t : Fdtable} (hc : t.Counted) : t.Accounted where
  count := hc
  full := by
    intro hfull fd hfd
    by_contra hfree
    have hless := card_holders_lt (m := t.used) hfd hfree
    rw [Counted] at hc
    omega
  scan := hc.getFd_isSome

/-! ## What a call does to the table -/

section Step

variable {findDir : FindDir} {s s' : Fs g} {call : FsCall}

/-- New objects are at new addresses, and no object goes away. -/
theorem Fs.ObjectsExist.newFile (hs : s.ObjectsExist) {t : Fdtable} {fd : Int} {file : SpdkfsFile}
    (hfd : getFdFromTable s.fdtable = some (t, fd)) (htable : s'.fdtable = t.install fd s.nextFile)
    (hfiles : s'.files = Function.update s.files s.nextFile (some file)) : s'.ObjectsExist := by
  have hnew : ∀ f, (s.files f).isSome → (s'.files f).isSome := by
    intro f hf
    rw [hfiles]
    by_cases h : f = s.nextFile
    · rw [h, Function.update_self]
      rfl
    · rwa [Function.update_of_ne h]
  have hopen : t.openFiles = s.fdtable.openFiles := by
    rcases getFdFromTable_cases hfd with ⟨-, rfl⟩ | ⟨i, -, -, -, -, rfl⟩
    · rfl
    · rfl
  intro fd' f hf
  rw [htable, Fdtable.install] at hf
  split at hf
  · exact hnew f (hs fd' f (hopen ▸ hf))
  · rcases update_some_cases hf with ⟨-, rfl⟩ | ⟨-, hf⟩
    · rw [hfiles, Function.update_self]
      rfl
    · exact hnew f (hs fd' f (hopen ▸ hf))

/-- A call that leaves the table's objects, and sets no other than one of them. -/
theorem Fs.ObjectsExist.move (hs : s.ObjectsExist) {f : FileId} {file file' : SpdkfsFile}
    (htable : s'.fdtable.openFiles = s.fdtable.openFiles) (hfile : s.files f = some file)
    (hfiles : s'.files = Function.update s.files f (some file')) : s'.ObjectsExist := by
  intro fd' f' hf'
  rw [htable] at hf'
  rw [hfiles, isSome_update (by rw [hfile]; rfl)]
  exact hs fd' f' hf'

theorem Fs.ObjectsExist.same (hs : s.ObjectsExist)
    (htable : s'.fdtable.openFiles = s.fdtable.openFiles) (hfiles : s'.files = s.files) :
    s'.ObjectsExist := by
  unfold ObjectsExist
  rw [htable, hfiles]
  exact hs

/-- The count is right, and the slots refer to file objects. -/
def Fs.CountInv (s : Fs g) : Prop := s.fdtable.Counted ∧ s.ObjectsExist

theorem fsStep_objectsExist (hs : s.ObjectsExist) (h : fsStep findDir s call = some s') :
    s'.ObjectsExist := by
  obtain ⟨ret, hrun⟩ := fsStep_eq_some.mp h
  rcases FsCall.run_fdtable hrun with
    ⟨htable, hfiles | ⟨f, file, file', hfile, hfiles⟩⟩ | ⟨t, file, ht, htable, hfiles⟩ |
      ⟨_, fd, f, -, -, htable, hfiles⟩
  · exact hs.same (by rw [htable]) hfiles
  · exact hs.move (by rw [htable]) hfile hfiles
  · exact hs.newFile ht htable hfiles
  · exact hs.same (by rw [htable]; rfl) hfiles

theorem fsStep_countInv (hs : s.CountInv) (hcall : call.ClosesUsed s)
    (h : fsStep findDir s call = some s') : s'.CountInv := by
  obtain ⟨ret, hrun⟩ := fsStep_eq_some.mp h
  refine ⟨FsCall.run_counted hs.1 ?_ hrun, fsStep_objectsExist hs.2 h⟩
  rintro closeErrno fd f rfl hf
  exact hcall f hf

/-- A close of a descriptor that stands for a file object goes through, and gives the slot back. -/
theorem fsStep_close (hs : s.ObjectsExist) (closeErrno : Int) {fd : Int} {f : FileId}
    (hf : s.fdtable.file fd = some f) :
    ∃ s', fsStep findDir s (.close closeErrno fd) = some s' ∧
      s'.fdtable = returnFdToTable fd.toNat s.fdtable := by
  have hexists : (s.files f).isSome := by
    have hf' := hf
    unfold Fdtable.file at hf'
    split at hf'
    · exact hs _ f hf'
    · cases hf'
  obtain ⟨file, hfile⟩ := Option.isSome_iff_exists.mp hexists
  have hclose : fsStep findDir s (.close closeErrno fd) =
      some { simpleFsClose closeErrno f file s with
        fdtable := returnFdToTable fd.toNat (simpleFsClose closeErrno f file s).fdtable } := by
    show (monopolyClose closeErrno fd s).map Prod.fst = _
    rw [monopolyClose, hf, Option.bind_some, hfile]
    rfl
  have htable : (simpleFsClose closeErrno f file s).fdtable = s.fdtable := by
    unfold simpleFsClose
    cases s.openFile f <;> rfl
  exact ⟨_, hclose, congrArg (returnFdToTable fd.toNat) htable⟩

/-- A close that leaves the count right has closed an open descriptor. -/
theorem closesUsed_of_counted (hs : s.CountInv)
    (h : ∀ s', fsStep findDir s call = some s' → s'.fdtable.Accounted) : call.ClosesUsed s := by
  cases call with
  | close closeErrno fd =>
      intro f hf
      obtain ⟨s', hclose, htable⟩ := fsStep_close hs.2 closeErrno hf
      have hcount := (h s' hclose).count
      rw [htable] at hcount
      by_contra hfree
      exact hs.1.returnFd_free (by simpa using hfree) hcount
  | _ => trivial

end Step

/-- A session starts with an empty table. -/
theorem loadRoot_countInv {ans : LoadAnswer} {superBlob : BlobId} {bs : Blobstore g} {s : Fs g}
    (h : loadRoot ans superBlob bs = some s) : s.CountInv := by
  obtain ⟨-, htable, -, -⟩ := loadRoot_spec h
  unfold Fs.CountInv Fs.ObjectsExist
  rw [htable]
  exact ⟨Fdtable.Counted.zero, fun fd f hf => by cases hf⟩

/-- **The descriptor count.** In a run of a session, whatever its calls are answered, the count
is right after every call exactly when every close closes a descriptor that is open. -/
theorem accounted_iff {findDir : FindDir} {ans : LoadAnswer} {superBlob : BlobId}
    {bs : Blobstore g} {s : Fs g} {calls : List FsCall}
    (hload : loadRoot ans superBlob bs = some s) :
    Always (fsStep findDir) (fun s => s.fdtable.Accounted) s calls ↔
      EachStep (fsStep findDir) (fun s call => call.ClosesUsed s) s calls :=
  always_iff_eachStep (I := Fs.CountInv) (L := fun _ _ => True) (fun _ hs => hs.1.accounted)
    (fun _ _ _ hs _ hcall h => fsStep_countInv hs hcall h)
    (fun _ _ hs _ h => closesUsed_of_counted hs h) (loadRoot_countInv hload)
    (eachStep_of_forall fun _ _ => trivial)

/-- A file is created and closed once. -/
theorem accounted_closed :
    Always (fsStep fun _ _ => -1) (fun s => s.fdtable.Accounted) (.empty .malloc4k)
      [.create (.done 1) ⟨[97], by decide⟩, .close 0 0] := by
  refine (accounted_iff (loadRoot_formatted .done 0)).mpr ?_
  exact EachStep.cons rfl trivial (EachStep.cons rfl (fun _ _ => rfl) trivial)

/-- It is closed twice, and the count wraps: the next create finds the table full. -/
theorem accounted_closed_twice :
    ¬ Always (fsStep fun _ _ => -1) (fun s => s.fdtable.Accounted) (.empty .malloc4k)
        [.create (.done 1) ⟨[97], by decide⟩, .close 0 0, .close 0 0] ∧
      ((exec (fsStep fun _ _ => -1) (.empty .malloc4k)
        [.create (.done 1) ⟨[97], by decide⟩, .close 0 0, .close 0 0]).bind
          fun s => (monopolyCreate (.done 2) ⟨[98], by decide⟩ s).map Prod.snd) = some (-1) := by
  refine ⟨?_, by decide +kernel⟩
  rintro ⟨-, h⟩
  have hlast := ((((h _ rfl).2 _ rfl).2 _ rfl).full (by decide +kernel)) 0 (by decide)
  cases hlast

end BlobTopFs
