import BlobTopFs.Files.OpenFlags

/-!
# Which descriptor goes where

Two descriptor spaces are merged by `TESTFD` and told apart by one comparison. Along a run we
keep the descriptors the application holds: those the kernel gave it, and those of blob files
with the table entry each stands for. Routing is exact in the runs that satisfy two conditions,
and in no others: at every open of a blob file the table has an entry to offer (the -1 of
`monopoly_open` is otherwise returned as `TESTFD - 1`, a descriptor) and nothing stops the process,
and no call is on a descriptor of the kernel's from `TESTFD` on.
-/

namespace BlobTopFs

open Machine Run

variable {g : Geometry}

/-- The file system, and the descriptors an application holds. -/
structure Held (g : Geometry) where
  fs : Fs g
  kernel : Int → Bool
  blob : Int → Option Int

namespace Held

/-- Nothing is open yet. -/
def start (fs : Fs g) : Held g := ⟨fs, fun _ => false, fun _ => none⟩

/-- What the application holds after a call that returned `ret`. A non-negative result of an open
is a descriptor; of a blob file it stands for the entry `ret - TESTFD`. -/
def note (w : Held g) (fs : Fs g) (ret : Int) : InterfaceCall → Held g
  | .openPath _ _ _ file _ =>
      if ret < 0 then { w with fs := fs }
      else if spdkPtopBlobfile file then
        { w with fs := fs, blob := Function.update w.blob ret (some (ret - TESTFD)) }
      else { w with fs := fs, kernel := Function.update w.kernel ret true }
  | .close _ _ fd =>
      { fs := fs
        kernel := Function.update w.kernel fd false
        blob := Function.update w.blob fd none }
  | .read .. | .write .. | .lseek .. => { w with fs := fs }

def step (w : Held g) (call : InterfaceCall) : Option (Held g) :=
  (call.run w.fs).map fun r => w.note r.1 r.2 call

/-- A path of the kernel's is opened by the kernel, and an open of a blob file returns a negative
value or an open entry plus `TESTFD`. A call on a descriptor that the kernel gave is the kernel's:
whatever it answers is returned, and the file system is as it was. A call on a blob file's is the
`monopoly_*` operation on the entry it stands for, whatever the kernel would answer. -/
def Routed (w : Held g) : InterfaceCall → Prop
  | .openPath _ ans openErrno file oflag =>
      (spdkPtopBlobfile file = false →
        ∀ kernelFd, spdkOpen kernelFd ans openErrno file oflag w.fs = some (w.fs, kernelFd)) ∧
      (spdkPtopBlobfile file = true → ∀ kernelFd,
        ∃ fs ret, spdkOpen kernelFd ans openErrno file oflag w.fs = some (fs, ret) ∧
          (ret < 0 ∨ ∃ i : Nat, ret = TESTFD + i ∧ fs.OpenEntry i))
  | .close _ closeErrno fd =>
      (w.kernel fd = true → ∀ kernelRet,
        spdkClose kernelRet closeErrno fd w.fs = some (w.fs, kernelRet)) ∧
      ∀ i, w.blob fd = some i → ∀ kernelRet,
        spdkClose kernelRet closeErrno fd w.fs = monopolyClose closeErrno i w.fs
  | .read _ io fd buf nbytes registered =>
      (w.kernel fd = true → ∀ kernel : Mem × Int,
        spdkRead kernel io fd buf nbytes registered w.fs = some (w.fs, kernel.1, kernel.2)) ∧
      ∀ i, w.blob fd = some i → ∀ kernel,
        spdkRead kernel io fd buf nbytes registered w.fs =
          (monopolyRead io i buf nbytes registered w.fs).map fun r => (r.1, r.2.1, s32 r.2.2)
  | .write _ io fd buf nbytes registered =>
      (w.kernel fd = true → ∀ kernelRet,
        spdkWrite kernelRet io fd buf nbytes registered w.fs = some (w.fs, buf, kernelRet)) ∧
      ∀ i, w.blob fd = some i → ∀ kernelRet,
        spdkWrite kernelRet io fd buf nbytes registered w.fs =
          monopolyWrite io i buf nbytes registered w.fs
  | .lseek _ fd offset whence =>
      (w.kernel fd = true → ∀ kernelRet,
        spdkLseek kernelRet fd offset whence w.fs = some (w.fs, kernelRet)) ∧
      ∀ i, w.blob fd = some i → ∀ kernelRet,
        spdkLseek kernelRet fd offset whence w.fs = monopolyLseek i offset whence w.fs

/-- Nothing stops the process on the way to a descriptor of the file: the directory has been read,
and the blob of the entry with the path can be opened as a file, or there is none and a new one can
be made and entered. -/
def CanOpen (ans : CreateAnswer) (openErrno : Int) (file : CStr) (s : Fs g) : Prop :=
  s.workdir.initialized = true ∧
    ((∃ i : Nat, spdkfsDirLookup s.workdir file = i ∧
        s.bs.OpensFile openErrno (s.workdir.direntId i)) ∨
      (spdkfsDirLookup s.workdir file = -1 ∧ (ans.LeavesOpen s.bs ∧ ans.Apart) ∧
        s.workdir.HasMemory g ans.mem))

/-- An open of a blob file finds the table with a count past its size, or with an entry to offer and
nothing that stops the process. A call is on no descriptor of the kernel's from `TESTFD` on. -/
def RoutesWell (w : Held g) : InterfaceCall → Prop
  | .openPath _ ans openErrno file _ => spdkPtopBlobfile file = true →
      w.fs.fdtable.fileCount > spdkMaxFileCnt ∨
        w.fs.fdtable.Offers ∧ CanOpen ans openErrno file w.fs
  | .close _ _ fd | .read _ _ fd _ _ _ | .write _ _ fd _ _ _ | .lseek _ fd _ _ =>
      w.kernel fd = true → fd < TESTFD

/-- A blob file's descriptor is the entry it stands for plus `TESTFD`. -/
def Offset (w : Held g) : Prop := ∀ fd i, w.blob fd = some i → fd = TESTFD + i ∧ 0 ≤ i

theorem Offset.start (fs : Fs g) : (start fs).Offset := nofun

/-- A call that holds no new descriptor of a blob file. -/
theorem Offset.mono {w w' : Held g} (h : w.Offset)
    (hle : ∀ fd i, w'.blob fd = some i → w.blob fd = some i) : w'.Offset :=
  fun fd i hi => h fd i (hle fd i hi)

/-- Calls that are routed keep this. -/
theorem Offset.step {w w' : Held g} {call : InterfaceCall} (h : w.Offset) (hr : w.Routed call)
    (hstep : w.step call = some w') : w'.Offset := by
  obtain ⟨⟨fs, ret⟩, hrun, rfl⟩ := Option.map_eq_some_iff.mp hstep
  cases call with
  | openPath kernelFd ans openErrno file oflag =>
      simp only [note]
      split
      · exact h
      · next hret =>
          split
          · next hblob =>
              obtain ⟨fs', ret', hopen, hgood⟩ := hr.2 hblob kernelFd
              cases hopen.symm.trans hrun
              obtain ⟨i, rfl, -⟩ := hgood.resolve_left hret
              intro fd j hj
              dsimp only at hj
              -- the new descriptor, or one from before
              by_cases hfd : fd = TESTFD + i
              · subst hfd
                rw [Function.update_self] at hj
                cases hj
                omega
              · rw [Function.update_of_ne hfd] at hj
                exact h fd j hj
          · exact h
  | close kernelRet closeErrno fd =>
      refine h.mono fun fd' i hi => ?_
      have hne : fd' ≠ fd := by
        rintro rfl
        simp [note] at hi
      rwa [show (w.note fs ret (.close kernelRet closeErrno fd)).blob =
        Function.update w.blob fd none from rfl, Function.update_of_ne hne] at hi
  | read kernel io fd buf nbytes registered => exact h
  | write kernelRet io fd buf nbytes registered => exact h
  | lseek kernelRet fd offset whence => exact h

/-- A call that is the kernel's below `TESTFD` and the operation's `op` from there on goes where it
belongs just when the kernel's descriptors are below `TESTFD`: an answer that decides what comes
back is not the kernel's if it can be replaced by another. -/
theorem Offset.routes_iff {α β : Type*} {w : Held g} (h : w.Offset) (fd : Int)
    {run : α → Option β} {answer : α → β} {op : Int → Option β} {a b : α}
    (hkernel : fd < TESTFD → ∀ x, run x = some (answer x))
    (hblob : TESTFD ≤ fd → ∀ x, run x = op (fd - TESTFD)) (hne : answer a ≠ answer b) :
    ((w.kernel fd = true → ∀ x, run x = some (answer x)) ∧
        ∀ i, w.blob fd = some i → ∀ x, run x = op i) ↔
      (w.kernel fd = true → fd < TESTFD) := by
  constructor
  · rintro ⟨hk, -⟩ hfd
    by_contra hge
    have hsame := (hblob (not_lt.mp hge) a).trans (hblob (not_lt.mp hge) b).symm
    rw [hk hfd, hk hfd] at hsame
    exact hne (Option.some.inj hsame)
  · intro hlt
    refine ⟨fun hfd => hkernel (hlt hfd), fun i hi => ?_⟩
    obtain ⟨rfl, hi0⟩ := h fd i hi
    have hi' := hblob (by omega)
    rwa [show TESTFD + i - TESTFD = i by omega] at hi'

/-- What `CanOpen` is about: with an entry to offer, an open of a blob file returns. -/
theorem spdkOpen_isSome_iff (kernelFd : Int) (oflag : BitVec 32) {ans : CreateAnswer}
    {openErrno : Int} {file : CStr} {s : Fs g} (hblob : spdkPtopBlobfile file = true)
    (hoff : s.fdtable.Offers) :
    (spdkOpen kernelFd ans openErrno file oflag s).isSome = true ↔
      CanOpen ans openErrno file s := by
  have hroom : s.fdtable.fileCount ≤ spdkMaxFileCnt := Nat.le_of_lt hoff.1
  have hslot : (getFdFromTable s.fdtable).isSome = true :=
    Fdtable.getFd_isSome_iff.mpr (Or.inl hoff)
  cases hinit : s.workdir.initialized with
  | false =>
      have hcreate : monopolyCreate ans file s = none := by
        rw [monopolyCreate, hinit]
        rfl
      rw [spdkOpen_eq hblob, if_neg (not_lt.mpr hroom), hcreate, CanOpen, hinit]
      simp
  | true =>
      rcases lookup_cases s.workdir file with hl | ⟨i, hi, hl, -⟩
      · -- no entry has the path: an entry is made, and gets a descriptor
        have hcan : CanOpen ans openErrno file s ↔ (monopolyCreate ans file s).isSome = true := by
          rw [monopolyCreate_isSome_iff hinit hl, CanOpen, hinit, hl]
          have hne : ∀ i : Nat, ¬ (-1 : Int) = i := by omega
          simp [hslot, hne]
        rw [hcan, spdkOpen_eq hblob, if_neg (not_lt.mpr hroom)]
        cases hcreate : monopolyCreate ans file s with
        | none => rfl
        | some r =>
            obtain ⟨s₁, fd⟩ := r
            obtain ⟨_, _, t, -, -, -, ht, -⟩ := monopolyCreate_appended hl hcreate
            obtain ⟨t', fd', ht', hfd⟩ := hoff.getFd
            cases ht'.symm.trans ht
            rw [Option.bind_some, if_neg hfd]
            exact iff_of_true rfl rfl
      · rw [spdkOpen_found hblob hinit hroom (by omega), Option.isSome_map,
          monopolyOpen_isSome_iff hl, CanOpen, hinit]
        constructor
        · rintro ⟨hopens, -⟩
          exact ⟨rfl, Or.inl ⟨i, hl, hopens⟩⟩
        · rintro ⟨-, ⟨j, hj, hopens⟩ | ⟨hnone, -⟩⟩
          · obtain rfl : i = j := Int.ofNat.inj (hl.symm.trans hj)
            exact ⟨hopens, hslot⟩
          · omega

/-- And an open returns what it should just when the table has an entry to offer. -/
theorem openPath_iff (w : Held g) (kernelFd : Int) (ans : CreateAnswer) (openErrno : Int)
    (file : CStr) (oflag : BitVec 32) :
    w.Routed (.openPath kernelFd ans openErrno file oflag) ↔
      w.RoutesWell (.openPath kernelFd ans openErrno file oflag) := by
  constructor
  · rintro ⟨-, h⟩ hblob
    obtain ⟨fs, ret, hopen, hgood⟩ := h hblob kernelFd
    rcases spdkOpen_cases hblob hopen with ⟨hfull, -⟩ | ⟨-, -, rfl⟩ | ⟨hoff, -⟩
    · exact Or.inl hfull
    · -- `TESTFD - 1` is neither negative nor an entry
      rcases hgood with hneg | ⟨i, hi, -⟩
      · exact absurd hneg (by decide)
      · omega
    · exact Or.inr ⟨hoff, (spdkOpen_isSome_iff kernelFd oflag hblob hoff).mp (by rw [hopen]; rfl)⟩
  · intro h
    refine ⟨fun hblob kernelFd => ?_, fun hblob kernelFd => ?_⟩
    · rw [spdkOpen, hblob]
      rfl
    · rcases h hblob with hfull | ⟨hoff, hcan⟩
      · refine ⟨w.fs, -1, ?_, Or.inl (by decide)⟩
        rw [spdkOpen_eq hblob, if_pos hfull]
      · obtain ⟨⟨fs, ret⟩, hopen⟩ := Option.isSome_iff_exists.mp <|
          (spdkOpen_isSome_iff kernelFd oflag hblob hoff).mpr hcan
        rcases spdkOpen_cases hblob hopen with ⟨-, rfl⟩ | ⟨-, hno, -⟩ | ⟨-, hentry⟩
        · exact ⟨fs, _, hopen, Or.inl (by decide)⟩
        · exact absurd hoff hno
        · exact ⟨fs, ret, hopen, Or.inr hentry⟩

theorem Offset.routed_iff {w : Held g} (h : w.Offset) (call : InterfaceCall) :
    w.Routed call ↔ w.RoutesWell call := by
  have hret : (0 : Int) ≠ 1 := by decide
  cases call with
  | openPath kernelFd ans openErrno file oflag =>
      exact openPath_iff w kernelFd ans openErrno file oflag
  | close kernelRet closeErrno fd =>
      refine h.routes_iff fd (a := 0) (b := 1) (fun hlt r => ?_) (fun hle r => ?_) ?_
      · rw [spdkClose, callee_of_lt hlt]
      · rw [spdkClose, callee_of_le hle]
      · exact fun heq => hret (Prod.mk.inj heq).2
  | read kernel io fd buf nbytes registered =>
      refine h.routes_iff fd (a := (buf, 0)) (b := (buf, 1)) (fun hlt k => ?_) (fun hle k => ?_) ?_
      · rw [spdkRead, callee_of_lt hlt]
      · rw [spdkRead, callee_of_le hle]
      · exact fun heq => hret (Prod.mk.inj (Prod.mk.inj heq).2).2
  | write kernelRet io fd buf nbytes registered =>
      refine h.routes_iff fd (a := 0) (b := 1) (fun hlt r => ?_) (fun hle r => ?_) ?_
      · rw [spdkWrite, callee_of_lt hlt]
      · rw [spdkWrite, callee_of_le hle]
      · exact fun heq => hret (Prod.mk.inj (Prod.mk.inj heq).2).2
  | lseek kernelRet fd offset whence =>
      refine h.routes_iff fd (a := 0) (b := 1) (fun hlt r => ?_) (fun hle r => ?_) ?_
      · rw [spdkLseek, callee_of_lt hlt]
      · rw [spdkLseek, callee_of_le hle]
      · exact fun heq => hret (Prod.mk.inj heq).2

end Held

/-- **Descriptor routing.** Whatever the file system and its table look like at first, and
whatever the kernel answers, every call of a run is routed exactly when every one routes well. -/
theorem routing_exact_iff (fs : Fs g) (calls : List InterfaceCall) :
    EachStep Held.step Held.Routed (Held.start fs) calls ↔
      EachStep Held.step Held.RoutesWell (Held.start fs) calls := by
  refine eachStep_congr (I := Held.Offset) (L := fun _ _ => True) ?_ ?_ (Held.Offset.start fs)
    (eachStep_of_forall fun _ _ => trivial)
  · intro w call w' h hr hstep
    exact h.step hr.2 hstep
  · intro w call h _
    exact h.routed_iff call

/-! ## Where it goes wrong -/

/-- A kernel descriptor of 10086, read from. -/
theorem kernel_descriptor_crosses :
    ¬ EachStep Held.step Held.Routed (Held.start (Fs.empty .malloc4k))
      [.openPath TESTFD (.done 1) 0 ⟨[47, 97], by decide⟩ 0,
        .read (fun _ => 0, 0) (fun _ => .done) TESTFD (fun _ => 0) 512 false] := by
  rintro ⟨-, h⟩
  have hread := (h _ rfl).1.1 rfl (fun _ => 0, 0)
  have hnone : (spdkRead (fun _ => 0, 0) (fun _ => .done) TESTFD (fun _ => 0) 512 false
      (Fs.empty .malloc4k)).isNone = true := rfl
  rw [show spdkRead _ _ _ _ _ _ (Fs.empty .malloc4k) = _ from hread] at hnone
  cases hnone

/-- One blob file, opened until every entry of the table is in use. -/
def openAll : List InterfaceCall := List.replicate 256 (.openPath (-1) (.done 1) 0 pathA 0)

/-- The next open returns 10085. -/
theorem full_table_open :
    ((exec Held.step (Held.start (Fs.empty .malloc4k)) openAll).bind fun w =>
      (spdkOpen (-1) (.done 1) 0 pathA 0 w.fs).map Prod.snd) = some 10085 := by
  decide +kernel

/-- Either condition can fail in a run from a formatted device. -/
theorem routing_not_exact :
    (∃ w, exec Held.step (Held.start (Fs.empty .malloc4k)) openAll = some w ∧
      ¬ w.Routed (.openPath (-1) (.done 1) 0 pathA 0)) ∧
    ∃ calls, ¬ EachStep Held.step Held.Routed (Held.start (Fs.empty .malloc4k)) calls := by
  refine ⟨?_, _, kernel_descriptor_crosses⟩
  obtain ⟨w, hw, h⟩ := Option.bind_eq_some_iff.mp full_table_open
  obtain ⟨⟨fs, ret⟩, hopen, hret⟩ := Option.map_eq_some_iff.mp h
  refine ⟨w, hw, fun hr => ?_⟩
  cases hret
  obtain ⟨_, _, hopen', hgood⟩ := hr.2 (by decide) (-1)
  cases hopen'.symm.trans hopen
  rcases hgood with hneg | ⟨i, hi, -⟩
  · exact absurd hneg (by decide)
  · change (10085 : Int) = 10086 + i at hi
    omega

end BlobTopFs
