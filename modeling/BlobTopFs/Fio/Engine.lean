import BlobTopFs.Files.RoundTrip
import BlobTopFs.Lib.Simulation

/-!
# `fs_fio_plugin.c`: the engine `spdk_sync` of fio

fio opens a file through the engine and hands it one request after another, each an `io_u` with
an offset of its own: first `prep`, then `queue`. The engine seeks to 0 in `prep`, so that the
offset is not where the request goes; it only enters the position that the engine reports. A job is
followed here beside what is known of the file from the values of its transfers.
-/

namespace BlobTopFs.Fio

open Machine Run

variable {g : Geometry}

/-! ## The engine -/

/-- `io_u->ddir`: `other` are the directions that transfer nothing, as a sync. -/
inductive Ddir where
  | read
  | write
  | trim
  | other
  deriving DecidableEq

/-- The fields of `struct fio_file` that the engine uses. -/
structure FioFile where
  fileName : CStr
  fd : Int
  enginePos : Nat

/-- The fields of `struct io_u`; `xferBuf` is what the buffer holds. -/
structure IoU where
  ddir : Ddir
  offset : Nat
  xferBuf : Mem
  xferBuflen : Nat
  resid : Nat
  error : Int

/-- What a request is answered: by SPDK, by the memory table on the buffer, and by fio, whose
`do_io_u_trim` may change the request. -/
structure Answers where
  read : Nat → IoAnswer
  write : Nat → WriteAnswer
  registered : Bool
  errno : Int
  trim : IoU → IoU

/-- `spdk_open_file`. It returns 0, also if both attempts fail. -/
def spdkOpenFile (openErrno : Int) (ans : CreateAnswer) (f : FioFile) (s : Fs g) :
    Option (Fs g × FioFile) :=
  (monopolyOpen openErrno f.fileName s).bind fun o =>
    if o.2 = -1 then
      (monopolyCreate ans f.fileName o.1).map fun c => (c.1, { f with fd := c.2 })
    else some (o.1, { f with fd := o.2 })

/-- `fio_spdk_syncio_prep` -/
def fioSpdkSyncioPrep (f : FioFile) (s : Fs g) : Option (Fs g) :=
  (monopolyLseek f.fd 0 SEEK_SET s).map Prod.fst

/-- `fio_io_end`, with `ret` as an `int` -/
def fioIoEnd (errno : Int) (f : FioFile) (u : IoU) (ret : Int) : FioFile × IoU :=
  let f :=
    if 0 ≤ ret ∧ (u.ddir = .read ∨ u.ddir = .write) then
      { f with enginePos := u64 (u.offset + ret) }
    else f
  if ret ≠ s32 u.xferBuflen then
    if 0 ≤ ret then (f, { u with resid := u64 (u.xferBuflen - ret), error := 0 })
    else (f, { u with error := errno })
  else (f, u)

/-- `fio_spdk_syncio_queue`: the value a transfer returns becomes an `int`. -/
def fioSpdkSyncioQueue (ans : Answers) (f : FioFile) (u : IoU) (s : Fs g) :
    Option (Fs g × FioFile × IoU) :=
  match u.ddir with
  | .read =>
      (monopolyRead ans.read f.fd u.xferBuf u.xferBuflen ans.registered s).map fun r =>
        (r.1, fioIoEnd ans.errno f { u with xferBuf := r.2.1 } (s32 r.2.2))
  | .write =>
      (monopolyWrite ans.write f.fd u.xferBuf u.xferBuflen ans.registered s).map fun r =>
        (r.1, fioIoEnd ans.errno f { u with xferBuf := r.2.1 } (s32 r.2.2))
  | .trim => some (s, f, ans.trim u)
  | .other => some (s, fioIoEnd ans.errno f u 0)

/-! ## Jobs -/

/-- One request of a job, and its answers. -/
structure Request where
  ioU : IoU
  ans : Answers

/-- fio prepares the request and queues it. -/
def Request.issue (q : Request) (f : FioFile) (s : Fs g) : Option (Fs g × FioFile × IoU) :=
  (fioSpdkSyncioPrep f s).bind fun s => fioSpdkSyncioQueue q.ans f q.ioU s

/-- The calls on the descriptor that the request comes to. -/
def Request.calls (q : Request) : List FdCall :=
  .lseek 0 SEEK_SET :: match q.ioU.ddir with
    | .read => [.read q.ans.read q.ioU.xferBuf q.ioU.xferBuflen q.ans.registered]
    | .write => [.write q.ans.write q.ioU.xferBuf q.ioU.xferBuflen q.ans.registered]
    | .trim | .other => []

/-- A job: the file system with what is known of the file from its transfers, and fio's file. -/
structure Job (g : Geometry) where
  io : IoWorld g
  file : FioFile

def jobStep (w : Job g) (q : Request) : Option (Job g) :=
  (q.issue w.file w.io.fs).bind fun r =>
    (exec (ioStep w.file.fd) w.io q.calls).map fun io => ⟨{ io with fs := r.1 }, r.2.1⟩

/-- Lengths that an `int` has room for. -/
def Request.Legal (q : Request) : Prop := q.ioU.xferBuflen < 2 ^ 31

/-- The request is one chunk. -/
def Request.OneChunk (q : Request) : Prop :=
  q.ans.registered = true ∨ q.ioU.xferBuflen ≤ bufSize

/-- What a transfer of `k` bytes tells fio: the position is that behind the offset, although the
descriptor's is `k`, and what is missing is residual, without an error. `v'` is the file that the
descriptor refers to then. -/
structure Reports (v' : OpenFile g) (f' : FioFile) (q : Request) (u' : IoU) (k : Nat) : Prop where
  le : k ≤ q.ioU.xferBuflen / g.ioUnit * g.ioUnit
  fPos : v'.file.fPos = k
  enginePos : f'.enginePos = u64 (q.ioU.offset + k)
  full : k = q.ioU.xferBuflen → u'.resid = q.ioU.resid ∧ u'.error = q.ioU.error
  short : k < q.ioU.xferBuflen → u'.resid = q.ioU.xferBuflen - k ∧ u'.error = 0

/-- What a read delivers: the first bytes of the file, so that they are as they were last stored,
and not past `f_size`. If they are known, SPDK fails nothing and the length is one of whole io_units
that the assertion admits, it is complete exactly if `f_size` reaches as far. The file stays as it
is. -/
structure Delivers (w : Job g) (v v' : OpenFile g) (q : Request) (u' : IoU) (k : Nat) : Prop where
  within : 0 < k → k ≤ v.persist.fSize
  bytes : ∀ i < k, u'.xferBuf i = v.blob.data i
  known : ∀ i < k, ∀ byte, w.io.shadow i = some byte → u'.xferBuf i = byte
  complete : (∀ i, (q.ans.read i).bserrno = 0) →
    (∀ i < q.ioU.xferBuflen, (w.io.shadow i).isSome) → g.ioUnit ∣ q.ioU.xferBuflen →
    512 ∣ q.ioU.xferBuflen → (k = q.ioU.xferBuflen ↔ q.ioU.xferBuflen ≤ v.persist.fSize)
  frame : ReadFrame v v'

/-- What a write stores: the first bytes of the buffer as the first bytes of the file, and nothing
behind the request. -/
structure Stores (v v' : OpenFile g) (q : Request) (k : Nat) : Prop where
  bytes : ∀ i < k, v'.blob.data i = q.ioU.xferBuf i
  behind : ∀ i, q.ioU.xferBuflen ≤ i → v'.blob.data i = v.blob.data i

/-- A transfer starts at the first byte of the file, whatever its offset: `v` is the file that the
descriptor refers to before the request, `v'` the same file behind it. Its size is `top`, and the
job goes on with what the request leaves. -/
def Request.Served (w : Job g) (q : Request) : Prop :=
  ∀ s' f' u', q.issue w.file w.io.fs = some (s', f', u') →
    (∃ io', jobStep w q = some ⟨io', f'⟩ ∧ io'.fs = s') ∧
      ∃ o v v', w.io.fs.Resolves w.file.fd o v ∧ s'.Resolves f'.fd o v' ∧
        v.persist.fSize = w.io.top ∧
        match q.ioU.ddir with
        | .read => ∃ k, Reports v' f' q u' k ∧ Delivers w v v' q u' k
        | .write => ∃ k, Reports v' f' q u' k ∧ Stores v v' q k
        | .trim | .other => v'.file.fPos = 0 ∧ ReadFrame v v'

/-! ## One request -/

section Step

variable {w w' : Job g} {q : Request} {f f' : FioFile} {s s' : Fs g} {u u' : IoU} {fd : Int}

/-- What fio learns of a transfer of `k` bytes. -/
theorem fioIoEnd_transfer {k : Nat} (errno : Int) (f : FioFile)
    (hrw : u.ddir = .read ∨ u.ddir = .write) (hk : k ≤ u.xferBuflen)
    (hlen : u.xferBuflen < 2 ^ 31) :
    fioIoEnd errno f u (s32 (k : Int)) =
      ({ f with enginePos := u64 (u.offset + k) },
        if k = u.xferBuflen then u else { u with resid := u.xferBuflen - k, error := 0 }) := by
  have hs : ∀ n : Nat, n < 2 ^ 31 → s32 (n : Int) = n := by
    intro n hn
    unfold s32 u32
    split <;> omega
  have hresid : u64 ((u.xferBuflen : Int) - (k : Int)) = u.xferBuflen - k := by
    unfold u64
    omega
  have h0 : (0 : Int) ≤ (k : Int) := Int.natCast_nonneg k
  rw [hs k (by omega), fioIoEnd, hs _ hlen]
  simp only [if_pos (And.intro h0 hrw), if_pos h0, hresid]
  by_cases hfull : k = u.xferBuflen
  · rw [if_neg (not_not.mpr (congrArg _ hfull)), if_pos hfull]
  · rw [if_pos fun heq => hfull (Int.ofNat_inj.mp heq), if_neg hfull]

/-- It is about the same descriptor. -/
theorem fioIoEnd_fd (errno : Int) (f : FioFile) (u : IoU) (ret : Int) :
    (fioIoEnd errno f u ret).1.fd = f.fd := by
  have hpos : (if 0 ≤ ret ∧ (u.ddir = .read ∨ u.ddir = .write) then
      { f with enginePos := u64 (u.offset + ret) } else f).fd = f.fd := by
    split
    · rfl
    · rfl
  unfold fioIoEnd
  dsimp only
  -- what is missing changes the request only
  by_cases hfull : ret ≠ s32 u.xferBuflen
  · rw [if_pos hfull]
    by_cases h0 : 0 ≤ ret
    · rw [if_pos h0]
      exact hpos
    · rw [if_neg h0]
      exact hpos
  · rw [if_neg hfull]
    exact hpos

/-- The descriptor behind `prep`: at 0, whatever the request, on a file that is as it was. `v` is
the file before the seek, `v₀` the file behind it. -/
structure Prepared (fd : Int) (io : IoWorld g) (s : Fs g) (o : FileId) (v v₀ : OpenFile g) :
    Prop where
  opened : io.fs.Resolves fd o v
  seek : monopolyLseek fd 0 SEEK_SET io.fs = some (s, 0)
  resolves : s.Resolves fd o v₀
  frame : ReadFrame v v₀
  agrees : IoWorld.Agrees { io with fs := s, pos := 0 } v₀

theorem exists_prepared {io : IoWorld g} (hio : io.Inv fd) :
    ∃ s o v v₀, Prepared fd io s o v v₀ := by
  obtain ⟨o, v, hres, hpos, hsize, hknown⟩ := hio
  obtain ⟨s, hs, -, hres₀⟩ := Fs.monopolyLseek_eq hres 0 SEEK_SET
  have hzero : (monopolyLseekFile g v.file 0 SEEK_SET).2 = 0 :=
    actualSeek_of_dvd (Nat.dvd_zero g.ioUnit)
  have hnonneg : 0 ≤ (monopolyLseekFile g v.file 0 SEEK_SET).2 := Int.le_of_eq hzero.symm
  have hpersist := v.lseek_persist 0 SEEK_SET
  have hpos₀ := hpos.lseek (by decide) (by decide) hnonneg
  rw [hzero] at hs hpos₀
  exact ⟨s, o, v, _, hres, hs, hres₀,
    ⟨(Fs.monopolyLseekFile_frame v.file 0 SEEK_SET).1, rfl, rfl, rfl, hpersist⟩,
    hpos₀, (congrArg _ hpersist).trans hsize, hknown⟩

namespace Prepared

variable {io : IoWorld g} {o : FileId} {v v₀ : OpenFile g}

theorem step (h : Prepared fd io s o v v₀) :
    ioStep fd io (.lseek 0 SEEK_SET) = some { io with fs := s, pos := 0 } := by
  rw [ioStep, h.seek]
  rfl

theorem legal (h : Prepared fd io s o v v₀) : (FdCall.lseek 0 SEEK_SET).Legal fd io := by
  refine ⟨by decide, by decide, fun s' pos hseek => ?_⟩
  cases h.seek.symm.trans hseek
  exact Int.le_refl 0

theorem size (h : Prepared fd io s o v v₀) : v.persist.fSize = io.top := by
  rw [← h.frame.persist]
  exact h.agrees.size

/-- What is queued behind the seek. -/
theorem issue (h : Prepared f.fd io s o v v₀) :
    q.issue f io.fs = fioSpdkSyncioQueue q.ans f q.ioU s := by
  rw [Request.issue, fioSpdkSyncioPrep, h.seek]
  rfl

end Prepared

/-- What a read that was queued has done. -/
theorem queue_read_eq_some {ans : Answers} (hu : u.ddir = .read)
    (h : fioSpdkSyncioQueue ans f u s = some (s', f', u')) :
    ∃ buf ret, monopolyRead ans.read f.fd u.xferBuf u.xferBuflen ans.registered s =
        some (s', buf, ret) ∧
      fioIoEnd ans.errno f { u with xferBuf := buf } (s32 ret) = (f', u') := by
  cases u
  cases hu
  obtain ⟨⟨s₂, buf, ret⟩, hread, heq⟩ := Option.map_eq_some_iff.mp h
  obtain ⟨rfl, hend⟩ := Prod.mk.injEq .. ▸ heq
  exact ⟨buf, ret, hread, hend⟩

/-- What a write that was queued has done. -/
theorem queue_write_eq_some {ans : Answers} (hu : u.ddir = .write)
    (h : fioSpdkSyncioQueue ans f u s = some (s', f', u')) :
    ∃ buf ret, monopolyWrite ans.write f.fd u.xferBuf u.xferBuflen ans.registered s =
        some (s', buf, ret) ∧
      fioIoEnd ans.errno f { u with xferBuf := buf } (s32 ret) = (f', u') := by
  cases u
  cases hu
  obtain ⟨⟨s₂, buf, ret⟩, hwrite, heq⟩ := Option.map_eq_some_iff.mp h
  obtain ⟨rfl, hend⟩ := Prod.mk.injEq .. ▸ heq
  exact ⟨buf, ret, hwrite, hend⟩

/-- **A request is the calls it comes to**, on the same descriptor. -/
theorem Request.issue_calls {io : IoWorld g} (hio : io.Inv f.fd)
    (h : q.issue f io.fs = some (s', f', u')) :
    ∃ io', exec (ioStep f.fd) io q.calls = some io' ∧ io'.fs = s' ∧ f'.fd = f.fd := by
  obtain ⟨s, o, v, v₀, hprep⟩ := exists_prepared hio
  rw [hprep.issue] at h
  rw [Request.calls, exec_cons, hprep.step, Option.bind_some]
  have hends : ∀ {u : IoU} {ret : Int}, fioIoEnd q.ans.errno f u ret = (f', u') →
      f'.fd = f.fd := by
    intro u ret hend
    rw [← fioIoEnd_fd q.ans.errno f u ret, hend]
  cases hddir : q.ioU.ddir with
  | read =>
      obtain ⟨buf, ret, hread, hend⟩ := queue_read_eq_some hddir h
      exact ⟨_, exec_cons_eq_some.mpr ⟨_, Option.map_eq_some_iff.mpr ⟨_, hread, rfl⟩, rfl⟩, rfl,
        hends hend⟩
  | write =>
      obtain ⟨buf, ret, hwrite, hend⟩ := queue_write_eq_some hddir h
      exact ⟨_, exec_cons_eq_some.mpr ⟨_, Option.map_eq_some_iff.mpr ⟨_, hwrite, rfl⟩, rfl⟩, rfl,
        hends hend⟩
  | trim =>
      rw [fioSpdkSyncioQueue, hddir] at h
      cases h
      exact ⟨_, rfl, rfl, rfl⟩
  | other =>
      rw [fioSpdkSyncioQueue, hddir] at h
      obtain ⟨rfl, hend⟩ := Prod.mk.injEq .. ▸ Option.some.inj h
      exact ⟨_, rfl, rfl, hends hend⟩

/-- What a step does: the request, and the calls it comes to. -/
theorem jobStep_spec (hw : w.io.Inv w.file.fd) (h : jobStep w q = some w') :
    ∃ u', q.issue w.file w.io.fs = some (w'.io.fs, w'.file, u') ∧
      exec (ioStep w.file.fd) w.io q.calls = some w'.io ∧ w'.file.fd = w.file.fd := by
  obtain ⟨⟨s', f', u'⟩, hq, h⟩ := Option.bind_eq_some_iff.mp h
  obtain ⟨io, hio, rfl⟩ := Option.map_eq_some_iff.mp h
  obtain ⟨io', hio', hfs, hfd⟩ := Request.issue_calls hw hq
  cases hio.symm.trans hio'
  refine ⟨u', hq, ?_, hfd⟩
  rw [← hfs]
  exact hio

/-- A request that runs is a step of the job. -/
theorem jobStep_of_issue (hw : w.io.Inv w.file.fd)
    (h : q.issue w.file w.io.fs = some (s', f', u')) :
    f'.fd = w.file.fd ∧ ∃ io', jobStep w q = some ⟨io', f'⟩ ∧ io'.fs = s' := by
  obtain ⟨io, hio, -, hfd⟩ := Request.issue_calls hw h
  refine ⟨hfd, { io with fs := s' }, ?_, rfl⟩
  rw [jobStep, h, Option.bind_some, hio]
  rfl

theorem Request.Legal.calls {io : IoWorld g} (hio : io.Inv fd) (hq : q.Legal) :
    EachStep (ioStep fd) (fun w call => call.Legal fd w) io q.calls := by
  have hlen : q.ioU.xferBuflen < 2 ^ 64 := Nat.lt_of_lt_of_le hq (by decide)
  obtain ⟨s, o, v, v₀, hprep⟩ := exists_prepared hio
  refine ⟨hprep.legal, fun t _ => ?_⟩
  cases q.ioU.ddir with
  | read => exact ⟨hlen, fun _ _ => trivial⟩
  | write => exact ⟨hlen, fun _ _ => trivial⟩
  | trim => trivial
  | other => trivial

theorem jobStep_keeps_inv (hB : g.ioUnit ∣ bufSize) (hw : w.io.Inv w.file.fd) (hq : q.Legal)
    (h : jobStep w q = some w') : w'.io.Inv w'.file.fd := by
  obtain ⟨u', -, hexec, hfd⟩ := jobStep_spec hw h
  rw [hfd]
  exact exec_inv (fun _ _ _ hI hC h => ioStep_inv hB hI hC h) hw (hq.calls hw) hexec

/-- What a transfer of `k` bytes that began at 0 reports. -/
theorem Reports.of_ioEnd {v' : OpenFile g} {k : Nat} {errno : Int} {buf : Mem} (hq : q.Legal)
    (hrw : q.ioU.ddir = .read ∨ q.ioU.ddir = .write)
    (hk : k ≤ q.ioU.xferBuflen / g.ioUnit * g.ioUnit) (hpos : v'.At k)
    (hend : fioIoEnd errno f { q.ioU with xferBuf := buf } (s32 (k : Int)) = (f', u')) :
    Reports v' f' q u' k ∧ u'.xferBuf = buf := by
  have hle := Nat.div_mul_le_self q.ioU.xferBuflen g.ioUnit
  have hend' := fioIoEnd_transfer errno f (u := { q.ioU with xferBuf := buf }) hrw
    (Nat.le_trans hk hle) hq
  rw [hend', Prod.mk.injEq] at hend
  obtain ⟨rfl, rfl⟩ := hend
  refine ⟨⟨hk, hpos.fPos, rfl, fun hfull => ?_, fun hshort => ?_⟩, ?_⟩
  · rw [if_pos hfull]
    exact ⟨rfl, rfl⟩
  · rw [if_neg (Nat.ne_of_lt hshort)]
    exact ⟨rfl, rfl⟩
  · split
    · rfl
    · rfl

/-- So the chunks of a request can be counted in an `int`. -/
theorem Request.Legal.counterFits (hq : q.Legal) :
    CounterFits q.ans.registered q.ioU.xferBuflen := by
  have hlen : q.ioU.xferBuflen < 2 ^ 31 := hq
  right
  unfold bufSize
  omega

/-- What a read behind `prep` delivers. -/
theorem Delivers.of_read {o : FileId} {v v₀ : OpenFile g} {s₂ : Fs g} {buf' : Mem} {ret : Int}
    (hB : g.ioUnit ∣ bufSize) (hw : w.io.Inv w.file.fd) (hq : q.Legal)
    (hprep : Prepared w.file.fd w.io s o v v₀)
    (hread : monopolyRead q.ans.read w.file.fd q.ioU.xferBuf q.ioU.xferBuflen q.ans.registered s =
      some (s₂, buf', ret)) :
    ∃ (k : Nat) (v' : OpenFile g), ret = k ∧ k ≤ q.ioU.xferBuflen / g.ioUnit * g.ioUnit ∧
      v'.At k ∧ s₂.Resolves w.file.fd o v' ∧
      ∀ u' : IoU, u'.xferBuf = buf' → Delivers w v v' q u' k := by
  have hlen : q.ioU.xferBuflen < 2 ^ 64 := Nat.lt_of_lt_of_le hq (by decide)
  obtain ⟨k, r, -, -, rfl, hres', hupto, -⟩ :=
    Fs.monopolyRead_spec hB hprep.resolves hprep.agrees.pos hlen hread
  have hbytes : ∀ i < k, buf' i = v₀.blob.data i := by
    intro i hi
    rw [hupto.done i (Nat.zero_le i) hi, Nat.zero_add]
  have hknown : ∀ i < k, ∀ byte, w.io.shadow i = some byte → buf' i = byte := by
    intro i hi byte hbyte
    rw [hbytes i hi]
    exact (hprep.agrees.known i byte hbyte).2
  have hpos : r.view.At k := by
    have := hupto.fPos
    rwa [Nat.zero_add] at this
  refine ⟨k, r.view, rfl, hupto.le_right, hpos, hres', fun u' hbuf => ?_⟩
  subst hbuf
  refine ⟨fun h0 => ?_, fun i hi => ?_, hknown, fun hio hcov hunit h512 => ?_,
    hprep.frame.trans hupto.frame⟩
  · have hwithin := hupto.within h0
    rw [hprep.frame.persist, Nat.zero_add] at hwithin
    exact hwithin
  · rw [hbytes i hi, hprep.frame.data]
  · rcases Nat.eq_zero_or_pos q.ioU.xferBuflen with hzero | h0
    · -- a request for nothing is complete
      have hk := Nat.le_trans hupto.le_right (Nat.div_mul_le_self q.ioU.xferBuflen g.ioUnit)
      rw [hzero] at hk ⊢
      exact iff_of_true (Nat.le_zero.mp hk) (Nat.zero_le _)
    have hiff := hw.readsBack_iff_top hB (Nat.dvd_zero g.ioUnit) hunit h0
      (fun i _ hi => hcov i (by omega)) hio q.ioU.xferBuf q.ans.registered
    have hboth : seekAndRead q.ans.read w.file.fd 0 q.ioU.xferBuflen q.ioU.xferBuf
        q.ans.registered w.io.fs = some (u'.xferBuf, (k : Int)) := by
      have hseek : monopolyLseek w.file.fd ((0 : Nat) : Int) SEEK_SET w.io.fs = some (s, 0) :=
        hprep.seek
      rw [seekAndRead, hseek, Option.bind_some, hread]
      rfl
    rw [Nat.zero_add, ← hprep.size] at hiff
    constructor
    · intro hfull
      refine (hiff.mp ⟨u'.xferBuf, ?_, fun i hi => ?_⟩).1
      · rw [hboth, hfull]
      · obtain ⟨byte, hbyte⟩ := Option.isSome_iff_exists.mp (hcov i hi)
        rw [Nat.zero_add, hbyte, hknown i (by omega) byte hbyte]
    · intro htop
      obtain ⟨buf'', hall, -⟩ := hiff.mpr ⟨htop, h512, hq.counterFits⟩
      rw [hboth] at hall
      exact Int.ofNat_inj.mp (Prod.mk.inj (Option.some.inj hall)).2

/-- What a write behind `prep` stores. -/
theorem Stores.of_write {o : FileId} {v v₀ : OpenFile g} {s₂ : Fs g} {buf' : Mem} {ret : Int}
    (hB : g.ioUnit ∣ bufSize) (hq : q.Legal) (hprep : Prepared w.file.fd w.io s o v v₀)
    (hwrite : monopolyWrite q.ans.write w.file.fd q.ioU.xferBuf q.ioU.xferBuflen q.ans.registered
      s = some (s₂, buf', ret)) :
    ∃ (k : Nat) (v' : OpenFile g), ret = k ∧ k ≤ q.ioU.xferBuflen / g.ioUnit * g.ioUnit ∧
      v'.At k ∧ s₂.Resolves w.file.fd o v' ∧ Stores v v' q k := by
  have hlen : q.ioU.xferBuflen < 2 ^ 64 := Nat.lt_of_lt_of_le hq (by decide)
  obtain ⟨k, r, -, -, rfl, hres', hwrote⟩ :=
    Fs.monopolyWrite_spec hB hprep.resolves hprep.agrees.pos hlen hwrite
  have hpos : r.view.At k := by
    have := hwrote.fPos
    rwa [Nat.zero_add] at this
  refine ⟨k, r.view, rfl, hwrote.le_right, hpos, hres', fun i hi => ?_, fun i hi => ?_⟩
  · exact hwrote.done i (Nat.zero_le _) (by omega)
  · have hle := Nat.div_mul_le_self q.ioU.xferBuflen g.ioUnit
    have hout : ¬(0 + 0 ≤ i ∧ i < 0 + q.ioU.xferBuflen / g.ioUnit * g.ioUnit) := by omega
    rw [hwrote.rest i hout, hprep.frame.data]

/-- Every request is served, in every state in which what is known of the file is so. -/
theorem served_of_inv (hB : g.ioUnit ∣ bufSize) (hw : w.io.Inv w.file.fd) (hq : q.Legal) :
    q.Served w := by
  intro s' f' u' hissue
  obtain ⟨hfd, hstep⟩ := jobStep_of_issue hw hissue
  obtain ⟨s, o, v, v₀, hprep⟩ := exists_prepared hw
  refine ⟨hstep, ?_⟩
  rw [hfd]
  rw [hprep.issue] at hissue
  cases hddir : q.ioU.ddir with
  | read =>
      obtain ⟨buf', ret, hread, hend⟩ := queue_read_eq_some hddir hissue
      obtain ⟨k, v', rfl, hk, hpos, hres', hdelivers⟩ := Delivers.of_read hB hw hq hprep hread
      obtain ⟨hreports, hbuf⟩ := Reports.of_ioEnd hq (Or.inl hddir) hk hpos hend
      exact ⟨o, v, v', hprep.opened, hres', hprep.size, k, hreports, hdelivers u' hbuf⟩
  | write =>
      obtain ⟨buf', ret, hwrite, hend⟩ := queue_write_eq_some hddir hissue
      obtain ⟨k, v', rfl, hk, hpos, hres', hstores⟩ := Stores.of_write hB hq hprep hwrite
      have hreports := (Reports.of_ioEnd hq (Or.inr hddir) hk hpos hend).1
      exact ⟨o, v, v', hprep.opened, hres', hprep.size, k, hreports, hstores⟩
  | trim =>
      rw [fioSpdkSyncioQueue, hddir] at hissue
      cases hissue
      exact ⟨o, v, v₀, hprep.opened, hprep.resolves, hprep.size, hprep.agrees.pos.fPos, hprep.frame⟩
  | other =>
      rw [fioSpdkSyncioQueue, hddir] at hissue
      obtain ⟨rfl, -⟩ := Prod.mk.injEq .. ▸ Option.some.inj hissue
      exact ⟨o, v, v₀, hprep.opened, hprep.resolves, hprep.size, hprep.agrees.pos.fPos, hprep.frame⟩

/-- A request of one chunk starts at 0 and so does its last chunk: `top` stays. -/
theorem top_of_oneChunk (hw : w.io.Inv w.file.fd) (hone : q.OneChunk)
    (h : jobStep w q = some w') : w'.io.top = w.io.top := by
  obtain ⟨-, -, hexec, -⟩ := jobStep_spec hw h
  obtain ⟨s, o, v, v₀, hprep⟩ := exists_prepared hw
  rw [Request.calls, exec_cons, hprep.step, Option.bind_some] at hexec
  cases hddir : q.ioU.ddir with
  | read =>
      rw [hddir] at hexec
      obtain ⟨io, hio, hnil⟩ := exec_cons_eq_some.mp hexec
      obtain ⟨r, -, rfl⟩ := Option.map_eq_some_iff.mp hio
      rw [← Option.some.inj hnil]
  | write =>
      rw [hddir] at hexec
      obtain ⟨io, hio, hnil⟩ := exec_cons_eq_some.mp hexec
      obtain ⟨r, -, rfl⟩ := Option.map_eq_some_iff.mp hio
      have hfirst : lastChunkStart q.ans.registered
          (q.ioU.xferBuflen / g.ioUnit * g.ioUnit) r.2.2.toNat = 0 := by
        unfold lastChunkStart
        rcases hone with hregistered | hshort
        · exact if_pos hregistered
        · have hle := Nat.div_mul_le_self q.ioU.xferBuflen g.ioUnit
          have hbuf : 0 < bufSize := by decide
          split
          · rfl
          · rw [Nat.div_eq_of_lt (by omega), Nat.zero_mul]
      rw [← Option.some.inj hnil]
      simp only [hfirst, Nat.add_zero, Nat.max_zero, ite_self]
  | trim =>
      rw [hddir] at hexec
      rw [← Option.some.inj hexec]
  | other =>
      rw [hddir] at hexec
      rw [← Option.some.inj hexec]

/-- And so does `f_size` of the file that the descriptor refers to. -/
theorem fSize_of_oneChunk {o : FileId} {v : OpenFile g} (hB : g.ioUnit ∣ bufSize)
    (hw : w.io.Inv w.file.fd) (hopen : w.io.fs.Resolves w.file.fd o v) (hq : q.Legal)
    (hone : q.OneChunk) (h : jobStep w q = some w') :
    ∃ v', w'.io.fs.Resolves w'.file.fd o v' ∧ v'.persist.fSize = v.persist.fSize := by
  obtain ⟨u', hissue, -, -⟩ := jobStep_spec hw h
  obtain ⟨-, o', v₁, v', hopen', hres', hsize, -⟩ := served_of_inv hB hw hq _ _ _ hissue
  obtain ⟨rfl, rfl⟩ := hopen.unique hopen'
  obtain ⟨o'', v'', hres'', hagrees⟩ := jobStep_keeps_inv hB hw hq h
  obtain ⟨rfl, rfl⟩ := hres'.unique hres''
  refine ⟨v', hres', ?_⟩
  rw [hagrees.size, top_of_oneChunk hw hone h, hsize]

end Step

/-! ## Whole jobs -/

/-- **fio jobs.** In every job on an open file, requests of any kind, offset and length in any order
and whatever SPDK answers, each transfer is of the first bytes of the file: a read delivers what
was last stored there, and completes exactly if a chunk of an earlier write has begun as far on, or
the file was that long. What is missing is reported as residual, without an error. If every
request is one chunk, `f_size` of the file stays what it was, and nothing can be read beyond. -/
theorem fio_job_served (hB : g.ioUnit ∣ bufSize) {s : Fs g} {f : FioFile} {o : FileId}
    {v : OpenFile g} {pos : Nat} (hopen : s.Resolves f.fd o v) (hpos : v.At pos)
    {qs : List Request} (hlegal : ∀ q ∈ qs, q.Legal) :
    EachStep jobStep (fun w q => q.Served w) ⟨.start s pos v.persist.fSize, f⟩ qs ∧
      ((∀ q ∈ qs, q.OneChunk) →
        Always jobStep (fun w => ∃ v', w.io.fs.Resolves w.file.fd o v' ∧
          v'.persist.fSize = v.persist.fSize) ⟨.start s pos v.persist.fSize, f⟩ qs) := by
  have hstart : IoWorld.Inv f.fd (.start s pos v.persist.fSize) :=
    ⟨o, v, hopen, hpos, rfl, fun _ _ h => nomatch h⟩
  constructor
  · exact eachStep_of_step (fun _ _ _ hw hq h => jobStep_keeps_inv hB hw hq h)
      (fun _ _ hw hq => served_of_inv hB hw hq) hstart (eachStep_of_forall hlegal)
  · intro hone
    have hkeep : ∀ (w : Job g) q w',
        (w.io.Inv w.file.fd ∧ ∃ v', w.io.fs.Resolves w.file.fd o v' ∧
          v'.persist.fSize = v.persist.fSize) →
        q.Legal ∧ q.OneChunk → jobStep w q = some w' →
        w'.io.Inv w'.file.fd ∧ ∃ v', w'.io.fs.Resolves w'.file.fd o v' ∧
          v'.persist.fSize = v.persist.fSize := by
      rintro w q w' ⟨hw, v₁, hres, hsize⟩ ⟨hq, hq1⟩ h
      obtain ⟨v', hres', hsize'⟩ := fSize_of_oneChunk hB hw hres hq hq1 h
      exact ⟨jobStep_keeps_inv hB hw hq h, v', hres', hsize'.trans hsize⟩
    have hboth : EachStep jobStep (fun _ q => q.Legal ∧ q.OneChunk)
        ⟨.start s pos v.persist.fSize, f⟩ qs :=
      eachStep_of_forall fun q hq => ⟨hlegal q hq, hone q hq⟩
    exact (always_of_step hkeep ⟨hstart, v, hopen, rfl⟩ hboth).mono fun _ hw => hw.2

/-- A file that the engine creates -/
def createdFile : Fs .malloc4k × FioFile :=
  (spdkOpenFile 0 (.done 1) ⟨nameA, -1, 0⟩ (.empty .malloc4k)).get rfl

/-- A request for the file's first bytes, at an offset that does not matter. -/
def request (ddir : Ddir) (byte : UInt8) (len : Nat) : Request :=
  ⟨⟨ddir, 8192, fun _ => byte, len, 0, 0⟩, ⟨fun _ => .done, fun _ => .done, false, 0, id⟩⟩

/-- Two chunks are written, and a block of the first is read. -/
def writeAndRead : List Request := [request .write 65 (2 * bufSize), request .read 0 4096]

/-- The read delivers a block. Where one chunk is written instead, `f_size` stays 0. -/
theorem fio_job_served_created :
    (∃ w f' u' s', exec jobStep ⟨.start createdFile.1 0 0, createdFile.2⟩
        [request .write 65 (2 * bufSize)] = some w ∧
      (request .read 0 4096).Served w ∧
      (request .read 0 4096).issue w.file w.io.fs = some (s', f', u') ∧ u'.resid = 0 ∧
      ∀ i < 4096, u'.xferBuf i = 65) ∧
      Always jobStep (fun w => ∃ v', w.io.fs.Resolves w.file.fd 0 v' ∧ v'.persist.fSize = 0)
        ⟨.start createdFile.1 0 0, createdFile.2⟩
        [request .write 65 4096, request .read 0 4096] := by
  have hopen : ∃ v, createdFile.1.Resolves createdFile.2.fd 0 v ∧ v.At 0 ∧ v.persist.fSize = 0 :=
    ⟨_, ⟨rfl, rfl⟩, OpenFile.at_zero rfl, rfl⟩
  obtain ⟨v, hres, hpos, hsize⟩ := hopen
  have hlegal : ∀ q ∈ writeAndRead, q.Legal := by
    simp [writeAndRead, request, Request.Legal, bufSize]
  have hlegal1 : ∀ q ∈ [request .write 65 4096, request .read 0 4096], q.Legal := by
    simp [request, Request.Legal]
  have hjob := (fio_job_served (by decide) hres hpos hlegal).1
  have hjob1 := (fio_job_served (by decide) hres hpos hlegal1).2
  rw [hsize] at hjob hjob1
  refine ⟨?_, hjob1 (by simp [request, Request.OneChunk, bufSize])⟩
  -- what is known behind the write, and that the read of all of it leaves nothing residual
  have hrun : (exec jobStep ⟨.start createdFile.1 0 0, createdFile.2⟩
      [request .write 65 (2 * bufSize)]).map (fun w => w.io.shadow) =
        some (noteStored 0 (2 * bufSize) (2 * bufSize) bufSize (fun _ => 65) false fun _ => none) :=
    rfl
  have hread : ((exec jobStep ⟨.start createdFile.1 0 0, createdFile.2⟩
      [request .write 65 (2 * bufSize)]).bind fun w =>
        (request .read 0 4096).issue w.file w.io.fs).map (fun r => r.2.2.resid) = some 0 := by
    decide +kernel
  obtain ⟨w, hw, hshadow⟩ := Option.map_eq_some_iff.mp hrun
  rw [hw, Option.bind_some] at hread
  obtain ⟨⟨s', f', u'⟩, hissue, hresid⟩ := Option.map_eq_some_iff.mp hread
  obtain ⟨w₁, hw₁, heq⟩ := exec_cons_eq_some.mp hw
  obtain rfl := Option.some.inj heq
  have hserved := (hjob.2 w₁ hw₁).1
  refine ⟨w₁, f', u', s', hw, hserved, hissue, hresid, fun i hi => ?_⟩
  obtain ⟨-, o, v₁, v₂, -, -, -, k, hreports, hdelivers⟩ := hserved s' f' u' hissue
  have hk : k = 4096 := by
    have hle : k ≤ 4096 := hreports.le
    by_contra hne
    have hlt : k < 4096 := by omega
    have hshort : 4096 - k = 0 := (hreports.short hlt).1.symm.trans hresid
    omega
  refine hdelivers.known i (hk ▸ hi) 65 ?_
  rw [hshadow]
  exact if_pos ⟨Nat.zero_le i, by unfold bufSize; omega⟩

end BlobTopFs.Fio
