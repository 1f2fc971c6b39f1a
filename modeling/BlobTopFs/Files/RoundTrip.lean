import BlobTopFs.Lib.Run
import BlobTopFs.SimpleFs.Descriptor
import BlobTopFs.SimpleFs.Super
import BlobTopFs.SimpleFs.TransferExact

/-!
# File contents round trip

A run of seeks, writes and reads on one descriptor, followed beside what a caller knows who
sees only the values the calls return: the position, and the byte last stored at each offset.
Reading a range back works exactly when some chunk of an earlier write *started* at or past
the end of the range, since `simple_fs_write` raises `f_size` to the position it starts from
and `simple_fs_read` refuses to go past `f_size`.
-/

namespace BlobTopFs

open Machine Run

variable {g : Geometry}

/-! ## Runs on one descriptor -/

/-- A call on the descriptor, with the answers it is given. -/
inductive FdCall where
  | lseek (offset whence : Int)
  | write (io : Nat → WriteAnswer) (buf : Mem) (nbytes : Nat) (registered : Bool)
  | read (io : Nat → IoAnswer) (buf : Mem) (nbytes : Nat) (registered : Bool)

/-- The file system beside what its caller knows: the position, the bytes last stored, and
`top`, the highest offset at which a chunk was handed to the file layer for writing, or the
size the file had at the start if that is higher. -/
structure IoWorld (g : Geometry) where
  fs : Fs g
  pos : Nat
  shadow : Nat → Option UInt8
  top : Nat

/-- What is known of the contents after a request for `total` bytes at `p` in chunks of `len`
has stored `k`. The chunk that failed, if one did, is unknown if SPDK tore it. -/
def noteStored (p total k len : Nat) (buf : Mem) (torn : Bool) (shadow : Nat → Option UInt8) :
    Nat → Option UInt8 := fun q =>
  if p ≤ q ∧ q < p + k then some (buf (q - p))
  else if torn ∧ p + k ≤ q ∧ q < p + total ∧ q < p + k + len then none
  else shadow q

/-- One call, and what its caller learns from the value it returns. -/
def ioStep (fd : Int) (w : IoWorld g) : FdCall → Option (IoWorld g)
  | .lseek offset whence =>
      (monopolyLseek fd offset whence w.fs).map fun r => { w with fs := r.1, pos := r.2.toNat }
  | .write io buf nbytes registered =>
      (monopolyWrite io fd buf nbytes registered w.fs).map fun r =>
        let total := nbytes / g.ioUnit * g.ioUnit
        let k := r.2.2.toNat
        { fs := r.1
          pos := w.pos + k
          shadow := noteStored w.pos total k (chunkLen registered total) buf
            (io (k / bufSize)).io.junk.isSome w.shadow
          top := if 0 < total then max w.top (w.pos + lastChunkStart registered total k)
            else w.top }
  | .read io buf nbytes registered =>
      (monopolyRead io fd buf nbytes registered w.fs).map fun r =>
        { w with fs := r.1, pos := w.pos + r.2.2.toNat }

/-- Offsets and lengths are values of their types, and no seek goes below 0. -/
def FdCall.Legal (fd : Int) (w : IoWorld g) : FdCall → Prop
  | .lseek offset whence =>
      -2 ^ 63 ≤ offset ∧ offset < 2 ^ 63 ∧
        ∀ s pos, monopolyLseek fd offset whence w.fs = some (s, pos) → 0 ≤ pos
  | .write _ _ nbytes _ => nbytes < 2 ^ 64
  | .read _ _ nbytes _ => nbytes < 2 ^ 64

/-- Nothing is known of the contents yet. -/
def IoWorld.start (s : Fs g) (pos size : Nat) : IoWorld g := ⟨s, pos, fun _ => none, size⟩

/-- A seek to `p` and a read of `n` bytes. -/
def seekAndRead (io : Nat → IoAnswer) (fd : Int) (p n : Nat) (buf : Mem) (registered : Bool)
    (s : Fs g) : Option (Mem × Int) :=
  (monopolyLseek fd p SEEK_SET s).bind fun r =>
    (monopolyRead io fd buf n registered r.1).map fun t => t.2

/-- The range is read back in full, as it was last stored. -/
def ReadsBack (io : Nat → IoAnswer) (fd : Int) (p n : Nat) (buf : Mem) (registered : Bool)
    (w : IoWorld g) : Prop :=
  ∃ buf' : Mem, seekAndRead io fd p n buf registered w.fs = some (buf', (n : Int)) ∧
    ∀ q < n, w.shadow (p + q) = some (buf' q)

/-! ## What the caller knows is so -/

/-- The file agrees with what the caller knows of it. -/
structure IoWorld.Agrees (w : IoWorld g) (v : OpenFile g) : Prop where
  pos : v.At w.pos
  size : v.persist.fSize = w.top
  known : ∀ q b, w.shadow q = some b → q < v.blob.capacity ∧ v.blob.data q = b

/-- The descriptor is open, and its file agrees with what the caller knows. -/
def IoWorld.Inv (fd : Int) (w : IoWorld g) : Prop :=
  ∃ f v, w.fs.Resolves fd f v ∧ w.Agrees v

/-- What a write leaves known is so. -/
theorem WroteUpTo.known {io : Nat → WriteAnswer} {p total k start len : Nat} {buf : Mem}
    {v u : OpenFile g} {shadow : Nat → Option UInt8}
    (h : WroteUpTo io p total buf start len v 0 k u)
    (hknown : ∀ q b, shadow q = some b → q < v.blob.capacity ∧ v.blob.data q = b) (q : Nat)
    (b : UInt8)
    (hq : noteStored p total k len buf (io (k / bufSize)).io.junk.isSome shadow q = some b) :
    q < u.blob.capacity ∧ u.blob.data q = b := by
  have hcap := h.capacity
  have hle := h.le_right
  unfold noteStored at hq
  split at hq
  · next hin =>
      -- it has just been stored
      cases hq
      refine ⟨?_, h.done q (by omega) (by omega)⟩
      have := h.backed (by omega)
      omega
  · next hout =>
      split at hq
      · cases hq
      · next htorn =>
          obtain ⟨h1, h2⟩ := hknown q b hq
          refine ⟨by omega, ?_⟩
          by_cases hrange : p + k ≤ q ∧ q < p + total
          · -- the part of the request that was not stored, and that SPDK did not tear
            rw [h.cut q hrange.1 hrange.2 ?_]
            · exact h2
            · cases hj : (io (k / bufSize)).io.junk with
              | none => exact Or.inl rfl
              | some j =>
                  rw [hj] at htorn
                  right
                  simp only [Option.isSome_some, true_and, not_and, not_lt] at htorn
                  exact htorn hrange.1 hrange.2
          · rw [h.rest q (by omega)]
            exact h2

theorem ioStep_inv {fd : Int} (hB : g.ioUnit ∣ bufSize) {w w' : IoWorld g} {call : FdCall}
    (hw : w.Inv fd) (hcall : call.Legal fd w) (h : ioStep fd w call = some w') : w'.Inv fd := by
  obtain ⟨f, v, hres, hpos, hsize, hknown⟩ := hw
  cases call with
  | lseek offset whence =>
      obtain ⟨h0, h1, hnonneg⟩ := hcall
      obtain ⟨s', hs', -, hres'⟩ := Fs.monopolyLseek_eq hres offset whence
      rw [ioStep, hs'] at h
      cases h
      exact ⟨f, _, hres', hpos.lseek h0 h1 (hnonneg _ _ hs'),
        (congrArg _ (v.lseek_persist offset whence)).trans hsize, hknown⟩
  | write io buf nbytes registered =>
      obtain ⟨⟨s', buf', ret⟩, hs', rfl⟩ := Option.map_eq_some_iff.mp h
      obtain ⟨k, r, -, -, rfl, hres', hwrote⟩ := Fs.monopolyWrite_spec hB hres hpos hcall hs'
      exact ⟨f, r.view, hres', hwrote.fPos, hwrote.fSize.trans (hsize ▸ rfl), hwrote.known hknown⟩
  | read io buf nbytes registered =>
      obtain ⟨⟨s', buf', ret⟩, hs', rfl⟩ := Option.map_eq_some_iff.mp h
      obtain ⟨k, r, -, -, rfl, hres', hread, -⟩ := Fs.monopolyRead_spec hB hres hpos hcall hs'
      refine ⟨f, r.view, hres', hread.fPos, ?_, ?_⟩
      · rw [hread.frame.persist]
        exact hsize
      · intro q b hq
        rw [OpenFile.capacity_congr hread.frame.clusters, hread.frame.data]
        exact hknown q b hq

/-! ## Reading back -/

/-- Where the file agrees with what the caller knows, a known range is read back exactly when
it ends at or below `top`. -/
theorem IoWorld.Inv.readsBack_iff_top {fd : Int} (hB : g.ioUnit ∣ bufSize) {w : IoWorld g}
    (hw : w.Inv fd) {p n : Nat} (hp : g.ioUnit ∣ p) (hn : g.ioUnit ∣ n) (h0 : 0 < n)
    (hcov : ∀ q, p ≤ q → q < p + n → (w.shadow q).isSome) {io : Nat → IoAnswer}
    (hio : ∀ i, (io i).bserrno = 0) (buf : Mem) (registered : Bool) :
    ReadsBack io fd p n buf registered w ↔
      p + n ≤ w.top ∧ 512 ∣ n ∧ CounterFits registered n := by
  obtain ⟨f, v, hres, hpos, hsize, hknown⟩ := hw
  obtain ⟨s', hs', -, hres'⟩ := Fs.monopolyLseek_eq hres p SEEK_SET
  -- the last byte of the range is known, so the blob reaches that far
  obtain ⟨b, hb⟩ := Option.isSome_iff_exists.mp (hcov (p + n - 1) (by omega) (by omega))
  have hcap := (hknown _ b hb).1
  have hlt := v.blob.capacity_lt
  have hfPos : (monopolyLseekFile g v.file p SEEK_SET).2 = p := actualSeek_of_dvd hp
  have hAt : OpenFile.At (g := g)
      { v with file := (monopolyLseekFile g v.file p SEEK_SET).1 } p :=
    ⟨hfPos, hp, by omega⟩
  have hper := v.lseek_persist (p : Int) SEEK_SET
  have htot : n / g.ioUnit * g.ioUnit = n := Nat.div_mul_cancel hn
  unfold ReadsBack seekAndRead
  rw [hs', Option.bind_some]
  constructor
  · rintro ⟨buf', hread, -⟩
    obtain ⟨⟨s'', buf'', ret⟩, hread', heq⟩ := Option.map_eq_some_iff.mp hread
    obtain ⟨rfl, rfl⟩ := Prod.mk.injEq .. ▸ heq
    obtain ⟨k, r, -, -, hk, -, hupto, hfacts⟩ :=
      Fs.monopolyRead_spec hB hres' hAt (by omega) hread'
    obtain rfl : n = k := Int.ofNat_inj.mp hk
    obtain ⟨h512, hint⟩ := hfacts h0 htot.symm
    refine ⟨?_, h512, hint⟩
    rw [← hsize, ← hper]
    exact hupto.within h0
  · rintro ⟨htop, h512, hint⟩
    obtain ⟨r, hr, hret⟩ := monopolyReadFile_ok s'.buffer buf hB hAt h0 hn h512 hint hio
      (by rw [hper, hsize]; exact htop) (show p + n ≤ v.blob.capacity by omega)
    obtain ⟨k, hk, hupto, -⟩ := monopolyReadFile_spec hB hAt (by omega) hr
    have hkn : k = n := by omega
    subst hkn
    refine ⟨r.buf, ?_, ?_⟩
    · rw [(Fs.monopolyRead_eq_some hres').mpr ⟨r, hr, rfl, rfl, rfl⟩, Option.map_some, hret]
    · intro q hq
      obtain ⟨b, hb⟩ := Option.isSome_iff_exists.mp (hcov (p + q) (by omega) (by omega))
      rw [hb, hupto.done q (by omega) hq]
      exact congrArg some (hknown _ b hb).2.symm

/-- **Round trip.** After any run of seeks, writes and reads on a descriptor, a range of
whole io_units whose bytes are all known is read back, byte for byte as last stored, exactly
when a chunk of some write started at or past its end (or the file was that long at the
start). The other two conditions are the assertion in `simple_fs_read`, which no io_unit
SPDK reports can fail, and the range of the chunk counter. -/
theorem readsBack_iff {fd : Int} (hB : g.ioUnit ∣ bufSize) {s : Fs g} {f : FileId}
    {v : OpenFile g} {pos : Nat} (hopen : s.Resolves fd f v) (hpos : v.At pos)
    (calls : List FdCall) {w : IoWorld g}
    (hlegal : EachStep (ioStep fd) (fun w call => call.Legal fd w)
      (IoWorld.start s pos v.persist.fSize) calls)
    (hrun : exec (ioStep fd) (IoWorld.start s pos v.persist.fSize) calls = some w)
    {p n : Nat} (hp : g.ioUnit ∣ p) (hn : g.ioUnit ∣ n) (h0 : 0 < n)
    (hcov : ∀ q, p ≤ q → q < p + n → (w.shadow q).isSome) {io : Nat → IoAnswer}
    (hio : ∀ i, (io i).bserrno = 0) (buf : Mem) (registered : Bool) :
    ReadsBack io fd p n buf registered w ↔
      p + n ≤ w.top ∧ 512 ∣ n ∧ CounterFits registered n := by
  have hstart : (IoWorld.start s pos v.persist.fSize).Inv fd :=
    ⟨f, v, hopen, hpos, rfl, fun _ _ h => nomatch h⟩
  have hw : w.Inv fd := exec_inv (fun _ _ _ hI hC h => ioStep_inv hB hI hC h) hstart hlegal hrun
  exact hw.readsBack_iff_top hB hp hn h0 hcov hio buf registered

/-- The file system of `file_ut.c` after its `monopoly_create`, which returned 0. -/
def fileUtFs : Fs .malloc0 :=
  ((monopolyCreate (.done 1) ⟨[104, 101, 108, 108, 111], by decide⟩
    (.formatted .done 0)).get rfl).1

/-- Then five chunks are written, of which four can be read, and the position is put back. -/
def writtenFs : Fs .malloc0 :=
  ((monopolyWrite (fun _ => .done) 0 (fun q => .ofNat q) (5 * bufSize) false fileUtFs).bind
    fun w => (monopolyLseek 0 0 SEEK_SET w.1).map Prod.fst).get rfl

/-- After a write of two chunks the first can be read back. -/
theorem readsBack_firstChunk :
    ∃ w, exec (ioStep 0) (.start fileUtFs 0 0)
        [.write (fun _ => .done) (fun _ => 65) (2 * bufSize) false] = some w ∧
      ReadsBack (fun _ => .done) 0 0 bufSize (fun _ => 0) false w := by
  have hlen : 2 * bufSize < 2 ^ 64 := by decide
  refine ⟨_, rfl, (readsBack_iff (s := fileUtFs) (f := 0) (by decide) ⟨rfl, rfl⟩
    (OpenFile.at_zero rfl)
    [.write (fun _ => .done) (fun _ => 65) (2 * bufSize) false]
    ⟨hlen, fun _ _ => trivial⟩ rfl (by decide) (by decide) (by decide) ?_
    (fun _ => rfl) _ _).mpr ⟨by decide, by decide, Or.inr (by decide)⟩⟩
  intro q _ hq
  show (noteStored 0 (2 * bufSize) (2 * bufSize) bufSize (fun _ => 65) false
    (fun _ => none) q).isSome
  unfold noteStored
  rw [if_pos (by omega)]
  rfl

/-- What `file_ut.c` has just written, it cannot read. -/
theorem fileUt_not_readsBack :
    ∃ w, exec (ioStep 0) (.start fileUtFs 0 0)
        [.write (fun _ => .done) (fun _ => 65) 4096 false] = some w ∧
      (∀ q < 4096, w.shadow q = some 65) ∧
      ¬ ReadsBack (fun _ => .done) 0 0 4096 (fun _ => 66) false w := by
  refine ⟨_, rfl, ?_, ?_⟩
  · intro q hq
    show noteStored 0 4096 4096 bufSize (fun _ => 65) false (fun _ => none) q = some 65
    unfold noteStored
    rw [if_pos (by omega)]
  · rintro ⟨buf', hread, -⟩
    have hret : some (0 : Int) = some 4096 := congrArg (Option.map Prod.snd) hread
    cases hret

end BlobTopFs
