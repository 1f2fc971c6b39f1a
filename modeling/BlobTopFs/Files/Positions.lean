import BlobTopFs.Files.RoundTrip
import BlobTopFs.SimpleFs.Requests

/-!
# Positions and the requests of reads

A seek rounds its offset toward zero and adds it to the position, and nothing looks at the
result. The position stays a multiple of the io_unit, but it goes below zero, and the end-of-file
test, which compares unsigned sums, then lets reads through that start before the file. Where no
seek does that, the position is fine in every state of a run, and a read can leave the file in
one way only: a registered buffer of nearly `2 ^ 64` bytes.
-/

namespace BlobTopFs

open Machine Run

variable {g : Geometry}

/-! ## Where a seek lands -/

/-- From an io_unit boundary at or above 0, whole io_units toward zero lead below 0 exactly if
the offset leads there by an io_unit or more. -/
theorem add_actualSeek_nonneg_iff {p : Int} (offset : Int) (hp : (g.ioUnit : Int) ∣ p)
    (h0 : 0 ≤ p) : 0 ≤ p + actualSeek g offset ↔ -(p + g.ioUnit) < offset := by
  have hpos : (0 : Int) < g.ioUnit := Int.natCast_pos.mpr g.ioUnit_pos
  rcases Int.le_total 0 offset with h | h
  · have hcut := actualSeek_of_nonneg (g := g) h
    exact iff_of_true (by omega) (by omega)
  · have hcut := actualSeek_of_nonpos (g := g) h
    constructor
    · intro hsum
      omega
    · intro hlow
      obtain ⟨k, hk⟩ := Int.dvd_add hp (dvd_actualSeek (g := g) offset)
      -- a multiple of the io_unit above `-ioUnit` is not negative
      have hk0 : 0 ≤ k := by
        by_contra hneg
        have hmul := Int.mul_le_mul_of_nonneg_left (show k ≤ -1 by omega) (Int.le_of_lt hpos)
        omega
      rw [hk]
      exact Int.mul_nonneg (Int.le_of_lt hpos) hk0

/-- And past a multiple of the io_unit exactly if the offset does. -/
theorem add_actualSeek_lt_iff {p m : Int} (offset : Int) (hp : (g.ioUnit : Int) ∣ p)
    (hm : (g.ioUnit : Int) ∣ m) (hpm : p < m) :
    p + actualSeek g offset < m ↔ p + offset < m := by
  have hpos : (0 : Int) < g.ioUnit := Int.natCast_pos.mpr g.ioUnit_pos
  rcases Int.le_total 0 offset with h | h
  · have hcut := actualSeek_of_nonneg (g := g) h
    constructor
    · intro hsum
      obtain ⟨k, hk⟩ := Int.dvd_sub hm (Int.dvd_add hp (dvd_actualSeek (g := g) offset))
      -- there is a whole io_unit between two multiples of it
      have hk1 : 1 ≤ k := by
        by_contra hneg
        have hmul := Int.mul_le_mul_of_nonneg_left (show k ≤ 0 by omega) (Int.le_of_lt hpos)
        omega
      have hmul := Int.mul_le_mul_of_nonneg_left hk1 (Int.le_of_lt hpos)
      omega
    · intro hsum
      omega
  · have hcut := actualSeek_of_nonpos (g := g) h
    exact iff_of_true (by omega) (by omega)

/-- A seek from `p` that does not lead below 0, nor past what a `loff_t` can hold. -/
def SeeksInside (g : Geometry) (p offset whence : Int) : Prop :=
  (whence = SEEK_SET → -(g.ioUnit : Int) < offset) ∧
    (whence = SEEK_CUR → -(p + g.ioUnit) < offset ∧ p + offset < 2 ^ 63)

theorem OpenFile.At.lseek_nonneg_iff {v : OpenFile g} {p : Nat} {offset whence : Int}
    (hB : g.ioUnit ∣ bufSize) (hv : v.At p) (h0 : -2 ^ 63 ≤ offset) (h1 : offset < 2 ^ 63) :
    0 ≤ (monopolyLseekFile g v.file offset whence).2 ↔ SeeksInside g p offset whence := by
  have hp := hv.lt
  have hpd : (g.ioUnit : Int) ∣ p := Int.natCast_dvd_natCast.mpr hv.dvd
  have hm : (g.ioUnit : Int) ∣ 2 ^ 63 :=
    Int.dvd_trans (Int.natCast_dvd_natCast.mpr hB) ⟨2 ^ 47, by decide⟩
  simp only [monopolyLseekFile, SeeksInside]
  by_cases hset : whence = SEEK_SET
  · have hcur : whence ≠ SEEK_CUR := by
      rw [hset]
      decide
    have hzero := add_actualSeek_nonneg_iff offset (Int.dvd_zero (g.ioUnit : Int))
      (Int.le_refl 0)
    rw [Int.zero_add, Int.zero_add] at hzero
    simp only [hset, if_true, true_imp_iff]
    rw [if_neg (hset ▸ hcur), hzero]
    exact ⟨fun h => ⟨h, fun hc => absurd hc (hset ▸ hcur)⟩, And.left⟩
  · simp only [if_neg hset]
    by_cases hcur : whence = SEEK_CUR
    · have hlow := add_actualSeek_nonneg_iff offset hpd (Int.natCast_nonneg p)
      have hhigh := add_actualSeek_lt_iff offset hpd hm (by omega)
      obtain ⟨hb0, hb1⟩ := actualSeek_bounds (g := g) h0 h1
      rw [if_pos hcur, hv.fPos, ← hlow, ← hhigh]
      -- the sum has not left the type, or is on the other side of 0
      have hfit : 0 ≤ s64 ((p : Int) + actualSeek g offset) ↔
          0 ≤ (p : Int) + actualSeek g offset ∧ (p : Int) + actualSeek g offset < 2 ^ 63 := by
        unfold s64 u64
        omega
      exact hfit.trans ⟨fun h => ⟨fun hs => absurd hs hset, fun _ => h⟩, fun h => h.2 hcur⟩
    · rw [if_neg hcur, hv.fPos]
      exact iff_of_true (Int.natCast_nonneg p) ⟨fun h => absurd h hset, fun h => absurd h hcur⟩

/-! ## Runs -/

/-- The state after one call. -/
def callStep (fd : Int) (s : Fs g) : FdCall → Option (Fs g)
  | .lseek offset whence => (monopolyLseek fd offset whence s).map Prod.fst
  | .write io buf nbytes registered => (monopolyWrite io fd buf nbytes registered s).map Prod.fst
  | .read io buf nbytes registered => (monopolyRead io fd buf nbytes registered s).map Prod.fst

/-- Offsets and lengths are values of their types. -/
def FdCall.Typed : FdCall → Prop
  | .lseek offset _ => -2 ^ 63 ≤ offset ∧ offset < 2 ^ 63
  | .write _ _ nbytes _ => nbytes < 2 ^ 64
  | .read _ _ nbytes _ => nbytes < 2 ^ 64

namespace Fs

/-- The position is a multiple of the io_unit, and not negative. -/
def PositionSafe (fd : Int) (s : Fs g) : Prop :=
  ∀ f v, s.Resolves fd f v → 0 ≤ v.file.fPos ∧ (g.ioUnit : Int) ∣ v.file.fPos

/-- Every read request the call makes is inside the file, and for as many bytes as it has room
for. -/
def ReadsInside (fd : Int) (s : Fs g) (call : FdCall) : Prop :=
  ∀ f v s', s.Resolves fd f v → callStep fd s call = some s' →
    Asked (ReadInside g v.persist.fSize) s.bs.log s'.bs.log

/-- No seek leads below 0, and no read of a registered buffer has an end that wraps to below the
end of the file. -/
def StaysInside (fd : Int) (s : Fs g) : FdCall → Prop
  | .lseek offset whence =>
      ∀ f v, s.Resolves fd f v → SeeksInside g v.file.fPos offset whence
  | .write .. => True
  | .read _ _ nbytes registered =>
      let total := nbytes / g.ioUnit * g.ioUnit
      ∀ f v, s.Resolves fd f v → registered = true → 512 ∣ total →
        u64 (v.file.fPos + total) ≤ v.persist.fSize → v.file.fPos + total ≤ v.persist.fSize

/-- The descriptor is open, at an io_unit boundary. -/
def Positioned (fd : Int) (s : Fs g) : Prop := ∃ f v p, s.Resolves fd f v ∧ v.At p

section Step

variable {fd : Int} {s s' : Fs g} {call : FdCall}

theorem Positioned.safe (h : s.Positioned fd) : s.PositionSafe fd := by
  obtain ⟨f, v, p, hres, hv⟩ := h
  intro f' v' hres'
  obtain ⟨rfl, rfl⟩ := hres.unique hres'
  rw [hv.fPos]
  exact ⟨Int.natCast_nonneg p, Int.natCast_dvd_natCast.mpr hv.dvd⟩

theorem Positioned.step (hB : g.ioUnit ∣ bufSize) (h : s.Positioned fd) (hcall : call.Typed)
    (hstays : s.StaysInside fd call) (hstep : callStep fd s call = some s') :
    s'.Positioned fd := by
  obtain ⟨f, v, p, hres, hv⟩ := h
  cases call with
  | lseek offset whence =>
      obtain ⟨h0, h1⟩ := hcall
      obtain ⟨t, ht, -, hres'⟩ := monopolyLseek_eq hres offset whence
      rw [callStep, ht] at hstep
      cases hstep
      have hinside := hstays f v hres
      rw [hv.fPos] at hinside
      exact ⟨f, _, _, hres', hv.lseek h0 h1 ((hv.lseek_nonneg_iff hB h0 h1).mpr hinside)⟩
  | write io buf nbytes registered =>
      obtain ⟨⟨t, buf', ret⟩, ht, rfl⟩ := Option.map_eq_some_iff.mp hstep
      obtain ⟨k, r, -, -, -, hres', hwrote⟩ := monopolyWrite_spec hB hres hv hcall ht
      exact ⟨f, r.view, _, hres', hwrote.fPos⟩
  | read io buf nbytes registered =>
      obtain ⟨⟨t, buf', ret⟩, ht, rfl⟩ := Option.map_eq_some_iff.mp hstep
      obtain ⟨k, r, -, -, -, hres', hread, -⟩ := monopolyRead_spec hB hres hv hcall ht
      exact ⟨f, r.view, _, hres', hread.fPos⟩

theorem Positioned.readsInside (hB : g.ioUnit ∣ bufSize) (h : s.Positioned fd)
    (hcall : call.Typed) (hstays : s.StaysInside fd call) : s.ReadsInside fd call := by
  obtain ⟨f, v, p, hres, hv⟩ := h
  intro f' v' s' hres' hstep
  obtain ⟨rfl, rfl⟩ := hres.unique hres'
  cases call with
  | lseek offset whence =>
      obtain ⟨⟨t, ret⟩, ht, rfl⟩ := Option.map_eq_some_iff.mp hstep
      obtain ⟨-, -, -, -, -, rfl⟩ := monopolyLseek_cases ht
      exact Asked.refl _ _
  | write io buf nbytes registered =>
      obtain ⟨⟨t, buf', ret⟩, ht, rfl⟩ := Option.map_eq_some_iff.mp hstep
      obtain ⟨r, hr, rfl, -, -⟩ := (monopolyWrite_eq_some hres).mp ht
      rw [← hres.log]
      exact monopolyWriteFile_asked hr _
  | read io buf nbytes registered =>
      obtain ⟨⟨t, buf', ret⟩, ht, rfl⟩ := Option.map_eq_some_iff.mp hstep
      obtain ⟨r, hr, rfl, -, -⟩ := (monopolyRead_eq_some hres).mp ht
      rw [← hres.log]
      refine (monopolyReadFile_asked_iff hB hv hcall rfl hr).mpr fun hreg hle => ?_
      -- what came back has passed the assertion
      have h512 : 512 ∣ nbytes / g.ioUnit * g.ioUnit := by
        subst hreg
        by_cases hz : nbytes / g.ioUnit = 0
        · rw [hz, Nat.zero_mul]
          exact Nat.dvd_zero _
        · rw [monopolyReadFile_direct v s.buffer buf rfl (total_pos hz)] at hr
          obtain ⟨t, ht, -⟩ := Option.map_eq_some_iff.mp hr
          exact (simpleFsRead_spec hv (dvd_total nbytes) (total_pos hz)
            (Nat.lt_of_le_of_lt (total_le nbytes) hcall) ht).2.1
      have hstays' := hstays f v hres hreg h512
      rw [hv.fPos, ← Int.natCast_add] at hstays'
      exact Int.ofNat_le.mp (hstays' hle)

theorem Positioned.staysInside (hB : g.ioUnit ∣ bufSize) (h : s.Positioned fd)
    (hcall : call.Typed) (hsafe : ∀ s', callStep fd s call = some s' → s'.PositionSafe fd)
    (hreads : s.ReadsInside fd call) : s.StaysInside fd call := by
  obtain ⟨f, v, p, hres, hv⟩ := h
  cases call with
  | lseek offset whence =>
      obtain ⟨h0, h1⟩ := hcall
      intro f' v' hres'
      obtain ⟨rfl, rfl⟩ := hres.unique hres'
      obtain ⟨t, ht, -, hres''⟩ := monopolyLseek_eq hres offset whence
      rw [hv.fPos]
      exact (hv.lseek_nonneg_iff hB h0 h1).mp (hsafe t (by rw [callStep, ht]; rfl) _ _ hres'').1
  | write io buf nbytes registered => trivial
  | read io buf nbytes registered =>
      intro f' v' hres' hreg h512 hle
      obtain ⟨rfl, rfl⟩ := hres.unique hres'
      rw [hv.fPos] at hle ⊢
      rw [← Int.natCast_add, Int.ofNat_le]
      -- the call comes back, as its length passes the assertion
      have hback : ∃ r, monopolyReadFile io v s.buffer buf nbytes registered = some r := by
        by_cases hz : nbytes / g.ioUnit = 0
        · exact ⟨_, monopolyReadFile_zero v s.buffer buf hz io registered⟩
        · obtain ⟨t, ht⟩ := simpleFsRead_isSome (io 0) v buf h512
          rw [hreg, monopolyReadFile_direct v s.buffer buf rfl (total_pos hz), ht]
          exact ⟨_, rfl⟩
      obtain ⟨r, hr⟩ := hback
      have hasked := hreads f v _ hres (by
        rw [callStep, (monopolyRead_eq_some hres).mpr ⟨r, hr, rfl, rfl, rfl⟩]
        rfl)
      rw [← hres.log] at hasked
      exact (monopolyReadFile_asked_iff hB hv hcall rfl hr).mp hasked hreg hle

end Step

end Fs

/-- **Positions and reads.** In a run of seeks, reads and writes on a descriptor, whatever SPDK
answers, the position is a non-negative multiple of the io_unit in every state and every read
request is inside the file, exactly when no seek leads below 0 and no read of a registered buffer
has an end that wraps. -/
theorem positionsSafe_iff {fd : Int} (hB : g.ioUnit ∣ bufSize) {s : Fs g} {f : FileId}
    {v : OpenFile g} {p : Nat} (hopen : s.Resolves fd f v) (hv : v.At p) {calls : List FdCall}
    (htyped : ∀ call ∈ calls, call.Typed) :
    Always (callStep fd) (Fs.PositionSafe fd) s calls ∧
        EachStep (callStep fd) (Fs.ReadsInside fd) s calls ↔
      EachStep (callStep fd) (Fs.StaysInside fd) s calls := by
  refine always_and_eachStep_iff (I := Fs.Positioned fd) (L := fun _ call => call.Typed)
    ?_ ?_ ?_ ?_ ⟨f, v, p, hopen, hv⟩ (eachStep_of_forall htyped)
  · intro s h
    exact h.safe
  · intro s call s' h hcall hstays hstep
    exact h.step hB hcall hstays hstep
  · intro s call h hcall hstays
    exact h.readsInside hB hcall hstays
  · intro s call h hcall hsafe hreads
    exact h.staysInside hB hcall hsafe hreads

/-- Back from the end of a write, by part of an io_unit, and a read there. -/
theorem positionsSafe_back :
    Always (callStep 0) (Fs.PositionSafe 0) fileUtFs
        [.write (fun _ => .done) (fun _ => 65) 4096 false, .lseek (-700) SEEK_CUR,
          .read (fun _ => .done) (fun _ => 0) 512 false] ∧
      EachStep (callStep 0) (Fs.ReadsInside 0) fileUtFs
        [.write (fun _ => .done) (fun _ => 65) 4096 false, .lseek (-700) SEEK_CUR,
          .read (fun _ => .done) (fun _ => 0) 512 false] := by
  refine (positionsSafe_iff (f := 0) (by decide) ⟨rfl, rfl⟩
    (OpenFile.at_zero rfl) ?_).mpr ?_
  · intro call hcall
    simp only [List.mem_cons, List.not_mem_nil, or_false] at hcall
    rcases hcall with rfl | rfl | rfl
    · exact show 4096 < 2 ^ 64 by decide
    · exact ⟨by decide, by decide⟩
    · exact show 512 < 2 ^ 64 by decide
  · refine EachStep.cons rfl trivial (EachStep.cons rfl ?_ ⟨?_, fun _ _ => trivial⟩)
    · intro f v hres
      obtain ⟨-, rfl⟩ := hres.unique ⟨rfl, rfl⟩
      exact ⟨by decide, fun _ => by decide +kernel⟩
    · intro f v _ hreg
      cases hreg

/-- A seek to 512 bytes before the start of the file, and a read there. -/
def beforeStart : List FdCall :=
  [.lseek (-512) SEEK_CUR, .read (fun _ => .done) (fun _ => 0) 512 false]

/-- The position is -512, and the read asks for the io_unit before the first, as one at the far
end of the address space: the file is empty, and the sum that is compared with its size is 0. -/
theorem not_positionsSafe_before :
    (∀ call ∈ beforeStart, call.Typed) ∧
      ¬ Always (callStep 0) (Fs.PositionSafe 0) fileUtFs beforeStart ∧
      ¬ EachStep (callStep 0) (Fs.ReadsInside 0) fileUtFs beforeStart := by
  refine ⟨?_, ?_, ?_⟩
  · intro call hcall
    simp only [beforeStart, List.mem_cons, List.not_mem_nil, or_false] at hcall
    rcases hcall with rfl | rfl
    · exact ⟨by decide, by decide⟩
    · exact show 512 < 2 ^ 64 by decide
  · intro h
    have hneg := ((h.2 _ rfl).head 0 _ ⟨rfl, rfl⟩).1
    exact absurd hneg (by decide)
  · intro h
    have hread := (h.2 _ rfl).1 0 _ _ ⟨rfl, rfl⟩ rfl
    obtain ⟨hinside, -⟩ := Asked.cons_iff.mp hread
    exact absurd hinside (by decide)

end BlobTopFs
