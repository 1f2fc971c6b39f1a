import BlobTopFs.Files.RoundTrip

/-!
# Reading a file from start to end

A caller reads requests of one length until a read returns 0. As the end-of-file test refuses a
piece of a request that does not end inside the file, such a read returns 0 not only at the end:
what is left of the file behind the last whole request, and the last whole piece after that, is
never delivered.
-/

namespace BlobTopFs

open Machine

variable {g : Geometry}

/-- Reads of `nbytes` bytes, of which SPDK fails none, until one returns 0, and the bytes they
deliver. There is no result if that takes more than `fuel` reads, or one does not come back. -/
def readUntilZero (fd : Int) (nbytes : Nat) (registered : Bool) :
    (fuel : Nat) → Mem → Fs g → Option (List UInt8)
  | 0, _, _ => none
  | fuel + 1, buf, s =>
      (monopolyRead (fun _ => .done) fd buf nbytes registered s).bind fun r =>
        if r.2.2 = 0 then some []
        else (readUntilZero fd nbytes registered fuel r.2.1 r.1).map fun rest =>
          r.2.1.bytes 0 r.2.2.toNat ++ rest

/-- The reads deliver `n` bytes of the file `v`, those from `p` on. -/
def Delivers (fd : Int) (buf : Mem) (nbytes : Nat) (registered : Bool) (s : Fs g) (v : OpenFile g)
    (p n : Nat) : Prop :=
  ∃ fuel, readUntilZero fd nbytes registered fuel buf s = some (v.blob.data.bytes p n)

/-! ## The loop -/

section Loop

variable {fd : Int} {nbytes : Nat} {registered : Bool} {buf buf' : Mem} {s s' : Fs g}
  {bytes : List UInt8}

/-- A read that does not come back leaves the caller without a result. -/
theorem readUntilZero_lost (h : monopolyRead (fun _ => .done) fd buf nbytes registered s = none)
    (fuel : Nat) : readUntilZero fd nbytes registered fuel buf s = none := by
  cases fuel with
  | zero => rfl
  | succ fuel => rw [readUntilZero, h, Option.bind_none]

/-- A read that returns 0 ends the loop. -/
theorem exists_readUntilZero_end
    (h : monopolyRead (fun _ => .done) fd buf nbytes registered s = some (s', buf', 0)) :
    (∃ fuel, readUntilZero fd nbytes registered fuel buf s = some bytes) ↔ bytes = [] := by
  have hloop : ∀ fuel, readUntilZero fd nbytes registered (fuel + 1) buf s = some [] := by
    intro fuel
    rw [readUntilZero, h]
    rfl
  constructor
  · rintro ⟨fuel, hfuel⟩
    cases fuel with
    | zero => cases hfuel
    | succ fuel =>
        rw [hloop] at hfuel
        exact (Option.some.inj hfuel).symm
  · rintro rfl
    exact ⟨1, hloop 0⟩

/-- Any other read delivers its bytes, and the loop goes on behind them. -/
theorem exists_readUntilZero_more {k : Nat} (hk : 0 < k)
    (h : monopolyRead (fun _ => .done) fd buf nbytes registered s = some (s', buf', (k : Int))) :
    (∃ fuel, readUntilZero fd nbytes registered fuel buf s = some (buf'.bytes 0 k ++ bytes)) ↔
      ∃ fuel, readUntilZero fd nbytes registered fuel buf' s' = some bytes := by
  have hne : (k : Int) ≠ 0 := Int.natCast_ne_zero.mpr (Nat.ne_of_gt hk)
  have hloop : ∀ fuel, readUntilZero fd nbytes registered (fuel + 1) buf s =
      (readUntilZero fd nbytes registered fuel buf' s').map fun rest =>
        buf'.bytes 0 k ++ rest := by
    intro fuel
    rw [readUntilZero, h, Option.bind_some]
    exact if_neg hne
  constructor
  · rintro ⟨fuel, hfuel⟩
    cases fuel with
    | zero => cases hfuel
    | succ fuel =>
        rw [hloop] at hfuel
        obtain ⟨tail, htail, heq⟩ := Option.map_eq_some_iff.mp hfuel
        exact ⟨fuel, htail.trans (congrArg some (List.append_cancel_left heq))⟩
  · rintro ⟨fuel, hfuel⟩
    exact ⟨fuel + 1, by rw [hloop, hfuel, Option.map_some]⟩

end Loop

/-! ## What is left -/

/-- `rest` bytes are whole requests, and whole pieces of the last one, which can be counted. -/
def Deliverable (registered : Bool) (total rest : Nat) : Prop :=
  chunkLen registered total ∣ rest % total ∧ CounterFits registered (min rest total)

section Pieces

variable {registered : Bool} {total rest : Nat}

theorem CounterFits.mono {a b : Nat} (hab : b ≤ a) (h : CounterFits registered a) :
    CounterFits registered b := by
  refine h.imp id fun hlt => Nat.lt_of_le_of_lt ?_ hlt
  exact Nat.succ_le_succ (Nat.div_le_div_right (Nat.sub_le_sub_right hab 1))

theorem counterFits_zero : CounterFits registered 0 := Or.inr (by decide)

/-- Whole pieces can be counted if their number is an `int`. -/
theorem counterFits_of_dvd (h0 : 0 < rest) (hlt : rest < total)
    (hd : chunkLen registered total ∣ rest) :
    CounterFits registered rest ↔
      registered = true ∨ rest / chunkLen registered total < 2 ^ 31 := by
  cases registered with
  | true => exact iff_of_true (Or.inl rfl) (Or.inl rfl)
  | false =>
      obtain ⟨n, rfl⟩ : bufSize ∣ rest := hd
      obtain ⟨m, rfl⟩ := Nat.exists_eq_succ_of_ne_zero (Nat.ne_of_gt (Nat.pos_of_mul_pos_left h0))
      have hB0 : 0 < bufSize := by decide
      have hlast : (bufSize * (m + 1) - 1) / bufSize = m := by
        refine Nat.div_eq_of_lt_le ?_ ?_
        · rw [Nat.mul_succ, Nat.mul_comm]
          omega
        · rw [Nat.mul_succ, Nat.add_mul, Nat.mul_comm m]
          omega
      have hdiv : bufSize * (m + 1) / chunkLen false total = m + 1 := Nat.mul_div_cancel_left _ hB0
      rw [CounterFits, Nat.succ_eq_add_one, hlast, hdiv]

theorem pieceCount_pos (registered : Bool) (total : Nat) : 0 < pieceCount registered total := by
  cases registered with
  | false => exact Nat.succ_pos _
  | true => exact Nat.one_pos

/-- A read that is served nothing leaves nothing, or what is not deliverable. -/
theorem deliverable_of_unserved (h0 : 0 < total) (h : servedPieces registered total rest = 0) :
    Deliverable registered total rest ↔ rest = 0 := by
  have hlen := chunkLen_pos registered h0
  have hlt : rest < total := by
    by_contra hge
    rw [servedPieces, if_pos (not_lt.mp hge)] at h
    exact absurd h (Nat.ne_of_gt (pieceCount_pos registered total))
  rw [servedPieces, if_neg (not_le.mpr hlt), Nat.div_eq_zero_iff_lt hlen] at h
  unfold Deliverable
  rw [Nat.mod_eq_of_lt hlt, Nat.min_eq_left (Nat.le_of_lt hlt)]
  constructor
  · rintro ⟨hd, -⟩
    exact Nat.eq_zero_of_dvd_of_lt hd h
  · rintro rfl
    exact ⟨Nat.dvd_zero _, counterFits_zero⟩

/-- One that has more pieces than it can count is of what is not deliverable. -/
theorem not_deliverable (h : ¬ (registered = true ∨ servedPieces registered total rest < 2 ^ 31)) :
    ¬ Deliverable registered total rest := by
  rintro ⟨hd, hcount⟩
  apply h
  unfold servedPieces
  by_cases hall : total ≤ rest
  · rw [if_pos hall]
    rw [Nat.min_eq_right hall] at hcount
    exact counterFits_iff.mp hcount
  · have hlt := not_le.mp hall
    rw [if_neg hall]
    rw [Nat.mod_eq_of_lt hlt] at hd
    rw [Nat.min_eq_left (Nat.le_of_lt hlt)] at hcount
    rcases Nat.eq_zero_or_pos rest with rfl | hpos
    · exact Or.inr (by rw [Nat.zero_div]; decide)
    · exact (counterFits_of_dvd hpos hlt hd).mp hcount

/-- Any other takes off what is deliverable. -/
theorem deliverable_step (h0 : 0 < total)
    (hcount : registered = true ∨ servedPieces registered total rest < 2 ^ 31) :
    min total (servedPieces registered total rest * chunkLen registered total) ≤ rest ∧
      (Deliverable registered total rest ↔
        Deliverable registered total
          (rest - min total (servedPieces registered total rest * chunkLen registered total))) := by
  have hlen := chunkLen_pos registered h0
  by_cases hall : total ≤ rest
  · -- a whole request
    have hpieces : servedPieces registered total rest = pieceCount registered total := if_pos hall
    rw [hpieces] at hcount ⊢
    have hfits : CounterFits registered total := counterFits_iff.mpr hcount
    rw [min_pieceCount]
    refine ⟨hall, ?_⟩
    unfold Deliverable
    rw [← Nat.mod_eq_sub_mod hall]
    exact and_congr_right fun _ => iff_of_true (hfits.mono (Nat.min_le_right ..))
      (hfits.mono (Nat.min_le_right ..))
  · -- the whole pieces of what is left
    have hlt := not_le.mp hall
    have hpieces : servedPieces registered total rest = rest / chunkLen registered total :=
      if_neg hall
    rw [hpieces] at hcount ⊢
    have hmod := Nat.div_add_mod' rest (chunkLen registered total)
    have hmodlt := Nat.mod_lt rest hlen
    rw [Nat.min_eq_right (by omega)]
    have hrest : rest - rest / chunkLen registered total * chunkLen registered total =
        rest % chunkLen registered total := by omega
    refine ⟨by omega, ?_⟩
    unfold Deliverable
    rw [hrest, Nat.mod_eq_of_lt hlt, Nat.mod_eq_of_lt (by omega), Nat.min_eq_left (by omega),
      Nat.min_eq_left (by omega)]
    have hdvd : chunkLen registered total ∣ rest % chunkLen registered total ↔
        chunkLen registered total ∣ rest := Nat.dvd_mod_iff (Nat.dvd_refl _)
    rw [hdvd]
    refine and_congr_right fun hd => ?_
    rw [Nat.mod_eq_zero_of_dvd hd]
    refine iff_of_true ?_ counterFits_zero
    rcases Nat.eq_zero_or_pos rest with rfl | hpos
    · exact counterFits_zero
    · exact (counterFits_of_dvd hpos hlt hd).mpr hcount

end Pieces

/-! ## The reads -/

section Read

variable {fd : Int} {nbytes total : Nat} {registered : Bool} {s : Fs g} {f : FileId}
  {v : OpenFile g} {p : Nat}

/-- One read, from a position in the file. -/
theorem monopolyRead_served (registered : Bool) (hopen : s.Resolves fd f v)
    (hB : g.ioUnit ∣ bufSize) (hv : v.At p)
    (h64 : nbytes < 2 ^ 64) (htot : nbytes / g.ioUnit * g.ioUnit = total) (h0 : 0 < total)
    (h512 : 512 ∣ total) (buf : Mem) {k : Nat}
    (hk : k = min total (servedPieces registered total (v.readable - p) *
      chunkLen registered total)) :
    if registered = true ∨ servedPieces registered total (v.readable - p) < 2 ^ 31 then
      ∃ s' buf' v', monopolyRead (fun _ => .done) fd buf nbytes registered s =
          some (s', buf', (k : Int)) ∧
        s'.Resolves fd f v' ∧ v'.At (p + k) ∧ ReadFrame v v' ∧
        ∀ q < k, buf' q = v.blob.data (p + q)
    else monopolyRead (fun _ => .done) fd buf nbytes registered s = none := by
  have hret := monopolyReadFile_served (fun _ => .done) s.buffer buf registered hB hv h64 htot h0
    h512 fun _ => rfl
  rw [← hk] at hret
  split
  · next hcount =>
      rw [if_pos hcount] at hret
      obtain ⟨r, hr, hrk⟩ := Option.map_eq_some_iff.mp hret
      have hs' := (Fs.monopolyRead_eq_some hopen).mpr ⟨r, hr, rfl, rfl, hrk.symm⟩
      obtain ⟨k', r', hr', -, hk', hopen', hread, -⟩ := Fs.monopolyRead_spec hB hopen hv h64 hs'
      cases hr.symm.trans hr'
      obtain rfl : k = k' := Int.ofNat_inj.mp hk'
      exact ⟨_, r.buf, r.view, hs', hopen', hread.fPos, hread.frame,
        fun q hq => hread.done q (Nat.zero_le q) hq⟩
  · next hcount =>
      rw [if_neg hcount, Option.map_eq_none_iff] at hret
      rw [monopolyRead, hopen.file, Option.bind_some, hopen.openFile, Option.bind_some, hret]
      rfl

/-- From any position in the file, the reads deliver the rest of it exactly if that is
deliverable. -/
theorem delivers_iff (hB : g.ioUnit ∣ bufSize) (h64 : nbytes < 2 ^ 64)
    (htot : nbytes / g.ioUnit * g.ioUnit = total) (h0 : 0 < total) (h512 : 512 ∣ total)
    (rest : Nat) (hopen : s.Resolves fd f v) (hv : v.At p) (hrest : p + rest = v.readable)
    (buf : Mem) :
    Delivers fd buf nbytes registered s v p rest ↔ Deliverable registered total rest := by
  -- by induction on what is left, which every read that is served shortens
  induction rest using Nat.strongRecOn generalizing s v p buf with
  | _ rest ih =>
    have hleft : v.readable - p = rest := by omega
    obtain ⟨k, hk⟩ : ∃ k, k = min total (servedPieces registered total rest *
      chunkLen registered total) := ⟨_, rfl⟩
    have hread := monopolyRead_served registered hopen hB hv h64 htot h0 h512 buf
      (hleft.symm ▸ hk)
    rw [hleft] at hread
    split at hread
    · next hcount =>
        obtain ⟨s', buf', v', hs', hopen', hv', hframe, hbytes⟩ := hread
        obtain ⟨hle, hstep⟩ := deliverable_step h0 hcount
        rw [← hk] at hle hstep
        rcases Nat.eq_zero_or_pos k with rfl | hpos
        · -- nothing is read, and that is the end
          have hlen := chunkLen_pos registered h0
          have hunserved : servedPieces registered total rest = 0 := by
            by_contra hne
            have := Nat.mul_pos (Nat.pos_of_ne_zero hne) hlen
            omega
          rw [deliverable_of_unserved h0 hunserved, Delivers, exists_readUntilZero_end hs',
            ← List.length_eq_zero_iff, Mem.bytes_length]
        · have hdata : v.blob.data.bytes p k = buf'.bytes 0 k := by
            apply Mem.bytes_congr
            intro q hq
            rw [Nat.zero_add]
            exact (hbytes q hq).symm
          have hsplit : v.blob.data.bytes p rest =
              buf'.bytes 0 k ++ v'.blob.data.bytes (p + k) (rest - k) := by
            rw [hframe.data, ← hdata, ← Mem.bytes_add, Nat.add_sub_of_le hle]
          rw [hstep, ← ih (rest - k) (by omega) hopen' hv' (by rw [hframe.readable]; omega) buf',
            Delivers, hsplit, exists_readUntilZero_more hpos hs', Delivers]
    · next hcount =>
        refine iff_of_false ?_ (not_deliverable hcount)
        rintro ⟨fuel, hfuel⟩
        rw [readUntilZero_lost hread] at hfuel
        cases hfuel

/-- **Sequential reading.** The reads of a file from its start, of which all bytes are stored,
deliver exactly its bytes if and only if what its size leaves over the requests is whole pieces: a
registered buffer has to divide the size, an unregistered one to leave a multiple of 64 KiB. -/
theorem deliversFile_iff (hopen : s.Resolves fd f v) (hB : g.ioUnit ∣ bufSize)
    (h512 : 512 ∣ g.ioUnit) (hv : v.At 0) (hstored : v.persist.fSize ≤ v.blob.capacity)
    (h64 : nbytes < 2 ^ 64) (hn : g.ioUnit ≤ nbytes)
    (htot : nbytes / g.ioUnit * g.ioUnit = total) (buf : Mem) :
    Delivers fd buf nbytes registered s v 0 v.persist.fSize ↔
      chunkLen registered total ∣ v.persist.fSize % total ∧
        CounterFits registered (min v.persist.fSize total) := by
  have h0 : 0 < total :=
    htot ▸ total_pos (Nat.ne_of_gt (Nat.div_pos hn g.ioUnit_pos))
  have hd : 512 ∣ total := Nat.dvd_trans h512 (htot ▸ dvd_total nbytes)
  refine delivers_iff hB h64 htot h0 hd _ hopen hv ?_ buf
  rw [Nat.zero_add, OpenFile.readable, Nat.min_eq_left hstored]

end Read

/-- The file of `file_ut.c` after two writes of 4096 bytes and a seek back to its start. Its size
is 4096. -/
def twoPagesFs : Fs .malloc0 :=
  ((monopolyLseek 0 0 SEEK_SET
    ((monopolyWrite (fun _ => .done) 0 (fun _ => 65) 4096 false
      ((monopolyWrite (fun _ => .done) 0 (fun _ => 65) 4096 false fileUtFs).get rfl).1).get
        rfl).1).get rfl).1

/-- Its open file. -/
def twoPages : OpenFile .malloc0 := (twoPagesFs.openFile 0).get rfl

/-- Reads of 4096 bytes deliver it. -/
theorem delivers_page :
    Delivers 0 (fun _ => 0) 4096 false twoPagesFs twoPages 0 twoPages.persist.fSize :=
  (deliversFile_iff (f := 0) ⟨rfl, rfl⟩ (by decide) (by decide) (OpenFile.at_zero rfl)
    (by decide +kernel) (by decide) (by decide) rfl _).mpr
      ⟨by decide +kernel, Or.inr (by decide +kernel)⟩

/-- Reads of 8192 bytes deliver nothing of it, into either kind of buffer. -/
theorem not_delivers_pages :
    twoPages.persist.fSize = 4096 ∧ twoPages.persist.fSize ≤ twoPages.blob.capacity ∧
      ∀ registered,
        ¬ Delivers 0 (fun _ => 0) 8192 registered twoPagesFs twoPages 0 twoPages.persist.fSize := by
  have hsize : twoPages.persist.fSize = 4096 := by decide +kernel
  refine ⟨hsize, by decide +kernel, ?_⟩
  rintro registered ⟨fuel, hfuel⟩
  rw [hsize] at hfuel
  cases fuel with
  | zero => cases hfuel
  | succ fuel =>
      have hret : (monopolyRead (fun _ => .done) 0 (fun _ => 0) 8192 registered twoPagesFs).map
          (fun r => r.2.2) = some 0 := by
        cases registered with
        | false => decide +kernel
        | true => decide +kernel
      obtain ⟨r, hr, hzero⟩ := Option.map_eq_some_iff.mp hret
      rw [readUntilZero, hr, Option.bind_some, if_pos hzero] at hfuel
      have hlen := congrArg List.length (Option.some.inj hfuel)
      rw [Mem.bytes_length] at hlen
      cases hlen

end BlobTopFs
