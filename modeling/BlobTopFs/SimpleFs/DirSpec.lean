import Mathlib.Data.List.Find
import BlobTopFs.Lib.KeyTable
import BlobTopFs.SimpleFs.Dir

/-!
# What the directory operations do

Entry by entry: a lookup finds the first entry that spells the name, an append leaves the
entries before it alone and fills in the next one, a removal moves the entries behind it up
by one. Appending keeps the buffer within bounds only if an entry is no larger than an
io_unit, which is why the size of the buffer is followed apart from the entries.
-/

namespace BlobTopFs

open Machine KeyTable

variable {g : Geometry}

/-! ## Entries as bytes -/

/-- Entry `j` of `m'` holds the bytes of entry `i` of `m`. -/
def SameDirent (m : Mem) (i : Nat) (m' : Mem) (j : Nat) : Prop :=
  ∀ q < sizeofDirent, m' (direntOff j + q) = m (direntOff i + q)

theorem SameDirent.refl (m : Mem) (i : Nat) : SameDirent m i m i := fun _ _ => rfl

theorem SameDirent.trans {m m' m'' : Mem} {i j k : Nat} (h : SameDirent m i m' j)
    (h' : SameDirent m' j m'' k) : SameDirent m i m'' k :=
  fun q hq => (h' q hq).trans (h q hq)

/-- `d_dirent_count` -/
abbrev SpdkfsDir.count (d : SpdkfsDir) : Nat := d.dirPersist.dDirentCount

/-- `d_size` -/
abbrev SpdkfsDir.size (d : SpdkfsDir) : Nat := d.dirPersist.dSize

theorem direntOff_succ (i : Nat) : direntOff (i + 1) = direntOff i + sizeofDirent :=
  Nat.succ_mul ..

theorem direntOff_le {i j : Nat} (h : i < j) : direntOff i + sizeofDirent ≤ direntOff j := by
  rw [← direntOff_succ]
  exact Nat.mul_le_mul_right _ h

/-- The same bytes carry the same id, -/
theorem SameDirent.id {d d' : SpdkfsDir} {i j : Nat} (h : SameDirent d.dirents i d'.dirents j) :
    d'.direntId j = d.direntId i := by
  apply readLe64_congr
  intro k hk
  rw [Nat.add_assoc, Nat.add_assoc]
  apply h
  unfold sizeofDirent
  omega

/-- and spell the same names, if these end within the entry, -/
theorem SameDirent.is_of_lt {d d' : SpdkfsDir} {i j : Nat}
    (h : SameDirent d.dirents i d'.dirents j) {name : CStr} (hlen : name.strlen < sizeofDirent) :
    d'.direntIs name j = d.direntIs name i := by
  apply strEq_congr
  intro k hk
  apply h
  exact Nat.lt_of_le_of_lt hk hlen

/-- as those do that fit the field. -/
theorem SameDirent.is {d d' : SpdkfsDir} {i j : Nat} (h : SameDirent d.dirents i d'.dirents j)
    {name : CStr} (hlen : name.strlen < spdkMaxNameCount) :
    d'.direntIs name j = d.direntIs name i :=
  h.is_of_lt (Nat.lt_add_right 8 hlen)

/-! ## Lookup -/

theorem lookup_eq_neg_one_iff {d : SpdkfsDir} {name : CStr} :
    spdkfsDirLookup d name = -1 ↔ ∀ i < d.count, d.direntIs name i = false := by
  unfold spdkfsDirLookup
  cases hf : (List.range d.dirPersist.dDirentCount).find? (d.direntIs name) with
  | none =>
      rw [List.find?_range_eq_none] at hf
      simpa using hf
  | some i =>
      obtain ⟨his, hi, -⟩ := List.find?_range_eq_some.mp hf
      have hne : (i : Int) ≠ -1 := by omega
      refine iff_of_false hne ?_
      intro h
      rw [h i (List.mem_range.mp hi)] at his
      cases his

/-- What a lookup returns, it found. -/
theorem lookup_cases (d : SpdkfsDir) (name : CStr) :
    spdkfsDirLookup d name = -1 ∨
      ∃ i < d.count, spdkfsDirLookup d name = i ∧ d.direntIs name i = true := by
  unfold spdkfsDirLookup
  cases hf : (List.range d.dirPersist.dDirentCount).find? (d.direntIs name) with
  | none => exact Or.inl rfl
  | some i =>
      obtain ⟨his, hi, -⟩ := List.find?_range_eq_some.mp hf
      exact Or.inr ⟨i, List.mem_range.mp hi, rfl, his⟩

theorem lookup_eq_natCast {d : SpdkfsDir} {name : CStr} {i : Nat}
    (h : spdkfsDirLookup d name = i) : i < d.count ∧ d.direntIs name i = true := by
  rcases lookup_cases d name with hneg | ⟨j, hj, heq, hjs⟩
  · omega
  · cases Int.ofNat.inj (h.symm.trans heq)
    exact ⟨hj, hjs⟩

/-- The only entry that spells the name is the one a lookup finds. -/
theorem lookup_eq_of_unique {d : SpdkfsDir} {name : CStr} {i : Nat} (hi : i < d.count)
    (his : d.direntIs name i = true) (huniq : ∀ j < d.count, d.direntIs name j = true → j = i) :
    spdkfsDirLookup d name = i := by
  rcases lookup_cases d name with h | ⟨j, hj, h, hjs⟩
  · rw [lookup_eq_neg_one_iff.mp h i hi] at his
    cases his
  · rw [h, huniq j hj hjs]

/-- Behind an append a lookup finds what it found before, and else the new entry if that spells the
name. -/
theorem lookup_appended {d d' : SpdkfsDir} {name : CStr} (hcount : d'.count = d.count + 1)
    (hold : ∀ i < d.count, d'.direntIs name i = d.direntIs name i) :
    spdkfsDirLookup d' name =
      if spdkfsDirLookup d name ≠ -1 then spdkfsDirLookup d name
      else if d'.direntIs name d.count then (d.count : Int) else -1 := by
  have hsame : (List.range d.count).find? (d'.direntIs name) =
      (List.range d.count).find? (d.direntIs name) :=
    List.find?_congr fun i hi => hold i (List.mem_range.mp hi)
  have hrange : (List.range d'.count).find? (d'.direntIs name) =
      ((List.range d.count).find? (d.direntIs name)).or
        (if d'.direntIs name d.count then some d.count else none) := by
    rw [hcount, List.range_succ, List.find?_append, hsame, List.find?_singleton]
  unfold spdkfsDirLookup
  rw [show d'.dirPersist.dDirentCount = d'.count from rfl, hrange]
  cases (List.range d.count).find? (d.direntIs name) with
  | some i =>
      have hne : (i : Int) ≠ -1 := by omega
      exact (if_pos hne).symm
  | none =>
      rw [Option.none_or]
      cases d'.direntIs name d.count with
      | false => rfl
      | true => rfl

/-- A directory that `simple_dir_create` has made is empty. -/
theorem simpleDirCreate_empty {now : Int} {bs bs' : Blobstore g} {d d' : SpdkfsDir}
    (h : simpleDirCreate now bs d = some (bs', d')) : d'.count = 0 ∧ d'.size = 0 := by
  obtain ⟨b, -, heq⟩ := Option.map_eq_some_iff.mp h
  cases heq
  exact ⟨rfl, rfl⟩

/-! ## The size of the buffer -/

/-- The buffer is some number of io_units, and has had one of them for each entry. -/
def SpdkfsDir.Sized (g : Geometry) (d : SpdkfsDir) : Prop :=
  ∃ k, d.size = k * g.ioUnit ∧ d.count ≤ k

/-- The entries fit the buffer. -/
def SpdkfsDir.Fits (d : SpdkfsDir) : Prop := d.count * sizeofDirent ≤ d.size

theorem SpdkfsDir.Sized.fits {d : SpdkfsDir} (h : d.Sized g) (hg : sizeofDirent ≤ g.ioUnit) :
    d.Fits := by
  obtain ⟨k, hk, hle⟩ := h
  unfold SpdkfsDir.Fits
  rw [hk]
  exact Nat.mul_le_mul hle hg

/-- Each of them lies inside it. -/
theorem SpdkfsDir.Fits.inside {d : SpdkfsDir} (h : d.Fits) {i : Nat} (hi : i < d.count) :
    direntOff i + sizeofDirent ≤ d.size := by
  rw [← direntOff_succ]
  exact Nat.le_trans (Nat.mul_le_mul_right _ hi) h

theorem SpdkfsDir.Sized.count_eq_zero {d : SpdkfsDir} (h : d.Sized g) (hz : d.size = 0) :
    d.count = 0 := by
  obtain ⟨k, hk, hle⟩ := h
  have hk0 := (Nat.mul_eq_zero.mp (hk.symm.trans hz)).resolve_right (Nat.ne_of_gt g.ioUnit_pos)
  omega

theorem SpdkfsDir.Sized.dvd {d : SpdkfsDir} (h : d.Sized g) : g.ioUnit ∣ d.size := by
  obtain ⟨k, hk, -⟩ := h
  exact hk ▸ Nat.dvd_mul_left ..

/-- Fresh memory comes zeroed. -/
structure DirentMem.Zeroed (mem : DirentMem) : Prop where
  malloc : mem.malloc = some fun _ => 0
  realloc : mem.realloc = some fun _ => 0

/-- The buffer `m` of `size'` bytes keeps the `size` bytes of `old`, and is zero behind them
if fresh memory is. -/
structure Extends (zeroed : Prop) (old : Mem) (size : Nat) (m : Mem) (size' : Nat) : Prop where
  le : size ≤ size'
  old : ∀ q < size, m q = old q
  fresh : zeroed → ∀ q, size ≤ q → q < size' → m q = 0

theorem Extends.refl (zeroed : Prop) (m : Mem) (size : Nat) : Extends zeroed m size m size :=
  ⟨Nat.le_refl _, fun _ _ => rfl, fun _ _ _ _ => by omega⟩

theorem Extends.trans {zeroed : Prop} {m m' m'' : Mem} {size size' size'' : Nat}
    (h : Extends zeroed m size m' size') (h' : Extends zeroed m' size' m'' size'') :
    Extends zeroed m size m'' size'' where
  le := Nat.le_trans h.le h'.le
  old := fun q hq => (h'.old q (Nat.lt_of_lt_of_le hq h.le)).trans (h.old q hq)
  fresh := by
    intro hz q hq hq'
    by_cases hin : q < size'
    · rw [h'.old q hin, h.fresh hz q hq hin]
    · exact h'.fresh hz q (by omega) hq'

/-- The first allocation keeps everything, there being nothing to keep. -/
theorem allocate_spec {mem : DirentMem} {d : SpdkfsDir} {m : Mem}
    (h : (d.allocate g mem).1 = some m) :
    Extends mem.Zeroed d.dirents d.size m (d.allocate g mem).2.dSize := by
  unfold SpdkfsDir.allocate at *
  by_cases hz : d.dirPersist.dSize = 0
  · rw [if_pos hz] at h ⊢
    refine ⟨?_, ?_, ?_⟩
    · show d.dirPersist.dSize ≤ g.ioUnit
      omega
    · intro q hq
      have : q < d.dirPersist.dSize := hq
      omega
    · intro hzero q _ _
      rw [hzero.malloc] at h
      cases h
      rfl
  · rw [if_neg hz] at h ⊢
    cases h
    exact Extends.refl ..

theorem growDirents_spec {mem : DirentMem} {old m : Mem} {p : SpdkfsDirPersistCtx}
    (h : (growDirents g mem (some old) p).1 = some m) :
    Extends mem.Zeroed old p.dSize m (growDirents g mem (some old) p).2.dSize := by
  unfold growDirents at *
  by_cases hgrow : p.dSize / g.ioUnit ≤ p.dDirentCount * sizeofDirent
  · rw [if_pos hgrow] at h ⊢
    obtain ⟨m', hm', rfl⟩ := Option.map_eq_some_iff.mp h
    refine ⟨Nat.le_add_right .., ?_, ?_⟩
    · intro q hq
      exact Mem.write_in (Nat.zero_le _) (by omega)
    · intro hzero q hq _
      rw [hzero.realloc] at hm'
      cases hm'
      exact Mem.write_out (by omega)
  · rw [if_neg hgrow] at h ⊢
    cases h
    exact Extends.refl ..

/-- The size of the buffer when an entry is filled in. -/
theorem growDirents_size (buf : Option Mem) (mem : DirentMem) (p : SpdkfsDirPersistCtx) :
    (growDirents g mem buf p).2.dDirentCount = p.dDirentCount ∧
      (growDirents g mem buf p).2.dSize =
        if p.dSize / g.ioUnit ≤ p.dDirentCount * sizeofDirent then p.dSize + g.ioUnit
        else p.dSize := by
  unfold growDirents
  split <;> exact ⟨rfl, rfl⟩

theorem allocate_size (mem : DirentMem) (d : SpdkfsDir) :
    (d.allocate g mem).2.dDirentCount = d.count ∧
      (d.allocate g mem).2.dSize = if d.size = 0 then g.ioUnit else d.size := by
  unfold SpdkfsDir.allocate
  split <;> exact ⟨rfl, rfl⟩

/-- Each entry is given an io_unit: a buffer of `k` of them grows unless `k` is larger than
the number of bytes, and so than the number, of the entries. -/
theorem room_for_one {k n size : Nat} (hk : size = k * g.ioUnit) (hk0 : 0 < k) (hle : n ≤ k) :
    ∃ k', (if size / g.ioUnit ≤ n * sizeofDirent then size + g.ioUnit else size) =
      k' * g.ioUnit ∧ n + 1 ≤ k' := by
  rw [hk, Nat.mul_div_cancel k g.ioUnit_pos, show sizeofDirent = 520 from rfl]
  split
  · exact ⟨k + 1, (Nat.succ_mul ..).symm, Nat.succ_le_succ hle⟩
  · exact ⟨k, rfl, by omega⟩

/-- What `add_dirent` does. The bytes `m` are those of the buffer when the entry is filled
in. -/
structure Appended (g : Geometry) (mem : DirentMem) (id : BlobId) (name : CStr)
    (d d' : SpdkfsDir) (m : Mem) : Prop where
  blob : d'.blob = d.blob
  initialized : d'.initialized = d.initialized
  dirty : d'.dirty = true
  count : d'.count = d.count + 1
  first : d.count = 0 → d.size = 0 → d'.size = g.ioUnit
  sized : d.Sized g → d'.Sized g
  buffer : d.Sized g → Extends mem.Zeroed d.dirents d.size m d'.size
  dirents : d'.dirents = writeDirent m d.count id name

theorem addDirent_spec {mem : DirentMem} {id : BlobId} {name : CStr} {d d' : SpdkfsDir}
    (h : addDirent g mem id name d = some d') : ∃ m, Appended g mem id name d d' m := by
  obtain ⟨m, hm, rfl⟩ := Option.map_eq_some_iff.mp h
  obtain ⟨hac, has⟩ := allocate_size (g := g) mem d
  obtain ⟨hgc, hgs⟩ := growDirents_size (g := g) (d.allocate g mem).1 mem (d.allocate g mem).2
  rw [hac] at hgc hgs
  refine ⟨m, rfl, rfl, rfl, congrArg (· + 1) hgc, ?_, ?_, ?_, ?_⟩
  · intro hc hz
    refine hgs.trans ?_
    rw [hc, has, if_pos hz, Nat.zero_mul, Nat.div_self g.ioUnit_pos, if_neg (by decide)]
  · rintro ⟨k, hk, hle⟩
    -- a buffer of `k₁` io_units for at most `k₁` entries, before the growth test
    obtain ⟨k₁, hk₁, hpos, hle₁⟩ : ∃ k₁, (d.allocate g mem).2.dSize = k₁ * g.ioUnit ∧ 0 < k₁ ∧
        d.count ≤ k₁ := by
      rw [has]
      split
      · next hz =>
          have h0 := SpdkfsDir.Sized.count_eq_zero ⟨k, hk, hle⟩ hz
          exact ⟨1, (Nat.one_mul _).symm, Nat.one_pos, by omega⟩
      · next hz =>
          refine ⟨k, hk, Nat.pos_of_ne_zero ?_, hle⟩
          rintro rfl
          exact hz (hk.trans (Nat.zero_mul _))
    obtain ⟨k', hk', hle'⟩ := room_for_one hk₁ hpos hle₁
    refine ⟨k', hgs.trans hk', ?_⟩
    show (growDirents g mem (d.allocate g mem).1 (d.allocate g mem).2).2.dDirentCount + 1 ≤ k'
    rw [hgc]
    exact hle'
  · intro hsized
    obtain ⟨old, hold⟩ : ∃ old, (d.allocate g mem).1 = some old := by
      by_cases hz : d.size = 0
      · -- an empty directory does not grow, so `m` is what `spdk_malloc` returned
        refine ⟨m, Eq.trans ?_ hm⟩
        unfold growDirents
        rw [has, if_pos hz, hac, hsized.count_eq_zero hz, Nat.div_self g.ioUnit_pos,
          Nat.zero_mul, if_neg (by decide)]
      · exact ⟨d.dirents, by rw [SpdkfsDir.allocate, if_neg hz]⟩
    rw [hold] at hm
    have hgrow := growDirents_spec hm
    rw [← hold] at hgrow
    exact (allocate_spec hold).trans hgrow
  · show writeDirent m _ id name = writeDirent m d.count id name
    rw [hgc]

/-- Filling in an entry leaves the bytes before it alone, -/
theorem writeDirent_before {m : Mem} {i : Nat} {id : BlobId} {name : CStr} {q : Nat}
    (hq : q < direntOff i) : writeDirent m i id name q = m q := by
  rw [writeDirent, Mem.write_out (by omega), Mem.write_out (by omega)]

/-- and makes it spell the name if the byte behind it happens to be NUL. -/
theorem writeDirent_is {m : Mem} {i : Nat} {id : BlobId} {name : CStr}
    (hlen : name.strlen < spdkMaxNameCount) :
    strEq (writeDirent m i id name) (direntOff i) name.chars = true ↔
      m (direntOff i + name.strlen) = 0 := by
  have hend : writeDirent m i id name (direntOff i + name.strlen) =
      m (direntOff i + name.strlen) := by
    rw [writeDirent, Mem.write_out (by omega), Mem.write_out (by omega)]
  rw [strEq_iff_mem, ← hend]
  constructor
  · intro hk
    rw [hk name.strlen (Nat.le_refl _), CStr.mem_strlen]
  · intro hz k hk
    rcases Nat.lt_or_eq_of_le hk with hlt | rfl
    · rw [writeDirent, Mem.write_in (by omega) (by omega), Nat.add_sub_cancel_left]
    · rw [hz, CStr.mem_strlen]

section Appended

variable {mem : DirentMem} {id : BlobId} {name : CStr} {d d' : SpdkfsDir} {m : Mem}

/-- The entries that were there stay as they were. -/
theorem Appended.entries (h : Appended g mem id name d d' m) (hs : d.Sized g) (hf : d.Fits)
    {i : Nat} (hi : i < d.count) : SameDirent d.dirents i d'.dirents i := by
  intro q hq
  have hoff := direntOff_le hi
  have hfit : direntOff d.count ≤ d.size := hf
  rw [h.dirents, writeDirent_before (by omega)]
  exact (h.buffer hs).old _ (by omega)

/-- The new entry carries the id, -/
theorem Appended.newId (h : Appended g mem id name d d' m) : d'.direntId d.count = id := by
  rw [← readLe64_le64 id, SpdkfsDir.direntId, h.dirents]
  apply readLe64_congr
  intro k hk
  rw [writeDirent, Mem.write_out (by omega), Mem.write_in (by omega) (by omega),
    Nat.add_sub_cancel_left, Nat.zero_add]

/-- and spells the name or does not. -/
theorem Appended.is_name (h : Appended g mem id name d d' m)
    (hlen : name.strlen < spdkMaxNameCount) :
    d'.direntIs name d.count = true ↔ m (direntOff d.count + name.strlen) = 0 := by
  rw [SpdkfsDir.direntIs, h.dirents]
  exact writeDirent_is hlen

end Appended

/-! ## Removing an entry -/

theorem shiftDirents_spec (m : Mem) (left i : Nat) :
    (∀ j < i, SameDirent m j (shiftDirents m left i) j) ∧
      ∀ j, i ≤ j → j < i + left → SameDirent m (j + 1) (shiftDirents m left i) j := by
  induction left generalizing m i with
  | zero => exact ⟨fun j _ => SameDirent.refl m j, fun j h1 h2 => by omega⟩
  | succ left ih =>
      obtain ⟨hbefore, hmoved⟩ :=
        ih (m.write (direntOff i) sizeofDirent (m.shift (direntOff (i + 1)))) (i + 1)
      refine ⟨fun j hj => ?_, fun j h1 h2 => ?_⟩
      · refine SameDirent.trans (fun q hq => ?_) (hbefore j (by omega))
        have := direntOff_le hj
        exact Mem.write_out (by omega)
      · rcases Nat.eq_or_lt_of_le h1 with rfl | hlt
        · -- the entry the first round moves is left alone by the others
          refine SameDirent.trans (fun q hq => ?_) (hbefore i (by omega))
          rw [Mem.write_in (by omega) (by omega), Mem.shift_apply, Nat.add_sub_cancel_left]
        · refine SameDirent.trans (fun q hq => ?_) (hmoved j (by omega) (by omega))
          have hle : direntOff i + sizeofDirent ≤ direntOff (j + 1) :=
            direntOff_le (Nat.lt_succ_of_lt hlt)
          exact Mem.write_out (by omega)

/-- What the removal in `monopoly_unlink` does. -/
structure Removed (idx : Nat) (d d' : SpdkfsDir) : Prop where
  blob : d'.blob = d.blob
  initialized : d'.initialized = d.initialized
  dirty : d'.dirty = d.dirty
  count : d'.count + 1 = d.count
  size : d'.size = d.size
  moved : ∀ j < d'.count, SameDirent d.dirents (skip idx j) d'.dirents j

theorem removeDirent_spec {idx : Nat} {d d' : SpdkfsDir} (h : removeDirent idx d = some d') :
    Removed idx d d' := by
  unfold removeDirent at h
  split at h
  · cases h
  · next hne =>
      cases h
      obtain ⟨hbefore, hmoved⟩ :=
        shiftDirents_spec d.dirents (d.dirPersist.dDirentCount - 1 - idx) idx
      refine ⟨rfl, rfl, rfl, Nat.sub_add_cancel (Nat.pos_of_ne_zero hne), rfl, ?_⟩
      intro j hj
      have hj' : j < d.dirPersist.dDirentCount - 1 := hj
      by_cases hlt : j < idx
      · rw [skip, if_pos hlt]
        exact hbefore j hlt
      · rw [skip, if_neg hlt]
        exact hmoved j (by omega) (by omega)

theorem Removed.sized {idx : Nat} {d d' : SpdkfsDir} (h : Removed idx d d') (hs : d.Sized g) :
    d'.Sized g := by
  obtain ⟨k, hk, hle⟩ := hs
  have := h.count
  exact ⟨k, h.size.trans hk, by omega⟩

end BlobTopFs
