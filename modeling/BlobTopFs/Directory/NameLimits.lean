import BlobTopFs.Files.OpenFlags
import BlobTopFs.SimpleFs.PathParts

/-!
# How long a name may be

`get_next_part` hands out parts of up to `SPDK_MAX_NAME_COUNT` bytes and puts a terminator behind
them. The name field of an entry has as many bytes but none for a terminator, so that a name that
fills it runs on into the id behind: `strcmp` takes it for the name only if the id happens to begin
with a zero byte.
-/

namespace BlobTopFs

variable {g : Geometry}

/-! ## What parser and directory should agree on -/

/-- The name is a part that `get_next_part` hands out of some string. -/
def CStr.HandedOut (c : CStr) : Prop :=
  ∃ part s srcp p, getNextPart part s srcp = some p ∧ p.ret = 1 ∧
    CStr.ofMem p.part (spdkMaxNameCount + 1) = c

/-- There is room for an entry, and the unused bytes are zero: those of the buffer, or, where an
empty directory has none yet, those of the one that is allocated. -/
def SpdkfsDir.ZeroRoom (g : Geometry) (mem : DirentMem) (d : SpdkfsDir) : Prop :=
  (direntOff d.count + sizeofDirent ≤ d.size ∧
      ∀ q, direntOff d.count ≤ q → q < d.size → d.dirents q = 0) ∨
    (d.size = 0 ∧ d.count = 0 ∧ sizeofDirent ≤ g.ioUnit ∧
      ∃ m, mem.malloc = some m ∧ ∀ q < g.ioUnit, m q = 0)

/-- The name is found behind the append, under the id, and no other that was not there is. -/
structure SpdkfsDir.FindsAppended (d d' : SpdkfsDir) (c : CStr) (id : BlobId) : Prop where
  found : ∃ i : Nat, spdkfsDirLookup d' c = i ∧ d'.direntId i = id
  others : ∀ c' : CStr, c'.HandedOut → c' ≠ c → spdkfsDirLookup d c' = -1 →
    spdkfsDirLookup d' c' = -1

/-- The name leaves a byte of its field free, or the first byte of the id ends it. -/
def EndsInEntry (c : CStr) (id : BlobId) : Prop :=
  c.strlen < spdkMaxNameCount ∨ id.toNat % 256 = 0

/-! ## Parts -/

/-- A string in a buffer ends at the first NUL. -/
theorem CStr.strlen_ofMem_le {m : Mem} {n k : Nat} (h0 : m k = 0) :
    (CStr.ofMem m n).strlen ≤ k := by
  by_contra hlt
  have hlt' : k < (((List.range n).map m).takeWhile (· ≠ 0)).length := not_le.mp hlt
  have hmem := List.getElem_mem hlt'
  rw [(List.takeWhile_prefix _).getElem, List.getElem_map, List.getElem_range, h0] at hmem
  exact (CStr.ofMem m n).noNul hmem

/-- A part fits the field. -/
theorem CStr.HandedOut.strlen_le {c : CStr} (h : c.HandedOut) : c.strlen ≤ spdkMaxNameCount := by
  obtain ⟨part, s, srcp, p, hnext, hret, rfl⟩ := h
  rcases getNextPart_cases hnext with
    rfl | ⟨start, part', ⟨-, rfl⟩ | ⟨src', dst, -, hdst, rfl⟩⟩
  · cases hret
  · cases hret
  · exact Nat.le_trans (CStr.strlen_ofMem_le (Function.update_self dst 0 part')) hdst

/-- A string without slashes that fits is handed out whole. -/
theorem CStr.handedOut_of_fits {c : CStr} (hne : c.chars ≠ []) (hslash : slash ∉ c.chars)
    (hlen : c.strlen ≤ spdkMaxNameCount) : c.HandedOut := by
  obtain ⟨b, body, hchars⟩ := List.exists_cons_of_ne_nil hne
  have hall : ∀ x ∈ c.chars, (!isSlash x) = true := by
    intro x hx
    have hne : x ≠ slash := fun heq => hslash (heq ▸ hx)
    simpa using hne
  rw [hchars] at hall
  have hdrop : (c.rest 0).dropWhile isSlash = b :: body := by
    show c.chars.dropWhile isSlash = b :: body
    have hb := hall b List.mem_cons_self
    rw [hchars, List.dropWhile_cons, if_neg (by simpa using hb)]
  have htake : (body.takeWhile fun x => !isSlash x) = body :=
    List.takeWhile_eq_self_iff.mpr fun x hx => hall x (List.mem_cons_of_mem b hx)
  have hlen' : (b :: body.takeWhile fun x => !isSlash x).length ≤ spdkMaxNameCount := by
    rw [htake, ← hchars]
    exact hlen
  obtain ⟨part, src, hnext, -, -, -, hpart⟩ :=
    getNextPart_part (fun _ => 0) (Nat.zero_le c.strlen) hdrop hlen'
  refine ⟨fun _ => 0, c, 0, _, hnext, rfl, ?_⟩
  rw [htake, ← hchars] at hpart
  rw [CStr.ofMem_eq c.noNul hpart (Nat.lt_succ_of_le hlen)]
  exact CStr.ext_chars (CStr.ofBytes_chars c.noNul)

/-! ## The new entry -/

section Entry

variable {m : Mem} {i k : Nat} {id : BlobId} {c c' : CStr}

theorem writeDirent_name (hlen : c.strlen ≤ spdkMaxNameCount) (hk : k < c.strlen) :
    writeDirent m i id c (direntOff i + k) = c.mem k := by
  rw [writeDirent, Nat.min_eq_right hlen, Mem.write_in (by omega) (by omega),
    Nat.add_sub_cancel_left]

theorem writeDirent_behind (hk : c.strlen ≤ k) (hlt : k < spdkMaxNameCount) :
    writeDirent m i id c (direntOff i + k) = m (direntOff i + k) := by
  rw [writeDirent, Mem.write_out (by omega), Mem.write_out (by omega)]

theorem writeDirent_id :
    writeDirent m i id c (direntOff i + spdkMaxNameCount) = UInt8.ofNat id.toNat := by
  rw [writeDirent, Mem.write_out (by omega), Mem.write_in (by omega) (by omega), Nat.sub_self, le64,
    Nat.pow_zero, Nat.div_one]

/-- An entry filled in where all is zero spells its name if the name ends in it, -/
theorem writeDirent_is_iff (hlen : c.strlen ≤ spdkMaxNameCount)
    (hzero : ∀ q < sizeofDirent, m (direntOff i + q) = 0) :
    strEq (writeDirent m i id c) (direntOff i) c.chars = true ↔ EndsInEntry c id := by
  rcases Nat.lt_or_eq_of_le hlen with hlt | heq
  · rw [writeDirent_is hlt, hzero _ (Nat.lt_add_right 8 hlt)]
    exact iff_of_true rfl (Or.inl hlt)
  · have hbyte : UInt8.ofNat id.toNat = 0 ↔ id.toNat % 256 = 0 := by
      rw [← UInt8.toNat_inj, UInt8.toNat_ofNat']
      exact Iff.rfl
    have hends : EndsInEntry c id ↔ id.toNat % 256 = 0 :=
      or_iff_right (Nat.not_lt_of_le heq.ge)
    rw [hends, ← hbyte, strEq_iff_mem]
    constructor
    · intro hk
      have hend := hk c.strlen (Nat.le_refl _)
      rwa [CStr.mem_strlen, heq, writeDirent_id] at hend
    · intro hid k hk
      rcases Nat.lt_or_eq_of_le hk with hlt | rfl
      · exact writeDirent_name hlen hlt
      · rw [CStr.mem_strlen, heq, writeDirent_id]
        exact hid

/-- and no other name that fits the field. -/
theorem eq_of_writeDirent_is (hlen : c.strlen ≤ spdkMaxNameCount)
    (hzero : ∀ q < sizeofDirent, m (direntOff i + q) = 0)
    (hlen' : c'.strlen ≤ spdkMaxNameCount)
    (h : strEq (writeDirent m i id c) (direntOff i) c'.chars = true) : c' = c := by
  rw [strEq_iff_mem] at h
  rcases Nat.lt_trichotomy c'.strlen c.strlen with hlt | heq | hgt
  · -- the terminator of the other one would be a byte of the name
    have hend := h c'.strlen (Nat.le_refl _)
    rw [CStr.mem_strlen, writeDirent_name hlen hlt] at hend
    exact absurd hend (CStr.mem_ne_zero hlt)
  · refine CStr.ext_mem heq fun k hk => ?_
    rw [← h k (Nat.le_of_lt hk), writeDirent_name hlen (heq ▸ hk)]
  · -- the byte behind the name is zero
    have hbyte := h c.strlen (Nat.le_of_lt hgt)
    have hlt : c.strlen < spdkMaxNameCount := Nat.lt_of_lt_of_le hgt hlen'
    rw [writeDirent_behind (Nat.le_refl _) hlt, hzero _ (Nat.lt_add_right 8 hlt)] at hbyte
    exact absurd hbyte.symm (CStr.mem_ne_zero hgt)

end Entry

/-! ## The directory -/

section Append

variable {mem : DirentMem} {id : BlobId} {c c' : CStr} {d d' : SpdkfsDir}

/-- The buffer keeps its entries and has a zero slot behind them. -/
theorem SpdkfsDir.ZeroRoom.slot (h : d.ZeroRoom g mem) :
    (∀ q < direntOff d.count, d.slotByte g mem q = d.dirents q) ∧
      ∀ q < sizeofDirent, d.slotByte g mem (direntOff d.count + q) = 0 := by
  rcases h with ⟨hroom, hzero⟩ | ⟨hsize, hcount, hunit, m, hm, hzero⟩
  · have hpos : d.size ≠ 0 := by
      have : sizeofDirent = 520 := rfl
      omega
    have hbyte : ∀ q < d.size, d.slotByte g mem q = d.dirents q := by
      intro q hq
      unfold SpdkfsDir.slotByte
      simp only [if_neg hpos]
      rw [if_neg (by simp; omega)]
      rfl
    refine ⟨fun q hq => hbyte q (by omega), fun q hq => ?_⟩
    rw [hbyte _ (by omega)]
    exact hzero _ (Nat.le_add_right ..) (by omega)
  · have hbyte : ∀ q, d.slotByte g mem q = m q := by
      intro q
      unfold SpdkfsDir.slotByte
      simp only [if_pos hsize, hm]
      rw [if_neg, Option.getD_some]
      rw [hcount, Nat.div_self g.ioUnit_pos]
      simp
    have hoff : direntOff d.count = 0 := by
      rw [hcount]
      rfl
    refine ⟨fun q hq => by omega, fun q hq => ?_⟩
    rw [hbyte, hoff, Nat.zero_add]
    exact hzero q (by omega)

/-- The entries that are there spell what they did, -/
theorem appended_old (hroom : d.ZeroRoom g mem) (h : addDirent g mem id c d = some d') {i : Nat}
    (hi : i < d.count) : SameDirent d.dirents i d'.dirents i := by
  intro q hq
  have hoff := direntOff_le hi
  rw [addDirent_slot h, writeDirent_before (by omega)]
  exact hroom.slot.1 _ (by omega)

/-- so a lookup finds what it found before or else looks at the new entry. -/
theorem lookup_addDirent (hroom : d.ZeroRoom g mem) (h : addDirent g mem id c d = some d')
    (hlen : c'.strlen ≤ spdkMaxNameCount) :
    spdkfsDirLookup d' c' =
      if spdkfsDirLookup d c' ≠ -1 then spdkfsDirLookup d c'
      else if d'.direntIs c' d.count then (d.count : Int) else -1 := by
  obtain ⟨m, happ⟩ := addDirent_spec h
  refine lookup_appended happ.count fun i hi => ?_
  exact (appended_old hroom h hi).is_of_lt (Nat.lt_of_le_of_lt hlen (by decide))

theorem appended_is_iff (hroom : d.ZeroRoom g mem) (h : addDirent g mem id c d = some d')
    (hlen : c.strlen ≤ spdkMaxNameCount) :
    d'.direntIs c d.count = true ↔ EndsInEntry c id := by
  rw [SpdkfsDir.direntIs, addDirent_slot h]
  exact writeDirent_is_iff hlen hroom.slot.2

/-- Another name is not found in the new entry. -/
theorem lookup_addDirent_other (hroom : d.ZeroRoom g mem) (h : addDirent g mem id c d = some d')
    (hlen : c.strlen ≤ spdkMaxNameCount) (hlen' : c'.strlen ≤ spdkMaxNameCount) (hne : c' ≠ c)
    (hno : spdkfsDirLookup d c' = -1) : spdkfsDirLookup d' c' = -1 := by
  have hnot : ¬ d'.direntIs c' d.count = true := by
    intro his
    rw [SpdkfsDir.direntIs, addDirent_slot h] at his
    exact hne (eq_of_writeDirent_is hlen hroom.slot.2 hlen' his)
  rw [lookup_addDirent hroom h hlen', hno, if_neg (not_not.mpr rfl), if_neg hnot]

end Append

/-- **Name lengths.** A part that is appended where there is room is found under its id, and no
other that was not there is, exactly when it was not there and ends within its entry, or was there
with that id. -/
theorem findsAppended_iff {mem : DirentMem} {id : BlobId} {c : CStr} {d d' : SpdkfsDir}
    (hc : c.HandedOut) (hroom : d.ZeroRoom g mem) (h : addDirent g mem id c d = some d') :
    d.FindsAppended d' c id ↔
      (spdkfsDirLookup d c = -1 ∧ EndsInEntry c id) ∨
        ∃ i : Nat, spdkfsDirLookup d c = i ∧ d.direntId i = id := by
  have hlen := hc.strlen_le
  have hothers : ∀ c' : CStr, c'.HandedOut → c' ≠ c → spdkfsDirLookup d c' = -1 →
      spdkfsDirLookup d' c' = -1 :=
    fun c' hc' hne hno => lookup_addDirent_other hroom h hlen hc'.strlen_le hne hno
  have hlookup := lookup_addDirent hroom h hlen
  rcases lookup_cases d c with hno | ⟨i, hi, hl, -⟩
  · rw [hno, if_neg (not_not.mpr rfl)] at hlookup
    constructor
    · rintro ⟨⟨i, hi, -⟩, -⟩
      refine Or.inl ⟨hno, (appended_is_iff hroom h hlen).mp ?_⟩
      by_contra hnot
      rw [if_neg hnot] at hlookup
      omega
    · rintro (⟨-, hends⟩ | ⟨i, hi, -⟩)
      · obtain ⟨m, happ⟩ := addDirent_spec h
        rw [if_pos ((appended_is_iff hroom h hlen).mpr hends)] at hlookup
        exact ⟨⟨d.count, hlookup, happ.newId⟩, hothers⟩
      · omega
  · -- an entry that was there comes first
    have hne : spdkfsDirLookup d c ≠ -1 := by omega
    have hid := (appended_old hroom h hi).id
    rw [if_pos hne, hl] at hlookup
    constructor
    · rintro ⟨⟨j, hj, hjd⟩, -⟩
      cases Int.ofNat.inj (hlookup.symm.trans hj)
      exact Or.inr ⟨i, hl, hid.symm.trans hjd⟩
    · rintro (⟨hno, -⟩ | ⟨j, hj, hjd⟩)
      · exact absurd hno hne
      · cases Int.ofNat.inj (hl.symm.trans hj)
        exact ⟨⟨i, hlookup, hid.trans hjd⟩, hothers⟩

/-! ## An empty directory -/

theorem zeroRoom_empty :
    (Fs.empty .malloc4k).workdir.ZeroRoom .malloc4k (CreateAnswer.done 1).mem :=
  Or.inr ⟨rfl, rfl, by decide, _, rfl, fun _ _ => rfl⟩

/-- The name `a` is appended. -/
theorem findsAppended_nameA :
    ∃ d', addDirent .malloc4k (CreateAnswer.done 1).mem 1 nameA (Fs.empty .malloc4k).workdir =
        some d' ∧ (Fs.empty .malloc4k).workdir.FindsAppended d' nameA 1 := by
  have hc : nameA.HandedOut := CStr.handedOut_of_fits (by decide) (by decide) (by decide)
  refine ⟨_, rfl, (findsAppended_iff hc zeroRoom_empty rfl).mpr (Or.inl ⟨rfl, Or.inl ?_⟩)⟩
  decide

/-- A name that fills its field. -/
def nameFull : CStr := ⟨List.replicate spdkMaxNameCount 97, fun h => by simp at h⟩

theorem nameFull_handedOut : nameFull.HandedOut := by
  refine CStr.handedOut_of_fits ?_ ?_ ?_
  · exact List.ne_nil_of_length_pos (by rw [nameFull, List.length_replicate]; decide)
  · intro h
    simp [nameFull, slash] at h
  · exact Nat.le_of_eq List.length_replicate

/-- Behind the name `a` there is room for another. -/
theorem zeroRoom_nameA {id : BlobId} {d : SpdkfsDir}
    (h : addDirent .malloc4k (CreateAnswer.done 1).mem id nameA (Fs.empty .malloc4k).workdir =
      some d) : d.ZeroRoom .malloc4k (CreateAnswer.done 1).mem := by
  have hbytes := addDirent_slot h
  obtain ⟨hcount, hsize⟩ : d.count = 1 ∧ d.size = 4096 := by
    cases h
    exact ⟨rfl, rfl⟩
  refine Or.inl ⟨?_, fun q hq _ => ?_⟩
  · rw [hcount, hsize]
    decide
  · rw [hcount] at hq
    rw [hbytes, writeDirent, Mem.write_out, Mem.write_out]
    · rfl
    · exact Or.inr (Nat.le_trans (by decide) hq)
    · exact Or.inr (Nat.le_trans (by decide) hq)

/-- It is appended behind the name `a`, and then not found. -/
theorem not_findsAppended_nameFull :
    ∃ d d', addDirent .malloc4k (CreateAnswer.done 1).mem 0x100000001 nameA
        (Fs.empty .malloc4k).workdir = some d ∧
      nameFull.HandedOut ∧ d.ZeroRoom .malloc4k (CreateAnswer.done 1).mem ∧
      spdkfsDirLookup d nameFull = -1 ∧
      addDirent .malloc4k (CreateAnswer.done 1).mem 0x100000002 nameFull d = some d' ∧
      ¬ d.FindsAppended d' nameFull 0x100000002 := by
  have hlen := nameFull_handedOut.strlen_le
  have hfull : nameFull.strlen = spdkMaxNameCount := List.length_replicate
  have hne : nameFull ≠ nameA := by
    intro heq
    rw [heq] at hfull
    exact absurd hfull (by decide)
  have hfirst : addDirent .malloc4k (CreateAnswer.done 1).mem 0x100000001 nameA
      (Fs.empty .malloc4k).workdir = some _ := rfl
  have hroom := zeroRoom_nameA hfirst
  have hno := lookup_addDirent_other zeroRoom_empty hfirst
    (show nameA.strlen ≤ spdkMaxNameCount by decide) hlen hne rfl
  refine ⟨_, _, hfirst, nameFull_handedOut, hroom, hno, rfl, ?_⟩
  rintro ⟨⟨i, hi, -⟩, -⟩
  have hnot : ¬ EndsInEntry nameFull 0x100000002 := by
    rintro (hlt | hbyte)
    · exact absurd hfull (Nat.ne_of_lt hlt)
    · exact absurd hbyte (by decide)
  rw [lookup_addDirent hroom rfl hlen, if_neg (not_not.mpr hno), if_neg] at hi
  · omega
  · rwa [appended_is_iff hroom rfl hlen]

end BlobTopFs
