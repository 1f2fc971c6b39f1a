import BlobTopFs.Lib.Run
import BlobTopFs.SimpleFs.Calls
import BlobTopFs.SimpleFs.Super

/-!
# The directory as a map from names to blobs

`add_dirent` copies the characters of a name and no terminator, so an entry spells its name
only if the byte behind them is already NUL. Where it is, at every create of a run, the
directory represents the map from the names that are linked to their blobs; the first create
for which it is not is one whose name cannot be looked up.
-/

namespace BlobTopFs

open Run KeyTable

variable {g : Geometry}

/-! ## Runs beside the map they should leave -/

/-- The file system, and for each name the blob of its latest create, if it was not unlinked
since. -/
structure NameWorld (g : Geometry) where
  fs : Fs g
  names : CStr → Option BlobId

/-- What a call does to the map. -/
def FsCall.noteNames (names : CStr → Option BlobId) : FsCall → CStr → Option BlobId
  | .create ans name => Function.update names name (some ans.id)
  | .unlink _ _ name => Function.update names name none
  | _ => names

def nameStep (findDir : FindDir) (w : NameWorld g) (call : FsCall) : Option (NameWorld g) :=
  (call.run findDir w.fs).map fun r => ⟨r.1, call.noteNames w.names⟩

/-- The call comes back with success: a create has made its blob and returns a descriptor, an
unlink finds its name. Names fit the field, and fresh memory is zero. -/
def FsCall.Succeeds (findDir : FindDir) (s : Fs g) (call : FsCall) : Prop :=
  ∃ t ret, call.run findDir s = some (t, ret) ∧
    match call with
    | .create ans name => ret ≠ -1 ∧ ans.createErrno = 0 ∧ ans.openErrno = 0 ∧
        ans.mem.Zeroed ∧ name.strlen < spdkMaxNameCount
    | .unlink _ _ name => findDir name s.workdir ≠ -1 ∧ name.strlen < spdkMaxNameCount
    | _ => True

/-- The byte behind the name, in the slot the new entry gets, is NUL or not yet in use. -/
def FsCall.SlotEnds (s : Fs g) : FsCall → Prop
  | .create _ name =>
      s.workdir.size ≤ direntOff s.workdir.count + name.strlen ∨
        s.workdir.dirents (direntOff s.workdir.count + name.strlen) = 0
  | _ => True

/-- The directory agrees with the map: lookups find the names in it and no others, at an entry
with the right blob, and no two entries match one name. -/
structure SpdkfsDir.Refines (d : SpdkfsDir) (names : CStr → Option BlobId) : Prop where
  found : ∀ n id, names n = some id → ∃ i < d.count, spdkfsDirLookup d n = i ∧ d.direntId i = id
  absent : ∀ n, n.strlen < spdkMaxNameCount → names n = none → spdkfsDirLookup d n = -1
  unique : ∀ n i j, n.strlen < spdkMaxNameCount → i < d.count → j < d.count →
    d.direntIs n i = true → d.direntIs n j = true → i = j

/-! ## The directory as a table -/

/-- Entry `i` is the name `n`, terminator included. -/
def SpdkfsDir.Spells (d : SpdkfsDir) (n : CStr) (i : Nat) : Prop :=
  n.strlen < spdkMaxNameCount ∧ d.direntIs n i = true

/-- The entries represent the map, and their buffer is large enough for them. -/
structure SpdkfsDir.Holds (g : Geometry) (d : SpdkfsDir) (names : CStr → Option BlobId) :
    Prop where
  sized : d.Sized g
  table : Represents d.count d.Spells d.direntId names

theorem SpdkfsDir.Holds.refines {d : SpdkfsDir} {names : CStr → Option BlobId}
    (h : d.Holds g names) : d.Refines names where
  found := by
    intro n id hn
    obtain ⟨i, hi, ⟨hlen, his⟩, hid⟩ := h.table.complete n id hn
    refine ⟨i, hi, lookup_eq_of_unique hi his fun j hj hjs => ?_, hid⟩
    exact h.table.unique n j i hj hi ⟨hlen, hjs⟩ ⟨hlen, his⟩
  absent := by
    intro n hlen hn
    refine lookup_eq_neg_one_iff.mpr fun i hi => ?_
    by_contra his
    exact h.table.eq_none_iff.mp hn i hi ⟨hlen, by simpa using his⟩
  unique := fun n i j hlen hi hj his hjs =>
    h.table.unique n i j hi hj ⟨hlen, his⟩ ⟨hlen, hjs⟩

/-- Equal entries spell the same names. -/
theorem SameDirent.spells {d d' : SpdkfsDir} {i j : Nat}
    (h : SameDirent d.dirents i d'.dirents j) (n : CStr) : d'.Spells n j ↔ d.Spells n i := by
  unfold SpdkfsDir.Spells
  constructor
  · rintro ⟨hlen, hs⟩
    exact ⟨hlen, (h.is hlen).symm.trans hs⟩
  · rintro ⟨hlen, hs⟩
    exact ⟨hlen, (h.is hlen).trans hs⟩

/-- The byte behind the name is NUL in the grown buffer if it was in the old one, or was not
in it. -/
theorem Appended.end_iff {mem : DirentMem} {id : BlobId} {name : CStr} {d d' : SpdkfsDir}
    {m : Mem} (h : Appended g mem id name d d' m) (hg : sizeofDirent ≤ g.ioUnit)
    (hs : d.Sized g) (hz : mem.Zeroed) (hlen : name.strlen < spdkMaxNameCount) :
    m (direntOff d.count + name.strlen) = 0 ↔
      d.size ≤ direntOff d.count + name.strlen ∨
        d.dirents (direntOff d.count + name.strlen) = 0 := by
  have hbuf := h.buffer hs
  by_cases hin : direntOff d.count + name.strlen < d.size
  · rw [hbuf.old _ hin]
    exact ⟨Or.inr, fun h => h.resolve_left (by omega)⟩
  · refine iff_of_true (hbuf.fresh hz _ (by omega) ?_) (Or.inl (by omega))
    have hfits : d'.count * sizeofDirent ≤ d'.size := (h.sized hs).fits hg
    have hoff : d'.count * sizeofDirent = direntOff d.count + sizeofDirent := by
      rw [h.count, Nat.succ_mul]
      rfl
    have hent : spdkMaxNameCount ≤ sizeofDirent := by decide
    omega

/-- An entry whose byte behind the name is NUL adds the name to the map. -/
theorem SpdkfsDir.Holds.append {mem : DirentMem} {id : BlobId} {name : CStr} {d d' : SpdkfsDir}
    {m : Mem} {names : CStr → Option BlobId} (h : d.Holds g names)
    (hg : sizeofDirent ≤ g.ioUnit) (happ : Appended g mem id name d d' m)
    (hlen : name.strlen < spdkMaxNameCount) (hend : m (direntOff d.count + name.strlen) = 0)
    (habsent : spdkfsDirLookup d name = -1) :
    d'.Holds g (Function.update names name (some id)) := by
  have hsame : ∀ i < d.count, SameDirent d.dirents i d'.dirents i :=
    fun i hi => happ.entries h.sized (h.sized.fits hg) hi
  refine ⟨happ.sized h.sized, ?_⟩
  rw [happ.count, ← happ.newId]
  refine h.table.append (fun i hi l => (hsame i hi).spells l) (fun i hi => (hsame i hi).id)
    ⟨hlen, (happ.is_name hlen).mpr hend⟩ ?_ ?_
  · rintro l ⟨-, hl⟩
    exact strEq_unique hl ((happ.is_name hlen).mpr hend)
  · rintro i hi ⟨-, his⟩
    rw [lookup_eq_neg_one_iff.mp habsent i hi] at his
    cases his

/-- A removal takes the name of the entry out of the map. -/
theorem SpdkfsDir.Holds.remove {name : CStr} {d d' : SpdkfsDir} {idx : Nat}
    {names : CStr → Option BlobId} (h : d.Holds g names) (hrem : Removed idx d d')
    (hidx : idx < d.count) (hname : d.Spells name idx) :
    d'.Holds g (Function.update names name none) := by
  have htable := h.table
  rw [← hrem.count] at htable hidx
  exact ⟨hrem.sized h.sized, htable.remove hidx hname
    (fun j hj l => (hrem.moved j hj).spells l) fun j hj => (hrem.moved j hj).id⟩

/-! ## One call, and a run -/

section Step

variable {findDir : FindDir} {w : NameWorld g} {call : FsCall}

/-- A create that returns a descriptor has appended an entry. -/
theorem create_appends {ans : CreateAnswer} {name : CStr} {s t : Fs g} {ret : Int}
    (h : monopolyCreate ans name s = some (t, ret)) (hret : ret ≠ -1)
    (he : ans.createErrno = 0) (he' : ans.openErrno = 0) :
    spdkfsDirLookup s.workdir name = -1 ∧
      ∃ m, Appended g ans.mem ans.id name s.workdir t.workdir m := by
  rcases monopolyCreate_done he he' h with ⟨-, -, hneg⟩ | ⟨_, habsent, hd, -⟩
  · exact absurd hneg hret
  · exact ⟨habsent, addDirent_spec hd⟩

theorem nameStep_holds (hg : sizeofDirent ≤ g.ioUnit)
    (hfind : ∀ n d, findDir n d = spdkfsDirLookup d n) {w' : NameWorld g}
    (hw : w.fs.workdir.Holds g w.names) (hok : call.Succeeds findDir w.fs)
    (hend : call.SlotEnds w.fs) (h : nameStep findDir w call = some w') :
    w'.fs.workdir.Holds g w'.names := by
  obtain ⟨⟨t, ret⟩, hrun, rfl⟩ := Option.map_eq_some_iff.mp h
  obtain ⟨t', ret', hrun', hcall⟩ := hok
  cases hrun.symm.trans hrun'
  cases call with
  | create ans name =>
      obtain ⟨hret, he, he', hz, hlen⟩ := hcall
      obtain ⟨habsent, m, happ⟩ := create_appends hrun hret he he'
      exact hw.append hg happ hlen ((happ.end_iff hg hw.sized hz hlen).mpr hend) habsent
  | unlink deleteErrno undef name =>
      obtain ⟨hfound, hlen⟩ := hcall
      rcases monopolyUnlink_cases hrun with ⟨hneg, -⟩ | ⟨idx, hidx, hrem, -⟩
      · exact absurd hneg hfound
      · obtain ⟨hi, his⟩ := lookup_eq_natCast ((hfind _ _).symm.trans hidx)
        exact hw.remove (removeDirent_spec hrem) hi ⟨hlen, his⟩
  | _ =>
      rcases FsCall.run_workdir hrun with hsame | ⟨_, _, _, hcreate, -⟩ | ⟨_, _, _, _, hunlink, -⟩
      · show t.workdir.Holds g w.names
        rw [hsame]
        exact hw
      · cases hcreate
      · cases hunlink

/-- A name whose entry does not end is lost at once. -/
theorem slotEnds_of_refines (hg : sizeofDirent ≤ g.ioUnit)
    (hw : w.fs.workdir.Holds g w.names) (hok : call.Succeeds findDir w.fs)
    (hnext : ∀ w', nameStep findDir w call = some w' → w'.fs.workdir.Refines w'.names) :
    call.SlotEnds w.fs := by
  obtain ⟨t, ret, hrun, hcall⟩ := hok
  have hrefines := hnext ⟨t, call.noteNames w.names⟩ (by rw [nameStep, hrun]; rfl)
  cases call with
  | create ans name =>
      obtain ⟨hret, he, he', hz, hlen⟩ := hcall
      obtain ⟨habsent, m, happ⟩ := create_appends hrun hret he he'
      obtain ⟨i, hi, hidx, -⟩ := hrefines.found name ans.id (Function.update_self ..)
      have his := (lookup_eq_natCast hidx).2
      -- the entry found is the new one, as none of the old ones spells the name
      have hnew : i = w.fs.workdir.count := by
        by_contra hne
        have hi' : i < w.fs.workdir.count := by
          rw [happ.count] at hi
          omega
        rw [(happ.entries hw.sized (hw.sized.fits hg) hi').is hlen,
          lookup_eq_neg_one_iff.mp habsent i hi'] at his
        cases his
      rw [hnew] at his
      exact (happ.end_iff hg hw.sized hz hlen).mp ((happ.is_name hlen).mp his)
  | _ => trivial

end Step

/-- **Refinement.** A run of successful calls from an empty directory leaves the directory at
each point agreeing with the map of the names it has linked, exactly if every create found
the byte behind its name to be NUL. -/
theorem directory_refines_iff {findDir : FindDir} (hg : sizeofDirent ≤ g.ioUnit)
    (hfind : ∀ n d, findDir n d = spdkfsDirLookup d n) {now : Int} {bs bs' : Blobstore g}
    {d : SpdkfsDir} {s : Fs g} {calls : List FsCall}
    (hmade : simpleDirCreate now bs d = some (bs', s.workdir))
    (hok : EachStep (nameStep findDir) (fun w call => call.Succeeds findDir w.fs)
      ⟨s, fun _ => none⟩ calls) :
    Always (nameStep findDir) (fun w => w.fs.workdir.Refines w.names) ⟨s, fun _ => none⟩ calls ↔
      EachStep (nameStep findDir) (fun w call => call.SlotEnds w.fs) ⟨s, fun _ => none⟩ calls := by
  obtain ⟨hc, hz⟩ := simpleDirCreate_empty hmade
  have hstart : s.workdir.Holds g fun _ => none := by
    refine ⟨⟨0, by rw [hz, Nat.zero_mul], Nat.le_of_eq hc⟩, ?_⟩
    rw [hc]
    exact Represents.empty ..
  exact always_iff_eachStep (fun w hw => hw.refines)
    (fun w call w' hw hok hend h => nameStep_holds hg hfind hw hok hend h)
    (fun w call hw hok hnext => slotEnds_of_refines hg hw hok hnext) hstart hok

/-- A slot that held the name `a` can take the longer name `bc`. -/
theorem directory_refines_reuse :
    Always (nameStep fun n d => spdkfsDirLookup d n) (fun w => w.fs.workdir.Refines w.names)
      ⟨.empty .malloc4k, fun _ => none⟩
      [.create (.done 1) ⟨[97], by decide⟩, .unlink 0 0 ⟨[97], by decide⟩,
        .create (.done 2) ⟨[98, 99], by decide⟩] := by
  have hz : ∀ id, (CreateAnswer.done id).mem.Zeroed := fun _ => ⟨rfl, rfl⟩
  refine (directory_refines_iff (by decide) (fun _ _ => rfl)
    (simpleDirCreate_formatted .done 0) ?_).mpr ?_
  · refine EachStep.cons rfl ⟨_, 0, rfl, by decide, rfl, rfl, hz 1, by decide⟩ ?_
    refine EachStep.cons rfl ⟨_, 0, rfl, by decide, by decide⟩ ?_
    exact EachStep.cons rfl ⟨_, 1, rfl, by decide, rfl, rfl, hz 2, by decide⟩ trivial
  · refine EachStep.cons rfl (Or.inl (by decide)) ?_
    exact EachStep.cons rfl trivial (EachStep.cons rfl (Or.inr (by decide +kernel)) trivial)

/-- A slot that held the name `ab` cannot take the shorter name `a`: its entry spells `ab`. -/
theorem directory_residue :
    ∃ w, exec (nameStep fun n d => spdkfsDirLookup d n) ⟨.empty .malloc4k, fun _ => none⟩
        [.create (.done 1) ⟨[97, 98], by decide⟩, .unlink 0 0 ⟨[97, 98], by decide⟩,
          .create (.done 2) ⟨[97], by decide⟩] = some w ∧
      w.names ⟨[97], by decide⟩ = some 2 ∧
      spdkfsDirLookup w.fs.workdir ⟨[97], by decide⟩ = -1 ∧ ¬ w.fs.workdir.Refines w.names := by
  refine ⟨_, rfl, rfl, rfl, ?_⟩
  intro h
  obtain ⟨i, -, hi, -⟩ := h.found ⟨[97], by decide⟩ 2 rfl
  have hneg : (-1 : Int) = i := hi
  omega

end BlobTopFs
